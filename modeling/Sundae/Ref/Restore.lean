import Sundae.Lib.Countdown
import Sundae.Ref.Prayer
import Sundae.Ref.Stat

/-!
# Levels that go back

`player_slow_restore` and `player_rapid_restore`, with what they send, in the
ticks of a server, where `player_prayer_drain` comes before them. The timers are of
the server and not of the player.
-/

namespace Sundae.Ref

open Sundae.Lib

def skillPrayer : Fin maxSkillId := ⟨5, by decide⟩

/-- `skill_names` -/
def skillNames (stat : Fin maxSkillId) : String :=
  ["attack", "defence", "strength", "hitpoints", "ranged", "prayer", "magic", "cooking",
    "woodcutting", "fletching", "fishing", "firemaking", "crafting", "smithing", "mining",
    "herblaw"].get (stat.cast rfl)

/-- What the client of a player is sent. -/
inductive StatPacket where
  /-- `player_send_message` that the ability of this name has returned to normal. -/
  | normal (stat : Fin maxSkillId)
  /-- `player_send_stat` -/
  | stat (stat : Fin maxSkillId) (cur base : UInt8) (experience : UInt32)
  /-- `player_send_message` of `player_prayer_drain`. -/
  | prayer (text : String)
  deriving DecidableEq

def StatPacket.about : StatPacket → Fin maxSkillId
  | .normal k => k
  | .stat k _ _ _ => k
  | .prayer _ => skillPrayer

/-- The text of the message. -/
def normalText (stat : Fin maxSkillId) : String :=
  "Your " ++ skillNames stat ++ " ability has returned to normal"

/-- The prayers that are on, and what their drain is reckoned from. -/
structure Devotion where
  prayers : Prayer → Bool := fun _ => false
  bonusPrayer : Nat := 1
  prayerDrain : Nat := 0
  nextDrain : Nat := 0
  drainCounter : Nat := 0

/-- The part of `struct player`. -/
structure Recovering extends Devotion where
  stats : Stats
  sent : List StatPacket := []

namespace Recovering

/-- The player that `player_prayer_drain` sees, with nothing sent yet. -/
def praying (p : Recovering) : PrayingPlayer where
  curStat := (p.stats.curStats skillPrayer).toNat
  baseStat := (p.stats.baseStats skillPrayer).toNat
  bonusPrayer := p.bonusPrayer
  prayers := p.prayers
  prayerDrain := p.prayerDrain
  nextDrain := p.nextDrain
  drainCounter := p.drainCounter

/-- What it has sent, from the levels it leaves. -/
def prayerPacket (stats : Stats) : PrayerPacket → StatPacket
  | .message text => .prayer text
  | .stat => .stat skillPrayer (stats.curStats skillPrayer) (stats.baseStats skillPrayer)
      (stats.experience skillPrayer)

/-- The player it leaves. -/
def prayed (p : Recovering) (q : PrayingPlayer) : Recovering where
  stats := p.stats.setCur skillPrayer (UInt8.ofNat q.curStat)
  bonusPrayer := p.bonusPrayer
  prayers := q.prayers
  prayerDrain := q.prayerDrain
  nextDrain := q.nextDrain
  drainCounter := q.drainCounter
  sent := p.sent ++
    q.sent.map (prayerPacket (p.stats.setCur skillPrayer (UInt8.ofNat q.curStat)))

end Recovering

def playerSendStat (p : Recovering) (stat : Fin maxSkillId) : Recovering :=
  { p with sent := p.sent ++
      [.stat stat (p.stats.curStats stat) (p.stats.baseStats stat) (p.stats.experience stat)] }

def playerStatChanged (p : Recovering) (stat : Fin maxSkillId) : Recovering :=
  let p :=
    if stat ≠ skillPrayer ∧ stat ≠ skillHits ∧ p.stats.curStats stat = p.stats.baseStats stat then
      { p with sent := p.sent ++ [.normal stat] }
    else p
  playerSendStat p stat

def playerRestoreStat (p : Recovering) (stat : Fin maxSkillId) : Recovering :=
  if p.stats.curStats stat < p.stats.baseStats stat then
    playerStatChanged { p with stats := p.stats.setCur stat (p.stats.curStats stat + 1) } stat
  else p

/-- The body of the loop in `player_restore_stats`. -/
def restoreUnlessOwn (p : Recovering) (stat : Fin maxSkillId) : Recovering :=
  if stat = skillPrayer ∨ stat = skillHits then p else playerRestoreStat p stat

def playerRestoreStats (p : Recovering) : Recovering :=
  (List.finRange maxSkillId).foldl restoreUnlessOwn p

/-- The body of the loop in `player_slow_restore`. -/
def wearOff (p : Recovering) (stat : Fin maxSkillId) : Recovering :=
  if p.stats.baseStats stat < p.stats.curStats stat then
    playerStatChanged { p with stats := p.stats.setCur stat (p.stats.curStats stat - 1) } stat
  else p

def playerSlowRestore (p : Recovering) : Recovering :=
  let p := (List.finRange maxSkillId).foldl wearOff p
  let p := if p.prayers .rapidHeal then p else playerRestoreStat p skillHits
  if p.prayers .rapidRestore then p else playerRestoreStats p

def playerRapidRestore (p : Recovering) : Recovering :=
  let p := if p.prayers .rapidHeal then playerRestoreStat p skillHits else p
  if p.prayers .rapidRestore then playerRestoreStats p else p

/-! ## The ticks -/

/-- A player and the timers of the server. -/
structure Restoring where
  player : Recovering
  prayerDrainTimer : Nat
  restoreTimer : Nat
  rapidRestoreTimer : Nat
  prayerDrainTimer_le : prayerDrainTimer ≤ 3
  restoreTimer_le : restoreTimer ≤ 100
  rapidRestoreTimer_le : rapidRestoreTimer ≤ 50

def drainTurn (less : Nat → Nat → Int) (s : Restoring) (p : Recovering) :
    Except PrayerFault Recovering :=
  if s.prayerDrainTimer = 0 then (playerPrayerDrain less p.praying).map p.prayed else .ok p

def restoreTurns (s : Restoring) (p : Recovering) : Recovering :=
  let p := if s.restoreTimer = 0 then playerSlowRestore p else p
  if s.rapidRestoreTimer = 0 then playerRapidRestore p else p

/-- `server_tick`, of a player whose prayers have come to be these. -/
def restoreTick (less : Nat → Nat → Int) (on : Devotion) (s : Restoring) :
    Except PrayerFault Restoring :=
  (drainTurn less s { s.player with toDevotion := on }).map fun p =>
    { player := restoreTurns s p
      prayerDrainTimer := countdown 3 s.prayerDrainTimer
      restoreTimer := countdown 100 s.restoreTimer
      rapidRestoreTimer := countdown 50 s.rapidRestoreTimer
      prayerDrainTimer_le := countdown_le s.prayerDrainTimer_le
      restoreTimer_le := countdown_le s.restoreTimer_le
      rapidRestoreTimer_le := countdown_le s.rapidRestoreTimer_le }

/-- So many ticks, in each of which the prayers are what they happen to be. -/
def restoreTicks (less : Nat → Nat → Int) (schedule : Nat → Devotion) (s : Restoring) :
    Nat → Except PrayerFault Restoring
  | 0 => .ok s
  | n + 1 => (restoreTicks less schedule s n).bind (restoreTick less (schedule n))

/-- What a client shows of a level, after packets. -/
def shownLevel (stat : Fin maxSkillId) (level : UInt8) (sent : List StatPacket) : UInt8 :=
  sent.foldl (fun level e => match e with
    | .normal _ | .prayer _ => level
    | .stat k cur _ _ => if k = stat then cur else level) level

end Sundae.Ref
