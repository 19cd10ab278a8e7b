import Sundae.Ref.View

/-!
# Movement updates

`buf_putbits`, `player_send_movement` and `player_send_npc_movement`: what the
mobs a client knows have done in the tick, those it is to forget, and those that
are new to it.
-/

namespace Sundae.Ref

open World

/-! ## Bits -/

/-- `value & bitmasks[num]` -/
def lowBits (num : Nat) (value : Int) : Nat := (value % 2 ^ num).toNat

/-- `num` bits of the value over those of the byte that have `shift` bits to
their right. -/
def putField (x : UInt8) (shift num : Nat) (value : Int) : UInt8 :=
  (x &&& ~~~UInt8.ofNat ((2 ^ num - 1) <<< shift)) ||| UInt8.ofNat (lowBits num value <<< shift)

/-- The loop of `buf_putbits`, in a byte with `i` bits left. It runs at most `num`
times before its condition fails. -/
def putbitsLoop (buflen : Nat) (value : Int) :
    Nat → List UInt8 → Nat → Nat → Nat → Option (List UInt8)
  | 0, _, _, _, _ => none
  | turns + 1, b, offset, i, num =>
    if i < num then
      if buflen < offset + 2 then none
      else putbitsLoop buflen value turns
        (b.modify offset fun x => putField x 0 i (value / 2 ^ (num - i))) (offset + 1) 8 (num - i)
    else if buflen < offset + 1 then none
    else some (b.modify offset fun x => putField x (i - num) num value)

def bufPutbits (b : List UInt8) (bitpos buflen num : Nat) (value : Int) : Option (List UInt8) :=
  putbitsLoop buflen value (num + 1) b (bitpos / 8) (8 - bitpos % 8) num

/-- A packet of bits under construction: `tmpbuf` and `bitpos`. -/
structure BitDraft where
  tmpbuf : List UInt8
  bitpos : Nat

namespace BitDraft

def putbits (d : BitDraft) (num : Nat) (value : Int) : Option BitDraft :=
  (bufPutbits d.tmpbuf d.bitpos playerBufsize num value).map fun b => ⟨b, d.bitpos + num⟩

/-- A field of the header, for which there is always room. -/
def putHeader (d : BitDraft) (num : Nat) (value : Int) : BitDraft := (d.putbits num value).getD d

/-- `offset = (bitpos + 7) / 8`; the packet counts as one record. -/
def finish (d : BitDraft) : Draft := ⟨d.tmpbuf, (d.bitpos + 7) / 8, 1⟩

end BitDraft

/-! ## Mobs around -/

def World.Dir.code : World.Dir → Nat
  | .north => 0
  | .northwest => 1
  | .west => 2
  | .southwest => 3
  | .south => 4
  | .southeast => 5
  | .east => 6
  | .northeast => 7
  | .combatLeft => 8
  | .combatRight => 9

namespace World

/-- `zone_find_players` -/
def zoneFindPlayers (w : World) (zone : Zone) (max : Nat) : World × List Nat :=
  let (found, list) := zoneFind (fun i => (w.players i).isSome)
    (fun i => (w.players i).any fun p => p.name != -1) max (w.zonePlayers zone)
  (w.setZonePlayers zone list, found)

/-- `zone_find_npcs` without `exclude_busy` -/
def zoneFindNpcs (w : World) (zone : Zone) (max : Nat) : World × List Nat :=
  let (found, list) := zoneFind (fun j => (w.npcs j).isSome) (fun _ => true) max (w.zoneNpcs zone)
  (w.setZoneNpcs zone list, found)

/-- The loops over the zones around: within protocol limits, until the list is
full. -/
def nearbyAround (find : World → Zone → World × List Nat) (listed : World → Nat → Bool)
    (max : Nat) : List Zone → World → List Nat → World × List Nat
  | [], w, list => (w, list)
  | zone :: zones, w, list =>
    if max ≤ list.length then (w, list)
    else
      let (w, found) := find w zone
      nearbyAround find listed max zones w ((list ++ found.filter (listed w)).take max)

/-- `MAX_KNOWN_PLAYERS` and `MAX_KNOWN_NPCS` -/
def maxKnown : Nat := 255

/-- `mob_within_range(mob, …, 16)` of the player the packet is for. -/
def inProtocolRange (v : Viewer) (m : Mob) : Bool :=
  ({ x := v.x, y := v.y : Mob }).withinRange m.x m.y 16

def mobGetNearbyPlayers (w : World) (v : Viewer) (max : Nat) : World × List Nat :=
  match serverFindZone v.x v.y with
  | none => (w, [])
  | some orig =>
    let (w, found) := w.zoneFindPlayers orig 128
    nearbyAround (fun w zone => w.zoneFindPlayers zone 128)
      (fun w i => (w.players i).any fun p => inProtocolRange v p.mob) max (zonesAround orig) w
      (found.take max)

/-- `mob_get_nearby_npcs` without `exclude_busy` -/
def mobGetNearbyNpcs (w : World) (v : Viewer) (max : Nat) : World × List Nat :=
  match serverFindZone v.x v.y with
  | none => (w, [])
  | some orig =>
    let (w, found) := w.zoneFindNpcs orig 128
    nearbyAround (fun w zone => w.zoneFindNpcs zone 128)
      (fun w j => (w.npcs j).any fun n => inProtocolRange v n.mob && n.respawnTime == 0) max
      (zonesAround orig) w
      ((found.filter fun j => (w.npcs j).any fun n => n.respawnTime == 0).take max)

end World

/-! ## The mobs a client knows -/

/-- What a known mob that stays has done: a step, a turn, or nothing. -/
def BitDraft.putChange (d : BitDraft) (m : World.Mob) : Option BitDraft :=
  if m.moved then do
    let d ← d.putbits 1 1
    let d ← d.putbits 1 0
    d.putbits 3 m.dir.code
  else if m.dir ≠ m.prevDir then do
    let d ← d.putbits 1 1
    let d ← d.putbits 1 1
    d.putbits 4 m.dir.code
  else d.putbits 1 0

/-- How the loop over the known mobs ends: with `new_known` and the packet so
far, or not at all. -/
abbrev KnownEnd := Except Sent (List Nat × BitDraft)

/-- The loop over `known_players` or `known_npcs`: the list as it is left, and how
the loop ends. `mob` gives a known mob that is not to be forgotten. -/
def sendKnownMobs (mob : Nat → Option World.Mob) :
    List (Option Nat) → List Nat → BitDraft → List (Option Nat) × KnownEnd
  | [], newKnown, d => ([], .ok (newKnown, d))
  | none :: rest, newKnown, d =>
    let (rest, result) := sendKnownMobs mob rest newKnown d
    (none :: rest, result)
  | some id :: rest, newKnown, d =>
    match mob id with
    | none =>
      match d.putbits 4 15 with
      | none => (some id :: rest, .error .failed)
      | some d =>
        let (rest, result) := sendKnownMobs mob rest newKnown d
        (none :: rest, result)
    | some m =>
      if m.moved ∧ m.dir.combat then (some id :: rest, .error .stopped)
      else
        match d.putChange m with
        | none => (some id :: rest, .error .failed)
        | some d =>
          let (rest, result) := sendKnownMobs mob rest (newKnown ++ [id]) d
          (some id :: rest, result)

/-- The loop over the nearby mobs that are shown. `put` writes the record of one. -/
def sendNearbyMobs (put : BitDraft → Nat → Option BitDraft) :
    List Nat → List Nat → BitDraft → KnownEnd
  | [], newKnown, d => .ok (newKnown, d)
  | id :: nearby, newKnown, d =>
    if newKnown.contains id then sendNearbyMobs put nearby newKnown d
    else
      match put d id with
      | none => .error .failed
      | some d =>
        if maxKnown ≤ newKnown.length then .error .overrun
        else sendNearbyMobs put nearby (newKnown ++ [id]) d

/-- Where a new mob is, relative to the player, and its direction. -/
def BitDraft.putPlace (d : BitDraft) (v : Viewer) (m : World.Mob) : Option BitDraft := do
  let d ← d.putbits 5 ((m.x : Int) - v.x)
  let d ← d.putbits 5 ((m.y : Int) - v.y)
  d.putbits 4 m.dir.code

/-! ## Players -/

def opSrvPlayerMovement : UInt8 := 255

/-- A known player that is not to be forgotten. -/
def keptPlayer (w : World) (v : Viewer) (i : Nat) : Option World.Mob :=
  ((w.players i).filter fun p => !(p.logoutConfirmed ||
    !withinUpdateRadius v p.mob.x p.mob.y 2 || p.hidden || p.teleported)).map World.Player.mob

/-- A nearby player that is shown. -/
def shownPlayer (w : World) (v : Viewer) (i : Nat) : Bool :=
  i != v.id && (w.players i).any fun p => !p.logoutConfirmed && !p.hidden

/-- The record of a player that is new. -/
def putPlayer (w : World) (v : Viewer) (d : BitDraft) (i : Nat) : Option BitDraft :=
  match w.mob? (.player i) with
  | none => some d
  | some m => do
    let d ← d.putbits 11 i
    let d ← d.putPlace v m
    d.putbits 1 0

/-- The player's own place, and how many players it knows. -/
def playerHeader (v : Viewer) (tmpbuf : List UInt8) : BitDraft :=
  let d : BitDraft := ⟨tmpbuf.set 0 opSrvPlayerMovement, 8⟩
  let d :=
    if v.out.protocolRev < 149 then (d.putHeader 10 v.x).putHeader 12 v.y
    else (d.putHeader 11 v.x).putHeader 13 v.y
  (d.putHeader 4 v.dir.code).putHeader 8 v.knownPlayers.length

def playerSendMovement (isaacOut : Nat → UInt32) (w : World) (tmpbuf : List UInt8) (v : Viewer) :
    World × Viewer × Sent :=
  let (w, nearby) := w.mobGetNearbyPlayers v maxKnown
  let (left, known) := sendKnownMobs (keptPlayer w v) v.knownPlayers [] (playerHeader v tmpbuf)
  let full := decide (maxKnown ≤ v.knownPlayers.length)
  match known with
  | .error e => (w, { v with knownPlayers := left }, e)
  | .ok (newKnown, d) =>
    let shown := if full then [] else nearby.filter (shownPlayer w v)
    match sendNearbyMobs (putPlayer w v) shown newKnown d with
    | .error e => (w, { v with knownPlayers := left }, e)
    | .ok (newKnown, d) =>
      (w, { v with knownPlayers := newKnown.map some }.write isaacOut d.finish)

/-! ## NPCs -/

def opSrvNpcMovement : UInt8 := 248

/-- A known NPC that is not to be forgotten. -/
def keptNpc (w : World) (v : Viewer) (j : Nat) : Option World.Mob :=
  ((w.npcs j).filter fun n => !(!withinUpdateRadius v n.mob.x n.mob.y 2 ||
    0 < n.respawnTime)).map World.Npc.mob

/-- The record of an NPC that is new. -/
def putNpc (w : World) (v : Viewer) (d : BitDraft) (j : Nat) : Option BitDraft :=
  match w.npcs j with
  | none => some d
  | some n => do
    let d ← d.putbits (if v.out.protocolRev < 155 then 11 else 12) j
    let d ← d.putPlace v n.mob
    d.putbits (if v.out.protocolRev < 159 then 8 else 10) n.config.id

/-- How many NPCs the player knows. -/
def npcHeader (v : Viewer) (tmpbuf : List UInt8) : BitDraft :=
  ⟨(tmpbuf.set 0 opSrvNpcMovement).set 1 (UInt8.ofNat v.knownNpcs.length), 16⟩

def playerSendNpcMovement (isaacOut : Nat → UInt32) (w : World) (tmpbuf : List UInt8)
    (v : Viewer) : World × Viewer × Sent :=
  let (w, nearby) := w.mobGetNearbyNpcs v maxKnown
  let (left, known) := sendKnownMobs (keptNpc w v) v.knownNpcs [] (npcHeader v tmpbuf)
  let full := decide (maxKnown ≤ v.knownNpcs.length)
  match known with
  | .error e => (w, { v with knownNpcs := left }, e)
  | .ok (newKnown, d) =>
    match sendNearbyMobs (putNpc w v) (if full then [] else nearby) newKnown d with
    | .error e => (w, { v with knownNpcs := left }, e)
    | .ok (newKnown, d) =>
      (w, { v with knownNpcs := newKnown.map some }.write isaacOut d.finish)

end Sundae.Ref
