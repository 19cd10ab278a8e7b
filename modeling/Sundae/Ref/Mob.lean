import Mathlib.Algebra.Group.Int.Defs
import Mathlib.Algebra.Group.Nat.Defs
import Sundae.Lib.Shelf
import Sundae.Ref.Zone

/-!
# Mobs and the world they move in

`struct mob`, `struct player`, `struct npc` and the zones' lists, as far as
movement, combat and the life of an NPC read or write them, with the functions
of `mob.c` and `zone.c` on them. A `struct mob *` is a slot of one of the two
tables, and every read and write goes through the table, so that two pointers
to one mob are one mob here too. The sentinels `-1` and `UINT16_MAX` are `none`.

What the tables of walls say of a step is not computed here: a walk is told
whether `mob_check_collision` stops it.
-/

namespace Sundae.Ref

namespace World

/-- `MOB_DIR_*` -/
inductive Dir where
  | north
  | northwest
  | west
  | southwest
  | south
  | southeast
  | east
  | northeast
  | combatLeft
  | combatRight
  deriving DecidableEq, Repr

/-- `MOB_DIR_COMBAT_LEFT` or `MOB_DIR_COMBAT_RIGHT` -/
def Dir.combat : Dir → Bool
  | .combatLeft | .combatRight => true
  | _ => false

structure Mob where
  x : Nat := 0
  y : Nat := 0
  walkQueue : List (Nat × Nat) := []
  walkQueuePos : Nat := 0
  walkQueueLen : Nat := 0
  actionWalk : Bool := false
  dir : Dir := .north
  prevDir : Dir := .north
  moved : Bool := false
  inCombat : Bool := false
  /-- what the damage update shows, or `UINT8_MAX` -/
  damage : Nat := 255
  combatRounds : Nat := 0
  combatTimer : Nat := 0
  damageTimer : Nat := 0
  combatNextHit : Nat := 0
  /-- `cur_stats[SKILL_HITS]` -/
  hits : Nat := 0
  /-- `base_stats[SKILL_HITS]` -/
  baseHits : Nat := 0
  targetPlayer : Option Nat := none
  targetNpc : Option Nat := none
  followingPlayer : Option Nat := none
  followingNpc : Option Nat := none
  deriving DecidableEq, Repr

namespace Mob

/-- `walk_queue_len = 0` and `walk_queue_pos = 0` -/
def clearQueue (m : Mob) : Mob := { m with walkQueueLen := 0, walkQueuePos := 0 }

/-- A queue of one step. -/
def walkTo (m : Mob) (x y : Nat) : Mob :=
  { m with walkQueue := (x, y) :: m.walkQueue.drop 1, walkQueueLen := 1, walkQueuePos := 0 }

/-- `walk_queue_len - walk_queue_pos` -/
def remaining (m : Mob) : Nat := m.walkQueueLen - m.walkQueuePos

def followNobody (m : Mob) : Mob := { m with followingPlayer := none, followingNpc := none }

/-- `mob_combat_reset` -/
def combatReset (m : Mob) : Mob :=
  { m with
    dir := if m.dir.combat then .north else m.dir
    inCombat := false
    combatRounds := 0
    targetPlayer := none
    targetNpc := none
    followingPlayer := none
    followingNpc := none }

/-- `mob_within_range` -/
def withinRange (m : Mob) (x y range : Nat) : Bool :=
  x < m.x + range && y < m.y + range && m.x < x + range && m.y < y + range

/-- `mob_distance` -/
def distance (m : Mob) (x y : Nat) : Nat :=
  Nat.sqrt (((x : Int) - m.x).natAbs ^ 2 + ((y : Int) - m.y).natAbs ^ 2)

end Mob

/-- `mob_next_step` -/
def mobNextStep (curX curY : Nat) (curDir : Dir) (targetX targetY : Nat) : Nat × Nat × Dir :=
  if curX = targetX then
    if targetY < curY then (curX, curY - 1, .north)
    else if curY < targetY then (curX, curY + 1, .south)
    else (curX, curY, curDir)
  else if curX < targetX then
    if curY = targetY then (curX + 1, curY, .west)
    else if curY < targetY then (curX + 1, curY + 1, .southwest)
    else (curX + 1, curY - 1, .northwest)
  else
    if curY = targetY then (curX - 1, curY, .east)
    else if curY < targetY then (curX - 1, curY + 1, .southeast)
    else (curX - 1, curY - 1, .northeast)

/-- `mob_face` -/
def Mob.face (m : Mob) (x y : Nat) : Mob :=
  if m.moved then m
  else { m with dir := (mobNextStep m.x m.y m.dir x y).2.2 }

/-- `struct projectile_config`; magic ones have no range. -/
structure Projectile where
  magic : Bool
  range : Nat
  power : Nat
  deriving DecidableEq, Repr

/-- `p->action`, with what `player_process_action` finds of it. -/
inductive Action where
  | none
  | npcAttack (npc : Nat)
  | npcTalk (npc : Nat)
  | npcCast (npc : Nat)
  | playerAttack (player : Nat)
  | playerCast (player : Nat)
  | selfCast
  /-- Items, locations, boundaries, and using an item with an NPC. -/
  | other
  deriving DecidableEq, Repr

/-- `struct player`. `loginOk` is not a field of the source: it records that
`RESP_LOGIN_OK` was sent on this connection. -/
structure Player where
  mob : Mob := {}
  name : Int := -1
  loginOk : Bool := false
  logoutConfirmed : Bool := false
  scriptActive : Bool := false
  uiMultiOpen : Bool := false
  chasedByNpc : Option Nat := Option.none
  projectile : Option Projectile := Option.none
  rangedTimer : Nat := 0
  /-- `prayers[PRAY_PROTECT_FROM_MISSILES]` -/
  protectFromMissiles : Bool := false
  teleported : Bool := false
  hidden : Bool := false
  action : Action := .none
  deriving DecidableEq, Repr

structure NpcConfig where
  hits : Nat
  respawn : Nat
  bravery : Nat
  aggression : Nat
  wanderRange : Nat
  huntRange : Nat
  id : Nat := 0
  deriving DecidableEq, Repr

/-- `struct npc`. `drops`, `awards` and `wounds` are not fields of the source:
they count how often the drop table was dropped and combat experience awarded
since the NPC last spawned, and how often a player damaged it while its respawn
timer ran. -/
structure Npc where
  mob : Mob
  config : NpcConfig
  talkTarget : Nat := 0
  respawnTime : Nat := 0
  randomWalkTimer : Nat := 0
  spawnX : Nat
  spawnY : Nat
  busy : Bool := false
  drops : Nat := 0
  awards : Nat := 0
  wounds : Nat := 0
  deriving DecidableEq, Repr

/-- A `struct mob *`. -/
inductive MobRef where
  | player (i : Nat)
  | npc (j : Nat)
  deriving DecidableEq, Repr

def MobRef.isNpc : MobRef → Bool
  | .player _ => false
  | .npc _ => true

/-- A script hook that was called, and what its caller has left to do when the
script is through. -/
inductive Frame where
  /-- `script_onkillnpc` in `npc_die(npc, p)`, which `player_process_combat`
  called if `melee`. -/
  | killNpc (npc player : Nat) (melee : Bool)
  /-- `script_onattacknpc` in `npc_init_combat`. -/
  | npcInit (npc player : Nat)
  /-- `script_onnpctalk` in `player_process_action`, with the NPC's position. -/
  | npcTalk (player npc x y : Nat)
  deriving DecidableEq, Repr

end World

/-- `struct server`. `walked` is not a field of the source: it has the players
whose movement has been processed in this tick. -/
structure World where
  players : Nat → Option World.Player := fun _ => none
  npcs : Nat → Option World.Npc := fun _ => none
  tick : Nat := 0
  startTileX : Nat := 0
  startTileY : Nat := 0
  /-- `zone->players` -/
  zonePlayers : Zone → List (Option Nat) := fun _ => []
  /-- `zone->npcs` -/
  zoneNpcs : Zone → List (Option Nat) := fun _ => []
  frames : List World.Frame := []
  walked : List Nat := []

namespace World

open Sundae.Lib

def mob? (w : World) : MobRef → Option Mob
  | .player i => (w.players i).map Player.mob
  | .npc j => (w.npcs j).map Npc.mob

def modifyPlayer (w : World) (i : Nat) (f : Player → Player) : World :=
  { w with players := fun k => if k = i then (w.players k).map f else w.players k }

def modifyNpc (w : World) (j : Nat) (f : Npc → Npc) : World :=
  { w with npcs := fun k => if k = j then (w.npcs k).map f else w.npcs k }

def modify (w : World) (r : MobRef) (f : Mob → Mob) : World :=
  match r with
  | .player i => w.modifyPlayer i fun p => { p with mob := f p.mob }
  | .npc j => w.modifyNpc j fun n => { n with mob := f n.mob }

/-! ## Zone lists -/

/-- `zone_add_player` and `zone_add_npc`: into the first free slot, and with
none the array grows to `first` slots or to twice its size. -/
def zoneAdd (first : Nat) (list : List (Option Nat)) (id : Nat) : List (Option Nat) :=
  if list.any Option.isNone then modifyFirst Option.isNone (fun _ => some id) list
  else if list.length = 0 then some id :: List.replicate (first - 1) none
  else list ++ some id :: List.replicate (list.length - 1) none

/-- `zone_remove_player` and `zone_remove_npc` -/
def zoneRemove (list : List (Option Nat)) (id : Nat) : List (Option Nat) :=
  modifyFirst (· == some id) (fun _ => none) list

/-- The loop of `zone_find_players` and `zone_find_npcs`, and with no room in
the list that of `server_player_on_tile` and `server_npc_on_tile`: an entry
whose slot is empty is taken out, and the loop ends at the first one it would
list and has no room for. Gives what was listed, and the array as it is left. -/
def zoneFind (live shown : Nat → Bool) (max : Nat) :
    List (Option Nat) → List Nat × List (Option Nat)
  | [] => ([], [])
  | none :: rest =>
    let (found, rest) := zoneFind live shown max rest
    (found, none :: rest)
  | some id :: rest =>
    if !live id then
      let (found, rest) := zoneFind live shown max rest
      (found, none :: rest)
    else if !shown id then
      let (found, rest) := zoneFind live shown max rest
      (found, some id :: rest)
    else
      match max with
      | 0 => ([], some id :: rest)
      | max + 1 =>
        let (found, rest) := zoneFind live shown max rest
        (id :: found, some id :: rest)

def setZonePlayers (w : World) (zone : Zone) (list : List (Option Nat)) : World :=
  { w with zonePlayers := setBin w.zonePlayers zone list }

def setZoneNpcs (w : World) (zone : Zone) (list : List (Option Nat)) : World :=
  { w with zoneNpcs := setBin w.zoneNpcs zone list }

def zoneAddPlayer (w : World) (zone : Zone) (i : Nat) : World :=
  w.setZonePlayers zone (zoneAdd 8 (w.zonePlayers zone) i)

def zoneRemovePlayer (w : World) (zone : Zone) (i : Nat) : World :=
  w.setZonePlayers zone (zoneRemove (w.zonePlayers zone) i)

def zoneAddNpc (w : World) (zone : Zone) (j : Nat) : World :=
  w.setZoneNpcs zone (zoneAdd 2 (w.zoneNpcs zone) j)

def zoneRemoveNpc (w : World) (zone : Zone) (j : Nat) : World :=
  w.setZoneNpcs zone (zoneRemove (w.zoneNpcs zone) j)

/-- Out of the old zone's list and into the new one's, when they differ. -/
def changeZone (remove add : World → Zone → World) (w : World) (old new : Option Zone) : World :=
  if old = new then w
  else
    let w := match old with
      | some zone => remove w zone
      | none => w
    match new with
    | some zone => add w zone
    | none => w

/-! ## Combat state -/

/-- `mob_combat_reset` of the player and the NPC a mob has as targets, each if
there is one; `f` is what else the caller does to them. -/
def resetTargets (w : World) (r : MobRef) (f : Mob → Mob) : World :=
  let w := match (w.mob? r).bind Mob.targetPlayer with
    | some i => w.modify (.player i) fun m => (f m).combatReset
    | none => w
  match (w.mob? r).bind Mob.targetNpc with
  | some j => w.modify (.npc j) fun m => (f m).combatReset
  | none => w

/-- `mob_die` -/
def mobDie (w : World) (r : MobRef) : World :=
  let w := w.modify r fun m => { m with hits := m.baseHits }
  let w := w.resetTargets r id
  w.modify r fun m => Mob.combatReset { m with combatTimer := 0, damageTimer := 0 }

/-! ## Walking -/

/-- What the map says of a step: whether `mob_check_collision` stops it, and
whether an NPC or a player is on the tile. -/
structure Path where
  blocked : Bool := false
  occupied : Bool := false
  deriving DecidableEq, Repr

/-- Going after a mob: nothing if it is next to this one, and else its position
as the only step, once it is more than one tile off. -/
def mobChase (w : World) (r : MobRef) (m following : Mob) : Option World :=
  if m.withinRange following.x following.y 2 then none
  else if m.withinRange following.x following.y 3 then some w
  else some (w.modify r fun m => m.walkTo following.x following.y)

/-- The part of `mob_process_walk_queue` about the mob that is followed:
nothing if the function returns there. -/
def mobFollow (w : World) (r : MobRef) (m : Mob) : Option World :=
  match m.followingPlayer with
  | some i =>
    match w.players i with
    | some p => mobChase w r m p.mob
    | none => some (w.modify r fun m => { m with followingPlayer := none })
  | none =>
    match m.followingNpc with
    | some j =>
      match w.npcs j with
      | some n => mobChase w r m n.mob
      | none => some (w.modify r fun m => { m with followingNpc := none })
    | none => some w

/-- Stopped by a collision: a mob that was running at its opponent lets go. -/
def mobBlocked (w : World) (r : MobRef) (m : Mob) : World :=
  let w :=
    if m.inCombat then
      let w := match m.targetPlayer, m.targetNpc with
        | some i, _ => w.modify (.player i) Mob.combatReset
        | none, some j => w.modify (.npc j) Mob.combatReset
        | none, none => w
      w.modify r Mob.combatReset
    else w
  w.modify r Mob.clearQueue

/-- `x != mob->x || y != mob->y` and what follows. -/
def Mob.stepTo (m : Mob) (x y : Nat) (dir : Dir) : Mob :=
  if x ≠ m.x ∨ y ≠ m.y then { m with x := x, y := y, dir := dir, moved := true } else m

/-- `mob_process_walk_queue` from the look at what is left of the queue. -/
def mobTakeStep (w : World) (r : MobRef) (m : Mob) (path : Path) : World :=
  if m.remaining = 0 then w.modify r Mob.clearQueue
  else
    let (tx, ty) := m.walkQueue.getD m.walkQueuePos (0, 0)
    let (x, y, dir) := mobNextStep m.x m.y m.dir tx ty
    if path.blocked then mobBlocked w r m
    else if x = tx ∧ y = ty then
      if m.walkQueuePos + 1 = m.walkQueueLen ∧ !r.isNpc ∧ !m.actionWalk ∧ path.occupied then
        w.modify r fun m => m.clearQueue.face x y
      else
        w.modify r fun m => Mob.stepTo { m with walkQueuePos := m.walkQueuePos + 1 } x y dir
    else w.modify r fun m => m.stepTo x y dir

/-- `mob_process_walk_queue` -/
def mobProcessWalkQueue (w : World) (r : MobRef) (path : Path) : World :=
  match w.mob? r with
  | none => w
  | some m =>
    if m.inCombat ∧ m.dir.combat then w.modify r Mob.clearQueue
    else
      match mobFollow w r m with
      | none => w
      | some w =>
        match w.mob? r with
        | none => w
        | some m => mobTakeStep w r m path

end World

end Sundae.Ref
