import Sundae.Ref.Combat

/-!
# The world from event to event

What happens to mobs from outside (connections, packets, the calls scripts make
into the server) and in the turns `server_tick` gives them, one call at a time.
NPCs have their turns before any player has moved in the tick, and a player
fights before it moves; beyond that the order is open. While a script hook is
out, only script calls come through until it returns.
-/

namespace Sundae.Ref.World

/-- What `player_load` leaves, and whether the login goes through. `first` is a
`login_date` of 0. -/
structure Login where
  name : Int
  x : Nat
  y : Nat
  hits : Nat := 10
  first : Bool := false
  ok : Bool := true
  projectile : Option Projectile := none
  deriving DecidableEq, Repr

/-- The functions of `script.c` that write to a mob, an NPC or a player, and
the state of players that other functions write. -/
inductive Api where
  | face (player npc : Nat)
  | npcSay (npc : Nat)
  | nearVisNpc (player npc : Nat)
  | npcAttack (npc player : Nat)
  | npcBusy (npc : Nat) (busy : Bool)
  | playerBusy (player : Nat) (busy : Bool)
  | multi (player : Nat) (shown : Bool)
  | subStat (player damage : Nat)
  | npcSubStat (npc damage : Nat)
  | npcAddStat (npc amount : Nat)
  | setHits (player hits : Nat)
  | shootPlayer (player target : Nat) (projectile : Projectile) (c : Chance)
  | shootNpc (player npc : Nat) (projectile : Projectile) (c : Chance)
  | teleport (player x y : Nat)
  | changeLevelUp (player : Nat)
  | changeLevelDown (player : Nat)
  | noDefault (player : Nat)
  | addNpc (config : NpcConfig) (x y : Nat)
  | changeNpc (npc : Nat) (config : NpcConfig)
  | delNpc (npc : Nat)

/-! ## script.c -/

/-- `mob_face` of the first at the second. -/
def faceMob (w : World) (r s : MobRef) : World :=
  match w.mob? s with
  | none => w
  | some m => w.modify r fun f => f.face m.x m.y

def scriptFace (w : World) (i j : Nat) : World :=
  match w.players i, w.npcs j with
  | some _, some _ => faceMob w (.npc j) (.player i)
  | _, _ => w

def scriptNpcsay (w : World) (j : Nat) : World :=
  match w.npcs j with
  | none => w
  | some n =>
    match w.players n.talkTarget with
    | none => w
    | some _ => faceMob w (.player n.talkTarget) (.npc j)

/-- `script_nearvisnpc`, with the NPC that was found. -/
def scriptNearvisnpc (w : World) (i j : Nat) : World :=
  match w.players i, w.npcs j with
  | some _, some _ =>
    let w := w.modifyNpc j fun n => { n with talkTarget := i }
    let w := faceMob w (.npc j) (.player i)
    faceMob w (.player i) (.npc j)
  | _, _ => w

/-- `stat_add` of hits, with constant and percentage taken together. -/
def Mob.addHits (m : Mob) (amount : Nat) : Mob :=
  { m with hits := min (m.hits + amount) (m.baseHits + amount) }

/-- `PLANE_LEVEL_INC` -/
def planeInc : Nat := planeLevelInc

def scriptChangelevelup (w : World) (i : Nat) : World :=
  w.modifyPlayer i fun p => { p with
    mob := { p.mob with
      y := if p.mob.y < planeInc * 3 then p.mob.y + planeInc else p.mob.y - planeInc * 3 }
    teleported := true }

def scriptChangeleveldown (w : World) (i : Nat) : World :=
  match w.players i with
  | none => w
  | some p =>
    playerTeleport w i p.mob.x
      (if planeInc < p.mob.y then p.mob.y - planeInc else p.mob.y + planeInc * 3)

def scriptNodefault (w : World) (i : Nat) : World :=
  match (w.players i).bind fun p => p.mob.targetNpc with
  | none => w
  | some j => (w.modify (.npc j) Mob.combatReset).modify (.player i) Mob.combatReset

/-- The first of `n` slots from `slot` on that is free. -/
def freeSlot (taken : Nat → Bool) : Nat → Nat → Option Nat
  | 0, _ => none
  | n + 1, slot => if taken slot then freeSlot taken n (slot + 1) else some slot

def maxNpcs : Nat := 1000

/-- `server_add_npc` -/
def serverAddNpc (w : World) (config : NpcConfig) (x y : Nat) : World :=
  match freeSlot (fun j => (w.npcs j).isSome) maxNpcs 0 with
  | none => w
  | some j =>
    let npc : Npc := {
      mob := { x := x % 65536, y := y % 65536, hits := config.hits, baseHits := config.hits }
      config := config
      spawnX := x % 65536
      spawnY := y % 65536 }
    let w := { w with npcs := fun k => if k = j then some npc else w.npcs k }
    match serverFindZone x y with
    | none => w
    | some zone => w.zoneAddNpc zone j

/-- `script_delnpc`, with the NPC that was found. -/
def scriptDelnpc (w : World) (j : Nat) : Except Fault World :=
  match w.npcs j with
  | none => .ok w
  | some n =>
    match serverFindZone n.mob.x n.mob.y with
    | none => .error .nullZone
    | some zone =>
      let w := w.zoneRemoveNpc zone j
      .ok { w with npcs := fun k => if k = j then none else w.npcs k }

def runApi (w : World) : Api → Except Fault World
  | .face i j => .ok (scriptFace w i j)
  | .npcSay j => .ok (scriptNpcsay w j)
  | .nearVisNpc i j => .ok (scriptNearvisnpc w i j)
  | .npcAttack j i => .ok (w.modify (.npc j) fun m => { m with targetPlayer := some i })
  | .npcBusy j busy => .ok (w.modifyNpc j fun n => { n with busy := busy })
  | .playerBusy i busy => .ok (w.modifyPlayer i fun p => { p with scriptActive := busy })
  | .multi i shown => .ok (w.modifyPlayer i fun p => { p with uiMultiOpen := shown })
  | .subStat i damage => .ok (playerDamage w i none damage)
  | .npcSubStat j damage => npcDamage w j none damage false
  | .npcAddStat j amount => .ok (w.modify (.npc j) fun m => m.addHits amount)
  | .setHits i hits => .ok (w.modify (.player i) fun m => { m with hits := hits })
  | .shootPlayer i t projectile c =>
    .ok (if (w.players i).isSome then playerShootPvp w i projectile t c else w)
  | .shootNpc i j projectile c =>
    if (w.players i).isSome then playerShootPvm w i projectile j c else .ok w
  | .teleport i x y => .ok (playerTeleport w i x y)
  | .changeLevelUp i => .ok (scriptChangelevelup w i)
  | .changeLevelDown i => .ok (scriptChangeleveldown w i)
  | .noDefault i => .ok (scriptNodefault w i)
  | .addNpc config x y => .ok (serverAddNpc w config x y)
  | .changeNpc j config => .ok (w.modifyNpc j fun n => { n with config := config })
  | .delNpc j => scriptDelnpc w j

/-- The hook that was called last has given `result`. -/
def hookReturn (w : World) (result : Bool) (c : Chance) : Except Fault World :=
  match w.frames with
  | [] => .error .turn
  | frame :: rest =>
    let w := { w with frames := rest }
    match frame with
    | .killNpc j i melee => .ok (npcDieReturn w j i melee result)
    | .npcInit j i => .ok (npcInitReturn w j i)
    | .npcTalk i j x y => .ok (npcTalkReturn w i j x y result c)

/-! ## Connections and packets -/

/-- `player_create` -/
def playerCreate (w : World) : World :=
  match freeSlot (fun i => (w.players i).isSome) maxPlayers 0 with
  | none => w
  | some i => { w with players := fun k => if k = i then some {} else w.players k }

/-- `player_load` and what the login makes of it. -/
def playerLogin (w : World) (i : Nat) (l : Login) : World :=
  match w.players i with
  | none => w
  | some p =>
    if p.loginOk ∨ p.name ≠ -1 then w
    else
      let w := w.modifyPlayer i fun p => { p with
        name := l.name
        projectile := l.projectile
        mob := { p.mob with x := l.x, y := l.y, hits := l.hits, baseHits := l.hits } }
      let w := playerMoved w i 65535 65535
      if !l.ok then w.modifyPlayer i fun p => { p with logoutConfirmed := true }
      else
        let w := if l.first then
            w.modify (.player i) fun m => { m with x := w.startTileX, y := w.startTileY }
          else w
        w.modifyPlayer i fun p => { p with loginOk := true }

/-- The removal in `server_tick`. -/
def serverRemovePlayer (w : World) (i : Nat) : World :=
  if (w.players i).any Player.logoutConfirmed then
    { w with players := fun k => if k = i then none else w.players k }
  else w

/-- The steps of a walk packet over the start of the array. -/
def Mob.putQueue (m : Mob) (queue : List (Nat × Nat)) : Mob :=
  { m with walkQueue := queue ++ m.walkQueue.drop queue.length }

/-- The end of a walk packet: no step is taken to where the mob is. -/
def Mob.startWalk (m : Mob) (queue : List (Nat × Nat)) (actionWalk : Bool) : Mob :=
  if queue.getLast? = some (m.x, m.y) then m
  else { m with walkQueueLen := queue.length, walkQueuePos := 0, actionWalk := actionWalk }

/-- `OP_CLI_WALK_TILE` -/
def opWalkTile (w : World) (i : Nat) (queue : List (Nat × Nat)) : World :=
  match w.players i with
  | none => w
  | some p =>
    if p.scriptActive then w
    else
      match if p.mob.inCombat then playerRetreat w i else some w with
      | none => w
      | some w =>
        let w := w.modify (.player i) fun m => m.putQueue queue
        let w := w.modifyPlayer i Player.closeUi
        let w := w.modify (.player i) fun m =>
          { m.followNobody with targetNpc := none, targetPlayer := none }
        let w := w.modifyPlayer i Player.clearActions
        w.modify (.player i) fun m => m.startWalk queue false

/-- `OP_CLI_WALK_ENTITY` -/
def opWalkEntity (w : World) (i : Nat) (queue : List (Nat × Nat)) : World :=
  match w.players i with
  | none => w
  | some p =>
    if p.scriptActive ∨ p.mob.inCombat then w
    else
      let w := w.modify (.player i) fun m => m.putQueue queue
      let w := w.modifyPlayer i Player.closeUi
      let w := w.modify (.player i) Mob.followNobody
      w.modify (.player i) fun m => m.startWalk queue true

/-- `OP_CLI_FOLLOW_PLAYER` -/
def opFollowPlayer (w : World) (i target : Nat) : World :=
  if maxPlayers ≤ target ∨ (w.players target).isNone then w
  else w.modify (.player i) fun m => { m with followingPlayer := some target }

/-! ## The tick -/

/-- The end of `server_tick`, with the NPCs that regenerate. -/
def endTick (w : World) (regen : Nat → Bool) : World :=
  { w with
    tick := w.tick + 1
    walked := []
    players := fun i => (w.players i).map fun p => { p with
      teleported := false
      mob := { p.mob with moved := false, damage := 255, prevDir := p.mob.dir } }
    npcs := fun j => (w.npcs j).map fun n =>
      let spawns := n.respawnTime == 1
      { n with
        respawnTime := n.respawnTime - 1
        drops := if spawns then 0 else n.drops
        awards := if spawns then 0 else n.awards
        mob := { n.mob with
          hits := if regen j && n.mob.hits < n.mob.baseHits then n.mob.hits + 1 else n.mob.hits
          moved := false
          damage := 255
          prevDir := n.mob.dir } } }

inductive Event where
  | connect
  | login (i : Nat) (l : Login)
  /-- `player_send_logout`, asked for, forced, or because of a broken packet. -/
  | logout (i : Nat)
  | remove (i : Nat)
  | walkTile (i : Nat) (queue : List (Nat × Nat))
  | walkEntity (i : Nat) (queue : List (Nat × Nat))
  | followPlayer (i target : Nat)
  | setAction (i : Nat) (action : Action)
  /-- `player_recalculate_equip`, of what the player shoots with. -/
  | projectile (i : Nat) (projectile : Option Projectile)
  /-- The prayer of protection from missiles goes on or off. -/
  | protection (i : Nat) (shown : Bool)
  | playerCombat (i : Nat) (c : Chance)
  | playerAction (i : Nat) (c : Chance)
  | playerMovement (i : Nat) (path : Path)
  | npcCombat (j : Nat) (t : NpcTurn)
  | npcMovement (j : Nat) (t : NpcTurn)
  | api (a : Api)
  | hookReturn (result : Bool) (c : Chance)
  | findPlayers (zone : Zone) (shown : Nat → Bool) (max : Nat)
  | findNpcs (zone : Zone) (shown : Nat → Bool) (max : Nat)
  | sendMovement (known : List MobRef)
  | endTick (regen : Nat → Bool)

/-- Only script calls, with what they change, and the return of the hook come
while one is out; and the turns of a tick keep their order. -/
def Event.inTurn (w : World) : Event → Bool
  | .api _ | .hookReturn _ _ | .findPlayers _ _ _ | .findNpcs _ _ _ => true
  | .projectile _ _ | .protection _ _ => true
  | .npcCombat j _ => w.frames.isEmpty && w.walked.isEmpty && (npcUp w j).isSome
  | .npcMovement _ _ => w.frames.isEmpty && w.walked.isEmpty
  | .playerCombat i _ | .playerMovement i _ => w.frames.isEmpty && !w.walked.contains i
  | _ => w.frames.isEmpty

/-- The assertions of `player_send_movement` and `player_send_npc_movement` on
the mobs the client knows. -/
def sendMovement (w : World) (known : List MobRef) : Except Fault World :=
  if known.any fun r => (w.mob? r).any fun m => m.moved && m.dir.combat then .error .combatDir
  else .ok w

def run (w : World) : Event → Except Fault World
  | .connect => .ok (playerCreate w)
  | .login i l => .ok (playerLogin w i l)
  | .logout i => .ok (w.modifyPlayer i fun p => { p with logoutConfirmed := true })
  | .remove i => .ok (serverRemovePlayer w i)
  | .walkTile i queue => .ok (opWalkTile w i queue)
  | .walkEntity i queue => .ok (opWalkEntity w i queue)
  | .followPlayer i target => .ok (opFollowPlayer w i target)
  | .setAction i action => .ok (w.modifyPlayer i fun p => { p with action := action })
  | .projectile i projectile =>
    .ok (w.modifyPlayer i fun p => { p with projectile := projectile })
  | .protection i shown => .ok (w.modifyPlayer i fun p => { p with protectFromMissiles := shown })
  | .playerCombat i c => playerProcessCombat w i c
  | .playerAction i c => .ok (playerProcessAction w i c)
  | .playerMovement i path =>
    .ok (playerProcessMovement { w with walked := i :: w.walked } i path)
  | .npcCombat j t => npcProcessCombat w j t
  | .npcMovement j t => npcProcessMovement w j t
  | .api a => runApi w a
  | .hookReturn result c => hookReturn w result c
  | .findPlayers zone shown max =>
    .ok (w.setZonePlayers zone
      (zoneFind (fun i => (w.players i).isSome) shown max (w.zonePlayers zone)).2)
  | .findNpcs zone shown max =>
    .ok (w.setZoneNpcs zone
      (zoneFind (fun j => (w.npcs j).isSome) shown max (w.zoneNpcs zone)).2)
  | .sendMovement known => sendMovement w known
  | .endTick regen => .ok (endTick w regen)

def step (w : World) (e : Event) : Except Fault World :=
  if e.inTurn w then run w e else .error .turn

/-- The server as it starts, with any start tile. -/
def Fresh (w : World) : Prop := ∃ x y, w = { startTileX := x, startTileY := y }

end Sundae.Ref.World
