import Sundae.Ref.Mob

/-!
# Combat

The functions of `player.c` and `npc.c` that move mobs, let them fight and let
them die. What the random numbers, the walls and the items decide comes with
the call. A script hook in the middle of a function ends it with a frame that
holds the rest, and the script's own calls come before the frame is taken up
again.
-/

namespace Sundae.Ref.World

/-- What stops the server. -/
inductive Fault where
  /-- The assertion at the start of `player_process_combat`, and those on moved
  mobs in the movement encoders. -/
  | combatDir
  /-- `assert(target->mob.in_combat)` in `npc_process_combat` -/
  | opponent
  /-- `npc_process_movement` reads through `players[target_player]`, which is
  `NULL`. -/
  | nullOpponent
  /-- `npc_damage` reads through `p`, which is `NULL` for a script. -/
  | nullAggressor
  /-- `npc_hunt_target` writes through `npc2`, which is `NULL`. -/
  | nullHunter
  /-- `script_delnpc` reads through the zone of an NPC that is in none. -/
  | nullZone
  /-- Not of the source: the event is out of its turn. -/
  | turn
  deriving DecidableEq, Repr

/-- `mob_check_reachable`, `player_wilderness_check`, `player_consume_ammo`,
the damage rolled, and the walking of an NPC that is talked to: the first
neighbour tile that can be reached, if any can. -/
structure Chance where
  reachable : Bool := true
  wild : Bool := true
  ammo : Bool := true
  roll : Nat := 0
  beside : Option Dir := none
  path : Path := {}
  deriving DecidableEq, Repr

/-! ## player.c -/

/-- `player_clear_actions` -/
def Player.clearActions (p : Player) : Player :=
  { p with action := .none, mob := p.mob.followNobody }

/-- `player_close_ui` -/
def Player.closeUi (p : Player) : Player := { p with uiMultiOpen := false }

def playerMoved (w : World) (i fromX fromY : Nat) : World :=
  match w.players i with
  | none => w
  | some p =>
    let w := changeZone (fun w zone => w.zoneRemovePlayer zone i)
      (fun w zone => w.zoneAddPlayer zone i) w
      (serverFindZone fromX fromY) (serverFindZone p.mob.x p.mob.y)
    match p.chasedByNpc with
    | none => w
    | some j =>
      match w.npcs j with
      | none => w
      | some npc =>
        if npc.mob.withinRange p.mob.x p.mob.y 16 then w
        else w.modifyPlayer i fun p => { p with chasedByNpc := none }

def playerTeleport (w : World) (i x y : Nat) : World :=
  match w.players i with
  | none => w
  | some p =>
    let w := w.modify (.player i) fun m => { m with x := x % 65536, y := y % 65536 }
    let w := w.resetTargets (.player i) Mob.clearQueue
    let w := w.modify (.player i) Mob.combatReset
    let w := playerMoved w i p.mob.x p.mob.y
    w.modifyPlayer i fun p => { p with teleported := true }

/-- `player_die`, without what happens to the items. -/
def playerDie (w : World) (i : Nat) (victor : Option Nat) : World :=
  let w := w.mobDie (.player i)
  let w := w.modify (.player i) Mob.clearQueue
  let w := w.modifyPlayer i Player.clearActions
  let w := match victor with
    | some v =>
      if (w.mob? (.player v)).bind Mob.targetPlayer = some i then
        w.modify (.player v) Mob.combatReset
      else w
    | none => w
  playerTeleport w i w.startTileX w.startTileY

def playerDamage (w : World) (i : Nat) (aggressor : Option Nat) (roll : Nat) : World :=
  match w.players i with
  | none => w
  | some p =>
    if p.mob.hits ≤ roll then playerDie w i aggressor
    else
      w.modify (.player i) fun m =>
        { m with hits := m.hits - roll, damage := roll, damageTimer := w.tick }

def playerProcessMovement (w : World) (i : Nat) (path : Path) : World :=
  match w.players i with
  | none => w
  | some p => playerMoved (w.mobProcessWalkQueue (.player i) path) i p.mob.x p.mob.y

def playerRetreat (w : World) (i : Nat) : Option World :=
  match w.players i with
  | none => none
  | some p =>
    if p.mob.combatRounds < 3 then none
    else
      let w := w.resetTargets (.player i) Mob.clearQueue
      some (w.modify (.player i) Mob.combatReset)

/-! ## The death of an NPC -/

/-- The rest of `player_process_combat` after `npc_damage`. -/
def afterHit (w : World) (j : Nat) (p : Option Nat) (melee : Bool) : World :=
  match p, melee with
  | some i, true =>
    let w := w.modify (.npc j) fun m => { m with combatTimer := w.tick }
    w.modify (.player i) fun m =>
      { m with combatRounds := m.combatRounds + 1, combatNextHit := 3 }
  | _, _ => w

/-- `npc_die` from `npc->respawn_time = npc->config->respawn / 5` to the award
of combat experience. -/
def npcAward (w : World) (j : Nat) (p : Option Nat) : World :=
  let awarded := match p.bind w.players with
    | some p => p.mob.inCombat && p.mob.targetNpc == some j
    | none => false
  w.modifyNpc j fun n => { n with
    respawnTime := n.config.respawn / 5
    awards := if awarded then n.awards + 1 else n.awards }

/-- `mob_combat_reset` of the killer, if the dead NPC is still its target. -/
def npcLetGo (w : World) (j : Nat) (p : Option Nat) : World :=
  match p with
  | some i =>
    if (w.mob? (.player i)).bind Mob.targetNpc = some j then
      w.modify (.player i) Mob.combatReset
    else w
  | none => w

/-- The end of `npc_die`. An NPC without a respawn time is there again. -/
def npcToSpawn (w : World) (j : Nat) : World :=
  match w.npcs j with
  | none => w
  | some n =>
    let w := w.modifyNpc j fun n => { n with
      mob := { n.mob with x := n.spawnX, y := n.spawnY }
      drops := if n.respawnTime = 0 then 0 else n.drops
      awards := if n.respawnTime = 0 then 0 else n.awards }
    changeZone (fun w zone => w.zoneRemoveNpc zone j) (fun w zone => w.zoneAddNpc zone j) w
      (serverFindZone n.mob.x n.mob.y) (serverFindZone n.spawnX n.spawnY)

/-- `npc_die` from `npc->respawn_time = npc->config->respawn / 5`. -/
def npcDieEnd (w : World) (j : Nat) (p : Option Nat) : World :=
  npcToSpawn (npcLetGo ((npcAward w j p).mobDie (.npc j)) j p) j

/-- Nobody gets to see the drops while a script has hold of the player. -/
def Player.heldByScript (p : Player) : Bool := p.scriptActive || p.uiMultiOpen

/-- `npc_die`, up to the script. -/
def npcDie (w : World) (j : Nat) (p : Option Nat) (melee : Bool) : World :=
  match p with
  | none => npcDieEnd w j none
  | some i =>
    let w := w.modifyPlayer i fun p =>
      if p.chasedByNpc = some j then { p with chasedByNpc := none } else p
    if (w.players i).any Player.heldByScript then afterHit w j p melee
    else { w with frames := .killNpc j i melee :: w.frames }

/-- `npc_die` from where `script_onkillnpc` has given `result`. With an NPC that the
script has deleted the source goes on in freed memory, and here nothing is done. -/
def npcDieReturn (w : World) (j i : Nat) (melee result : Bool) : World :=
  match w.npcs j with
  | none => w
  | some n =>
    if result ∧ 0 < n.mob.hits then afterHit w j (some i) melee
    else
      let w := w.modifyNpc j fun n => { n with drops := n.drops + 1 }
      if (w.players i).any Player.heldByScript then afterHit w j (some i) melee
      else afterHit (npcDieEnd w j (some i)) j (some i) melee

/-- Damage by a player that comes while the respawn timer runs is counted. -/
def Npc.struck (p : Option Nat) (n : Npc) : Npc :=
  { n with wounds := if p.isSome ∧ 0 < n.respawnTime then n.wounds + 1 else n.wounds }

/-- `npc_damage` that does not kill: an NPC that is not afraid goes for a player
it has no other target before. -/
def npcWound (w : World) (j i roll : Nat) : World :=
  w.modifyNpc j fun n =>
    let m := if n.config.bravery < n.mob.hits ∧ n.mob.targetPlayer = none then
        { n.mob with targetPlayer := some i, followingPlayer := some i }
      else n.mob
    { n with mob := { m with hits := m.hits - roll, damage := roll, damageTimer := w.tick } }

def npcDamage (w : World) (j : Nat) (p : Option Nat) (roll : Nat) (melee : Bool) :
    Except Fault World :=
  match w.npcs j with
  | none => .ok w
  | some n =>
    let w := w.modifyNpc j (Npc.struck p)
    if n.mob.hits ≤ roll then
      .ok (npcDie (w.modify (.npc j) fun m => { m with hits := 0 }) j p melee)
    else
      match p with
      -- `p->mob.server` is read without a look at `p`
      | none => .error .nullAggressor
      | some i => .ok (afterHit (npcWound w j i roll) j p melee)

/-! ## Attacks of players -/

/-- `player_consume_ammo` when there is none left. -/
def outOfAmmo (w : World) (i : Nat) : World :=
  w.modify (.player i) fun m => { m with targetPlayer := none, targetNpc := none }

/-- The walk ends and nobody is followed. -/
def shootStand (w : World) (i : Nat) : World :=
  w.modify (.player i) fun m => m.clearQueue.followNobody

/-- Only an archer turns. -/
def shootTurn (w : World) (i : Nat) (projectile : Projectile) : World :=
  if projectile.magic then w else w.modify (.player i) fun m => { m with dir := .northwest }

/-- And only an archer has to wait for the next shot. -/
def shootTimer (w : World) (i : Nat) (projectile : Projectile) : World :=
  if projectile.magic then w else w.modifyPlayer i fun p => { p with rangedTimer := 3 }

/-- The part of `player_shoot_pvm` and `player_shoot_pvp` that both have: how
the world is left, and whether the projectile flies. `follow` is for a target
out of range, and `shielded` whether it is safe from missiles. -/
def playerAim (w : World) (i : Nat) (projectile : Projectile) (target : Mob)
    (follow : Mob → Mob) (shielded : Bool) (c : Chance) : World × Bool :=
  let w := shootStand w i
  match w.players i with
  | none => (w, false)
  | some p =>
    if !projectile.magic ∧ projectile.range < p.mob.distance target.x target.y then
      (w.modify (.player i) follow, false)
    else if !projectile.magic ∧ shielded then
      (w.modify (.player i) fun m => { m with targetPlayer := none }, false)
    else
      let w := shootTurn w i projectile
      if !projectile.magic ∧ 0 < p.rangedTimer then
        (w.modifyPlayer i fun p => { p with rangedTimer := p.rangedTimer - 1 }, false)
      else
        let w := shootTimer w i projectile
        if !c.reachable then (w, false)
        else if !c.ammo then (outOfAmmo w i, false)
        else (w, true)

def playerShootPvm (w : World) (i : Nat) (projectile : Projectile) (j : Nat) (c : Chance) :
    Except Fault World :=
  match w.mob? (.npc j) with
  | none => .ok w
  | some target =>
    let (w, shot) := playerAim w i projectile target
      (fun m => { m with followingNpc := some j }) false c
    if shot ∧ 0 < projectile.power then npcDamage w j (some i) c.roll false
    else .ok w

def playerShootPvp (w : World) (i : Nat) (projectile : Projectile) (t : Nat) (c : Chance) :
    World :=
  match w.players t with
  | none => w
  | some target =>
    let (w, shot) := playerAim w i projectile target.mob
      (fun m => { m with followingPlayer := some t }) target.protectFromMissiles c
    if shot ∧ 0 < projectile.power then playerDamage w t (some i) c.roll
    else w

/-- What `player_init_combat` does to the attacker once the target is within
reach: on the target's tile it takes its stance, and else it runs there. -/
def Mob.close (m target : Mob) : Mob :=
  if m.x = target.x ∧ m.y = target.y then
    { m with dir := .combatRight, walkQueueLen := 0, walkQueuePos := 0 }
  else { m with actionWalk := true }.walkTo target.x target.y

/-- The lock at the end of `player_init_combat`, of the target. -/
def Mob.lockedBy (m : Mob) (i : Nat) : Mob :=
  { m with
    walkQueueLen := 0
    walkQueuePos := 0
    targetPlayer := some i
    targetNpc := none
    inCombat := true
    combatRounds := 0
    dir := .combatLeft }

/-- `player_init_combat` from the attacker's stance to
`player_clear_actions(p)`. -/
def initClose (w : World) (i : Nat) (r : MobRef) (target : Mob) : World :=
  let w := w.modify (.player i) fun m => m.close target
  let w := w.modify r fun m => m.clearQueue.followNobody
  let w := w.modify (.player i) Mob.followNobody
  w.modifyPlayer i fun p => p.closeUi.clearActions

/-- `player_init_combat` from `p->mob.in_combat = true`. -/
def initLock (w : World) (i : Nat) (r : MobRef) : World :=
  let w := w.modify (.player i) fun m =>
    { m with inCombat := true, combatNextHit := 0, combatRounds := 0 }
  w.modify r fun m => m.lockedBy i

def playerInitCombat (w : World) (i : Nat) (r : MobRef) (c : Chance) : World × Bool :=
  match w.mob? (.player i), w.mob? r with
  | some m, some target =>
    if target.inCombat then
      (w.modify (.player i) fun m => m.clearQueue.combatReset, false)
    else if !m.withinRange target.x target.y 3 then (w, false)
    else if !c.reachable then
      (if m.remaining = 0 then w.modify (.player i) Mob.combatReset else w, false)
    else
      let w := initClose w i r target
      if (w.mob? r).any Mob.moved then (w, false) else (initLock w i r, true)
  | _, _ => (w, false)

/-- What `player_process_combat` does when it could not start the fight. -/
def playerFollow (w : World) (i : Nat) (r : MobRef) (follow : Mob → Mob) : World :=
  match w.mob? (.player i), w.mob? r with
  | some m, some target =>
    if m.remaining = 0 ∧ !m.withinRange target.x target.y 3 then w.modify (.player i) follow
    else w
  | _, _ => w

/-- `player_process_combat` out of combat, with a player as target. -/
def playerAttackPlayer (w : World) (i t : Nat) (c : Chance) : World :=
  match w.players i, w.players t with
  | some p, some target =>
    if !c.wild then w.modify (.player i) fun m => { m with targetPlayer := none }
    else
      match p.projectile with
      | some projectile => playerShootPvp w i projectile t c
      | none =>
        if w.tick < target.mob.combatTimer + 6 then
          w.modify (.player i) fun m => m.clearQueue.combatReset
        else
          let (w, caught) := playerInitCombat w i (.player t) c
          if !caught then
            playerFollow w i (.player t) fun m =>
              { m with followingPlayer := some t, followingNpc := none }
          else
            let w := w.modify (.player i) fun m =>
              { m with targetPlayer := some t, targetNpc := none }
            let w := w.modifyPlayer t fun p => p.closeUi.clearActions
            w.modify (.player t) fun m => { m with combatNextHit := 4 }
  | _, none => w.modify (.player i) Mob.combatReset
  | none, _ => w

/-- The same with an NPC. -/
def playerAttackNpc (w : World) (i j : Nat) (c : Chance) : Except Fault World :=
  match w.players i, w.npcs j with
  | some p, some _ =>
    match p.projectile with
    | some projectile => playerShootPvm w i projectile j c
    | none =>
      let (w, caught) := playerInitCombat w i (.npc j) c
      if !caught then
        .ok (playerFollow w i (.npc j) fun m =>
          { m with followingPlayer := none, followingNpc := some j })
      else
        let w := w.modify (.npc j) fun m => { m with combatNextHit := 3 }
        .ok (w.modify (.player i) fun m => { m with targetPlayer := none })
  | _, none => .ok (w.modify (.player i) Mob.combatReset)
  | none, _ => .ok w

/-- Its stance, unless it has moved in this tick. -/
def Mob.takeStance (m : Mob) (dir : Dir) : Mob :=
  if !m.dir.combat ∧ !m.moved then { m with dir := dir } else m

/-- `player_process_combat` in combat with a player. -/
def playerFightPlayer (w : World) (i t : Nat) (c : Chance) : World :=
  match w.players i, w.players t with
  | some p, some target =>
    if p.mob.x ≠ target.mob.x ∨ p.mob.y ≠ target.mob.y then w
    else
      let w := w.modify (.player i) fun m => m.takeStance .combatRight
      let w := w.modify (.player t) fun m => m.takeStance .combatLeft
      if 0 < p.mob.combatNextHit then
        w.modify (.player i) fun m => { m with combatNextHit := m.combatNextHit - 1 }
      else
        let w := playerDamage w t (some i) c.roll
        let w := w.modify (.player t) fun m => { m with combatTimer := w.tick }
        w.modify (.player i) fun m =>
          { m with combatRounds := m.combatRounds + 1, combatNextHit := 3 }
  | _, none => w.modify (.player i) Mob.combatReset
  | none, _ => w

/-- `player_process_combat` in combat with an NPC. Both take their stance, and
whether one has moved is not asked. -/
def playerFightNpc (w : World) (i j : Nat) (c : Chance) : Except Fault World :=
  match w.players i, w.npcs j with
  | some p, some target =>
    if p.mob.x ≠ target.mob.x ∨ p.mob.y ≠ target.mob.y then .ok w
    else
      let w :=
        if !p.mob.dir.combat then
          let w := w.modify (.player i) fun m => { m with dir := .combatRight }
          w.modify (.npc j) fun m => { m with dir := .combatLeft }
        else w
      if 0 < p.mob.combatNextHit then
        .ok (w.modify (.player i) fun m => { m with combatNextHit := m.combatNextHit - 1 })
      else npcDamage w j (some i) c.roll true
  | _, none => .ok (w.modify (.player i) Mob.combatReset)
  | none, _ => .ok w

def playerProcessCombat (w : World) (i : Nat) (c : Chance) : Except Fault World :=
  match w.players i with
  | none => .ok w
  | some p =>
    if !p.mob.inCombat ∧ p.mob.dir.combat then .error .combatDir
    else if !p.mob.inCombat then
      match p.mob.targetPlayer, p.mob.targetNpc with
      | some t, _ => .ok (playerAttackPlayer w i t c)
      | none, some j => playerAttackNpc w i j c
      | none, none => .ok w
    else
      match p.mob.targetPlayer, p.mob.targetNpc with
      | some t, _ => .ok (playerFightPlayer w i t c)
      | none, some j => playerFightNpc w i j c
      | none, none => .ok w

/-! ## player_process_action -/

/-- What the cases of `player_process_action` that attack begin with: with a
projectile that reaches the target, the player stays where it is. -/
def Player.standToShoot (p : Player) (target : Mob) : Player :=
  match p.projectile with
  | none => p
  | some projectile =>
    if p.mob.distance target.x target.y ≤ projectile.range then { p with mob := p.mob.clearQueue }
    else p

def Player.noAction (p : Player) : Player := { p with action := .none }

/-- The neighbour that is the first `mob_check_reachable` holds of, if it holds
of one. -/
def besideOf (x y : Nat) : Option Dir → Nat × Nat
  | some .west => (x + 1, y)
  | some .east => (x - 1, y)
  | some .south => (x, y + 1)
  | some .north => (x, y - 1)
  | _ => (x, y)

/-- `ACTION_NPC_TALK` from where `script_onnpctalk` has given `result`: `x` and
`y` are where the NPC was when the script was called. -/
def npcTalkReturn (w : World) (i j x y : Nat) (result : Bool) (c : Chance) : World :=
  match w.players i with
  | none => w
  | some p =>
    if !result then w.modify (.player i) fun m => m.face x y
    else
      let w := w.modifyNpc j fun n => { n with talkTarget := i }
      if p.mob.x = x ∧ p.mob.y = y then
        let (npcX, npcY) := besideOf x y c.beside
        let w :=
          if (w.mob? (.npc j)).any fun m => m.x != npcX || m.y != npcY then
            (w.modify (.npc j) fun m => m.walkTo npcX npcY).mobProcessWalkQueue (.npc j) c.path
          else w
        w.modify (.player i) fun m => m.face npcX npcY
      else w.modify (.player i) fun m => m.face x y

/-- An NPC that is there to be acted on. -/
def npcUp (w : World) (j : Nat) : Option Npc := (w.npcs j).filter fun n => n.respawnTime == 0

/-- Actions a mob in combat may take. -/
def Action.inCombatToo : Action → Bool
  | .none | .npcAttack _ | .npcCast _ | .playerAttack _ | .playerCast _ | .selfCast => true
  | .npcTalk _ | .other => false

/-- `ACTION_NPC_ATTACK` -/
def actionNpcAttack (w : World) (i j : Nat) (p : Player) : World :=
  if p.mob.inCombat then w.modifyPlayer i Player.noAction
  else
    match npcUp w j with
    | none => w.modifyPlayer i Player.noAction
    | some npc =>
      let w := w.modifyPlayer i fun p => p.standToShoot npc.mob
      let w := w.modify (.player i) fun m => { m with targetNpc := some j }
      w.modifyPlayer i Player.noAction

/-- `ACTION_PLAYER_ATTACK` -/
def actionPlayerAttack (w : World) (i t : Nat) (p : Player) : World :=
  if p.mob.inCombat then w.modifyPlayer i Player.noAction
  else
    match w.players t with
    | none => w.modifyPlayer i Player.noAction
    | some target =>
      let w := w.modifyPlayer i fun p => p.standToShoot target.mob
      let w := w.modify (.player i) fun m => { m with targetPlayer := some t }
      w.modifyPlayer i Player.noAction

/-- `ACTION_NPC_TALK`, up to the script. -/
def actionNpcTalk (w : World) (i j : Nat) (p : Player) (c : Chance) : World :=
  match npcUp w j with
  | none => w.modifyPlayer i Player.noAction
  | some npc =>
    if !p.mob.withinRange npc.mob.x npc.mob.y 2 then
      if p.mob.remaining = 0 then
        w.modify (.player i) fun m => { m with followingNpc := some j, followingPlayer := none }
      else w
    else if !c.reachable then
      if p.mob.remaining = 0 then w.modifyPlayer i Player.noAction else w
    else
      let w := w.modifyPlayer i fun p => { p.noAction with mob := p.mob.clearQueue }
      if npc.busy then w
      else { w with frames := .npcTalk i j npc.mob.x npc.mob.y :: w.frames }

/-- The cases of the actions that do nothing more to a mob than end its walk,
before a script is called or without. -/
def actionDone (w : World) (i : Nat) : World :=
  w.modifyPlayer i fun p => { p.noAction with mob := p.mob.clearQueue }

/-- `player_process_action` -/
def playerProcessAction (w : World) (i : Nat) (c : Chance) : World :=
  match w.players i with
  | none => w
  | some p =>
    if !p.action.inCombatToo ∧ p.mob.inCombat then w.modifyPlayer i Player.noAction
    else if p.scriptActive then w.modifyPlayer i Player.noAction
    else
      match p.action with
      | .none => w
      | .npcAttack j => actionNpcAttack w i j p
      | .npcTalk j => actionNpcTalk w i j p c
      | .npcCast j =>
        match npcUp w j with
        | none => actionDone w i
        | some npc => if p.mob.withinRange npc.mob.x npc.mob.y 4 then actionDone w i else w
      | .playerAttack t => actionPlayerAttack w i t p
      | .playerCast t =>
        match w.players t with
        | none => actionDone w i
        | some target =>
          if p.mob.withinRange target.mob.x target.mob.y 4 then actionDone w i else w
      | .selfCast | .other => if c.reachable then actionDone w i else w

/-! ## npc.c -/

/-- What the random numbers and the map give an NPC in its turn: where it would
go, how long it waits before it wanders again, which players it could hunt
(near, and not kept from it by `restrict_npc_aggression`), and whether
`move_restrict` ends its walk. -/
structure NpcTurn where
  destX : Nat := 0
  destY : Nat := 0
  timer : Nat := 0
  nearby : List Nat := []
  restricted : Bool := false
  reachable : Bool := true
  roll : Nat := 0
  path : Path := {}
  deriving DecidableEq, Repr

/-- `npc_retreat` -/
def npcRetreat (w : World) (j : Nat) (t : NpcTurn) : World :=
  let w :=
    match w.npcs j with
    | none => w
    | some n =>
      match n.mob.targetPlayer with
      | none => w
      | some i =>
        if n.mob.inCombat ∧ (w.players i).isSome then
          (w.modify (.npc j) Mob.combatReset).modify (.player i) Mob.combatReset
        else w
  w.modify (.npc j) fun m => Mob.walkTo { m with actionWalk := true } t.destX t.destY

/-- `npc_random_walk` -/
def npcRandomWalk (w : World) (j : Nat) (t : NpcTurn) : World :=
  match w.npcs j with
  | none => w
  | some n =>
    if n.busy ∨ n.config.wanderRange = 0 then w
    else w.modify (.npc j) fun m => Mob.walkTo { m with actionWalk := false } t.destX t.destY

/-- The loop of `npc_hunt_target`. -/
def huntAmong (w : World) (j : Nat) (n : Npc) : List Nat → Except Fault World
  | [] => .ok w
  | i :: rest =>
    match w.players i with
    | none => huntAmong w j n rest
    | some p =>
      if p.mob.inCombat then huntAmong w j n rest
      else if !p.mob.withinRange n.mob.x n.mob.y (n.config.huntRange + 2) then
        huntAmong w j n rest
      else
        let catch_ (w : World) : World :=
          let w := w.modifyPlayer i fun p => { p with chasedByNpc := some j }
          w.modify (.npc j) fun m => { m with targetPlayer := some i }
        match p.chasedByNpc with
        | none => .ok (catch_ w)
        | some k =>
          match w.npcs k with
          -- `npc2` is written through although it is `NULL`
          | none => .error .nullHunter
          | some npc2 =>
            if p.mob.distance npc2.mob.x npc2.mob.y ≤ p.mob.distance n.mob.x n.mob.y then
              huntAmong w j n rest
            else
              .ok (catch_ (w.modify (.npc k) fun m => { m with
                followingPlayer := none
                targetPlayer := if m.targetPlayer = some i then none else m.targetPlayer }))

/-- `npc_hunt_target` -/
def npcHuntTarget (w : World) (j : Nat) (t : NpcTurn) : Except Fault World :=
  match w.npcs j with
  | none => .ok w
  | some n =>
    if w.tick < n.mob.combatTimer + 6 then .ok w
    else if n.mob.hits ≤ n.config.bravery then .ok w
    else huntAmong w j n t.nearby

/-- `npc_process_movement` from the label `walk`. -/
def npcWalk (w : World) (j : Nat) (old : Option Zone) (t : NpcTurn) : World :=
  let w := w.mobProcessWalkQueue (.npc j) t.path
  match w.npcs j with
  | none => w
  | some n =>
    changeZone (fun w zone => w.zoneRemoveNpc zone j) (fun w zone => w.zoneAddNpc zone j) w
      old (serverFindZone n.mob.x n.mob.y)

/-- `npc_process_movement` from the look at the queue. -/
def npcWalkQueue (w : World) (j : Nat) (old : Option Zone) (t : NpcTurn) : World :=
  match w.npcs j with
  | none => w
  | some n =>
    if n.mob.remaining = 0 then w
    else
      let w := if !n.mob.actionWalk ∧ t.restricted then w.modify (.npc j) Mob.clearQueue else w
      npcWalk w j old t

/-- The random walk of `npc_process_movement`. -/
def npcWander (w : World) (j : Nat) (t : NpcTurn) : World :=
  match w.npcs j with
  | none => w
  | some n =>
    if n.randomWalkTimer = 0 then
      if n.mob.followingPlayer = none ∧ n.mob.combatTimer + 6 ≤ w.tick then
        npcRandomWalk (w.modifyNpc j fun n => { n with randomWalkTimer := t.timer }) j t
      else w
    else w.modifyNpc j fun n => { n with randomWalkTimer := n.randomWalkTimer - 1 }

def npcProcessMovement (w : World) (j : Nat) (t : NpcTurn) : Except Fault World :=
  match w.npcs j with
  | none => .ok w
  | some n =>
    if n.busy then .ok w
    else
      let old := serverFindZone n.mob.x n.mob.y
      if n.mob.inCombat then
        match n.mob.targetPlayer.bind w.players with
        | none => .error .nullOpponent
        | some p =>
          let w :=
            if n.mob.x ≠ p.mob.x ∨ n.mob.y ≠ p.mob.y then
              w.modify (.npc j) fun m => Mob.walkTo { m with actionWalk := true } p.mob.x p.mob.y
            else w
          .ok (npcWalkQueue w j old t)
      else
        match n.mob.followingPlayer with
        | some i =>
          match w.players i with
          | none => .ok (w.modify (.npc j) fun m => { m with followingPlayer := none })
          | some p =>
            if !p.mob.withinRange n.spawnX n.spawnY (n.config.wanderRange * 2) then
              let w := w.modifyPlayer i fun p => { p with chasedByNpc := none }
              .ok (w.modify (.npc j) fun m => { m with followingPlayer := none, targetPlayer := none })
            else .ok (npcWalk w j old t)
        | none =>
          match if 2 < n.config.aggression then npcHuntTarget w j t else .ok w with
          | .error f => .error f
          | .ok w => .ok (npcWalkQueue (npcWander w j t) j old t)

/-- `npc_init_combat`, up to the script. -/
def npcInitCombat (w : World) (j i : Nat) (n : Npc) (target : Player) (t : NpcTurn) : World :=
  if target.mob.inCombat then
    let w := w.modifyPlayer i fun p => { p with chasedByNpc := none }
    w.modify (.npc j) fun m => m.clearQueue.combatReset
  else
    let w := w.modify (.npc j) fun m => { m with actionWalk := true }
    if !n.mob.withinRange target.mob.x target.mob.y 2 then
      w.modify (.npc j) fun m => { m with followingPlayer := some i }
    else if !t.reachable then w
    else { w with frames := .npcInit j i :: w.frames }

/-- `npc_init_combat` from where `script_onattacknpc` is through. An NPC that the
script has deleted is freed memory in the source; here nothing is written of it. -/
def npcInitReturn (w : World) (j i : Nat) : World :=
  let w := w.modify (.npc j) Mob.clearQueue
  let w := w.modify (.player i) fun m => m.clearQueue.followNobody
  let w := w.modify (.npc j) Mob.followNobody
  let w := w.modifyPlayer i fun p => p.closeUi.clearActions
  let w := w.modify (.npc j) fun m =>
    { m with inCombat := true, combatNextHit := 0, combatRounds := 0 }
  w.modify (.player i) fun m => { m with
    targetPlayer := none
    targetNpc := some j
    inCombat := true
    combatRounds := 0
    dir := .combatRight }

/-- `npc_process_combat` in combat with a player on the same tile. -/
def npcFight (w : World) (j i : Nat) (n : Npc) (t : NpcTurn) : World :=
  let w := w.modify (.npc j) fun m => if !m.moved then { m with dir := .combatLeft } else m
  if 3 ≤ n.mob.combatRounds ∧ 0 < n.config.bravery ∧ n.mob.hits ≤ n.config.bravery then
    npcRetreat w j t
  else if 0 < n.mob.combatNextHit then
    w.modify (.npc j) fun m => { m with combatNextHit := m.combatNextHit - 1 }
  else
    let w := playerDamage w i none t.roll
    let w := w.modify (.npc j) fun m =>
      { m with combatRounds := m.combatRounds + 1, combatNextHit := 3 }
    w.modify (.player i) fun m => { m with combatTimer := w.tick }

def npcProcessCombat (w : World) (j : Nat) (t : NpcTurn) : Except Fault World :=
  match w.npcs j with
  | none => .ok w
  | some n =>
    match n.mob.targetPlayer with
    | none => .ok w
    | some i =>
      match w.players i with
      | none => .ok (w.modify (.npc j) Mob.combatReset)
      | some target =>
        if !n.mob.inCombat then .ok (npcInitCombat w j i n target t)
        else if !target.mob.inCombat then .error .opponent
        else
          let w := w.modifyPlayer i fun p => { p with chasedByNpc := none }
          let w := w.modify (.npc j) fun m => { m with followingPlayer := none }
          if n.mob.x ≠ target.mob.x ∨ n.mob.y ≠ target.mob.y then .ok w
          else .ok (npcFight w j i n t)

end Sundae.Ref.World
