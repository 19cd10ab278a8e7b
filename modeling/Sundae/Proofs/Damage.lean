import Sundae.Proofs.Steady

/-!
# Hits and deaths

What a hit leaves of the mob it finds. It kills if it takes all that is left,
and is shown otherwise; an NPC that is hurt and not killed has to be hurt by a
player, because the tick is read through the one who hits.
-/

namespace Sundae.Proofs

open Sundae.Lib Sundae.Ref.World
open Sundae.Ref (World Zone serverFindZone)

variable {w : World} {i j roll : Nat} {r : MobRef} {p : Option Nat} {melee : Bool}

/-! ## What is looked at -/

/-- Of a mob, where it stands, its hits, and the damage it shows. -/
def vitals (m : Mob) : Mob where
  x := m.x
  y := m.y
  hits := m.hits
  baseHits := m.baseHits
  damage := m.damage
  damageTimer := m.damageTimer

/-- Of an NPC, also what its respawn depends on. -/
def npcVitals (n : Npc) : Npc where
  mob := vitals n.mob
  config := n.config
  respawnTime := n.respawnTime
  spawnX := n.spawnX
  spawnY := n.spawnY

def npcRow (w : World) (j : Nat) : Option Npc := (w.npcs j).map npcVitals

/-- Of a player, also whether it has been teleported. -/
def playerRow (w : World) (i : Nat) : Option (Mob × Bool) :=
  (w.players i).map fun p => (vitals p.mob, p.teleported)

theorem npcRow_modifyNpc {f g : Npc → Npc} (hf : ∀ n, npcVitals (f n) = g (npcVitals n)) :
    npcRow (w.modifyNpc j f) j = (npcRow w j).map g := by
  rw [npcRow, npcRow, npcs_modifyNpc, if_pos rfl, Option.map_map, Option.map_map]
  congr 1
  exact funext hf

theorem npcRow_same {f : Npc → Npc} (hf : ∀ n, npcVitals (f n) = npcVitals n) :
    npcRow (w.modifyNpc j f) j = npcRow w j := by
  rw [npcRow_modifyNpc (g := id) hf, Option.map_id_fun, id]

theorem npcRow_modify {f : Mob → Mob} (hf : ∀ m, vitals (f m) = vitals m) :
    npcRow (w.modify r f) j = npcRow w j := by
  cases r with
  | player i => rfl
  | npc k =>
      by_cases hk : j = k
      · subst hk
        refine npcRow_same fun n => ?_
        simp only [npcVitals, hf]
      · rw [npcRow, npcRow, World.modify, npcs_modifyNpc, if_neg hk]

theorem playerRow_modifyPlayer {f : Player → Player} {g : Mob × Bool → Mob × Bool}
    (hf : ∀ p, (vitals (f p).mob, (f p).teleported) = g (vitals p.mob, p.teleported)) :
    playerRow (w.modifyPlayer i f) i = (playerRow w i).map g := by
  rw [playerRow, playerRow, players_modifyPlayer, if_pos rfl, Option.map_map, Option.map_map]
  congr 1
  exact funext hf

theorem playerRow_same {f : Player → Player}
    (hf : ∀ p, (vitals (f p).mob, (f p).teleported) = (vitals p.mob, p.teleported)) :
    playerRow (w.modifyPlayer i f) i = playerRow w i := by
  rw [playerRow_modifyPlayer (g := id) hf, Option.map_id_fun, id]

theorem playerRow_modify {f : Mob → Mob} (hf : ∀ m, vitals (f m) = vitals m) :
    playerRow (w.modify r f) i = playerRow w i := by
  cases r with
  | npc k => rfl
  | player k =>
      by_cases hk : i = k
      · subst hk
        refine playerRow_same fun p => ?_
        simp only [hf]
      · rw [playerRow, playerRow, World.modify, players_modifyPlayer, if_neg hk]

/-- A reading that only sees the vitals of a mob. -/
def Vital {β : Type} (row : World → β) : Prop :=
  ∀ (w : World) (r : MobRef) (f : Mob → Mob), (∀ m, vitals (f m) = vitals m) →
    row (w.modify r f) = row w

theorem vital_npcRow (j : Nat) : Vital fun w => npcRow w j := fun _ _ _ hf => npcRow_modify hf

theorem vital_playerRow (i : Nat) : Vital fun w => playerRow w i :=
  fun _ _ _ hf => playerRow_modify hf

namespace Vital

variable {β : Type} {row : World → β}

/-- The end of a fight hurts nobody. -/
theorem resetTargets (hrow : Vital row) (w : World) (r : MobRef) {f : Mob → Mob}
    (hf : ∀ m, vitals (f m).combatReset = vitals m) : row (w.resetTargets r f) = row w := by
  unfold World.resetTargets
  dsimp only
  split
  · split
    · rw [hrow _ _ _ hf, hrow _ _ _ hf]
    · rw [hrow _ _ _ hf]
  · split
    · rw [hrow _ _ _ hf]
    · rfl

theorem npcLetGo (hrow : Vital row) (w : World) (j : Nat) (p : Option Nat) :
    row (npcLetGo w j p) = row w := by
  unfold Ref.World.npcLetGo
  split
  · split
    · exact hrow _ _ _ fun _ => rfl
    · rfl
  · rfl

theorem afterHit (hrow : Vital row) (w : World) (j : Nat) (p : Option Nat) (melee : Bool) :
    row (afterHit w j p melee) = row w := by
  unfold Ref.World.afterHit
  split
  · refine (hrow _ _ _ ?_).trans (hrow _ _ _ ?_)
    · exact fun _ => rfl
    · exact fun _ => rfl
  · rfl

end Vital

/-! ## Deaths -/

/-- Where an NPC is when it is dead: at its spawn, with its hits back, and the
respawn timer set. -/
def buried (n : Npc) : Npc :=
  { n with
    mob := { n.mob with x := n.spawnX, y := n.spawnY, hits := n.mob.baseHits, damageTimer := 0 }
    respawnTime := n.config.respawn / 5 }

theorem npcRow_npcAward (w : World) (j : Nat) (p : Option Nat) :
    npcRow (npcAward w j p) j =
      (npcRow w j).map fun n => { n with respawnTime := n.config.respawn / 5 } :=
  npcRow_modifyNpc fun _ => rfl

theorem npcRow_mobDie (w : World) (j : Nat) :
    npcRow (w.mobDie (.npc j)) j = (npcRow w j).map fun n =>
      { n with mob := { n.mob with hits := n.mob.baseHits, damageTimer := 0 } } := by
  have hheal : npcRow (w.modify (.npc j) fun m => { m with hits := m.baseHits }) j =
      (npcRow w j).map fun n => { n with mob := { n.mob with hits := n.mob.baseHits } } :=
    npcRow_modifyNpc fun _ => rfl
  have hend : ∀ w : World, npcRow (w.modify (.npc j) fun m =>
      Mob.combatReset { m with combatTimer := 0, damageTimer := 0 }) j =
        (npcRow w j).map fun n => { n with mob := { n.mob with damageTimer := 0 } } :=
    fun _ => npcRow_modifyNpc fun _ => rfl
  unfold World.mobDie
  dsimp only
  rw [hend, (vital_npcRow j).resetTargets (f := id) _ _ fun _ => rfl, hheal, Option.map_map]
  rfl

theorem npcRow_npcToSpawn (w : World) (j : Nat) :
    npcRow (npcToSpawn w j) j =
      (npcRow w j).map fun n => { n with mob := { n.mob with x := n.spawnX, y := n.spawnY } } := by
  unfold npcToSpawn
  split
  · next hnone => simp [npcRow, hnone]
  · dsimp only
    refine changeZone_of (I := fun w' => npcRow w' j = (npcRow w j).map fun n =>
      { n with mob := { n.mob with x := n.spawnX, y := n.spawnY } }) ?_ ?_ ?_ _ _
    · exact fun _ _ hw => hw
    · exact fun _ _ hw => hw
    · exact npcRow_modifyNpc fun _ => rfl

theorem npcRow_npcDieEnd (w : World) (j : Nat) (p : Option Nat) :
    npcRow (npcDieEnd w j p) j = (npcRow w j).map buried := by
  unfold npcDieEnd
  rw [npcRow_npcToSpawn, (vital_npcRow j).npcLetGo, npcRow_mobDie, npcRow_npcAward,
    Option.map_map, Option.map_map]
  rfl

/-- Where a player is when it is dead: on the start tile, with its hits back. -/
def risen (x y : Nat) (v : Mob × Bool) : Mob × Bool :=
  ({ v.1 with x := x % 65536, y := y % 65536, hits := v.1.baseHits, damageTimer := 0 }, true)

theorem playerRow_mobDie (w : World) (i : Nat) :
    playerRow (w.mobDie (.player i)) i = (playerRow w i).map fun v =>
      ({ v.1 with hits := v.1.baseHits, damageTimer := 0 }, v.2) := by
  have hheal : playerRow (w.modify (.player i) fun m => { m with hits := m.baseHits }) i =
      (playerRow w i).map fun v => ({ v.1 with hits := v.1.baseHits }, v.2) :=
    playerRow_modifyPlayer fun _ => rfl
  have hend : ∀ w : World, playerRow (w.modify (.player i) fun m =>
      Mob.combatReset { m with combatTimer := 0, damageTimer := 0 }) i =
        (playerRow w i).map fun v => ({ v.1 with damageTimer := 0 }, v.2) :=
    fun _ => playerRow_modifyPlayer fun _ => rfl
  unfold World.mobDie
  dsimp only
  rw [hend, (vital_playerRow i).resetTargets (f := id) _ _ fun _ => rfl, hheal, Option.map_map]
  rfl

theorem playerRow_playerMoved (w : World) (i x y : Nat) :
    playerRow (playerMoved w i x y) i = playerRow w i := by
  unfold playerMoved
  split
  · rfl
  · next p hp =>
    have hzones : playerRow (changeZone (fun w zone => w.zoneRemovePlayer zone i)
        (fun w zone => w.zoneAddPlayer zone i) w (serverFindZone x y)
        (serverFindZone p.mob.x p.mob.y)) i = playerRow w i := by
      refine changeZone_of (I := fun w' => playerRow w' i = playerRow w i) ?_ ?_ rfl _ _
      · exact fun _ _ hw => hw
      · exact fun _ _ hw => hw
    dsimp only
    split
    · exact hzones
    · split
      · exact hzones
      · split
        · exact hzones
        · refine (playerRow_same ?_).trans hzones
          exact fun _ => rfl

theorem playerRow_playerTeleport (w : World) (i x y : Nat) :
    playerRow (playerTeleport w i x y) i = (playerRow w i).map fun v =>
      ({ v.1 with x := x % 65536, y := y % 65536 }, true) := by
  have hplace : playerRow (w.modify (.player i) fun m =>
      { m with x := x % 65536, y := y % 65536 }) i =
        (playerRow w i).map fun v => ({ v.1 with x := x % 65536, y := y % 65536 }, v.2) :=
    playerRow_modifyPlayer fun _ => rfl
  have hpeace : ∀ w : World, playerRow (w.modify (.player i) Mob.combatReset) i = playerRow w i :=
    fun _ => playerRow_modify fun _ => rfl
  unfold playerTeleport
  split
  · next hnone => simp [playerRow, hnone]
  · dsimp only
    refine (playerRow_modifyPlayer (g := fun v => (v.1, true)) ?_).trans ?_
    · exact fun _ => rfl
    · rw [playerRow_playerMoved, hpeace,
        (vital_playerRow i).resetTargets (f := Mob.clearQueue) _ _ fun _ => rfl, hplace,
        Option.map_map]
      rfl

/-- The start tile is no mob's. -/
theorem startTile_modify (w : World) (r : MobRef) (f : Mob → Mob) :
    (w.modify r f).startTileX = w.startTileX ∧ (w.modify r f).startTileY = w.startTileY := by
  cases r with
  | player i => exact ⟨rfl, rfl⟩
  | npc j => exact ⟨rfl, rfl⟩

theorem startTile_mobDie (w : World) (r : MobRef) :
    (w.mobDie r).startTileX = w.startTileX ∧ (w.mobDie r).startTileY = w.startTileY := by
  have hx : Vital World.startTileX := fun w r f _ => (startTile_modify w r f).1
  have hy : Vital World.startTileY := fun w r f _ => (startTile_modify w r f).2
  unfold World.mobDie
  dsimp only
  rw [(startTile_modify _ _ _).1, (startTile_modify _ _ _).2,
    hx.resetTargets (f := id) _ _ fun _ => rfl, hy.resetTargets (f := id) _ _ fun _ => rfl]
  exact startTile_modify w r _

theorem playerRow_playerDie (w : World) (i : Nat) (victor : Option Nat) :
    playerRow (playerDie w i victor) i =
      (playerRow w i).map (risen w.startTileX w.startTileY) := by
  have hclear : ∀ w : World, playerRow (w.modifyPlayer i Player.clearActions) i = playerRow w i :=
    fun _ => playerRow_same fun _ => rfl
  have hqueue : ∀ w : World, playerRow (w.modify (.player i) Mob.clearQueue) i = playerRow w i :=
    fun _ => playerRow_modify fun _ => rfl
  have hreset : ∀ (w : World) (v : Nat),
      playerRow (w.modify (.player v) Mob.combatReset) i = playerRow w i :=
    fun _ _ => playerRow_modify fun _ => rfl
  obtain ⟨hx, hy⟩ := startTile_mobDie w (.player i)
  unfold playerDie
  dsimp only
  rw [playerRow_playerTeleport]
  split
  · split
    · rw [hreset, hclear, hqueue, playerRow_mobDie, Option.map_map, ← hx, ← hy]
      rfl
    · rw [hclear, hqueue, playerRow_mobDie, Option.map_map, ← hx, ← hy]
      rfl
  · rw [hclear, hqueue, playerRow_mobDie, Option.map_map, ← hx, ← hy]
    rfl

/-! ## What is asked of a hit -/

/-- The mob is hurt: its hits go down by the roll, and the update shows it. -/
structure Hurt (tick roll : Nat) (m m' : Mob) : Prop where
  hits : m'.hits + roll = m.hits
  alive : 0 < m'.hits
  damage : m'.damage = roll
  timer : m'.damageTimer = tick
  place : m'.x = m.x ∧ m'.y = m.y

/-- A player has died. -/
structure Fallen (w : World) (p p' : Player) : Prop where
  hits : p'.mob.hits = p.mob.baseHits
  timer : p'.mob.damageTimer = 0
  place : p'.mob.x = w.startTileX % 65536 ∧ p'.mob.y = w.startTileY % 65536
  teleported : p'.teleported = true

/-- An NPC has died. -/
structure Buried (n n' : Npc) : Prop where
  hits : n'.mob.hits = n.mob.baseHits
  timer : n'.mob.damageTimer = 0
  place : n'.mob.x = n.spawnX ∧ n'.mob.y = n.spawnY
  respawn : n'.respawnTime = n.config.respawn / 5

/-- An NPC has no hits left, and the script that may give it some is called.
It is dead when the script is through and has not, as long as no other script
has hold of the player. -/
structure Doomed (frames : List Frame) (j i : Nat) (melee : Bool) (w' : World) : Prop where
  called : w'.frames = .killNpc j i melee :: frames
  buried : ∀ u result c n, u.frames = w'.frames → u.npcs j = some n →
    (result = true → n.mob.hits = 0) → (u.players i).any Player.heldByScript = false →
      ∃ u' n', hookReturn u result c = .ok u' ∧ u'.npcs j = some n' ∧ Buried n n'

/-- The death of an NPC by a player waits for the script that has hold of the
player, if there is one: the next hit is its next try. -/
def NpcDies (w : World) (j : Nat) (p : Option Nat) (melee : Bool) (n : Npc) (w' : World)
    (n' : Npc) : Prop :=
  match p with
  | none => Buried n n' ∧ w'.frames = w.frames
  | some i =>
    n'.mob.hits = 0 ∧
      if (w.players i).any Player.heldByScript then w'.frames = w.frames
      else Doomed w.frames j i melee w'

def PlayerDamaged (w : World) (i roll : Nat) (p : Player) (w' : World) : Prop :=
  ∃ p', w'.players i = some p' ∧
    if p.mob.hits ≤ roll then Fallen w p p' else Hurt w.tick roll p.mob p'.mob

def NpcDamaged (w : World) (j : Nat) (p : Option Nat) (roll : Nat) (melee : Bool) (n : Npc)
    (w' : World) : Prop :=
  ∃ n', w'.npcs j = some n' ∧
    if n.mob.hits ≤ roll then NpcDies w j p melee n w' n'
    else Hurt w.tick roll n.mob n'.mob ∧ n'.respawnTime = n.respawnTime ∧ w'.frames = w.frames

/-- `player_damage` or `npc_damage` -/
def mobDamage (w : World) (r : MobRef) (p : Option Nat) (roll : Nat) (melee : Bool) :
    Except Fault World :=
  match r with
  | .player i => .ok (playerDamage w i p roll)
  | .npc j => npcDamage w j p roll melee

/-- The hit goes through, and the mob is hurt or dies. -/
def Damaged (w : World) (r : MobRef) (p : Option Nat) (roll : Nat) (melee : Bool) : Prop :=
  ∃ w', mobDamage w r p roll melee = .ok w' ∧
    match r with
    | .player i => ∀ pl, w.players i = some pl → PlayerDamaged w i roll pl w'
    | .npc j => ∀ n, w.npcs j = some n → NpcDamaged w j p roll melee n w'

/-! ## What a hit does -/

theorem fallen_of_row {pl : Player} (hpl : w.players i = some pl) {w' : World}
    (hrow : playerRow w' i = (playerRow w i).map (risen w.startTileX w.startTileY)) :
    ∃ p', w'.players i = some p' ∧ Fallen w pl p' := by
  rw [playerRow, playerRow, hpl] at hrow
  obtain ⟨p', hp', hv⟩ := Option.map_eq_some_iff.1 hrow
  obtain ⟨hmob, htele⟩ := Prod.mk.inj hv
  exact ⟨p', hp', congrArg Mob.hits hmob, congrArg Mob.damageTimer hmob,
    ⟨congrArg Mob.x hmob, congrArg Mob.y hmob⟩, htele⟩

theorem buried_of_row {n : Npc} (hn : w.npcs j = some n) {w' : World}
    (hrow : npcRow w' j = (npcRow w j).map buried) :
    ∃ n', w'.npcs j = some n' ∧ Buried n n' := by
  rw [npcRow, npcRow, hn] at hrow
  obtain ⟨n', hn', hv⟩ := Option.map_eq_some_iff.1 hrow
  have hmob := congrArg Npc.mob hv
  exact ⟨n', hn', congrArg Mob.hits hmob, congrArg Mob.damageTimer hmob,
    ⟨congrArg Mob.x hmob, congrArg Mob.y hmob⟩, congrArg Npc.respawnTime hv⟩

theorem playerDamaged (w : World) (p : Option Nat) (roll : Nat) {pl : Player}
    (hpl : w.players i = some pl) : PlayerDamaged w i roll pl (playerDamage w i p roll) := by
  unfold playerDamage PlayerDamaged
  rw [hpl]
  dsimp only
  split
  · exact fallen_of_row hpl (playerRow_playerDie w i p)
  · next hroll =>
    refine ⟨_, (players_modifyPlayer _ _ _ _).trans (by rw [if_pos rfl, hpl, Option.map_some]), ?_⟩
    exact {
      hits := Nat.sub_add_cancel (by omega)
      alive := Nat.sub_pos_of_lt (by omega)
      damage := rfl
      timer := rfl
      place := ⟨rfl, rfl⟩ }

/-- The hook comes back to an NPC that is still without hits. -/
theorem npcDieReturn_buries (melee : Bool) {u : World} {n : Npc} {result : Bool}
    (hn : u.npcs j = some n) (hdead : result = true → n.mob.hits = 0)
    (hfree : (u.players i).any Player.heldByScript = false) :
    ∃ n', (npcDieReturn u j i melee result).npcs j = some n' ∧ Buried n n' := by
  refine buried_of_row hn ?_
  have hdrop : npcRow (u.modifyNpc j fun n => { n with drops := n.drops + 1 }) j = npcRow u j :=
    npcRow_same fun _ => rfl
  have hup : ¬ (result = true ∧ 0 < n.mob.hits) := fun h => by
    have hzero := hdead h.1
    omega
  unfold npcDieReturn
  rw [hn]
  dsimp only
  rw [if_neg hup]
  split
  · next hheld => exact absurd (hfree.symm.trans hheld) Bool.false_ne_true
  · rw [(vital_npcRow j).afterHit, npcRow_npcDieEnd, hdrop]

theorem frames_modify (w : World) (r : MobRef) (f : Mob → Mob) :
    (w.modify r f).frames = w.frames := by
  cases r with
  | player i => rfl
  | npc j => rfl

theorem vital_frames : Vital World.frames := fun w r f _ => frames_modify w r f

theorem frames_npcDieEnd (w : World) (j : Nat) (p : Option Nat) :
    (npcDieEnd w j p).frames = w.frames := by
  have hdie : ((npcAward w j p).mobDie (.npc j)).frames = w.frames := by
    unfold World.mobDie
    dsimp only
    rw [frames_modify, vital_frames.resetTargets (f := id) _ _ fun _ => rfl, frames_modify]
    rfl
  have hgo : (npcLetGo ((npcAward w j p).mobDie (.npc j)) j p).frames = w.frames :=
    (vital_frames.npcLetGo _ j p).trans hdie
  unfold npcDieEnd npcToSpawn
  split
  · exact hgo
  · dsimp only
    refine changeZone_of (I := fun w' => w'.frames = w.frames) ?_ ?_ ?_ _ _
    · exact fun _ _ hw => hw
    · exact fun _ _ hw => hw
    · exact hgo

/-- An NPC that a hit leaves nothing to. -/
theorem npcDie_dies (p : Option Nat) (melee : Bool) {n : Npc} (hn : w.npcs j = some n)
    (hzero : n.mob.hits = 0) :
    ∃ n', (npcDie w j p melee).npcs j = some n' ∧
      NpcDies w j p melee n (npcDie w j p melee) n' := by
  cases p with
  | none =>
      obtain ⟨n', hn', hburied⟩ := buried_of_row hn (npcRow_npcDieEnd w j none)
      exact ⟨n', hn', hburied, frames_npcDieEnd w j none⟩
  | some i =>
      unfold NpcDies npcDie
      dsimp only
      have hheld : ((w.modifyPlayer i fun p =>
          if p.chasedByNpc = some j then { p with chasedByNpc := none } else p).players i).any
            Player.heldByScript = (w.players i).any Player.heldByScript := by
        rw [players_modifyPlayer, if_pos rfl, Option.any_map]
        congr 1
        funext p
        split
        · rfl
        · rfl
      rw [hheld]
      split
      · obtain ⟨n', hn', hv⟩ := Option.map_eq_some_iff.1
          (((vital_npcRow j).afterHit (w.modifyPlayer i _) j (some i) melee).trans
            (show npcRow (w.modifyPlayer i _) j = some (npcVitals n) by
              rw [npcRow]; exact congrArg (Option.map npcVitals) hn))
        refine ⟨n', hn', (congrArg (fun n => n.mob.hits) hv).trans hzero, ?_⟩
        exact vital_frames.afterHit _ j (some i) melee
      · refine ⟨n, hn, hzero, rfl, fun u result c n₁ hframes hn₁ hdead hfree => ?_⟩
        obtain ⟨n', hn', hburied⟩ := npcDieReturn_buries melee
          (u := { u with frames := w.frames }) hn₁ hdead hfree
        refine ⟨_, n', ?_, hn', hburied⟩
        unfold hookReturn
        rw [hframes]
        rfl

theorem npcRow_npcWound (w : World) (j i roll : Nat) :
    npcRow (npcWound w j i roll) j = (npcRow w j).map fun n => { n with
      mob := { n.mob with hits := n.mob.hits - roll, damage := roll, damageTimer := w.tick } } := by
  refine npcRow_modifyNpc fun n => ?_
  dsimp only
  split
  · rfl
  · rfl

theorem npcDamaged (melee : Bool) {n : Npc} (hn : w.npcs j = some n)
    (hok : p.isSome ∨ n.mob.hits ≤ roll) :
    ∃ w', npcDamage w j p roll melee = .ok w' ∧ NpcDamaged w j p roll melee n w' := by
  unfold npcDamage NpcDamaged
  rw [hn]
  dsimp only
  split
  · next hroll =>
    have hstruck : ((w.modifyNpc j (Npc.struck p)).modify (.npc j) fun m =>
        { m with hits := 0 }).npcs j =
          some { Npc.struck p n with mob := { (Npc.struck p n).mob with hits := 0 } } := by
      simp [World.modify, npcs_modifyNpc, hn]
    obtain ⟨n', hn', hdies⟩ := npcDie_dies p melee hstruck rfl
    refine ⟨_, rfl, n', hn', ?_⟩
    cases p with
    | none => exact ⟨⟨hdies.1.hits, hdies.1.timer, hdies.1.place, hdies.1.respawn⟩, hdies.2⟩
    | some i => exact hdies
  · next hroll =>
    cases p with
    | none =>
        rcases hok with hsome | hroll'
        · cases hsome
        · exact absurd hroll' hroll
    | some i =>
        have hrow : npcRow (afterHit (npcWound (w.modifyNpc j (Npc.struck (some i))) j i roll) j
            (some i) melee) j = some { npcVitals n with mob := { vitals n.mob with
              hits := n.mob.hits - roll, damage := roll, damageTimer := w.tick } } := by
          rw [(vital_npcRow j).afterHit, npcRow_npcWound,
            npcRow_same (f := Npc.struck (some i)) fun _ => rfl, npcRow, hn]
          rfl
        obtain ⟨n', hn', hv⟩ := Option.map_eq_some_iff.1 hrow
        have hmob := congrArg Npc.mob hv
        have hhits : n'.mob.hits = n.mob.hits - roll := congrArg Mob.hits hmob
        have hx := congrArg Mob.x hmob
        have hy := congrArg Mob.y hmob
        have htime := congrArg Npc.respawnTime hv
        refine ⟨_, rfl, n', hn', ?_, htime, ?_⟩
        · exact {
            hits := by omega
            alive := by omega
            damage := congrArg Mob.damage hmob
            timer := congrArg Mob.damageTimer hmob
            place := ⟨hx, hy⟩ }
        · exact vital_frames.afterHit _ j (some i) melee

/-- A hit does what it should exactly if a player deals it, or it is dealt to a
player, or it kills. -/
theorem damage_sound_iff (w : World) (r : MobRef) (p : Option Nat) (roll : Nat) (melee : Bool) :
    Damaged w r p roll melee ↔
      ∀ j n, r = .npc j → w.npcs j = some n → p.isSome ∨ n.mob.hits ≤ roll := by
  cases r with
  | player i =>
      refine iff_of_true ⟨_, rfl, fun pl hpl => playerDamaged w p roll hpl⟩ fun j n hr => ?_
      cases hr
  | npc j =>
      constructor
      · rintro ⟨w', hw', -⟩ k n hr hn
        obtain rfl := MobRef.npc.inj hr
        by_contra hbad
        obtain ⟨hnone, hroll⟩ := not_or.1 hbad
        obtain rfl : p = none := by simpa using hnone
        simp [mobDamage, npcDamage, hn, hroll] at hw'
      · intro hok
        cases hn : w.npcs j with
        | none => exact ⟨w, by simp [mobDamage, npcDamage, hn], fun n hn' => by simp [hn] at hn'⟩
        | some n =>
            obtain ⟨w', hw', hdamaged⟩ := npcDamaged melee hn (hok j n rfl hn)
            refine ⟨w', hw', fun n' hn' => ?_⟩
            obtain rfl := Option.some.inj (hn.symm.trans hn')
            exact hdamaged

/-- A script that takes one hit of a chicken's three. -/
theorem chicken_hit_by_script : ¬ ∀ (w : World) (r : MobRef) (p : Option Nat) (roll : Nat)
    (melee : Bool), Damaged w r p roll melee := by
  intro hall
  obtain ⟨w', hw', -⟩ := hall { npcs := fun _ => some {
    mob := { hits := 3, baseHits := 3 }, config := chicken, spawnX := 0, spawnY := 0 } }
      (.npc 0) none 1 false
  cases hw'

end Sundae.Proofs
