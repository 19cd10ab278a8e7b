import Sundae.Proofs.World

/-!
# Properties of the world that light writes keep

Most of what the functions of the world write is a queue, a timer, a stat or a
direction. What nothing else is needed for is gone through once here, for
everything that is later proved of every reachable state.
-/

namespace Sundae.Proofs

open Sundae.Lib Sundae.Ref.World
open Sundae.Ref (World Zone serverFindZone)

/-- What the assertions on the combat stance rely on, of one mob. -/
structure Stance (m : Mob) : Prop where
  fighting : m.dir.combat = true → m.inCombat = true
  standing : m.moved = true → m.dir.combat = false

/-- A write that starts no fight and upsets no stance. -/
structure Calm (m m' : Mob) : Prop where
  moved : m'.moved = m.moved
  inCombat : m'.inCombat = true → m.inCombat = true
  stance : Stance m → Stance m'

/-- And one that leaves the mob where it is. -/
structure Tame (m m' : Mob) : Prop extends Calm m m' where
  x : m'.x = m.x
  y : m'.y = m.y

/-- A write that does not even touch direction and combat. -/
theorem Calm.still {m m' : Mob} (hmoved : m'.moved = m.moved)
    (hcombat : m'.inCombat = m.inCombat) (hdir : m'.dir = m.dir) : Calm m m' := by
  refine ⟨hmoved, fun h => hcombat ▸ h, fun h => ⟨?_, ?_⟩⟩
  · rw [hdir, hcombat]
    exact h.fighting
  · rw [hdir, hmoved]
    exact h.standing

/-- A write to a player that leaves its mob alone. -/
theorem Calm.same (m : Mob) : Calm m m := .still rfl rfl rfl

theorem Tame.still {m m' : Mob} (hx : m'.x = m.x) (hy : m'.y = m.y) (hmoved : m'.moved = m.moved)
    (hcombat : m'.inCombat = m.inCombat) (hdir : m'.dir = m.dir) : Tame m m' :=
  ⟨.still hmoved hcombat hdir, hx, hy⟩

theorem stance_combatReset (m : Mob) : Stance m.combatReset := by
  have hdir : m.combatReset.dir.combat = false := by
    simp only [Mob.combatReset]
    split
    · rfl
    · next h => simpa using h
  constructor
  · intro h
    rw [hdir] at h
    cases h
  · exact fun _ => hdir

theorem Tame.combatReset (m : Mob) : Tame m m.combatReset :=
  ⟨⟨rfl, fun h => (by cases h), fun _ => stance_combatReset m⟩, rfl, rfl⟩

theorem Tame.clearQueue_reset (m : Mob) : Tame m m.clearQueue.combatReset :=
  ⟨⟨rfl, fun h => (by cases h), fun _ => stance_combatReset m.clearQueue⟩, rfl, rfl⟩

/-- What `mob_die` does to the mob. -/
theorem Tame.timers_reset (m : Mob) :
    Tame m (Mob.combatReset { m with combatTimer := 0, damageTimer := 0 }) :=
  ⟨⟨rfl, fun h => (by cases h), fun _ => stance_combatReset _⟩, rfl, rfl⟩

/-- A step leads away in a direction of its own, or there is none. -/
theorem mobNextStep_dir (curX curY : Nat) (curDir : Dir) (tx ty : Nat) :
    (mobNextStep curX curY curDir tx ty).2.2.combat = false ∨
      mobNextStep curX curY curDir tx ty = (curX, curY, curDir) := by
  unfold mobNextStep
  split
  · split
    · exact .inl rfl
    · split
      · exact .inl rfl
      · exact .inr rfl
  · split
    · split
      · exact .inl rfl
      · split
        · exact .inl rfl
        · exact .inl rfl
    · split
      · exact .inl rfl
      · split
        · exact .inl rfl
        · exact .inl rfl

theorem stance_face {m : Mob} (hm : Stance m) (x y : Nat) : Stance (m.face x y) := by
  unfold Mob.face
  split
  · exact hm
  · next hmoved =>
    rcases mobNextStep_dir m.x m.y m.dir x y with hdir | hstay
    · refine ⟨fun h => ?_, fun _ => hdir⟩
      simp only [hdir] at h
      cases h
    · rw [hstay]
      exact ⟨hm.fighting, hm.standing⟩

/-- Facing writes the direction only. -/
theorem face_keeps {β : Type} (m : Mob) (x y : Nat) (v : Mob → β)
    (hv : ∀ dir, v { m with dir := dir } = v m) : v (m.face x y) = v m := by
  unfold Mob.face
  split
  · rfl
  · exact hv _

theorem Tame.face (m : Mob) (x y : Nat) : Tame m (m.face x y) := by
  refine ⟨⟨?_, fun h => ?_, fun h => stance_face h x y⟩, ?_, ?_⟩
  · exact face_keeps m x y Mob.moved fun _ => rfl
  · rw [← face_keeps m x y Mob.inCombat fun _ => rfl]
    exact h
  · exact face_keeps m x y Mob.x fun _ => rfl
  · exact face_keeps m x y Mob.y fun _ => rfl

theorem Tame.same (m : Mob) : Tame m m := ⟨.same m, rfl, rfl⟩

/-- What a mob's fight is: whether it is in one, and whom it has as target. -/
structure Fight where
  inCombat : Bool
  targetPlayer : Option Nat
  targetNpc : Option Nat
  deriving DecidableEq

def fightOf (m : Mob) : Fight := ⟨m.inCombat, m.targetPlayer, m.targetNpc⟩

/-- A write that does not even touch the fight. -/
structure Light (m m' : Mob) : Prop extends Tame m m' where
  fight : fightOf m' = fightOf m

theorem Light.still {m m' : Mob} (hx : m'.x = m.x) (hy : m'.y = m.y)
    (hmoved : m'.moved = m.moved) (hdir : m'.dir = m.dir) (hfight : fightOf m' = fightOf m) :
    Light m m' :=
  ⟨.still hx hy hmoved (congrArg Fight.inCombat hfight) hdir, hfight⟩

theorem Light.same (m : Mob) : Light m m := ⟨.same m, rfl⟩

theorem Light.face (m : Mob) (x y : Nat) : Light m (m.face x y) :=
  ⟨.face m x y, face_keeps m x y fightOf fun _ => rfl⟩

/-- A property that is kept by writes to queues, timers, stats and directions. -/
structure Kept (I : World → Prop) : Prop where
  light : ∀ {w : World} {r : MobRef} {f : Mob → Mob}, I w → (∀ m, Light m (f m)) →
    I (w.modify r f)
  modifyPlayer : ∀ {w : World} {i : Nat} {f : Player → Player}, I w →
    (∀ p, (f p).loginOk = p.loginOk ∧ Light p.mob (f p).mob) → I (w.modifyPlayer i f)
  modifyNpc : ∀ {w : World} {j : Nat} {f : Npc → Npc}, I w →
    (∀ n, (f n).respawnTime = n.respawnTime ∧ (f n).drops = n.drops ∧ (f n).awards = n.awards ∧
      (f n).wounds = n.wounds ∧ Light n.mob (f n).mob) → I (w.modifyNpc j f)
  push : ∀ {w : World} {frame : Frame}, I w → (∀ j i, frame ≠ .npcInit j i) →
    I { w with frames := frame :: w.frames }

namespace Kept

variable {I : World → Prop} {w : World}

theorem mobChase (T : Kept I) (h : I w) {r : MobRef} {m following : Mob} {w' : World}
    (hw : World.mobChase w r m following = some w') : I w' := by
  unfold World.mobChase at hw
  split at hw
  · cases hw
  · split at hw
    · exact Option.some.inj hw ▸ h
    · exact Option.some.inj hw ▸ T.light h fun _ => .still rfl rfl rfl rfl rfl

theorem mobFollow (T : Kept I) (h : I w) {r : MobRef} {m : Mob} {w' : World}
    (hw : World.mobFollow w r m = some w') : I w' := by
  unfold World.mobFollow at hw
  split at hw
  · split at hw
    · exact T.mobChase h hw
    · exact Option.some.inj hw ▸ T.light h fun _ => .still rfl rfl rfl rfl rfl
  · split at hw
    · split at hw
      · exact T.mobChase h hw
      · exact Option.some.inj hw ▸ T.light h fun _ => .still rfl rfl rfl rfl rfl
    · exact Option.some.inj hw ▸ h

theorem faceMob (T : Kept I) (h : I w) (r s : MobRef) : I (Ref.World.faceMob w r s) := by
  unfold Ref.World.faceMob
  split
  · exact h
  · exact T.light h fun m => Light.face m _ _

theorem afterHit (T : Kept I) (h : I w) (j : Nat) (p : Option Nat) (melee : Bool) :
    I (Ref.World.afterHit w j p melee) := by
  unfold Ref.World.afterHit
  split
  · refine T.light ?_ fun _ => .still rfl rfl rfl rfl rfl
    exact T.light h fun _ => .still rfl rfl rfl rfl rfl
  · exact h

theorem shootStand (T : Kept I) (h : I w) (i : Nat) : I (Ref.World.shootStand w i) :=
  T.light h fun _ => .still rfl rfl rfl rfl rfl

theorem shootTurn (T : Kept I) (h : I w) (i : Nat) (projectile : Projectile) :
    I (Ref.World.shootTurn w i projectile) := by
  unfold Ref.World.shootTurn
  split
  · exact h
  · refine T.light h fun m => ⟨⟨⟨rfl, id, fun _ => ?_⟩, rfl, rfl⟩, rfl⟩
    exact { fighting := fun h => (by cases h), standing := fun _ => rfl }

theorem shootTimer (T : Kept I) (h : I w) (i : Nat) (projectile : Projectile) :
    I (Ref.World.shootTimer w i projectile) := by
  unfold Ref.World.shootTimer
  split
  · exact h
  · exact T.modifyPlayer h fun p => ⟨rfl, .same p.mob⟩

theorem playerFollow (T : Kept I) (h : I w) (i : Nat) (r : MobRef) {follow : Mob → Mob}
    (hfollow : ∀ m, Light m (follow m)) : I (Ref.World.playerFollow w i r follow) := by
  unfold Ref.World.playerFollow
  split
  · split
    · exact T.light h hfollow
    · exact h
  · exact h

theorem noAction (T : Kept I) (h : I w) (i : Nat) : I (w.modifyPlayer i Player.noAction) :=
  T.modifyPlayer h fun p => ⟨rfl, .same p.mob⟩

theorem standToShoot (T : Kept I) (h : I w) (i : Nat) (target : Mob) :
    I (w.modifyPlayer i fun p => p.standToShoot target) := by
  refine T.modifyPlayer h fun p => ?_
  unfold Player.standToShoot
  split
  · exact ⟨rfl, .same p.mob⟩
  · split
    · exact ⟨rfl, .still rfl rfl rfl rfl rfl⟩
    · exact ⟨rfl, .same p.mob⟩

theorem actionDone (T : Kept I) (h : I w) (i : Nat) : I (Ref.World.actionDone w i) :=
  T.modifyPlayer h fun _ => ⟨rfl, .still rfl rfl rfl rfl rfl⟩

theorem actionNpcTalk (T : Kept I) (h : I w) (i j : Nat) (p : Player) (c : Chance) :
    I (Ref.World.actionNpcTalk w i j p c) := by
  unfold Ref.World.actionNpcTalk
  split
  · exact T.noAction h i
  · split
    · split
      · exact T.light h fun _ => .still rfl rfl rfl rfl rfl
      · exact h
    · split
      · split
        · exact T.noAction h i
        · exact h
      · have hstop : I (w.modifyPlayer i fun p => { p.noAction with mob := p.mob.clearQueue }) :=
          T.modifyPlayer h fun _ => ⟨rfl, .still rfl rfl rfl rfl rfl⟩
        dsimp only
        split
        · exact hstop
        · exact T.push hstop fun _ _ h => by cases h

/-- Only the two actions that attack are left open. -/
theorem playerProcessAction (T : Kept I) (h : I w) (i : Nat) (c : Chance)
    (hnpc : ∀ j p, w.players i = some p → I (Ref.World.actionNpcAttack w i j p))
    (hplayer : ∀ t p, w.players i = some p → I (Ref.World.actionPlayerAttack w i t p)) :
    I (Ref.World.playerProcessAction w i c) := by
  unfold Ref.World.playerProcessAction
  split
  · exact h
  · next p hp =>
    split
    · exact T.noAction h i
    · split
      · exact T.noAction h i
      · split
        · exact h
        · exact hnpc _ p hp
        · exact T.actionNpcTalk h i _ p c
        · split
          · exact T.actionDone h i
          · split
            · exact T.actionDone h i
            · exact h
        · exact hplayer _ p hp
        · split
          · exact T.actionDone h i
          · split
            · exact T.actionDone h i
            · exact h
        · split
          · exact T.actionDone h i
          · exact h
        · split
          · exact T.actionDone h i
          · exact h

theorem npcRandomWalk (T : Kept I) (h : I w) (j : Nat) (t : NpcTurn) :
    I (Ref.World.npcRandomWalk w j t) := by
  unfold Ref.World.npcRandomWalk
  split
  · exact h
  · split
    · exact h
    · exact T.light h fun _ => .still rfl rfl rfl rfl rfl

theorem npcWander (T : Kept I) (h : I w) (j : Nat) (t : NpcTurn) :
    I (Ref.World.npcWander w j t) := by
  unfold Ref.World.npcWander
  split
  · exact h
  · split
    · split
      · refine T.npcRandomWalk ?_ j t
        exact T.modifyNpc h fun n => ⟨rfl, rfl, rfl, rfl, .same n.mob⟩
      · exact h
    · exact T.modifyNpc h fun n => ⟨rfl, rfl, rfl, rfl, .same n.mob⟩

theorem scriptFace (T : Kept I) (h : I w) (i j : Nat) : I (Ref.World.scriptFace w i j) := by
  unfold Ref.World.scriptFace
  split
  · exact T.faceMob h _ _
  · exact h

theorem scriptNpcsay (T : Kept I) (h : I w) (j : Nat) : I (Ref.World.scriptNpcsay w j) := by
  unfold Ref.World.scriptNpcsay
  split
  · exact h
  · split
    · exact h
    · exact T.faceMob h _ _

theorem scriptNearvisnpc (T : Kept I) (h : I w) (i j : Nat) :
    I (Ref.World.scriptNearvisnpc w i j) := by
  unfold Ref.World.scriptNearvisnpc
  split
  · refine T.faceMob (T.faceMob ?_ _ _) _ _
    exact T.modifyNpc h fun n => ⟨rfl, rfl, rfl, rfl, .same n.mob⟩
  · exact h

theorem light_startWalk (m : Mob) (queue : List (Nat × Nat)) (actionWalk : Bool) :
    Light m (m.startWalk queue actionWalk) := by
  unfold Mob.startWalk
  split
  · exact .same m
  · exact .still rfl rfl rfl rfl rfl

theorem opWalkEntity (T : Kept I) (h : I w) (i : Nat) (queue : List (Nat × Nat)) :
    I (Ref.World.opWalkEntity w i queue) := by
  unfold Ref.World.opWalkEntity
  split
  · exact h
  · split
    · exact h
    · refine T.light ?_ fun m => light_startWalk m queue true
      refine T.light ?_ fun _ => .still rfl rfl rfl rfl rfl
      refine T.modifyPlayer ?_ fun p => ⟨rfl, .same p.mob⟩
      exact T.light h fun _ => .still rfl rfl rfl rfl rfl

theorem opFollowPlayer (T : Kept I) (h : I w) (i target : Nat) :
    I (Ref.World.opFollowPlayer w i target) := by
  unfold Ref.World.opFollowPlayer
  split
  · exact h
  · exact T.light h fun _ => .still rfl rfl rfl rfl rfl

/-! ## Functions with a walk

The walk is a hypothesis here. -/

theorem talk_mob?_any (v : Mob → Bool) (w : World) (j i : Nat) :
    ((w.modifyNpc j fun n => { n with talkTarget := i }).mob? (.npc j)).any v =
      (w.mob? (.npc j)).any v := by
  rw [mob?_npc, npcs_modifyNpc, if_pos rfl, mob?_npc]
  cases w.npcs j with
  | none => rfl
  | some n => rfl

theorem npcTalkReturn (T : Kept I) (h : I w) {i j x y : Nat} {result : Bool} {c : Chance}
    (hwalk : I (w.modifyNpc j fun n => { n with talkTarget := i }) → ∀ p, w.players i = some p →
      result = true → p.mob.x = x → p.mob.y = y →
      ((w.mob? (.npc j)).any fun m => m.x != (besideOf x y c.beside).1 ||
        m.y != (besideOf x y c.beside).2) = true →
      I (World.mobProcessWalkQueue ((w.modifyNpc j fun n => { n with talkTarget := i }).modify
        (.npc j) fun m => m.walkTo (besideOf x y c.beside).1 (besideOf x y c.beside).2)
        (.npc j) c.path)) :
    I (Ref.World.npcTalkReturn w i j x y result c) := by
  unfold Ref.World.npcTalkReturn
  split
  · exact h
  · next p hp =>
    split
    · exact T.light h fun m => Light.face m x y
    · next hresult =>
      have htalk : I (w.modifyNpc j fun n => { n with talkTarget := i }) :=
        T.modifyNpc h fun n => ⟨rfl, rfl, rfl, rfl, .same n.mob⟩
      dsimp only
      split
      · next htile =>
        refine T.light ?_ fun m => Light.face m _ _
        split
        · next haway =>
          refine hwalk htalk p hp (by simpa using hresult) htile.1 htile.2 ?_
          rwa [talk_mob?_any (fun m => m.x != (besideOf x y c.beside).1 ||
            m.y != (besideOf x y c.beside).2)] at haway
        · exact htalk
      · exact T.light htalk fun m => Light.face m x y

theorem npcWalkQueue {K : World → Prop} (T : Kept I) (hK : ∀ w, I w → K w) (h : I w)
    {j : Nat} {old : Option Zone}
    {t : NpcTurn} (hwalk : ∀ w, I w → K (Ref.World.npcWalk w j old t)) :
    K (Ref.World.npcWalkQueue w j old t) := by
  unfold Ref.World.npcWalkQueue
  split
  · exact hK _ h
  · split
    · exact hK _ h
    · refine hwalk _ ?_
      split
      · exact T.light h fun _ => .still rfl rfl rfl rfl rfl
      · exact h

end Kept

end Sundae.Proofs
