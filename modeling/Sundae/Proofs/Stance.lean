import Sundae.Proofs.Tamed

/-!
# The combat stance

A mob faces left or right in combat as long as the fight lasts, and the client
cannot be told of a step and a stance in one tick. Both are kept by every
function on every mob, except where one takes the stance without asking what
the other has done; those places are the condition of the result.
-/

namespace Sundae.Proofs

open Sundae.Lib Sundae.Ref.World
open Sundae.Ref (World Zone serverFindZone)

/-- Every mob has its stance, the players that moved have had their turn, and
while an NPC waits to start a fight no player has had one. -/
structure Poised (w : World) : Prop where
  stance : ∀ r m, w.mob? r = some m → Stance m
  walked : ∀ i m, w.mob? (.player i) = some m → m.moved = true → i ∈ w.walked
  npcInit : ∀ j i, .npcInit j i ∈ w.frames → w.walked = []

/-! ## One mob -/

theorem face_moved (m : Mob) (x y : Nat) : (m.face x y).moved = m.moved := by
  unfold Mob.face
  split
  · rfl
  · rfl

theorem stance_stepTo {m : Mob} (hm : Stance m) {x y : Nat} {dir : Dir}
    (hdir : dir.combat = false ∨ (x = m.x ∧ y = m.y)) : Stance (m.stepTo x y dir) := by
  unfold Mob.stepTo
  split
  · next hne =>
    have hdir : dir.combat = false := by
      rcases hdir with h | ⟨hx, hy⟩
      · exact h
      · exact absurd hne (by simp [hx, hy])
    refine ⟨fun h => ?_, fun _ => hdir⟩
    simp only [hdir] at h
    cases h
  · exact hm

theorem stance_takeStance {m : Mob} (hm : Stance m) {dir : Dir}
    (hcombat : m.dir.combat = false → m.moved = false → m.inCombat = true) :
    Stance (m.takeStance dir) := by
  unfold Mob.takeStance
  split
  · next h =>
    have hdir : m.dir.combat = false := by simpa using h.1
    have hmoved : m.moved = false := by simpa using h.2
    refine ⟨fun _ => hcombat hdir hmoved, fun h => ?_⟩
    simp only [hmoved] at h
    cases h
  · exact hm

theorem takeStance_moved (m : Mob) (dir : Dir) : (m.takeStance dir).moved = m.moved := by
  unfold Mob.takeStance
  split
  · rfl
  · rfl

/-! ## Writes to the tables -/

namespace Poised

variable {w : World}

/-- The rule the rest goes by. A mob may be moved by a write if it is an NPC or
has its turn. -/
theorem modify_moved (h : Poised w) {r : MobRef} {f : Mob → Mob}
    (hf : ∀ m, w.mob? r = some m → Stance m → Stance (f m))
    (hmoved : ∀ i, r = .player i → i ∈ w.walked ∨ ∀ m, (f m).moved = m.moved) :
    Poised (w.modify r f) := by
  have htables : (w.modify r f).walked = w.walked ∧ (w.modify r f).frames = w.frames := by
    cases r with
    | player i => exact ⟨rfl, rfl⟩
    | npc j => exact ⟨rfl, rfl⟩
  constructor
  · intro s m hs
    rw [mob?_modify] at hs
    split at hs
    · next heq =>
      subst heq
      obtain ⟨m₀, hm₀, rfl⟩ := Option.map_eq_some_iff.1 hs
      exact hf m₀ hm₀ (h.stance s m₀ hm₀)
    · exact h.stance s m hs
  · intro i m hs hm
    rw [htables.1]
    rw [mob?_modify] at hs
    split at hs
    · next heq =>
      obtain ⟨m₀, hm₀, rfl⟩ := Option.map_eq_some_iff.1 hs
      rcases hmoved i heq.symm with hin | hsame
      · exact hin
      · rw [hsame] at hm
        exact h.walked i m₀ hm₀ hm
    · exact h.walked i m hs hm
  · intro j i hin
    rw [htables.1]
    rw [htables.2] at hin
    exact h.npcInit j i hin

theorem modify (h : Poised w) {r : MobRef} {f : Mob → Mob}
    (hf : ∀ m, w.mob? r = some m → Stance m → Stance (f m))
    (hmoved : ∀ m, (f m).moved = m.moved) : Poised (w.modify r f) :=
  h.modify_moved hf fun _ _ => .inr hmoved

/-- Another write to the tables, the mobs' stances and what has been walked
left alone. -/
theorem of_same {w' : World} (h : Poised w)
    (hmob : ∀ r m', w'.mob? r = some m' → ∃ m, w.mob? r = some m ∧ Calm m m')
    (hwalked : w'.walked = w.walked) (hframes : w'.frames = w.frames) : Poised w' := by
  constructor
  · intro r m' hr
    obtain ⟨m, hm, hsame⟩ := hmob r m' hr
    exact hsame.stance (h.stance r m hm)
  · intro i m' hr hmoved
    obtain ⟨m, hm, hsame⟩ := hmob _ m' hr
    rw [hwalked]
    exact h.walked i m hm (hsame.moved ▸ hmoved)
  · intro j i hin
    rw [hwalked]
    exact h.npcInit j i (hframes ▸ hin)

theorem modifyPlayer (h : Poised w) {i : Nat} {f : Player → Player}
    (hf : ∀ p, Calm p.mob (f p).mob) : Poised (w.modifyPlayer i f) := by
  refine h.of_same (fun r m' hr => ?_) rfl rfl
  cases r with
  | player k =>
      rw [mob?_player, players_modifyPlayer] at hr
      split at hr
      · obtain ⟨p', hp', rfl⟩ := Option.map_eq_some_iff.1 hr
        obtain ⟨p, hp, rfl⟩ := Option.map_eq_some_iff.1 hp'
        exact ⟨p.mob, by simp [hp], hf p⟩
      · exact ⟨m', hr, .same m'⟩
  | npc k => exact ⟨m', hr, .same m'⟩

theorem modifyNpc (h : Poised w) {j : Nat} {f : Npc → Npc}
    (hf : ∀ n, Calm n.mob (f n).mob) : Poised (w.modifyNpc j f) := by
  refine h.of_same (fun r m' hr => ?_) rfl rfl
  cases r with
  | player k => exact ⟨m', hr, .same m'⟩
  | npc k =>
      rw [mob?_npc, npcs_modifyNpc] at hr
      split at hr
      · obtain ⟨n', hn', rfl⟩ := Option.map_eq_some_iff.1 hr
        obtain ⟨n, hn, rfl⟩ := Option.map_eq_some_iff.1 hn'
        exact ⟨n.mob, by simp [hn], hf n⟩
      · exact ⟨m', hr, .same m'⟩

/-- The zones' lists do not matter. -/
theorem of_tables {w' : World} (h : Poised w) (hplayers : w'.players = w.players)
    (hnpcs : w'.npcs = w.npcs) (hwalked : w'.walked = w.walked)
    (hframes : w'.frames = w.frames) : Poised w' := by
  refine h.of_same (fun r m' hr => ?_) hwalked hframes
  cases r with
  | player k =>
      rw [mob?_player, hplayers] at hr
      exact ⟨m', hr, .same m'⟩
  | npc k =>
      rw [mob?_npc, hnpcs] at hr
      exact ⟨m', hr, .same m'⟩

/-- A mob that is taken away. -/
theorem remove {w' : World} (h : Poised w)
    (hmob : ∀ r m, w'.mob? r = some m → w.mob? r = some m ∨ m.moved = false ∧ m.dir = .north)
    (hwalked : w'.walked = w.walked) (hframes : w'.frames = w.frames) : Poised w' := by
  constructor
  · intro r m hr
    rcases hmob r m hr with hold | ⟨hmoved, hdir⟩
    · exact h.stance r m hold
    · constructor
      · rw [hdir]
        exact fun h => by cases h
      · rw [hdir]
        exact fun _ => rfl
  · intro i m hr hm
    rw [hwalked]
    rcases hmob _ m hr with hold | ⟨hmoved, -⟩
    · exact h.walked i m hold hm
    · rw [hmoved] at hm
      cases hm
  · intro j i hin
    rw [hwalked]
    exact h.npcInit j i (hframes ▸ hin)

/-- A hook other than that of an NPC about to fight. -/
theorem push (h : Poised w) {frame : Frame} (hframe : ∀ j i, frame ≠ .npcInit j i) :
    Poised { w with frames := frame :: w.frames } := by
  refine ⟨h.stance, h.walked, fun j i hin => ?_⟩
  rcases List.mem_cons.1 hin with heq | hin
  · exact absurd heq.symm (hframe j i)
  · exact h.npcInit j i hin

theorem blind : Blind Poised where
  modify h hf := h.modify (fun m _ => (hf m).stance) fun m => (hf m).moved
  modifyPlayer h hf := h.modifyPlayer hf
  modifyNpc h hf := h.modifyNpc fun n => (hf n).2.2.2.2
  push h hframe := h.push hframe
  zones h hplayers hnpcs hframes hwalked := h.of_tables hplayers hnpcs hwalked hframes

theorem tamed : Tamed Poised := blind.tamed

/-! ## mob.c -/

/-- A mob takes a step only in its turn. -/
theorem mobTakeStep (h : Poised w) {r : MobRef} {m : Mob} (hm : w.mob? r = some m)
    (hturn : ∀ i, r = .player i → i ∈ w.walked) (path : Path) :
    Poised (World.mobTakeStep w r m path) := by
  have hstep : ∀ {f : Mob → Mob} {x y : Nat} {dir : Dir},
      (∀ m, Calm m (f m) ∧ (f m).x = m.x ∧ (f m).y = m.y) →
      (dir.combat = false ∨ (x = m.x ∧ y = m.y)) →
      Poised (w.modify r fun m => (f m).stepTo x y dir) := by
    intro f x y dir hf hdir
    refine h.modify_moved (fun m' hm' hstance => ?_) fun i hi => .inl (hturn i hi)
    obtain rfl := Option.some.inj (hm.symm.trans hm')
    obtain ⟨hsame, hx, hy⟩ := hf m
    refine stance_stepTo (hsame.stance hstance) ?_
    rw [hx, hy]
    exact hdir
  have hdir := mobNextStep_dir m.x m.y m.dir (m.walkQueue.getD m.walkQueuePos (0, 0)).1
    (m.walkQueue.getD m.walkQueuePos (0, 0)).2
  unfold World.mobTakeStep
  generalize m.walkQueue.getD m.walkQueuePos (0, 0) = tile at hdir
  obtain ⟨tx, ty⟩ := tile
  simp only at hdir ⊢
  generalize mobNextStep m.x m.y m.dir tx ty = next at hdir
  obtain ⟨x, y, dir⟩ := next
  have hdir : dir.combat = false ∨ (x = m.x ∧ y = m.y) := by
    rcases hdir with hd | heq
    · exact .inl hd
    · simp only [Prod.mk.injEq] at heq
      exact .inr ⟨heq.1, heq.2.1⟩
  simp only
  split
  · exact blind.modify h fun _ => .still rfl rfl rfl
  · split
    · exact tamed.mobBlocked h r m
    · split
      · split
        · refine h.modify (fun m _ hstance => ?_) fun m => face_moved _ _ _
          have hclear : Stance m.clearQueue := ⟨hstance.fighting, hstance.standing⟩
          exact stance_face hclear x y
        · exact hstep (f := fun m => { m with walkQueuePos := m.walkQueuePos + 1 })
            (fun _ => ⟨.still rfl rfl rfl, rfl, rfl⟩) hdir
      · exact hstep (f := id) (fun _ => ⟨.still rfl rfl rfl, rfl, rfl⟩) hdir

end Poised

/-- Following somebody leaves the turns alone. -/
theorem mobFollow_walked {w w' : World} {r : MobRef} {m : Mob}
    (hw : mobFollow w r m = some w') : w'.walked = w.walked := by
  have hmodify : ∀ f, (w.modify r f).walked = w.walked := by
    intro f
    cases r with
    | player i => rfl
    | npc j => rfl
  have hchase : ∀ {following : Mob}, mobChase w r m following = some w' →
      w'.walked = w.walked := by
    intro following h
    unfold mobChase at h
    split at h
    · cases h
    · split at h
      · exact Option.some.inj h ▸ rfl
      · exact Option.some.inj h ▸ hmodify _
  unfold mobFollow at hw
  split at hw
  · split at hw
    · exact hchase hw
    · exact Option.some.inj hw ▸ hmodify _
  · split at hw
    · split at hw
      · exact hchase hw
      · exact Option.some.inj hw ▸ hmodify _
    · exact Option.some.inj hw ▸ rfl

namespace Poised

variable {w : World}

theorem mobProcessWalkQueue (h : Poised w) {r : MobRef}
    (hturn : ∀ i, r = .player i → i ∈ w.walked) (path : Path) :
    Poised (World.mobProcessWalkQueue w r path) := by
  unfold World.mobProcessWalkQueue
  split
  · exact h
  · split
    · exact blind.modify h fun _ => .still rfl rfl rfl
    · split
      · exact h
      · next w' hw' =>
        have h' := tamed.mobFollow h hw'
        split
        · exact h'
        · next m hm =>
          refine h'.mobTakeStep hm (fun i hi => ?_) path
          rw [mobFollow_walked hw']
          exact hturn i hi

/-! ## player.c -/

theorem playerProcessMovement (h : Poised w) {i : Nat} (hturn : i ∈ w.walked) (path : Path) :
    Poised (Ref.World.playerProcessMovement w i path) := by
  unfold Ref.World.playerProcessMovement
  split
  · exact h
  · refine blind.playerMoved (h.mobProcessWalkQueue ?_ path) _ _ _
    intro k hk
    cases hk
    exact hturn

/-! ## The death of an NPC -/

theorem npcAward (h : Poised w) (j : Nat) (p : Option Nat) :
    Poised (Ref.World.npcAward w j p) :=
  h.modifyNpc fun _ => .still rfl rfl rfl

theorem npcToSpawn (h : Poised w) (j : Nat) : Poised (Ref.World.npcToSpawn w j) := by
  unfold Ref.World.npcToSpawn
  split
  · exact h
  · refine blind.npcZones (h.modifyNpc fun _ => ?_) j _ _
    exact .still rfl rfl rfl

theorem npcDieEnd (h : Poised w) (j : Nat) (p : Option Nat) :
    Poised (Ref.World.npcDieEnd w j p) :=
  (tamed.npcLetGo (tamed.mobDie (h.npcAward j p) _) j p).npcToSpawn j

theorem npcDieReturn (h : Poised w) (j i : Nat) (melee result : Bool) :
    Poised (Ref.World.npcDieReturn w j i melee result) := by
  unfold Ref.World.npcDieReturn
  split
  · exact h
  · split
    · exact tamed.afterHit h j _ melee
    · have hdrop : Poised (w.modifyNpc j fun n => { n with drops := n.drops + 1 }) :=
        h.modifyNpc fun _ => .still rfl rfl rfl
      simp only
      split
      · exact tamed.afterHit hdrop j _ melee
      · exact tamed.afterHit (hdrop.npcDieEnd j _) j _ melee

theorem npcDamage (h : Poised w) {j : Nat} {p : Option Nat} {roll : Nat} {melee : Bool}
    {w' : World} (hw : Ref.World.npcDamage w j p roll melee = .ok w') : Poised w' :=
  tamed.npcDamage (fun _ h => h) h (h.modifyNpc fun n => .same n.mob)
    (fun _ h => h.npcDieEnd j none) hw

theorem playerShootPvm (h : Poised w) {i j : Nat} {projectile : Projectile} {c : Chance}
    {w' : World} (hw : Ref.World.playerShootPvm w i projectile j c = .ok w') : Poised w' :=
  tamed.playerShootPvm (fun _ h => h) h (fun _ _ _ _ _ h hw => h.npcDamage hw) hw

end Poised

/-- `player_init_combat` would take the attacker into the fight: the target is
free, near and within reach. -/
def WithinGrasp (m target : Mob) (c : Chance) : Prop :=
  target.inCombat = false ∧ m.withinRange target.x target.y 3 = true ∧ c.reachable = true

/-- `player_init_combat` does not take its stance next to a target that has
just stepped there. -/
def CloseSafe (m target : Mob) (c : Chance) : Prop :=
  ¬ (WithinGrasp m target c ∧ m.x = target.x ∧ m.y = target.y ∧ target.moved = true)

/-- A mob that takes its stance and is not yet in the fight; it has not moved. -/
structure Closing (a : MobRef) (w : World) : Prop where
  others : ∀ r m, r ≠ a → w.mob? r = some m → Stance m
  still : ∀ m, w.mob? a = some m → m.moved = false
  walked : ∀ i m, w.mob? (.player i) = some m → m.moved = true → i ∈ w.walked
  npcInit : ∀ j i, .npcInit j i ∈ w.frames → w.walked = []

namespace Closing

variable {a : MobRef} {w : World}

theorem start (h : Poised w) (hstill : ∀ m, w.mob? a = some m → m.moved = false) :
    Closing a w :=
  ⟨fun r m _ => h.stance r m, hstill, h.walked, h.npcInit⟩

/-- Others may be written to as long as their stance stays, and the mob itself
as long as it does not move. -/
theorem modify (h : Closing a w) {r : MobRef} {f : Mob → Mob}
    (hf : ∀ m, (f m).moved = m.moved) (hsame : r ≠ a → ∀ m, Calm m (f m)) :
    Closing a (w.modify r f) := by
  have htables : (w.modify r f).walked = w.walked ∧ (w.modify r f).frames = w.frames := by
    cases r with
    | player i => exact ⟨rfl, rfl⟩
    | npc j => exact ⟨rfl, rfl⟩
  have hmoved : ∀ s, ((w.modify r f).mob? s).map Mob.moved = (w.mob? s).map Mob.moved :=
    fun s => map_mob?_modify w r s hf
  have hback : ∀ s m', (w.modify r f).mob? s = some m' →
      ∃ m, w.mob? s = some m ∧ m.moved = m'.moved := by
    intro s m' hs
    have := hmoved s
    rw [hs] at this
    exact Option.map_eq_some_iff.1 this.symm
  constructor
  · intro s m hne hs
    rw [mob?_modify] at hs
    split at hs
    · next heq =>
      subst heq
      obtain ⟨m₀, hm₀, rfl⟩ := Option.map_eq_some_iff.1 hs
      exact (hsame hne m₀).stance (h.others s m₀ hne hm₀)
    · exact h.others s m hne hs
  · intro m' hs
    obtain ⟨m, hm, heq⟩ := hback a m' hs
    rw [← heq]
    exact h.still m hm
  · intro i m' hs hm'
    obtain ⟨m, hm, heq⟩ := hback _ m' hs
    rw [htables.1]
    exact h.walked i m hm (heq.trans hm')
  · intro j i hin
    rw [htables.1]
    rw [htables.2] at hin
    exact h.npcInit j i hin

theorem modifyPlayer (h : Closing a w) {i : Nat} {f : Player → Player}
    (hf : ∀ p, Calm p.mob (f p).mob) : Closing a (w.modifyPlayer i f) := by
  have hback : ∀ s m', (w.modifyPlayer i f).mob? s = some m' →
      ∃ m, w.mob? s = some m ∧ Calm m m' := by
    intro s m' hs
    cases s with
    | player k =>
        rw [mob?_player, players_modifyPlayer] at hs
        split at hs
        · obtain ⟨p', hp', rfl⟩ := Option.map_eq_some_iff.1 hs
          obtain ⟨p, hp, rfl⟩ := Option.map_eq_some_iff.1 hp'
          exact ⟨p.mob, by simp [hp], hf p⟩
        · exact ⟨m', hs, Calm.same m'⟩
    | npc k => exact ⟨m', hs, Calm.same m'⟩
  constructor
  · intro s m' hne hs
    obtain ⟨m, hm, hsame⟩ := hback s m' hs
    exact hsame.stance (h.others s m hne hm)
  · intro m' hs
    obtain ⟨m, hm, hsame⟩ := hback a m' hs
    rw [hsame.moved]
    exact h.still m hm
  · intro k m' hs hm'
    obtain ⟨m, hm, hsame⟩ := hback _ m' hs
    exact h.walked k m hm (hsame.moved ▸ hm')
  · exact h.npcInit

/-- The fight begins, and the stance is one. -/
theorem fight (h : Closing a w) {f : Mob → Mob} (hcombat : ∀ m, (f m).inCombat = true)
    (hmoved : ∀ m, (f m).moved = m.moved) : Poised (w.modify a f) := by
  have h' := h.modify (r := a) hmoved fun hne => absurd rfl hne
  refine ⟨fun r m hr => ?_, h'.walked, h'.npcInit⟩
  by_cases hra : r = a
  · subst hra
    have hstill := h'.still m hr
    rw [mob?_modify, if_pos rfl] at hr
    obtain ⟨m₀, hm₀, rfl⟩ := Option.map_eq_some_iff.1 hr
    refine ⟨fun _ => hcombat m₀, fun hm => ?_⟩
    rw [hstill] at hm
    cases hm
  · exact h'.others r m hra hr

end Closing

theorem close_moved (m target : Mob) : (m.close target).moved = m.moved := by
  unfold Mob.close
  split
  · rfl
  · rfl

namespace Poised

variable {w : World}

/-- What is done before the target's step is looked at leaves every step as it
was. -/
theorem initClose_moved (w : World) (i : Nat) (r s : MobRef) (target : Mob) :
    ((Ref.World.initClose w i r target).mob? s).map Mob.moved = (w.mob? s).map Mob.moved := by
  unfold Ref.World.initClose
  dsimp only
  rw [map_mob?_modifyPlayer, map_mob?_modify, map_mob?_modify, map_mob?_modify]
  · exact fun m => close_moved m target
  · exact fun _ => rfl
  · exact fun _ => rfl
  · exact fun _ => rfl

theorem initClose_closing (h : Poised w) {i : Nat} (hturn : i ∉ w.walked) (r : MobRef)
    (target : Mob) : Closing (.player i) (Ref.World.initClose w i r target) := by
  have hstart : Closing (.player i) w := Closing.start h fun m hm => by
    by_contra hne
    exact hturn (h.walked i m hm (by simpa using hne))
  unfold Ref.World.initClose
  refine Closing.modifyPlayer ?_ fun _ => .still rfl rfl rfl
  refine Closing.modify ?_ (fun _ => rfl) fun _ _ => .still rfl rfl rfl
  refine Closing.modify ?_ (fun _ => rfl) fun _ _ => .still rfl rfl rfl
  exact hstart.modify (fun m => close_moved m target) fun hne => absurd rfl hne

/-- Running at a target on another tile is no stance. -/
theorem initClose_away (h : Poised w) {i : Nat} {m target : Mob}
    (hm : w.mob? (.player i) = some m) (haway : ¬ (m.x = target.x ∧ m.y = target.y))
    (r : MobRef) : Poised (Ref.World.initClose w i r target) := by
  unfold Ref.World.initClose
  refine Poised.modifyPlayer ?_ fun _ => .still rfl rfl rfl
  refine blind.modify ?_ fun _ => .still rfl rfl rfl
  refine blind.modify ?_ fun _ => .still rfl rfl rfl
  refine h.modify (fun m' hm' hstance => ?_) fun m => close_moved m target
  obtain rfl := Option.some.inj (hm.symm.trans hm')
  rw [Mob.close, if_neg haway]
  exact ⟨hstance.fighting, hstance.standing⟩

theorem initLock (h : Closing (.player i) w) {r : MobRef}
    (hstill : ∀ m, w.mob? r = some m → m.moved = false) :
    Poised (Ref.World.initLock w i r) := by
  unfold Ref.World.initLock
  have hfight : Poised (w.modify (.player i) fun m =>
      { m with inCombat := true, combatNextHit := 0, combatRounds := 0 }) :=
    h.fight (fun _ => rfl) fun _ => rfl
  refine hfight.modify (fun m hm _ => ?_) fun _ => rfl
  have hmoved : m.moved = false := by
    rw [mob?_modify] at hm
    split at hm
    · obtain ⟨m₀, hm₀, rfl⟩ := Option.map_eq_some_iff.1 hm
      exact hstill m₀ hm₀
    · exact hstill m hm
  refine ⟨fun _ => rfl, fun hm' => ?_⟩
  have hm'' : m.moved = true := hm'
  rw [hmoved] at hm''
  cases hm''

/-- The attacker's stance comes before the target's step is looked at, so this
needs the target not to have stepped onto its tile. -/
theorem playerInitCombat (h : Poised w) {i : Nat} {r : MobRef} {c : Chance}
    (hturn : i ∉ w.walked)
    (hsafe : ∀ m target, w.mob? (.player i) = some m → w.mob? r = some target →
      CloseSafe m target c)
    {w' : World} {caught : Bool}
    (hw : Ref.World.playerInitCombat w i r c = (w', caught)) : Poised w' := by
  have hfst : (Ref.World.playerInitCombat w i r c).1 = w' := by rw [hw]
  subst hfst
  unfold Ref.World.playerInitCombat
  split
  · next m target hm htarget =>
    split
    · dsimp only
      exact h.modify (fun m _ _ => stance_combatReset m.clearQueue) fun _ => rfl
    · next hfree =>
      split
      · exact h
      · next hnear =>
        split
        · dsimp only
          split
          · exact tamed.combatReset h _
          · exact h
        · next hreach =>
          have hmoved := initClose_moved w i r r target
          rw [htarget] at hmoved
          dsimp only
          split
          · next hstep =>
            have htm : target.moved = true := by
              obtain ⟨t, ht, hmv⟩ := (Option.any_eq_true _ _).1 hstep
              rw [ht] at hmoved
              exact (Option.some.inj hmoved).symm.trans hmv
            refine h.initClose_away hm (fun hsame => ?_) r
            refine hsafe m target hm htarget ⟨⟨?_, ?_, ?_⟩, hsame.1, hsame.2, htm⟩
            · simpa using hfree
            · simpa using hnear
            · simpa using hreach
          · next hstep =>
            refine initLock (h.initClose_closing hturn r target) fun t ht => ?_
            rw [ht] at hstep
            simpa using hstep
  · exact h

theorem playerAttackPlayer (h : Poised w) {i t : Nat} {c : Chance} (hturn : i ∉ w.walked)
    (hsafe : ∀ p target, w.players i = some p → w.players t = some target →
      p.projectile = none → c.wild = true → target.mob.combatTimer + 6 ≤ w.tick →
      CloseSafe p.mob target.mob c) : Poised (Ref.World.playerAttackPlayer w i t c) := by
  unfold Ref.World.playerAttackPlayer
  split
  · next p target hp htarget =>
    split
    · exact blind.modify h fun _ => .still rfl rfl rfl
    · next hwild =>
      split
      · exact tamed.playerShootPvp h i _ t c
      · next hproj =>
        split
        · exact h.modify (fun m _ _ => stance_combatReset m.clearQueue) fun _ => rfl
        · next htimer =>
          cases hinit : Ref.World.playerInitCombat w i (.player t) c with
          | mk w₁ caught =>
              have h₁ : Poised w₁ := by
                refine h.playerInitCombat hturn (fun m n hm hn => ?_) hinit
                simp only [mob?_player, hp, htarget, Option.map_some, Option.some.injEq] at hm hn
                subst hm hn
                exact hsafe p target hp htarget hproj (by simpa using hwild) (by omega)
              dsimp only
              split
              · exact tamed.playerFollow h₁ i _ fun _ => .still rfl rfl rfl rfl rfl
              · refine blind.modify ?_ fun _ => .still rfl rfl rfl
                refine Poised.modifyPlayer ?_ fun _ => .still rfl rfl rfl
                exact blind.modify h₁ fun _ => .still rfl rfl rfl
  · exact tamed.combatReset h _
  · exact h

theorem playerAttackNpc (h : Poised w) {i j : Nat} {c : Chance} (hturn : i ∉ w.walked)
    (hsafe : ∀ p target, w.players i = some p → w.npcs j = some target →
      p.projectile = none → CloseSafe p.mob target.mob c)
    {w' : World} (hw : Ref.World.playerAttackNpc w i j c = .ok w') : Poised w' := by
  unfold Ref.World.playerAttackNpc at hw
  split at hw
  · next p target hp htarget =>
    split at hw
    · exact h.playerShootPvm hw
    · next hproj =>
      cases hinit : Ref.World.playerInitCombat w i (.npc j) c with
      | mk w₁ caught =>
          have h₁ : Poised w₁ := by
            refine h.playerInitCombat hturn (fun m n hm hn => ?_) hinit
            simp only [mob?_player, mob?_npc, hp, htarget, Option.map_some,
              Option.some.injEq] at hm hn
            subst hm hn
            exact hsafe p target hp htarget hproj
          rw [hinit] at hw
          dsimp only at hw
          split at hw
          · refine Except.ok.inj hw ▸ tamed.playerFollow h₁ i _ fun _ => ?_
            exact .still rfl rfl rfl rfl rfl
          · refine Except.ok.inj hw ▸ blind.modify (blind.modify h₁ fun _ => ?_) fun _ => ?_
            · exact .still rfl rfl rfl
            · exact .still rfl rfl rfl
  · exact Except.ok.inj hw ▸ tamed.combatReset h _
  · exact Except.ok.inj hw ▸ h

/-- The one that fights takes its stance, and then its opponent, which has to
be in the fight itself. -/
theorem playerFightPlayer (h : Poised w) {i t : Nat} {c : Chance}
    (hcombat : ∀ m, w.mob? (.player i) = some m → m.inCombat = true)
    (hsafe : ∀ p target, w.players i = some p → w.players t = some target →
      p.mob.x = target.mob.x ∧ p.mob.y = target.mob.y → target.mob.dir.combat = false →
      target.mob.moved = false → target.mob.inCombat = true) :
    Poised (Ref.World.playerFightPlayer w i t c) := by
  unfold Ref.World.playerFightPlayer
  split
  · next p target hp htarget =>
    split
    · exact h
    · next htile =>
      have hp₁ : Poised (w.modify (.player i) fun m => m.takeStance .combatRight) :=
        h.modify (fun m hm hstance => stance_takeStance hstance fun _ _ => hcombat m hm)
          fun m => takeStance_moved m _
      have hp₂ : Poised ((w.modify (.player i) fun m => m.takeStance .combatRight).modify
          (.player t) fun m => m.takeStance .combatLeft) := by
        refine hp₁.modify (fun m hm hstance => stance_takeStance hstance fun hdir hmoved => ?_)
          fun m => takeStance_moved m _
        rw [mob?_modify] at hm
        split at hm
        · obtain ⟨m₀, hm₀, rfl⟩ := Option.map_eq_some_iff.1 hm
          have hin : m₀.inCombat = true := by
            next heq =>
            rw [heq] at hm₀
            exact hcombat m₀ hm₀
          unfold Mob.takeStance
          split
          · exact hin
          · exact hin
        · simp only [mob?_player, htarget, Option.map_some, Option.some.injEq] at hm
          subst hm
          exact hsafe p target hp htarget (by simpa [not_or] using htile) hdir hmoved
      dsimp only
      split
      · exact blind.modify hp₂ fun _ => .still rfl rfl rfl
      · refine blind.modify ?_ fun _ => .still rfl rfl rfl
        refine blind.modify ?_ fun _ => .still rfl rfl rfl
        exact tamed.playerDamage hp₂ t _ _
  · exact tamed.combatReset h _
  · exact h

/-- Here neither is asked whether it has moved. -/
theorem playerFightNpc (h : Poised w) {i j : Nat} {c : Chance} (hturn : i ∉ w.walked)
    (hcombat : ∀ m, w.mob? (.player i) = some m → m.inCombat = true)
    (hsafe : ∀ p target, w.players i = some p → w.npcs j = some target →
      p.mob.x = target.mob.x ∧ p.mob.y = target.mob.y → p.mob.dir.combat = false →
      target.mob.moved = false ∧ target.mob.inCombat = true)
    {w' : World} (hw : Ref.World.playerFightNpc w i j c = .ok w') : Poised w' := by
  unfold Ref.World.playerFightNpc at hw
  split at hw
  · next p target hp htarget =>
    split at hw
    · exact Except.ok.inj hw ▸ h
    · next htile =>
      have hstances : Poised (if !p.mob.dir.combat then
          (w.modify (.player i) fun m => { m with dir := .combatRight }).modify (.npc j)
            fun m => { m with dir := .combatLeft }
          else w) := by
        split
        · next hdir =>
          obtain ⟨hstill, hin⟩ := hsafe p target hp htarget (by simpa [not_or] using htile)
            (by simpa using hdir)
          have hp₁ : Poised (w.modify (.player i) fun m => { m with dir := .combatRight }) := by
            refine h.modify (fun m hm _ => ⟨fun _ => hcombat m hm, fun hm' => ?_⟩) fun _ => rfl
            exact absurd (h.walked i m hm hm') hturn
          refine hp₁.modify (fun m hm _ => ?_) fun _ => rfl
          rw [mob?_modify, if_neg (by simp)] at hm
          simp only [mob?_npc, htarget, Option.map_some, Option.some.injEq] at hm
          subst hm
          refine ⟨fun _ => hin, fun hm' => ?_⟩
          have hm'' : target.mob.moved = true := hm'
          rw [hstill] at hm''
          cases hm''
        · exact h
      dsimp only at hw
      split at hw
      · refine Except.ok.inj hw ▸ blind.modify hstances fun _ => ?_
        exact .still rfl rfl rfl
      · exact hstances.npcDamage hw
  · exact Except.ok.inj hw ▸ tamed.combatReset h _
  · exact Except.ok.inj hw ▸ h

end Poised

end Sundae.Proofs
