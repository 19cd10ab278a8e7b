import Sundae.Lib.Approach
import Sundae.Proofs.World
import Sundae.Ref.Collision

/-!
# What is reachable is walked to

`mob_check_reachable` walks in its head: it takes the steps `mob_next_step` gives
until it is there or one of them is stopped. `mob_process_walk_queue` takes them
one at a time. `walks_iff_reachable` says that they agree: the first ends, with
true if and only if no step of the way is stopped, and a mob that has nothing
else to do is at its target in as many runs of the second as there are steps if
and only if the first says so.
-/

namespace Sundae.Proofs

open Sundae.Lib Sundae.Ref Sundae.Ref.World

/-- Whether a step is stopped, as `mob_check_collision` has it: from where, to
where and in which direction. -/
abbrev Collision := Nat → Nat → Nat → Nat → Dir → Bool

/-- The direction of a step from one tile toward another. -/
def heading (curX curY x y : Nat) : Dir :=
  if curX < x then
    if curY < y then .southwest else if y < curY then .northwest else .west
  else if x < curX then
    if curY < y then .southeast else if y < curY then .northeast else .east
  else if curY < y then .south else .north

/-- The step from a tile toward `(x, y)` is not stopped. -/
def StepFree (collision : Collision) (x y curX curY : Nat) : Prop :=
  collision curX curY (toward curX x 1) (toward curY y 1) (heading curX curY x y) = false

/-- No step on the way to `(x, y)` is stopped, from the tile where it is taken. -/
def WayFree (collision : Collision) (x y curX curY : Nat) : Prop :=
  ∀ k < legs curX curY x y, StepFree collision x y (toward curX x k) (toward curY y k)

instance (collision : Collision) (x y curX curY : Nat) :
    Decidable (StepFree collision x y curX curY) :=
  inferInstanceAs (Decidable (_ = _))

instance (collision : Collision) (x y curX curY : Nat) :
    Decidable (WayFree collision x y curX curY) :=
  inferInstanceAs (Decidable (∀ k < legs curX curY x y, _))

theorem mobNextStep_toward {curX curY x y : Nat} (hne : ¬ (curX = x ∧ curY = y)) (dir : Dir) :
    mobNextStep curX curY dir x y = (toward curX x 1, toward curY y 1, heading curX curY x y) := by
  unfold mobNextStep heading toward
  grind

/-! ## The walk in the head -/

variable {collision : Collision} {x y curX curY : Nat}

theorem wayFree_there : WayFree collision x y x y := by
  intro k hk
  rw [legs_eq_zero_iff.2 ⟨rfl, rfl⟩] at hk
  exact absurd hk (Nat.not_lt_zero k)

theorem wayFree_iff (hne : ¬ (curX = x ∧ curY = y)) : WayFree collision x y curX curY ↔
    StepFree collision x y curX curY ∧
      WayFree collision x y (toward curX x 1) (toward curY y 1) :=
  forall_legs_iff hne

/-- With enough turns the loop is through, and says whether the way is free. -/
theorem reachableLoop_eq (turns : Nat) (dir : Dir) (hturns : legs curX curY x y ≤ turns) :
    reachableLoop collision x y turns curX curY dir =
      some (decide (WayFree collision x y curX curY)) := by
  induction turns generalizing curX curY dir with
  | zero =>
      obtain ⟨rfl, rfl⟩ := legs_eq_zero_iff.1 (Nat.le_zero.1 hturns)
      simp [reachableLoop, wayFree_there]
  | succ turns ih =>
      rw [reachableLoop]
      by_cases hthere : curX = x ∧ curY = y
      · obtain ⟨rfl, rfl⟩ := hthere
        simp [wayFree_there]
      · rw [if_neg hthere, mobNextStep_toward hthere]
        dsimp only
        have hnext : legs (toward curX x 1) (toward curY y 1) x y ≤ turns := by
          rw [legs_toward]
          omega
        rw [ih _ hnext]
        split
        next hstop => simp [wayFree_iff hthere, StepFree, hstop]
        next hfree => simp [wayFree_iff hthere, StepFree, hfree]

/-! ## The walk -/

/-- What the map says of the step that `mob_process_walk_queue` is about to take;
`occupied` is whether someone is on the tile. -/
def pathOf (collision : Collision) (occupied : World → Bool) (w : World) (r : MobRef) : Path :=
  match (w.mob? r).bind fun m => (mobFollow w r m).bind (·.mob? r) with
  | none => {}
  | some m =>
    let (tx, ty) := m.walkQueue.getD m.walkQueuePos (0, 0)
    let (x, y, dir) := mobNextStep m.x m.y m.dir tx ty
    ⟨collision m.x m.y x y dir, occupied w⟩

/-- `n` runs of `mob_process_walk_queue`, one after another. -/
def walkRuns (collision : Collision) (occupied : World → Bool) (r : MobRef) : Nat → World → World
  | 0, w => w
  | n + 1, w =>
    walkRuns collision occupied r n (mobProcessWalkQueue w r (pathOf collision occupied w r))

def position (w : World) (r : MobRef) : Option (Nat × Nat) := (w.mob? r).map fun m => (m.x, m.y)

/-- The mob neither fights nor follows. -/
structure Unengaged (m : World.Mob) : Prop where
  combat : m.inCombat = false
  player : m.followingPlayer = none
  npc : m.followingNpc = none

/-- The mob has nothing to do but go to `(x, y)`, which is the last leg of its
queue, and nobody on the tile keeps it off. -/
structure OnlyLeg (r : MobRef) (m : World.Mob) (x y : Nat) : Prop extends Unengaged m where
  passes : r.isNpc = true ∨ m.actionWalk = true
  leg : m.walkQueue[m.walkQueuePos]? = some (x, y)
  last : m.walkQueuePos + 1 = m.walkQueueLen

variable {w : World} {r : MobRef} {m : World.Mob} {occupied : World → Bool}

theorem mobFollow_nobody (h : Unengaged m) : mobFollow w r m = some w := by
  unfold mobFollow
  rw [h.player, h.npc]

/-- A mob at peace takes the next step of its queue. -/
theorem mobProcessWalkQueue_peace (hm : w.mob? r = some m) (h : Unengaged m) (path : Path) :
    mobProcessWalkQueue w r path = mobTakeStep w r m path := by
  unfold mobProcessWalkQueue
  simp [hm, h.combat, mobFollow_nobody h]

theorem pathOf_peace (hm : w.mob? r = some m) (h : Unengaged m)
    (hleg : m.walkQueue[m.walkQueuePos]? = some (x, y)) (hne : ¬ (m.x = x ∧ m.y = y)) :
    pathOf collision occupied w r =
      ⟨collision m.x m.y (toward m.x x 1) (toward m.y y 1) (heading m.x m.y x y), occupied w⟩ := by
  unfold pathOf
  simp [hm, mobFollow_nobody h, List.getD, hleg, mobNextStep_toward hne]

/-- What is left of a walk that was stopped. -/
structure Stopped (m : World.Mob) (x y : Nat) : Prop extends Unengaged m where
  x_eq : m.x = x
  y_eq : m.y = y
  queue : m.remaining = 0

theorem position_stopped {n : Nat} (hm : w.mob? r = some m) (h : Stopped m x y) :
    position (walkRuns collision occupied r n w) r = some (x, y) := by
  induction n generalizing w m with
  | zero => simp [walkRuns, position, hm, h.x_eq, h.y_eq]
  | succ n ih =>
      rw [walkRuns, mobProcessWalkQueue_peace hm h.toUnengaged, mobTakeStep, if_pos h.queue]
      have hnext : (w.modify r World.Mob.clearQueue).mob? r = some m.clearQueue := by
        rw [mob?_modify, if_pos rfl, hm, Option.map_some]
      exact ih hnext ⟨⟨h.combat, h.player, h.npc⟩, h.x_eq, h.y_eq, rfl⟩

theorem remaining_ne_zero (h : OnlyLeg r m x y) : m.remaining ≠ 0 := by
  have hlast := h.last
  unfold World.Mob.remaining
  omega

/-- A step that is stopped ends the walk. -/
theorem mobTakeStep_stopped (hm : w.mob? r = some m) (h : OnlyLeg r m x y) (occ : Bool) :
    (mobTakeStep w r m ⟨true, occ⟩).mob? r = some m.clearQueue := by
  unfold mobTakeStep
  rw [if_neg (remaining_ne_zero h)]
  simp [mobBlocked, h.combat, mob?_modify, hm]

/-- A step that is not stopped is taken, and where it does not lead to the
target, the mob is still on its way. -/
theorem mobTakeStep_free (hm : w.mob? r = some m) (h : OnlyLeg r m x y)
    (hne : ¬ (m.x = x ∧ m.y = y)) (occ : Bool) :
    ∃ m', (mobTakeStep w r m ⟨false, occ⟩).mob? r = some m' ∧
      m'.x = toward m.x x 1 ∧ m'.y = toward m.y y 1 ∧
        (¬ (m'.x = x ∧ m'.y = y) → OnlyLeg r m' x y) := by
  have hmoves : ¬ (toward m.x x 1 = m.x ∧ toward m.y y 1 = m.y) := by
    unfold toward
    split_ifs <;> omega
  have hkeeps : ¬ (m.walkQueuePos + 1 = m.walkQueueLen ∧ !r.isNpc ∧ !m.actionWalk ∧ occ) := by
    rintro ⟨-, hnpc, hwalk, -⟩
    cases h.passes with
    | inl hpass => simp [hpass] at hnpc
    | inr hpass => simp [hpass] at hwalk
  have hgo : ∀ m₁ : World.Mob, m₁.x = m.x → m₁.y = m.y → m₁.stepTo (toward m.x x 1) (toward m.y y 1)
      (heading m.x m.y x y) = { m₁ with
        x := toward m.x x 1, y := toward m.y y 1, dir := heading m.x m.y x y, moved := true } := by
    intro m₁ hx hy
    unfold World.Mob.stepTo
    rw [if_pos (by rw [hx, hy]; omega)]
  unfold mobTakeStep
  rw [if_neg (remaining_ne_zero h)]
  simp only [List.getD, h.leg, Option.getD_some, mobNextStep_toward hne, Bool.false_eq_true,
    if_false]
  by_cases hthere : toward m.x x 1 = x ∧ toward m.y y 1 = y
  · rw [if_pos hthere, if_neg hkeeps, mob?_modify, if_pos rfl, hm, Option.map_some]
    exact ⟨_, congrArg some (hgo _ rfl rfl), rfl, rfl, fun hnot => absurd hthere hnot⟩
  · rw [if_neg hthere, mob?_modify, if_pos rfl, hm, Option.map_some]
    refine ⟨_, congrArg some (hgo m rfl rfl), rfl, rfl, fun _ => ?_⟩
    exact ⟨⟨h.combat, h.player, h.npc⟩, h.passes, h.leg, h.last⟩

/-- In as many runs as the way has legs the mob is there if and only if the way
is free. -/
theorem position_walkRuns (n : Nat) (hm : w.mob? r = some m) (h : OnlyLeg r m x y)
    (hn : legs m.x m.y x y = n) :
    position (walkRuns collision occupied r n w) r = some (x, y) ↔
      WayFree collision x y m.x m.y := by
  induction n generalizing w m with
  | zero =>
      obtain ⟨hx, hy⟩ := legs_eq_zero_iff.1 hn
      rw [hx, hy, walkRuns, position, hm, Option.map_some, hx, hy]
      exact iff_of_true rfl wayFree_there
  | succ n ih =>
      have hne : ¬ (m.x = x ∧ m.y = y) := fun hthere => by
        rw [legs_eq_zero_iff.2 hthere] at hn
        exact absurd hn (Nat.succ_ne_zero n).symm
      rw [walkRuns, mobProcessWalkQueue_peace hm h.toUnengaged,
        pathOf_peace hm h.toUnengaged h.leg hne, wayFree_iff hne]
      cases hstop : collision m.x m.y (toward m.x x 1) (toward m.y y 1) (heading m.x m.y x y) with
      | true =>
          have hstays : Stopped m.clearQueue m.x m.y :=
            ⟨⟨h.combat, h.player, h.npc⟩, rfl, rfl, rfl⟩
          rw [position_stopped (mobTakeStep_stopped hm h _) hstays]
          refine iff_of_false (fun hthere => hne ?_) (fun hfree => ?_)
          · exact Prod.mk.inj (Option.some.inj hthere)
          · exact absurd (hfree.1.symm.trans hstop) Bool.false_ne_true
      | false =>
          obtain ⟨m', hm', hx, hy, hleg⟩ := mobTakeStep_free hm h hne (occupied w)
          have hrest : legs m'.x m'.y x y = n := by
            rw [hx, hy, legs_toward, hn]
            rfl
          have hfirst : StepFree collision x y m.x m.y := hstop
          rw [and_iff_right hfirst, ← hx, ← hy]
          by_cases hthere : m'.x = x ∧ m'.y = y
          · rw [legs_eq_zero_iff.2 hthere] at hrest
            subst hrest
            rw [hthere.1, hthere.2, walkRuns, position, hm', Option.map_some, hthere.1, hthere.2]
            exact iff_of_true rfl wayFree_there
          · exact ih hm' (hleg hthere) hrest

/-- For every target and whatever the map says of sight and of steps: the walk in
the head ends in no more turns than the way has legs, and says whether every leg
is free; and a mob with nothing else to do is at the target in as many runs of
`mob_process_walk_queue` if and only if the walk in the head, without sight, says
that it can be. -/
theorem walks_iff_reachable (collision : Bool → Collision) (occupied : World → Bool)
    (m : World.Mob) (x y : Nat) :
    (∀ sight turns, legs m.x m.y x y ≤ turns → mobCheckReachable (collision sight) m x y turns =
      some (decide (WayFree (collision sight) x y m.x m.y))) ∧
    ∀ (w : World) (r : MobRef), w.mob? r = some m → OnlyLeg r m x y →
      (position (walkRuns (collision false) occupied r (legs m.x m.y x y) w) r = some (x, y) ↔
        mobCheckReachable (collision false) m x y (legs m.x m.y x y) = some true) := by
  refine ⟨fun sight turns hturns => reachableLoop_eq turns m.dir hturns, fun w r hm h => ?_⟩
  rw [position_walkRuns _ hm h rfl, mobCheckReachable, reachableLoop_eq _ _ (Nat.le_refl _),
    Option.some.injEq, decide_eq_true_iff]

def walker : World.Mob :=
  { x := 10, y := 10, walkQueue := [(12, 11)], walkQueueLen := 1, actionWalk := true }

def walkerWorld : World := { players := fun _ => some { mob := walker } }

/-- One step diagonally and one straight on. -/
theorem walks_iff_reachable_two :
    (walkerWorld.mob? (.player 0) = some walker ∧ OnlyLeg (.player 0) walker 12 11) ∧
      position (walkRuns (fun _ _ _ _ _ => false) (fun _ => true) (.player 0) 2 walkerWorld)
        (.player 0) = some (12, 11) := by
  have hleg : OnlyLeg (.player 0) walker 12 11 := ⟨⟨rfl, rfl, rfl⟩, .inr rfl, rfl, rfl⟩
  refine ⟨⟨rfl, hleg⟩, ?_⟩
  have hwalk := walks_iff_reachable (fun _ _ _ _ _ _ => false) (fun _ => true) walker 12 11
  exact (hwalk.2 walkerWorld (.player 0) rfl hleg).2 (by decide)

end Sundae.Proofs
