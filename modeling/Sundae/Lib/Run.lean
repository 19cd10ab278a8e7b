import Mathlib.Data.List.Basic

/-!
# Runs of a step function that may stop

A system here is a set of initial states and a step function over events that
either gives the next state or stops with a reason. A run is kept with its
trace: the state each event found, and the event. Claims about "every
reachable state" and about "every step of every run" are both claims about
traces, and the rules below are the only inductions over runs the rest of the
development makes.
-/

namespace Sundae.Lib

variable {σ ε α : Type}

/-- The runs of `step` out of `init`, with the state and the event of every
step taken and the state reached. -/
inductive Run (init : σ → Prop) (step : σ → ε → Except α σ) :
    List (σ × ε) → σ → Prop where
  | start {s : σ} (hs : init s) : Run init step [] s
  | step {tr : List (σ × ε)} {s s' : σ} {e : ε} (hrun : Run init step tr s)
      (hs : step s e = .ok s') : Run init step (tr ++ [(s, e)]) s'

/-- The states a run passes through, the one it ends in included. -/
def statesOf (tr : List (σ × ε)) (s : σ) : List σ := tr.map Prod.fst ++ [s]

theorem mem_statesOf {tr : List (σ × ε)} {s c : σ} :
    c ∈ statesOf tr s ↔ (∃ e, (c, e) ∈ tr) ∨ c = s := by
  simp [statesOf]

/-- Run the events from `s`, keeping the trace. -/
def exec (step : σ → ε → Except α σ) : σ → List ε → Except α (List (σ × ε) × σ)
  | s, [] => .ok ([], s)
  | s, e :: es =>
    match step s e with
    | .error a => .error a
    | .ok s' =>
      match exec step s' es with
      | .error a => .error a
      | .ok (tr, s'') => .ok ((s, e) :: tr, s'')

/-- Behind a step that goes through, the rest is run from where it led. -/
theorem exec_cons_ok {step : σ → ε → Except α σ} {s s' s'' : σ} {e : ε} {es : List ε}
    {tr : List (σ × ε)} (h : step s e = .ok s') :
    exec step s (e :: es) = .ok (tr, s'') ↔
      ∃ tr', tr = (s, e) :: tr' ∧ exec step s' es = .ok (tr', s'') := by
  simp only [exec, h]
  cases exec step s' es with
  | error a => simp
  | ok x => simp [Prod.ext_iff, eq_comm, and_left_comm]

/-- Where a step leads, if it goes through. -/
def after (step : σ → ε → Except α σ) (s : σ) (e : ε) : σ :=
  match step s e with
  | .error _ => s
  | .ok s' => s'

theorem step_after {step : σ → ε → Except α σ} {s : σ} {e : ε}
    (h : (step s e).isOk = true) : step s e = .ok (after step s e) := by
  unfold after
  cases hs : step s e with
  | error a =>
      rw [hs] at h
      cases h
  | ok s' => rfl

/-- `p` at every step taken when the events are run from a state. -/
def Along (step : σ → ε → Except α σ) (p : σ → ε → Prop) : σ → List ε → Prop
  | _, [] => True
  | s, e :: es => p s e ∧ ∀ s', step s e = .ok s' → Along step p s' es

/-- Two properties of a step that come to the same wherever an invariant
holds, and keep it, come to the same along every run. -/
theorem along_congr {step : σ → ε → Except α σ} {p q : σ → ε → Prop} {I : σ → Prop}
    (hpq : ∀ s e, I s → (p s e ↔ q s e))
    (hkeep : ∀ s e s', I s → p s e → step s e = .ok s' → I s') :
    ∀ (es : List ε) {s : σ}, I s → (Along step p s es ↔ Along step q s es) := by
  intro es
  induction es with
  | nil => exact fun _ => Iff.rfl
  | cons e es ih =>
      intro s hs
      constructor
      · rintro ⟨hp, hrest⟩
        exact ⟨(hpq s e hs).1 hp, fun s' h => (ih (hkeep s e s' hs hp h)).1 (hrest s' h)⟩
      · rintro ⟨hq, hrest⟩
        have hp := (hpq s e hs).2 hq
        exact ⟨hp, fun s' h => (ih (hkeep s e s' hs hp h)).2 (hrest s' h)⟩

/-- The last of a kind in a list is one. -/
theorem last_of_kind {p : α → Prop} {l l' r r' : List α} {x y : α} (h : l ++ x :: r = l' ++ y :: r')
    (hx : p x) (hy : p y) (hr : ∀ z ∈ r, ¬ p z) (hr' : ∀ z ∈ r', ¬ p z) : x = y := by
  rcases List.append_eq_append_iff.1 h with ⟨m, rfl, hm⟩ | ⟨m, rfl, hm⟩
  · cases m with
    | nil => exact (List.cons.inj hm).1
    | cons z m =>
        rw [List.cons_append] at hm
        obtain ⟨-, rfl⟩ := List.cons.inj hm
        exact (hr y (List.mem_append_right m List.mem_cons_self) hy).elim
  · cases m with
    | nil => exact (List.cons.inj hm).1.symm
    | cons z m =>
        rw [List.cons_append] at hm
        obtain ⟨-, rfl⟩ := List.cons.inj hm
        exact (hr' x (List.mem_append_right m List.mem_cons_self) hx).elim

namespace Run

variable {init : σ → Prop} {step : σ → ε → Except α σ}
variable {tr : List (σ × ε)} {s : σ}

/-- What holds at the start and survives every step whose event was allowed
holds at the end of every run that took allowed steps only. -/
theorem invariant {I : σ → Prop} {C : σ → ε → Prop}
    (hinit : ∀ s, init s → I s)
    (hstep : ∀ s e s', I s → C s e → step s e = .ok s' → I s')
    (hrun : Run init step tr s) (hok : ∀ x ∈ tr, C x.1 x.2) : I s := by
  induction hrun with
  | start hs => exact hinit _ hs
  | step hrun hs ih =>
      have hpre := ih fun x hx => hok x (List.mem_append_left _ hx)
      have hlast := hok _ (List.mem_append_right _ (List.mem_singleton_self _))
      exact hstep _ _ _ hpre hlast hs

/-- The rule without a condition on the steps. -/
theorem always {I : σ → Prop} (hinit : ∀ s, init s → I s)
    (hstep : ∀ s e s', I s → step s e = .ok s' → I s')
    (hrun : Run init step tr s) : I s :=
  hrun.invariant (C := fun _ _ => True) hinit
    (fun s e s' h _ => hstep s e s' h) (fun _ _ => trivial)

/-- The part of a run before one of its steps is a run, and that step
succeeded. -/
theorem before (hrun : Run init step tr s) {k : Nat} {x : σ × ε}
    (hk : tr[k]? = some x) :
    Run init step (tr.take k) x.1 ∧ ∃ s', step x.1 x.2 = .ok s' := by
  induction hrun with
  | start hs => simp at hk
  | @step tr s s' e hrun hs ih =>
      rcases Nat.lt_trichotomy k tr.length with hlt | heq | hgt
      · rw [List.getElem?_append_left hlt] at hk
        rw [List.take_append_of_le_length (Nat.le_of_lt hlt)]
        exact ih hk
      · subst heq
        rw [List.getElem?_concat_length] at hk
        obtain rfl := Option.some.inj hk
        rw [List.take_left']
        · exact ⟨hrun, s', hs⟩
        · rfl
      · rw [List.getElem?_eq_none (by simp; omega)] at hk
        exact absurd hk (by simp)

/-- Every state a run passes through is itself reached by a run, whose steps
are steps of the whole. -/
theorem reaches (hrun : Run init step tr s) {c : σ} (hc : c ∈ statesOf tr s) :
    ∃ tr', tr' <+: tr ∧ Run init step tr' c := by
  rcases mem_statesOf.1 hc with ⟨e, he⟩ | rfl
  · obtain ⟨k, hk⟩ := List.mem_iff_getElem?.1 he
    exact ⟨tr.take k, List.take_prefix k tr, (hrun.before hk).1⟩
  · exact ⟨tr, List.prefix_rfl, hrun⟩

/-- The state a step leads to is one the run passes through. -/
theorem next_mem (hrun : Run init step tr s) {c : σ} {e : ε} (hc : (c, e) ∈ tr) :
    ∃ c', step c e = .ok c' ∧ c' ∈ statesOf tr s := by
  induction hrun with
  | start hs => cases hc
  | @step tr s s' d hrun hs ih =>
      rcases List.mem_append.1 hc with hold | hnew
      · obtain ⟨c', hc', hmem⟩ := ih hold
        refine ⟨c', hc', ?_⟩
        show c' ∈ (tr ++ [(s, d)]).map Prod.fst ++ [s']
        rw [List.map_append]
        exact List.mem_append_left _ hmem
      · obtain ⟨rfl, rfl⟩ := Prod.mk.inj (List.mem_singleton.1 hnew)
        exact ⟨s', hs, mem_statesOf.2 (.inr rfl)⟩

/-- A run passes through the state it started in. -/
theorem first (hrun : Run init step tr s) : ∃ c ∈ statesOf tr s, init c := by
  induction hrun with
  | start hs => exact ⟨_, mem_statesOf.2 (.inr rfl), hs⟩
  | @step tr s s' e hrun hs ih =>
      obtain ⟨c, hc, hinit⟩ := ih
      refine ⟨c, ?_, hinit⟩
      rcases mem_statesOf.1 hc with ⟨d, hd⟩ | rfl
      · exact mem_statesOf.2 (.inl ⟨d, List.mem_append_left _ hd⟩)
      · exact mem_statesOf.2 (.inl ⟨e, List.mem_append_right _ (List.mem_singleton_self _)⟩)

/-- Where an invariant holds, a property that a step keeps exactly when its
event is of one kind holds in every state of a run exactly when every event of
the run is of that kind. -/
theorem all_iff {I P : σ → Prop} {C : σ → ε → Prop}
    (hinit : ∀ s, init s → I s ∧ P s)
    (hinv : ∀ s e s', I s → step s e = .ok s' → I s')
    (hstep : ∀ s e s', I s → P s → step s e = .ok s' → (P s' ↔ C s e))
    (hrun : Run init step tr s) :
    (∀ c ∈ statesOf tr s, P c) ↔ ∀ x ∈ tr, C x.1 x.2 := by
  have hI : ∀ c ∈ statesOf tr s, I c := by
    intro c hc
    obtain ⟨tr', -, hrun'⟩ := hrun.reaches hc
    exact hrun'.always (fun s hs => (hinit s hs).1) hinv
  constructor
  · intro hall x hx
    obtain ⟨c', hc', hmem⟩ := hrun.next_mem hx
    have hx' : x.1 ∈ statesOf tr s := mem_statesOf.2 (.inl ⟨x.2, hx⟩)
    exact (hstep x.1 x.2 c' (hI _ hx') (hall _ hx') hc').1 (hall _ hmem)
  · intro hall c hc
    obtain ⟨tr', hpre, hrun'⟩ := hrun.reaches hc
    have hboth : I c ∧ P c := by
      refine hrun'.invariant (I := fun s => I s ∧ P s) hinit ?_ fun x hx => hall x (hpre.subset hx)
      intro s e s' ⟨hs, hp⟩ hC h
      exact ⟨hinv s e s' hs h, (hstep s e s' hs hp h).2 hC⟩
    exact hboth.2

/-- Where what is known of the steps so far decides a property of the next one,
and is known of one step more wherever the property holds, it holds of every
step of a run exactly when every event of the run is of the kind decided. -/
theorem steps_iff {H : List (σ × ε) → σ → Prop} {P : List (σ × ε) → σ → ε → σ → Prop}
    {C : σ → ε → Prop} (hinit : ∀ s, init s → H [] s)
    (hkeep : ∀ tr s e s', H tr s → P tr s e s' → step s e = .ok s' → H (tr ++ [(s, e)]) s')
    (hstep : ∀ tr s e s', H tr s → step s e = .ok s' → (P tr s e s' ↔ C s e))
    (hrun : Run init step tr s) :
    (∀ pre c e post c', tr = pre ++ (c, e) :: post → step c e = .ok c' → P pre c e c') ↔
      ∀ x ∈ tr, C x.1 x.2 := by
  suffices h : ((∀ pre c e post c', tr = pre ++ (c, e) :: post → step c e = .ok c' →
      P pre c e c') ↔ ∀ x ∈ tr, C x.1 x.2) ∧ ((∀ x ∈ tr, C x.1 x.2) → H tr s) from h.1
  induction hrun with
  | start hs =>
      exact ⟨⟨fun _ x hx => absurd hx List.not_mem_nil, fun _ pre c e post c' h => by simp at h⟩,
        fun _ => hinit _ hs⟩
  | @step tr s s' e hrun hs ih =>
      obtain ⟨hiff, hknown⟩ := ih
      simp only [List.forall_mem_append, List.forall_mem_singleton]
      refine ⟨⟨fun hall => ?_, fun ⟨hold, hlast⟩ => ?_⟩, fun ⟨hold, hlast⟩ => ?_⟩
      · have hold : ∀ x ∈ tr, C x.1 x.2 := hiff.1 fun pre c d post c' htr =>
          hall pre c d (post ++ [(s, e)]) c' (by rw [htr, List.append_assoc, List.cons_append])
        exact ⟨hold, (hstep tr s e s' (hknown hold) hs).1 (hall tr s e [] s' rfl hs)⟩
      · intro pre c d post c' htr hc'
        rcases List.eq_nil_or_concat post with rfl | ⟨post', y, rfl⟩
        · obtain ⟨rfl, hx⟩ := List.append_inj' htr rfl
          obtain ⟨rfl, rfl⟩ := Prod.mk.inj (List.cons.inj hx).1
          exact (hstep tr s e c' (hknown hold) hc').2 hlast
        · rw [List.concat_eq_append, ← List.cons_append, ← List.append_assoc] at htr
          exact hiff.2 hold pre c d post' c' (List.append_inj' htr rfl).1 hc'
      · exact hkeep tr s e s' (hknown hold) ((hstep tr s e s' (hknown hold) hs).2 hlast) hs

/-- Where what is known of a state decides how an attempted step turns out, and is known
of the next state when it turns out well, every step of a run and whatever is tried after
it turn out well exactly when every one is of the kind decided. `G` is what is taken for
granted of the attempts. -/
theorem attempts_iff {H : σ → Prop} {G P C : σ → ε → Prop} (hinit : ∀ s, init s → H s)
    (hkeep : ∀ s e s', H s → G s e → P s e → step s e = .ok s' → H s')
    (hstep : ∀ s e, H s → G s e → (P s e ↔ C s e)) (hrun : Run init step tr s) {e : ε}
    (hG : ∀ x ∈ tr ++ [(s, e)], G x.1 x.2) :
    (∀ x ∈ tr ++ [(s, e)], P x.1 x.2) ↔ ∀ x ∈ tr ++ [(s, e)], C x.1 x.2 := by
  have hboth : ((∀ x ∈ tr, P x.1 x.2) ↔ ∀ x ∈ tr, C x.1 x.2) ∧ ((∀ x ∈ tr, P x.1 x.2) → H s) := by
    have hold : ∀ x ∈ tr, G x.1 x.2 := fun x hx => hG x (List.mem_append_left _ hx)
    clear hG
    induction hrun with
    | start hs => exact ⟨by simp, fun _ => hinit _ hs⟩
    | step hrun hs ih =>
        simp only [List.forall_mem_append, List.forall_mem_singleton] at hold ⊢
        obtain ⟨hiff, hknown⟩ := ih hold.1
        refine ⟨?_, fun h => hkeep _ _ _ (hknown h.1) hold.2 h.2 hs⟩
        rw [← hiff]
        exact and_congr_right fun h => hstep _ _ (hknown h) hold.2
  obtain ⟨hiff, hknown⟩ := hboth
  simp only [List.forall_mem_append, List.forall_mem_singleton] at hG ⊢
  rw [← hiff]
  exact and_congr_right fun h => hstep _ _ (hknown h) hG.2

/-- Runs compose: what starts where a run ends continues it. -/
theorem trans {mid : σ} {tr' : List (σ × ε)} (hrun : Run init step tr mid)
    (hrest : Run (· = mid) step tr' s) : Run init step (tr ++ tr') s := by
  induction hrest with
  | start hs => subst hs; simpa using hrun
  | step _ hs ih =>
      rw [← List.append_assoc]
      exact ih.step hs

/-- One step, as a run. -/
theorem single {e : ε} {s' : σ} (hs : step s e = .ok s') :
    Run (· = s) step [(s, e)] s' :=
  (show Run (· = s) step [] s from .start rfl).step hs

/-- A run whose first step is `e` and that goes on as a run of what is left. -/
theorem cons {e : ε} {s' s'' : σ} (hs : step s e = .ok s')
    (hrest : Run (· = s') step tr s'') : Run (· = s) step ((s, e) :: tr) s'' :=
  (single hs).trans hrest

/-- What `exec` computes is a run. -/
theorem of_exec (es : List ε) {s₀ : σ} (hinit : init s₀)
    (hexec : exec step s₀ es = .ok (tr, s)) : Run init step tr s := by
  suffices h : Run (· = s₀) step tr s by
    exact (Run.start hinit).trans h
  clear hinit
  induction es generalizing s₀ tr with
  | nil =>
      injection hexec with hexec
      injection hexec with htr hs
      subst htr hs
      exact .start rfl
  | cons e es ih =>
      rw [exec] at hexec
      split at hexec
      · cases hexec
      · next s' hs =>
        split at hexec
        · cases hexec
        · next tr' s'' hrest =>
          injection hexec with hexec
          injection hexec with htr hs'
          subst htr hs'
          exact cons hs (ih hrest)

end Run

end Sundae.Lib
