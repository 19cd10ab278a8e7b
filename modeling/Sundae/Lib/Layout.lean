import Mathlib.Data.List.Basic

/-!
# Parsers with a layout

A parser that reads the same fields whatever it finds in them has a layout, and
the layout alone says which texts the parser gets through and what it leaves of
them. A loop that fills an array has one as long as it stays in the array, and
otherwise goes on up to the field it has no room for.
-/

namespace Sundae.Lib

variable {σ ε φ α β : Type}

/-- Go over the fields of a layout. -/
def skipFields (step : φ → σ → Option σ) : List φ → σ → Option σ
  | [], s => some s
  | f :: fs, s => (step f s).bind (skipFields step fs)

/-- The parser gets through the texts of a layout, and gives up on all others. -/
def Follows (step : φ → σ → Option σ) (stop : ε) (p : StateT σ (Except ε) α) (l : List φ) : Prop :=
  ∀ s, (∃ a s', p s = .ok (a, s') ∧ skipFields step l s = some s') ∨
    p s = .error stop ∧ skipFields step l s = none

/-- What the parser gives has the property. -/
def Gives (p : StateT σ (Except ε) α) (Q : α → Prop) : Prop :=
  ∀ s a s', p s = .ok (a, s') → Q a

/-- The loop that fills an array, from place `j` on. -/
def fill (body : Nat → β → StateT σ (Except ε) β) : Nat → Nat → β → StateT σ (Except ε) β
  | 0, _, b => pure b
  | n + 1, j, b => do
    let b ← body j b
    fill body n (j + 1) b

/-- So many records, from number `i` on. -/
def records (p : Nat → StateT σ (Except ε) α) : Nat → Nat → StateT σ (Except ε) (List α)
  | 0, _ => pure []
  | n + 1, i => do
    let x ← p i
    let xs ← records p n (i + 1)
    pure (x :: xs)

/-- `n` times the same fields. -/
def times (n : Nat) (l : List φ) : List φ := (List.replicate n l).flatten

variable {step : φ → σ → Option σ} {stop : ε} {l l' : List φ} {n j max : Nat}

@[simp] theorem times_zero (l : List φ) : times 0 l = [] := rfl

@[simp] theorem times_succ (n : Nat) (l : List φ) : times (n + 1) l = l ++ times n l := by
  rw [times, List.replicate_succ, List.flatten_cons, times]

theorem times_add (m n : Nat) (l : List φ) : times (m + n) l = times m l ++ times n l := by
  rw [times, List.replicate_add, List.flatten_append, times, times]

theorem skipFields_append (l l' : List φ) (s : σ) :
    skipFields step (l ++ l') s = (skipFields step l s).bind (skipFields step l') := by
  induction l generalizing s with
  | nil => rfl
  | cons f l ih =>
      rw [List.cons_append, skipFields, skipFields, Option.bind_assoc]
      congr 1
      funext s'
      exact ih s'

theorem skipFields_append_none {s : σ} (h : skipFields step l s = none) :
    skipFields step (l ++ l') s = none := by
  rw [skipFields_append, h]
  rfl

section Run

variable {p : StateT σ (Except ε) α} {q : α → StateT σ (Except ε) β} {s s' : σ} {a : α} {e : ε}

theorem bind_of_ok (h : p s = .ok (a, s')) : (p >>= q) s = q a s' := by
  change (p s >>= fun x => q x.1 x.2) = q a s'
  rw [h]
  rfl

theorem bind_of_error (h : p s = .error e) : (p >>= q) s = .error e := by
  change (p s >>= fun x => q x.1 x.2) = .error e
  rw [h]
  rfl

end Run

theorem Gives.pure {Q : α → Prop} {a : α} (h : Q a) :
    Gives (Pure.pure a : StateT σ (Except ε) α) Q := by
  intro s a' s' hrun
  obtain ⟨rfl, -⟩ := Prod.mk.inj (Except.ok.inj hrun)
  exact h

theorem Gives.bind {p : StateT σ (Except ε) α} {q : α → StateT σ (Except ε) β} {Q : β → Prop}
    (hq : ∀ a, Gives (q a) Q) : Gives (p >>= q) Q := by
  intro s b s' hrun
  cases hp : p s with
  | error e =>
      rw [bind_of_error hp] at hrun
      cases hrun
  | ok r =>
      obtain ⟨a, s₁⟩ := r
      rw [bind_of_ok hp] at hrun
      exact hq a s₁ b s' hrun

namespace Follows

variable {p : StateT σ (Except ε) α} {q : α → StateT σ (Except ε) β}

theorem pure (a : α) : Follows step stop (Pure.pure a : StateT σ (Except ε) α) [] :=
  fun s => .inl ⟨a, s, rfl, rfl⟩

theorem bind (hp : Follows step stop p l) (hq : ∀ a, Follows step stop (q a) l') :
    Follows step stop (p >>= q) (l ++ l') := by
  intro s
  rw [skipFields_append]
  rcases hp s with ⟨a, s', hrun, hskip⟩ | ⟨hrun, hskip⟩
  · rw [bind_of_ok hrun, hskip]
    exact hq a s'
  · exact .inr ⟨bind_of_error hrun, by rw [hskip]; rfl⟩

/-- What is done with the result reads nothing. -/
theorem map (hp : Follows step stop p l) (f : α → β) :
    Follows step stop (do let a ← p; Pure.pure (f a)) l := by
  have hbind : Follows step stop (do let a ← p; Pure.pure (f a)) (l ++ []) :=
    hp.bind fun a => pure (f a)
  rwa [List.append_nil] at hbind

theorem records {p : Nat → StateT σ (Except ε) α} (hp : ∀ i, Follows step stop (p i) l)
    (n i : Nat) : Follows step stop (records p n i) (times n l) := by
  induction n generalizing i with
  | zero => exact pure []
  | succ n ih =>
      rw [times_succ]
      exact (hp i).bind fun x => (ih (i + 1)).map fun xs => x :: xs

end Follows

/-! ## Filling an array -/

section Fill

variable {body : Nat → β → StateT σ (Except ε) β} {pre post : List φ} {full : ε}

/-- An element reads `pre`, is written to its place, and reads `post`. -/
structure FillsArray (step : φ → σ → Option σ) (stop full : ε)
    (body : Nat → β → StateT σ (Except ε) β) (pre post : List φ) (max : Nat) : Prop where
  room : ∀ j b, j < max → Follows step stop (body j b) (pre ++ post)
  full : ∀ b s, body max b s = .error (if (skipFields step pre s).isSome then full else stop)

theorem FillsArray.follows (h : FillsArray step stop full body pre post max) (b : β)
    (hn : j + n ≤ max) : Follows step stop (fill body n j b) (times n (pre ++ post)) := by
  induction n generalizing j b with
  | zero => exact .pure b
  | succ n ih =>
      rw [times_succ]
      exact (h.room j b (by omega)).bind fun b => ih b (by omega)

/-- With more elements than there is room for. -/
theorem FillsArray.over (h : FillsArray step stop full body pre post max) (b : β) (hj : j ≤ max)
    (hn : max < j + n) (s : σ) :
    fill body n j b s = .error (if (skipFields step
      (times (max - j) (pre ++ post) ++ pre) s).isSome then full else stop) := by
  induction n generalizing j b s with
  | zero => exact absurd hn (by omega)
  | succ n ih =>
      rw [fill]
      by_cases hlt : j < max
      · obtain ⟨k, hk⟩ : ∃ k, max - j = k + 1 := ⟨max - j - 1, by omega⟩
        have hk' : max - (j + 1) = k := by omega
        rw [hk, times_succ, List.append_assoc, skipFields_append]
        rcases h.room j b hlt s with ⟨b', s', hrun, hskip⟩ | ⟨hrun, hskip⟩
        · rw [bind_of_ok hrun, hskip, ih b' hlt (by omega), hk']
          rfl
        · rw [bind_of_error hrun, hskip]
          rfl
      · obtain rfl : j = max := by omega
        rw [bind_of_error (h.full b s), Nat.sub_self, times_zero, List.nil_append]

/-- The array has room for `n` elements, or the text has no element that it has
no room for. -/
def RoomFor (step : φ → σ → Option σ) (pre post : List φ) (max n : Nat) (s : σ) : Prop :=
  n ≤ max ∨ skipFields step (times max (pre ++ post) ++ pre) s = none

/-- The array is left exactly if there is no room. -/
theorem FillsArray.cases (h : FillsArray step stop full body pre post max) (b : β) (n : Nat)
    (s : σ) : (RoomFor step pre post max n s ∧
      ((∃ b' s', fill body n 0 b s = .ok (b', s') ∧ n ≤ max ∧
          skipFields step (times n (pre ++ post)) s = some s') ∨
        fill body n 0 b s = .error stop ∧ skipFields step (times n (pre ++ post)) s = none)) ∨
    ¬ RoomFor step pre post max n s ∧ fill body n 0 b s = .error full := by
  by_cases hn : n ≤ max
  · refine .inl ⟨.inl hn, ?_⟩
    rcases h.follows b (n := n) (j := 0) (by omega) s with ⟨b', s', hrun, hskip⟩ | hstop
    · exact .inl ⟨b', s', hrun, hn, hskip⟩
    · exact .inr hstop
  · have hover := h.over b (Nat.zero_le max) (n := n) (by omega) s
    rw [Nat.sub_zero] at hover
    cases hskip : skipFields step (times max (pre ++ post) ++ pre) s with
    | none =>
        rw [hskip] at hover
        refine .inl ⟨.inr hskip, .inr ⟨hover, ?_⟩⟩
        obtain ⟨k, rfl⟩ : ∃ k, n = max + (1 + k) := ⟨n - max - 1, by omega⟩
        have hsplit : times (max + (1 + k)) (pre ++ post) =
            times max (pre ++ post) ++ pre ++ (post ++ times k (pre ++ post)) := by
          rw [times_add, Nat.add_comm 1 k, times_succ]
          simp only [List.append_assoc]
        rw [hsplit]
        exact skipFields_append_none hskip
    | some s' =>
        rw [hskip] at hover
        refine .inr ⟨?_, hover⟩
        rintro (hle | hnone)
        · exact hn hle
        · rw [hskip] at hnone
          cases hnone

end Fill

/-! ## Conditions on the text -/

/-- How a parser ends, seen from a condition on its text: it gives up, and the
condition asks for nothing; it leaves an array, and the condition fails; or it
has read something with the property, and what the condition asks for is about
the text behind it. -/
def Outcome (stop full : ε) (r : Except ε (α × σ)) (C : Prop) (P : α → Prop) (next : σ → Prop) :
    Prop :=
  (r = .error stop ∧ C) ∨ (r = .error full ∧ ¬ C) ∨
    ∃ x s, r = .ok (x, s) ∧ P x ∧ (C ↔ next s)

namespace Outcome

variable {full : ε} {r : Except ε (β × σ)} {P : β → Prop} {next : σ → Prop} {C : σ → Prop}
  {s : σ}

theorem done {x : β} (hx : P x) : Outcome stop full (.ok (x, s)) (next s) P next :=
  .inr (.inr ⟨x, s, rfl, hx, Iff.rfl⟩)

theorem congr {C' D : Prop} (h : Outcome stop full r C' P next) (hC : D ↔ C') :
    Outcome stop full r D P next := by
  rw [Outcome, hC]
  exact h

/-- The last of what is read, of which is said what it leaves. -/
theorem rest {tail : σ → Option σ} (h : (∃ x s', r = .ok (x, s') ∧ P x ∧ tail s = some s') ∨
    r = .error stop ∧ tail s = none) :
    Outcome stop full r (∀ s', tail s = some s' → next s') P next := by
  rcases h with ⟨x, s', hrun, hx, htail⟩ | ⟨hrun, htail⟩
  · refine .inr (.inr ⟨x, s', hrun, hx, fun h => h s' htail, fun h s'' hs'' => ?_⟩)
    exact Option.some.inj (htail.symm.trans hs'') ▸ h
  · refine .inl ⟨hrun, fun s' hs' => ?_⟩
    rw [htail] at hs'
    cases hs'

/-- First something with a layout. -/
theorem after {p : StateT σ (Except ε) α} {q : α → StateT σ (Except ε) β}
    (hp : Follows step stop p l) (h : ∀ a s', Outcome stop full (q a s') (C s') P next) :
    Outcome stop full ((p >>= q) s) (∀ s', skipFields step l s = some s' → C s') P next := by
  rcases hp s with ⟨a, s', hrun, hskip⟩ | ⟨hrun, hskip⟩
  · rw [bind_of_ok hrun]
    refine (h a s').congr ⟨fun h => h s' hskip, fun h s'' hs'' => ?_⟩
    exact Option.some.inj (hskip.symm.trans hs'') ▸ h
  · refine .inl ⟨bind_of_error hrun, fun s' hs' => ?_⟩
    rw [hskip] at hs'
    cases hs'

/-- First a loop that fills an array. -/
theorem fill {body : Nat → α → StateT σ (Except ε) α} {pre post : List φ}
    {q : α → StateT σ (Except ε) β} (hbody : FillsArray step stop full body pre post max) (a : α)
    (h : n ≤ max → ∀ a s', Outcome stop full (q a s') (C s') P next) :
    Outcome stop full ((fill body n 0 a >>= q) s) (RoomFor step pre post max n s ∧
      ∀ s', skipFields step (times n (pre ++ post)) s = some s' → C s') P next := by
  rcases hbody.cases a n s with ⟨hroom, ⟨a', s', hrun, hle, hskip⟩ | ⟨hrun, hskip⟩⟩ |
    ⟨hroom, hrun⟩
  · rw [bind_of_ok hrun]
    refine (h hle a' s').congr ⟨fun h => h.2 s' hskip, fun h => ⟨hroom, fun s'' hs'' => ?_⟩⟩
    exact Option.some.inj (hskip.symm.trans hs'') ▸ h
  · refine .inl ⟨bind_of_error hrun, hroom, fun s' hs' => ?_⟩
    rw [hskip] at hs'
    cases hs'
  · exact .inr (.inl ⟨bind_of_error hrun, fun h => hroom h.1⟩)

end Outcome

end Sundae.Lib
