import Mathlib.Data.List.Basic

/-!
# Flag words written one mask at a time

A table of flag words, and lists of masks that are set or cleared in it one
after the other. What a bit is afterwards depends on which masks touch it, not
on their order.
-/

namespace Sundae.Lib

variable {κ : Type} [DecidableEq κ] {w : Nat}

/-- `f[c] |= m` for one mask after another. -/
def orAll : List (κ × BitVec w) → (κ → BitVec w) → κ → BitVec w
  | [], f => f
  | (c, m) :: ws, f => orAll ws fun d => if d = c then f d ||| m else f d

/-- `f[c] &= ~m` for one mask after another. -/
def clearAll : List (κ × BitVec w) → (κ → BitVec w) → κ → BitVec w
  | [], f => f
  | (c, m) :: ws, f => clearAll ws fun d => if d = c then f d &&& ~~~m else f d

/-- Some mask of the list has this bit of this word. -/
def Touches (ws : List (κ × BitVec w)) (c : κ) (b : Nat) : Prop :=
  ∃ x ∈ ws, x.1 = c ∧ x.2.getLsbD b = true

instance (ws : List (κ × BitVec w)) (c : κ) (b : Nat) : Decidable (Touches ws c b) :=
  inferInstanceAs (Decidable (∃ x ∈ ws, _))

omit [DecidableEq κ] in
theorem touches_nil (c : κ) (b : Nat) : ¬ Touches ([] : List (κ × BitVec w)) c b := by
  rintro ⟨x, hx, -⟩
  cases hx

omit [DecidableEq κ] in
theorem touches_cons {d : κ} {m : BitVec w} {ws : List (κ × BitVec w)} {c : κ} {b : Nat} :
    Touches ((d, m) :: ws) c b ↔ (d = c ∧ m.getLsbD b = true) ∨ Touches ws c b := by
  simp [Touches]

theorem orAll_bit (ws : List (κ × BitVec w)) (f : κ → BitVec w) (c : κ) (b : Nat) :
    (orAll ws f c).getLsbD b = true ↔ (f c).getLsbD b = true ∨ Touches ws c b := by
  induction ws generalizing f with
  | nil => simp [orAll, touches_nil]
  | cons x ws ih =>
      obtain ⟨d, m⟩ := x
      rw [orAll, ih, touches_cons]
      by_cases hd : c = d
      · subst hd
        simp [or_assoc]
      · simp [hd, Ne.symm hd]

theorem clearAll_bit (ws : List (κ × BitVec w)) (f : κ → BitVec w) (c : κ) (b : Nat) :
    (clearAll ws f c).getLsbD b = true ↔ (f c).getLsbD b = true ∧ ¬ Touches ws c b := by
  induction ws generalizing f with
  | nil => simp [clearAll, touches_nil]
  | cons x ws ih =>
      obtain ⟨d, m⟩ := x
      rw [clearAll, ih, touches_cons]
      by_cases hd : c = d
      · subst hd
        have hbit : (f c).getLsbD b = true → b < w := fun h => BitVec.lt_of_getLsbD h
        simp only [if_true, BitVec.getLsbD_and, BitVec.getLsbD_not, Bool.and_eq_true,
          decide_eq_true_eq, Bool.not_eq_true', true_and, not_or, Bool.not_eq_true]
        tauto
      · simp [hd, Ne.symm hd]

end Sundae.Lib
