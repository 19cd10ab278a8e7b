import Mathlib.Data.Nat.Dist

/-!
# Going toward a number, and toward a point

Someone who goes from one number toward another by one each time is there after
as many times as they lie apart, and stays. Someone who does so in two
coordinates at once goes diagonally first and straight on then, and is there
after the larger of the two distances.
-/

namespace Sundae.Lib

/-- Where one is who has gone `k` times from `a` toward `t`. -/
def toward (a t k : Nat) : Nat := if a ≤ t then min (a + k) t else max (a - k) t

@[simp] theorem toward_zero (a t : Nat) : toward a t 0 = a := by
  unfold toward
  split <;> omega

@[simp] theorem toward_self (t k : Nat) : toward t t k = t := by
  unfold toward
  split <;> omega

/-- Once and then `k` times. -/
theorem toward_toward (a t k : Nat) : toward (toward a t 1) t k = toward a t (k + 1) := by
  unfold toward
  split_ifs <;> omega

theorem dist_toward (a t : Nat) : Nat.dist (toward a t 1) t = Nat.dist a t - 1 := by
  unfold toward Nat.dist
  split <;> omega

/-- How often one goes from the point `(a, b)` to be at `(s, t)`. -/
def legs (a b s t : Nat) : Nat := max (Nat.dist a s) (Nat.dist b t)

variable {a b s t : Nat}

theorem legs_eq_zero_iff : legs a b s t = 0 ↔ a = s ∧ b = t := by
  unfold legs Nat.dist
  omega

theorem legs_toward : legs (toward a s 1) (toward b t 1) s t = legs a b s t - 1 := by
  unfold legs
  rw [dist_toward, dist_toward]
  omega

/-- A property of every leg is one of the first, and one of every leg from where
it leads. -/
theorem forall_legs_iff {P : Nat → Nat → Prop} (hne : ¬ (a = s ∧ b = t)) :
    (∀ k < legs a b s t, P (toward a s k) (toward b t k)) ↔
      P a b ∧ ∀ k < legs (toward a s 1) (toward b t 1) s t,
        P (toward (toward a s 1) s k) (toward (toward b t 1) t k) := by
  have hpos : legs a b s t ≠ 0 := fun h => hne (legs_eq_zero_iff.1 h)
  obtain ⟨n, hn⟩ := Nat.exists_eq_succ_of_ne_zero hpos
  simp only [legs_toward, hn, toward_toward, Nat.succ_eq_add_one, Nat.add_sub_cancel]
  rw [Nat.forall_lt_succ_left, toward_zero, toward_zero]

end Sundae.Lib
