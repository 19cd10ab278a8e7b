import Mathlib.Algebra.BigOperators.Group.Finset.Basic
import Mathlib.Algebra.Order.BigOperators.Group.Finset

/-!
# Levels with a price

Something moves up and down between levels. Every move up from a level pays
what the level is worth, every move down to it takes at least as much in. What
all the levels below the present one are worth together is then a potential:
it bounds what was paid by what was taken in, whatever the order of the moves.
-/

namespace Sundae.Lib

/-- What the levels below `n` are worth. -/
def climb (worth : Nat → Nat) (n : Nat) : Nat := ∑ k ∈ Finset.range n, worth k

variable {worth worth' : Nat → Nat}

@[simp] theorem climb_zero : climb worth 0 = 0 := Finset.sum_range_zero worth

@[simp] theorem climb_succ (n : Nat) : climb worth (n + 1) = climb worth n + worth n :=
  Finset.sum_range_succ worth n

/-- Levels that are worth less are worth less together. -/
theorem climb_le (h : ∀ n, worth n ≤ worth' n) (n : Nat) : climb worth n ≤ climb worth' n :=
  Finset.sum_le_sum fun k _ => h k

/-- The books of moves up and down from a level `start`: `up` and `down` count
the moves, `paid` and `taken` what they cost. -/
structure Books (worth₀ worth : Nat → Nat) (start level up down paid taken : Nat) : Prop where
  level_eq : level + down = start + up
  funds : paid + climb worth₀ start ≤ taken + climb worth level

namespace Books

variable {worth₀ : Nat → Nat} {start level up down paid taken price : Nat}

theorem start_self (worth : Nat → Nat) (start : Nat) : Books worth worth start start 0 0 0 0 :=
  ⟨rfl, Nat.le_refl _⟩

theorem rise (h : Books worth₀ worth start level up down paid taken) (hp : price ≤ worth level) :
    Books worth₀ worth start (level + 1) (up + 1) down (paid + price) taken := by
  have hlevel := h.level_eq
  have hfunds := h.funds
  refine ⟨by omega, ?_⟩
  rw [climb_succ]
  omega

theorem fall (h : Books worth₀ worth start (level + 1) up down paid taken)
    (hp : worth level ≤ price) :
    Books worth₀ worth start level up (down + 1) paid (taken + price) := by
  have hlevel := h.level_eq
  have hfunds := h.funds
  rw [climb_succ] at hfunds
  exact ⟨by omega, by omega⟩

/-- At level zero the levels may change what they are worth. -/
theorem rebase (h : Books worth₀ worth start 0 up down paid taken) :
    Books worth₀ worth' start 0 up down paid taken := ⟨h.level_eq, h.funds⟩

/-- As many moves up as down, and no level worth more than at the start: not
more was paid than was taken in. -/
theorem paid_le (h : Books worth₀ worth start level up down paid taken) (heq : down = up)
    (hworth : ∀ n, worth n ≤ worth₀ n) : paid ≤ taken := by
  have hlevel := h.level_eq
  have hfunds := h.funds
  obtain rfl : level = start := by omega
  have hle := climb_le hworth level
  omega

end Books

end Sundae.Lib
