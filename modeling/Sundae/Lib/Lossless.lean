import Mathlib.Data.Fintype.Card
import Mathlib.Logic.Function.Basic

/-!
# Steps that lose nothing

A generator that works in place keeps apart what was apart when none of its
steps loses anything. A step may write one place from what it held and from
what the others hold, xor a word with a shift of itself, or feed one thing
after another into a state; each of these loses nothing if what it does to the
one thing it replaces can be undone.
-/

namespace Sundae.Lib

open Function

/-! ## Writes and runs -/

section Writes

variable {ι α β σ : Type} [DecidableEq ι]

/-- A write that reads the place it writes loses nothing, if what it makes of
the place depends on the other places only and can be undone. -/
theorem update_injective {k : ι} {f : (ι → α) → α → α}
    (hread : ∀ m v, f (update m k v) = f m) (hundo : ∀ m, Injective (f m)) :
    Injective fun m => update m k (f m (m k)) := by
  intro m m' h
  have hother : ∀ j, j ≠ k → m j = m' j := by
    intro j hj
    have hjth := congrFun h j
    simpa [update_of_ne hj] using hjth
  have hsame : m' = update m k (m' k) := by
    funext j
    by_cases hj : j = k
    · subst hj
      simp
    · rw [update_of_ne hj, hother j hj]
  have hf : f m' = f m := by rw [hsame, hread]
  have hkth : f m (m k) = f m (m' k) := by
    have hkth := congrFun h k
    simpa [hf] using hkth
  rw [hsame, ← hundo m hkth, update_eq_self]

/-- Steps that lose nothing lose nothing one after another. -/
theorem foldl_injective {step : σ → β → σ} (hstep : ∀ b, Injective fun s => step s b) :
    ∀ l : List β, Injective fun s => l.foldl step s
  | [] => injective_id
  | b :: l => (foldl_injective hstep l).comp (hstep b)

end Writes

/-! ## Words -/

section Words

variable {w k : Nat}

/-- From the lowest bit up, every bit of the word is a bit of the xor and one
that is known. -/
theorem xor_shiftLeft_injective (hk : 0 < k) : Injective fun a : BitVec w => a ^^^ (a <<< k) := by
  intro a b h
  have hbit : ∀ i, a.getLsbD i = b.getLsbD i := by
    intro i
    induction i using Nat.strongRecOn with
    | ind i ih =>
      by_cases hi : i < w
      · have hith := congrArg (BitVec.getLsbD · i) h
        simp only [BitVec.getLsbD_xor, BitVec.getLsbD_shiftLeft, hi] at hith
        by_cases hik : i < k
        · simpa [hik] using hith
        · simpa [hik, ih (i - k) (by omega)] using hith
      · rw [BitVec.getLsbD_of_ge _ _ (by omega), BitVec.getLsbD_of_ge _ _ (by omega)]
  exact BitVec.eq_of_getLsbD_eq fun i _ => hbit i

/-- From the highest bit down. -/
theorem xor_ushiftRight_injective (hk : 0 < k) :
    Injective fun a : BitVec w => a ^^^ (a >>> k) := by
  intro a b h
  have hbit : ∀ n i, w - i = n → a.getLsbD i = b.getLsbD i := by
    intro n
    induction n using Nat.strongRecOn with
    | ind n ih =>
      intro i hn
      by_cases hi : i < w
      · have hith := congrArg (BitVec.getLsbD · i) h
        simp only [BitVec.getLsbD_xor, BitVec.getLsbD_ushiftRight] at hith
        rw [ih (w - (k + i)) (by omega) (k + i) rfl] at hith
        simpa using hith
      · rw [BitVec.getLsbD_of_ge _ _ (by omega), BitVec.getLsbD_of_ge _ _ (by omega)]
  exact BitVec.eq_of_getLsbD_eq fun i _ => hbit _ i rfl

end Words

/-! ## Feeding -/

section Fed

variable {α β : Type} {step : α → β → α}

/-- The states of what is fed with one thing after another. -/
def fed (step : α → β → α) (a : α) (x : Nat → β) : Nat → α
  | 0 => step a (x 0)
  | n + 1 => step (fed step a x n) (x (n + 1))

/-- The states tell what it was fed with. -/
theorem fed_injective (hundo : ∀ a, Injective (step a)) {a : α} {x x' : Nat → β} {n : Nat}
    (h : ∀ i < n, fed step a x i = fed step a x' i) : ∀ i < n, x i = x' i := by
  intro i hi
  cases i with
  | zero => exact hundo _ (h 0 hi)
  | succ i =>
      have hlast := h (i + 1) hi
      rw [fed, fed, h i (by omega)] at hlast
      exact hundo _ hlast

/-- What is fed with its own states, and begins with the last of them, tells
them as well: from the second on they are known at once, the last one is among
these, and then the first. -/
theorem refed_injective {step : α → α → α} (hundo : ∀ a, Injective (step a)) {x x' : Nat → α}
    {n : Nat} (hn : 0 < n)
    (h : ∀ i ≤ n, fed step (x n) x i = fed step (x' n) x' i) : ∀ i ≤ n, x i = x' i := by
  have hlater : ∀ i, i + 1 ≤ n → x (i + 1) = x' (i + 1) := by
    intro i hi
    have hith := h (i + 1) hi
    rw [fed, fed, h i (by omega)] at hith
    exact hundo _ hith
  obtain ⟨m, rfl⟩ : ∃ m, n = m + 1 := ⟨n - 1, by omega⟩
  intro i hi
  cases i with
  | zero =>
      have hfirst := h 0 (Nat.zero_le _)
      rw [fed, fed, hlater m (Nat.le_refl _)] at hfirst
      exact hundo _ hfirst
  | succ i => exact hlater i hi

end Fed

end Sundae.Lib
