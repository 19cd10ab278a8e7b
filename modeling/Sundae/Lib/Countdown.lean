import Mathlib.Data.List.FinRange
import Mathlib.Logic.Function.Iterate

/-!
# Counting down

A counter that is set again when it has reached zero is at zero once in every
period. A loop in which every turn changes a place of its own does to each place
what the turn of that place does.
-/

namespace Sundae.Lib

/-- One off a counter, or the counter set again. -/
def countdown (n : Nat) : Nat → Nat
  | 0 => n
  | r + 1 => r

theorem countdown_le {n r : Nat} (h : r ≤ n) : countdown n r ≤ n := by
  cases r with
  | zero => exact Nat.le_refl n
  | succ r => exact Nat.le_of_succ_le h

theorem countdown_add_mod {n c : Nat} (h : c ≤ n) (k : Nat) :
    (countdown n c + (k + 1)) % (n + 1) = (c + k) % (n + 1) := by
  cases c with
  | zero =>
      show (n + (k + 1)) % (n + 1) = (0 + k) % (n + 1)
      rw [show n + (k + 1) = 0 + k + (n + 1) by omega, Nat.add_mod_right]
  | succ c =>
      show (c + (k + 1)) % (n + 1) = (c + 1 + k) % (n + 1)
      congr 1
      omega

/-- Where a counter is after so many turns, seen from its next zero. -/
theorem countdown_iterate_mod {n r : Nat} (h : r ≤ n) (k : Nat) :
    ((countdown n)^[k] r + k) % (n + 1) = r ∧ (countdown n)^[k] r ≤ n := by
  induction k with
  | zero => exact ⟨Nat.mod_eq_of_lt (Nat.lt_succ_of_le h), h⟩
  | succ k ih =>
      rw [Function.iterate_succ_apply']
      exact ⟨(countdown_add_mod ih.2 k).trans ih.1, countdown_le ih.2⟩

/-- A counter is at zero in one turn of every `n + 1`. -/
theorem countdown_iterate_eq_zero {n r : Nat} (h : r ≤ n) (k : Nat) :
    (countdown n)^[k] r = 0 ↔ k % (n + 1) = r := by
  obtain ⟨hmod, hle⟩ := countdown_iterate_mod h k
  generalize (countdown n)^[k] r = c at hmod hle
  constructor
  · rintro rfl
    rw [Nat.zero_add] at hmod
    exact hmod
  · intro hk
    rw [Nat.add_mod, hk, Nat.mod_eq_of_lt (Nat.lt_succ_of_le hle)] at hmod
    by_cases hlt : c + r < n + 1
    · rw [Nat.mod_eq_of_lt hlt] at hmod
      omega
    · rw [Nat.mod_eq_sub_mod (Nat.le_of_not_lt hlt), Nat.mod_eq_of_lt (by omega)] at hmod
      omega

section Places

variable {σ ι β : Type} (view : ι → σ → β) (turn : σ → ι → σ) {g : ι → β → β}

/-- A loop over places that leaves all others alone. -/
theorem foldl_other (hother : ∀ i j s, j ≠ i → view i (turn s j) = view i s) {i : ι} :
    ∀ (l : List ι) (s : σ), i ∉ l → view i (l.foldl turn s) = view i s
  | [], _, _ => rfl
  | j :: l, s, h => by
    rw [List.mem_cons, not_or] at h
    exact (foldl_other hother l (turn s j) h.2).trans (hother i j s (Ne.symm h.1))

/-- A place that is come to once. -/
theorem foldl_view (hother : ∀ i j s, j ≠ i → view i (turn s j) = view i s)
    (hself : ∀ i s, view i (turn s i) = g i (view i s)) {i : ι} :
    ∀ (l : List ι) (s : σ), l.Nodup → i ∈ l → view i (l.foldl turn s) = g i (view i s)
  | j :: l, s, hnodup, h => by
    rw [List.nodup_cons] at hnodup
    rw [List.foldl_cons]
    by_cases hij : i = j
    · subst hij
      rw [foldl_other view turn hother l _ hnodup.1, hself]
    · rw [foldl_view hother hself l (turn s j) hnodup.2
        ((List.mem_cons.1 h).resolve_left hij), hother i j s (Ne.symm hij)]

end Places

end Sundae.Lib
