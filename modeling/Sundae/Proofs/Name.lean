import Mathlib.Data.Nat.Digits.Defs
import Mathlib.Data.Nat.Digits.Lemmas
import Mathlib.Data.List.Basic
import Sundae.Ref.Database
import Sundae.Ref.Name

/-!
# Which names are one account

The database finds an account by the decoded name in lower case. For a
positive name that is its base 37 digits, so two positive names are never one
account; every other name decodes to the same placeholder.
-/

namespace Sundae.Proofs

open Sundae.Ref

/-- A base 37 digit as the database sees it. -/
def lowerDigit (d : Nat) : Char :=
  if d = 0 then ' ' else if d < 27 then Char.ofNat (d + 96) else Char.ofNat (d + 21)

theorem namedecChar_lower {d : Nat} (hd : d < 37) (rest : Nat) :
    (namedecChar d rest).toLower = lowerDigit d := by
  have hupper : ∀ d < 37, (namedecChar d 0).toLower = lowerDigit d := by decide
  have hlower : ∀ d < 37, (namedecChar d 1).toLower = lowerDigit d := by decide
  by_cases hrest : rest % 37 = 0
  · have hsame : namedecChar d rest = namedecChar d 0 := by simp [namedecChar, hrest]
    rw [hsame, hupper d hd]
  · have hsame : namedecChar d rest = namedecChar d 1 := by simp [namedecChar, hrest]
    rw [hsame, hlower d hd]

/-- `mod37_nameenc` reads back the digit. -/
theorem nameencDigit_lowerDigit : ∀ d < 37, nameencDigit (lowerDigit d) = d := by decide

theorem lowerDigit_ne_dash : ∀ d < 37, lowerDigit d ≠ '-' := by decide

theorem namedecLoop_lower {k n : Nat} (hn : n < 37 ^ k) :
    (namedecLoop k n).map Char.toLower = (Nat.digits 37 n).map lowerDigit := by
  induction k generalizing n with
  | zero =>
      obtain rfl : n = 0 := by omega
      rfl
  | succ k ih =>
      unfold namedecLoop
      split
      · next hzero =>
        subst hzero
        rfl
      · next hpos =>
        have hlt : n / 37 < 37 ^ k := by
          rw [pow_succ] at hn
          omega
        rw [Nat.digits_def' (by omega) (by omega), List.map_cons, List.map_cons, ih hlt,
          namedecChar_lower (Nat.mod_lt _ (by omega))]

/-- A positive name's account: its digits, the first one first. -/
theorem accountKey_pos {n : Int} (hpos : 0 < n) (hn : n < 2 ^ 63) :
    accountKey (mod37Namedec n) = ((Nat.digits 37 n.toNat).map lowerDigit).reverse := by
  have hlt : n.toNat < 37 ^ 13 := by omega
  have hloop := namedecLoop_lower hlt
  have hne : (namedecLoop 13 n.toNat).length ≠ 0 := by
    have hlen := congrArg List.length hloop
    rw [List.length_map, List.length_map, Nat.digits_def' (by omega) (by omega)] at hlen
    simp at hlen
    omega
  unfold accountKey mod37Namedec
  rw [if_neg (by omega)]
  simp only [hne, if_false]
  rw [List.map_reverse, hloop]

theorem accountKey_nonpos {n : Int} (hn : n ≤ 0) : accountKey (mod37Namedec n) = invalidName := by
  have hcases : n < 0 ∨ n = 0 := by omega
  unfold mod37Namedec
  rcases hcases with hneg | rfl
  · rw [if_pos hneg]
    decide
  · decide

theorem map_nameencDigit (n : Nat) :
    ((Nat.digits 37 n).map lowerDigit).map nameencDigit = Nat.digits 37 n := by
  rw [List.map_map]
  conv_rhs => rw [← List.map_id (Nat.digits 37 n)]
  apply List.map_congr_left
  intro d hd
  exact nameencDigit_lowerDigit d (Nat.digits_lt_base (by omega) hd)

/-- Two names are one account exactly when they are one number, or neither is
a name at all. -/
theorem accountKey_eq_iff {m n : Int} (hm : m < 2 ^ 63) (hn : n < 2 ^ 63) :
    accountKey (mod37Namedec m) = accountKey (mod37Namedec n) ↔ m = n ∨ (m ≤ 0 ∧ n ≤ 0) := by
  have hdash : ∀ {k : Int}, 0 < k → k < 2 ^ 63 → accountKey (mod37Namedec k) ≠ invalidName := by
    intro k hpos hk heq
    have hmem : '-' ∈ accountKey (mod37Namedec k) := by rw [heq]; decide
    rw [accountKey_pos hpos hk, List.mem_reverse] at hmem
    obtain ⟨d, hd, hchar⟩ := List.mem_map.1 hmem
    exact lowerDigit_ne_dash d (Nat.digits_lt_base (by omega) hd) hchar
  constructor
  · intro heq
    by_cases hmpos : 0 < m
    · by_cases hnpos : 0 < n
      · rw [accountKey_pos hmpos hm, accountKey_pos hnpos hn] at heq
        have hdigits := congrArg (List.map nameencDigit) (List.reverse_injective heq)
        rw [map_nameencDigit, map_nameencDigit] at hdigits
        have hnat := Nat.digits_inj_iff.1 hdigits
        exact .inl (by omega)
      · rw [accountKey_nonpos (n := n) (by omega)] at heq
        exact absurd heq (hdash hmpos hm)
    · by_cases hnpos : 0 < n
      · rw [accountKey_nonpos (n := m) (by omega)] at heq
        exact absurd heq.symm (hdash hnpos hn)
      · exact .inr ⟨by omega, by omega⟩
  · rintro (rfl | ⟨hm0, hn0⟩)
    · rfl
    · rw [accountKey_nonpos hm0, accountKey_nonpos hn0]

end Sundae.Proofs
