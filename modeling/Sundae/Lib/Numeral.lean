import Mathlib.Data.Nat.Digits.Defs
import Mathlib.Data.Nat.Digits.Lemmas
import Mathlib.Data.List.Lex
import Mathlib.Order.Basic

/-!
# Numerals

A number read from its digits, the first one the most significant, the way a
loop does that multiplies what it has by the base and adds the next digit. On
the way the loop never has more than it ends with. Digits without a leading
zero are those of the number, and numerals of one length compare as their
digits do.
-/

namespace Sundae.Lib

/-- The digits read in one after another, after `n` has been read. -/
def numeralFrom (b n : Nat) (ds : List Nat) : Nat := ds.foldl (fun n d => n * b + d) n

def numeral (b : Nat) (ds : List Nat) : Nat := numeralFrom b 0 ds

section

variable {b n d : Nat} {ds es : List Nat}

@[simp] theorem numeralFrom_nil : numeralFrom b n [] = n := rfl

@[simp] theorem numeralFrom_cons :
    numeralFrom b n (d :: ds) = numeralFrom b (n * b + d) ds := rfl

theorem numeralFrom_append :
    numeralFrom b n (ds ++ es) = numeralFrom b (numeralFrom b n ds) es := List.foldl_append

theorem numeral_concat : numeral b (ds ++ [d]) = numeral b ds * b + d := by
  rw [numeral, numeralFrom_append]
  rfl

theorem numeral_eq_ofDigits (b : Nat) (ds : List Nat) :
    numeral b ds = Nat.ofDigits b ds.reverse := by
  induction ds using List.reverseRecOn with
  | nil => rfl
  | append_singleton ds d ih =>
      rw [numeral_concat, ih, List.reverse_append, List.reverse_singleton, List.singleton_append,
        Nat.ofDigits_cons, Nat.mul_comm, Nat.add_comm]

theorem numeralFrom_eq (b n : Nat) (ds : List Nat) :
    numeralFrom b n ds = n * b ^ ds.length + numeral b ds := by
  induction ds using List.reverseRecOn with
  | nil => simp [numeral]
  | append_singleton ds d ih =>
      rw [numeralFrom_append, ih, numeral_concat, List.length_append, List.length_singleton,
        pow_succ]
      simp only [numeralFrom_cons, numeralFrom_nil]
      rw [Nat.add_mul, Nat.mul_assoc, Nat.add_assoc]

theorem numeral_cons : numeral b (d :: ds) = d * b ^ ds.length + numeral b ds := by
  rw [numeral, numeralFrom_cons, Nat.zero_mul, Nat.zero_add, numeralFrom_eq]

theorem numeral_lt (hb : 1 < b) (hds : ∀ d ∈ ds, d < b) : numeral b ds < b ^ ds.length := by
  rw [numeral_eq_ofDigits, ← List.length_reverse]
  exact Nat.ofDigits_lt_base_pow_length hb fun d hd => hds d (List.mem_reverse.1 hd)

/-- What the loop has only grows. -/
theorem le_numeralFrom (hb : 0 < b) : n ≤ numeralFrom b n ds := by
  rw [numeralFrom_eq]
  exact Nat.le_trans (Nat.le_mul_of_pos_right n (Nat.pow_pos hb)) (Nat.le_add_right _ _)

theorem numeral_zeros (ds : List Nat) : numeral b (ds.dropWhile (· == 0)) = numeral b ds := by
  induction ds with
  | nil => rfl
  | cons d ds ih =>
      by_cases hd : d = 0
      · subst hd
        rw [List.dropWhile_cons_of_pos (by simp), ih, numeral_cons, Nat.zero_mul, Nat.zero_add]
      · rw [List.dropWhile_cons_of_neg (by simpa using hd)]

/-- Digits that do not start with a zero are the digits of their number. -/
theorem digits_numeral (hb : 1 < b) (hds : ∀ d ∈ ds, d < b) (hhead : ∀ d ∈ ds.head?, d ≠ 0) :
    Nat.digits b (numeral b ds) = ds.reverse := by
  rw [numeral_eq_ofDigits]
  apply Nat.digits_ofDigits b hb
  · exact fun d hd => hds d (List.mem_reverse.1 hd)
  · intro hne
    rw [List.getLast_reverse]
    exact hhead _ (List.head?_eq_some_head _)

theorem numeral_inj (hb : 1 < b) (hds : ∀ d ∈ ds, d < b) (hes : ∀ d ∈ es, d < b)
    (hd : ∀ d ∈ ds.head?, d ≠ 0) (he : ∀ d ∈ es.head?, d ≠ 0) :
    numeral b ds = numeral b es ↔ ds = es := by
  constructor
  · intro heq
    have hdigits := congrArg (Nat.digits b) heq
    rw [digits_numeral hb hds hd, digits_numeral hb hes he] at hdigits
    exact List.reverse_injective hdigits
  · exact congrArg (numeral b)

/-- At one length the first digit that differs decides. -/
theorem numeral_lt_iff (hb : 1 < b) (hds : ∀ d ∈ ds, d < b) (hes : ∀ d ∈ es, d < b)
    (hlen : ds.length = es.length) : numeral b ds < numeral b es ↔ ds < es := by
  induction ds generalizing es with
  | nil =>
      obtain rfl := List.length_eq_zero_iff.1 hlen.symm
      simp
  | cons d ds ih =>
      cases es with
      | nil => cases hlen
      | cons e es =>
          have hlen' : ds.length = es.length := by simpa using hlen
          have hds' : ∀ x ∈ ds, x < b := fun x hx => hds x (List.mem_cons_of_mem _ hx)
          have hes' : ∀ x ∈ es, x < b := fun x hx => hes x (List.mem_cons_of_mem _ hx)
          have hd := numeral_lt hb hds'
          have he := numeral_lt hb hes'
          rw [numeral_cons, numeral_cons, hlen', List.cons_lt_cons_iff, ← ih hds' hes' hlen']
          rw [hlen'] at hd
          generalize b ^ es.length = m at *
          rcases Nat.lt_trichotomy d e with hlt | rfl | hgt
          · have hstep : (d + 1) * m ≤ e * m := Nat.mul_le_mul_right m hlt
            rw [Nat.add_mul, Nat.one_mul] at hstep
            exact iff_of_true (by omega) (.inl hlt)
          · constructor
            · exact fun h => .inr ⟨rfl, by omega⟩
            · rintro (h | ⟨-, h⟩)
              · exact absurd h (Nat.lt_irrefl d)
              · omega
          · have hstep : (e + 1) * m ≤ d * m := Nat.mul_le_mul_right m hgt
            rw [Nat.add_mul, Nat.one_mul] at hstep
            refine iff_of_false (by omega) ?_
            rintro (h | ⟨rfl, -⟩)
            · omega
            · exact absurd hgt (Nat.lt_irrefl d)

end

end Sundae.Lib
