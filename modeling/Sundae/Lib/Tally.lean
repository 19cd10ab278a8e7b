import Mathlib.Algebra.GroupWithZero.Nat
import Mathlib.Data.List.Basic

/-!
# Quantities in a list of entries

A container here is a list of entries, each with a key and a quantity, and
`tally` is how much of one key the whole list holds. One rule for each thing
done to such a list: an entry added, taken out, or changed in place. They are
stated additively, so that no truncated subtraction gets in the way of a
conservation argument.
-/

namespace Sundae.Lib

variable {α κ : Type} [DecidableEq κ] {key : α → κ} {qty : α → Nat} {k : κ}

/-- What one entry contributes to the quantity of `k`. -/
def share (key : α → κ) (qty : α → Nat) (k : κ) (a : α) : Nat :=
  if k = key a then qty a else 0

/-- How much of `k` the entries hold together. -/
def tally (key : α → κ) (qty : α → Nat) (k : κ) (l : List α) : Nat :=
  (l.map (share key qty k)).sum

theorem share_of_eq {a : α} (h : key a = k) : share key qty k a = qty a := if_pos h.symm

theorem share_of_ne {a : α} (h : key a ≠ k) : share key qty k a = 0 := if_neg (Ne.symm h)

@[simp] theorem tally_nil : tally key qty k [] = 0 := rfl

@[simp] theorem tally_cons {a : α} {l : List α} :
    tally key qty k (a :: l) = share key qty k a + tally key qty k l := by
  simp only [tally, List.map_cons, List.sum_cons]

@[simp] theorem tally_append {l m : List α} :
    tally key qty k (l ++ m) = tally key qty k l + tally key qty k m := by
  simp only [tally, List.map_append, List.sum_append]

theorem tally_eq_zero {l : List α} (h : ∀ a ∈ l, key a ≠ k) : tally key qty k l = 0 := by
  induction l with
  | nil => rfl
  | cons a l ih =>
      rw [tally_cons, share_of_ne (h a List.mem_cons_self),
        ih fun b hb => h b (List.mem_cons_of_mem a hb)]

/-- Taking an entry out takes out its share. -/
theorem tally_eraseIdx (key : α → κ) (qty : α → Nat) {l : List α} {i : Nat} {a : α}
    (h : l[i]? = some a) :
    tally key qty k (l.eraseIdx i) + share key qty k a = tally key qty k l := by
  induction l generalizing i with
  | nil => cases h
  | cons b l ih =>
      cases i with
      | zero =>
          obtain rfl := Option.some.inj h
          rw [List.eraseIdx_cons_zero, tally_cons, Nat.add_comm]
      | succ i =>
          have hi := ih h
          rw [List.eraseIdx_cons_succ, tally_cons, tally_cons]
          omega

/-- Changing an entry in place trades its old share for its new one. -/
theorem tally_modify (key : α → κ) (qty : α → Nat) {l : List α} {i : Nat} {a : α} (f : α → α)
    (h : l[i]? = some a) :
    tally key qty k (l.modify i f) + share key qty k a =
      tally key qty k l + share key qty k (f a) := by
  induction l generalizing i with
  | nil => cases h
  | cons b l ih =>
      cases i with
      | zero =>
          obtain rfl := Option.some.inj h
          rw [List.modify_zero_cons, tally_cons, tally_cons]
          omega
      | succ i =>
          have hi := ih h
          rw [List.modify_succ_cons, tally_cons, tally_cons]
          omega

/-- The usual case: the entry keeps its key. -/
theorem tally_modify_of_key (key : α → κ) (qty : α → Nat) {l : List α} {i : Nat} {a : α}
    (f : α → α) (h : l[i]? = some a) (hf : key (f a) = key a) :
    tally key qty k (l.modify i f) + (if k = key a then qty a else 0) =
      tally key qty k l + if k = key a then qty (f a) else 0 := by
  have hmod := tally_modify key qty (k := k) f h
  rw [share, share, hf] at hmod
  exact hmod

omit [DecidableEq κ] in
/-- Changing the entry behind `l`. -/
theorem modify_append (l m : List α) (f : α → α) :
    (l ++ m).modify l.length f = l ++ m.modifyHead f := by
  induction l with
  | nil => cases m <;> rfl
  | cons a l ih => simp [ih]

omit [DecidableEq κ] in
theorem map_modify_of_key {l : List α} {i : Nat} (key : α → κ) {f : α → α}
    (hf : ∀ a, key (f a) = key a) :
    (l.modify i f).map key = l.map key := by
  induction l generalizing i with
  | nil => cases i <;> rfl
  | cons a l ih =>
      cases i with
      | zero => rw [List.modify_zero_cons, List.map_cons, List.map_cons, hf]
      | succ i => rw [List.modify_succ_cons, List.map_cons, List.map_cons, ih]

/-- Taking out an entry of another key changes nothing. -/
theorem tally_eraseP_ne {p : α → Bool} (hp : ∀ a, p a = true → key a ≠ k) {l : List α} :
    tally key qty k (l.eraseP p) = tally key qty k l := by
  induction l with
  | nil => rfl
  | cons a l ih =>
      cases ha : p a with
      | true =>
          rw [List.eraseP_cons_of_pos ha, tally_cons, share_of_ne (hp a ha), Nat.zero_add]
      | false =>
          rw [List.eraseP_cons_of_neg (by rw [ha]; exact Bool.false_ne_true), tally_cons,
            tally_cons, ih]

/-- With one unit to an entry the quantity is a count. -/
theorem tally_eq_countP {l : List α} (h : ∀ a ∈ l, key a = k → qty a = 1) :
    tally key qty k l = l.countP fun a => decide (key a = k) := by
  induction l with
  | nil => rfl
  | cons a l ih =>
      have hl := ih fun b hb => h b (List.mem_cons_of_mem a hb)
      by_cases ha : key a = k
      · rw [tally_cons, share_of_eq ha, h a List.mem_cons_self ha, hl,
          List.countP_cons_of_pos (by simpa using ha), Nat.add_comm]
      · rw [tally_cons, share_of_ne ha, hl, List.countP_cons_of_neg (by simpa using ha),
          Nat.zero_add]

/-- At most one entry of `k`, the one at `i`: the quantity is what it holds. -/
theorem tally_of_unique {l : List α} {i : Nat} {a : α} (h : l[i]? = some a) (ha : key a = k)
    (huniq : ∀ j b, l[j]? = some b → key b = k → j = i) : tally key qty k l = qty a := by
  have hrest : tally key qty k (l.eraseIdx i) = 0 := by
    refine tally_eq_zero fun b hb hk => ?_
    obtain ⟨j, hj, hjb⟩ := List.mem_eraseIdx_iff_getElem?.1 hb
    exact hj (huniq j b hjb hk)
  have hsum := tally_eraseIdx key qty (k := k) h
  rw [hrest, share_of_eq ha, Nat.zero_add] at hsum
  exact hsum.symm

/-- A change in one place is what it makes of the entry that is there. -/
theorem modify_congr_at {l : List α} {f g : α → α} {i : Nat} {a : α} (ha : l[i]? = some a)
    (h : f a = g a) : l.modify i f = l.modify i g := by
  refine List.ext_getElem? fun k => ?_
  rw [List.getElem?_modify, List.getElem?_modify]
  by_cases hk : i = k
  · subst hk
    simp [ha, h]
  · simp [hk]

/-- An entry of a list changed in one place is an old one or the changed one. -/
theorem mem_modify {l : List α} {f : α → α} {i : Nat} {a : α} (h : a ∈ l.modify i f) :
    a ∈ l ∨ ∃ b, l[i]? = some b ∧ a = f b := by
  induction l generalizing i with
  | nil => cases i <;> cases h
  | cons c l ih =>
      cases i with
      | zero =>
          rw [List.modify_zero_cons] at h
          rcases List.mem_cons.1 h with rfl | h
          · exact .inr ⟨c, rfl, rfl⟩
          · exact .inl (List.mem_cons_of_mem c h)
      | succ i =>
          rw [List.modify_succ_cons] at h
          rcases List.mem_cons.1 h with rfl | h
          · exact .inl List.mem_cons_self
          · rcases ih h with h | h
            · exact .inl (List.mem_cons_of_mem c h)
            · exact .inr h

theorem tally_perm {l m : List α} (h : l.Perm m) : tally key qty k l = tally key qty k m :=
  (h.map _).sum_nat

/-- Only the keys and the quantities of the entries count. -/
theorem tally_pairs (l : List α) :
    tally Prod.fst Prod.snd k (l.map fun a => (key a, qty a)) = tally key qty k l := by
  rw [tally, List.map_map]
  rfl

theorem le_tally (key : α → κ) (qty : α → Nat) {l : List α} {a : α} (h : a ∈ l) :
    share key qty k a ≤ tally key qty k l := by
  obtain ⟨i, hi⟩ := List.mem_iff_getElem?.1 h
  have hsum := tally_eraseIdx key qty (k := k) hi
  omega

end Sundae.Lib
