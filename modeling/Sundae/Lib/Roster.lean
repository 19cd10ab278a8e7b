import Mathlib.Data.List.Count
import Mathlib.Data.List.ReduceOption
import Sundae.Lib.Shelf

/-!
# Rosters

A table of bins whose slots hold identifiers or are empty. An identifier is
listed in a home when that home's bin has it in one slot and no other bin has
it at all; without a home it is in no bin. Coming and going keep this, and do
not touch anybody else's entries.
-/

namespace Sundae.Lib

variable {ζ κ : Type} [DecidableEq ζ] [BEq κ]

/-- One slot of its home's bin holds the identifier, and no other slot does. -/
def Listed (t : ζ → List (Option κ)) (k : κ) (home : Option ζ) : Prop :=
  ∀ z, (t z).count (some k) = if home = some z then 1 else 0

namespace Listed

variable {t : ζ → List (Option κ)} {k : κ} {home : Option ζ} {z : ζ} {l : List (Option κ)}

/-- A bin that is replaced by one with as many entries of the identifier. -/
theorem setBin_same (h : Listed t k home) (hl : l.count (some k) = (t z).count (some k)) :
    Listed (setBin t z l) k home := by
  intro z'
  by_cases hz : z' = z
  · rw [hz, setBin, if_pos rfl, hl]
    exact h z
  · rw [setBin, if_neg hz]
    exact h z'

/-- The identifier leaves its home. -/
theorem leave (h : Listed t k (some z)) (hl : l.count (some k) = (t z).count (some k) - 1) :
    Listed (setBin t z l) k none := by
  intro z'
  have hhome := h z'
  by_cases hz : z' = z
  · rw [hz] at hhome ⊢
    rw [if_pos rfl] at hhome
    rw [setBin, if_pos rfl, hl, hhome]
    simp
  · rw [if_neg fun heq => hz (Option.some.inj heq).symm] at hhome
    rw [setBin, if_neg hz, hhome]
    simp

/-- And finds one. -/
theorem enter (h : Listed t k none) (hl : l.count (some k) = (t z).count (some k) + 1) :
    Listed (setBin t z l) k (some z) := by
  intro z'
  have hnone := h z'
  rw [if_neg (by simp)] at hnone
  by_cases hz : z' = z
  · rw [hz] at hnone ⊢
    rw [setBin, if_pos rfl, hl, hnone, if_pos rfl]
  · rw [setBin, if_neg hz, hnone, if_neg fun heq => hz (Option.some.inj heq).symm]

theorem nowhere_iff [LawfulBEq κ] : Listed t k none ↔ ∀ z, some k ∉ t z := by
  constructor
  · intro h z
    have hz := h z
    rw [if_neg (by simp)] at hz
    exact List.count_eq_zero.1 hz
  · intro h z
    rw [if_neg (by simp)]
    exact List.count_eq_zero.2 (h z)

theorem mem_iff [LawfulBEq κ] (h : Listed t k home) : some k ∈ t z ↔ home = some z := by
  have hz := h z
  rw [← List.count_pos_iff]
  split at hz
  · next hhome => exact iff_of_true (by omega) hhome
  · next hhome => exact iff_of_false (by omega) hhome

end Listed

/-! ## Gathering -/

/-- The identifiers of an array that are wanted. -/
def wanted (p : κ → Bool) (l : List (Option κ)) : List κ := l.reduceOption.filter p

omit [BEq κ] in
theorem mem_wanted {p : κ → Bool} {l : List (Option κ)} {k : κ} :
    k ∈ wanted p l ↔ some k ∈ l ∧ p k = true := by
  simp [wanted, List.reduceOption]

theorem count_reduceOption (l : List (Option κ)) (k : κ) :
    l.reduceOption.count k = l.count (some k) := by
  induction l with
  | nil => rfl
  | cons a l ih =>
      cases a with
      | none =>
          rw [List.reduceOption_cons_of_none, List.count_cons, ih]
          rfl
      | some b =>
          rw [List.reduceOption_cons_of_some, List.count_cons, List.count_cons, ih]
          rfl

/-- Gathered from bins that are not the same, nobody who is listed comes twice. -/
theorem nodup_gather [LawfulBEq κ] {t : ζ → List (Option κ)} {p : κ → Bool} {zs : List ζ}
    (hzs : zs.Nodup) (h : ∀ k, p k = true → ∃ home, Listed t k home) :
    (zs.flatMap fun z => wanted p (t z)).Nodup := by
  rw [List.nodup_flatMap]
  refine ⟨fun z _ => List.nodup_iff_count_le_one.2 fun k => ?_,
    hzs.imp fun {z z'} hne k hk hk' => ?_⟩
  · by_cases hp : p k = true
    · obtain ⟨home, hhome⟩ := h k hp
      have hz := hhome z
      rw [wanted, List.count_filter hp, count_reduceOption]
      split at hz <;> omega
    · rw [List.count_eq_zero.2 fun hk => hp (mem_wanted.1 hk).2]
      exact Nat.zero_le 1
  · obtain ⟨hz, hp⟩ := mem_wanted.1 hk
    obtain ⟨home, hhome⟩ := h k hp
    have hz' := (hhome.mem_iff).1 (mem_wanted.1 hk').1
    exact hne (Option.some.inj ((hhome.mem_iff.1 hz).symm.trans hz'))

/-- As many of a list as there is room for: all of it, if room is left. -/
theorem take_eq_self_of_room {α : Type} {l : List α} {n : Nat} (h : (l.take n).length < n) :
    l.take n = l := by
  rw [List.length_take] at h
  exact List.take_of_length_le (by omega)

/-- Overwriting the first match of an array, counted. -/
theorem count_modifyFirst {α : Type} [BEq α] [LawfulBEq α] {p : α → Bool} {f : α → α} {l : List α}
    {a b : α} (hp : l.find? p = some a) (hf : f a = b) (c : α) :
    (modifyFirst p f l).count c + (if a == c then 1 else 0) =
      l.count c + (if b == c then 1 else 0) := by
  induction l with
  | nil => cases hp
  | cons d l ih =>
      by_cases hd : p d = true
      · rw [List.find?_cons_of_pos hd] at hp
        obtain rfl := Option.some.inj hp
        rw [modifyFirst, if_pos hd, hf, List.count_cons, List.count_cons]
        omega
      · rw [List.find?_cons_of_neg hd] at hp
        rw [modifyFirst, if_neg hd, List.count_cons, List.count_cons]
        have := ih hp
        omega

theorem modifyFirst_none {α : Type} {p : α → Bool} {f : α → α} {l : List α}
    (hp : l.find? p = none) : modifyFirst p f l = l := by
  induction l with
  | nil => rfl
  | cons d l ih =>
      rw [List.find?_eq_none] at hp
      have hd : ¬ p d = true := hp d List.mem_cons_self
      rw [modifyFirst, if_neg hd, ih]
      exact List.find?_eq_none.2 fun e he => hp e (List.mem_cons_of_mem d he)

end Sundae.Lib
