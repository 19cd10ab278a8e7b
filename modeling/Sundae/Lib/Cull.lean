import Mathlib.Data.List.Basic
import Mathlib.Order.Lattice

/-!
# Taking out the least, again and again

A list is culled by taking out the first entry of the least key, any number of
times. Which entries go, and what stands behind each when it goes, can be read
off the list at the start: the entries that go before another one are those of
a lesser key, and those of the same key in front of it.
-/

namespace Sundae.Lib

variable {α κ : Type} [LinearOrder κ] {key : α → κ} {l kept : List α}
  {gone : List (α × List α)} {x : α} {a b c : List α}

/-- `x` is the first of the least key. -/
structure FirstLeast (key : α → κ) (a : List α) (x : α) (b : List α) : Prop where
  front : ∀ y ∈ a, key x < key y
  back : ∀ y ∈ b, key x ≤ key y

/-- `gone` went, in this order, each with what stood behind it then. -/
inductive Culled (key : α → κ) : List α → List (α × List α) → List α → Prop
  | stop (l : List α) : Culled key l [] l
  | take {a : List α} {x : α} {b : List α} {gone : List (α × List α)} {kept : List α} :
    FirstLeast key a x b → Culled key (a ++ b) gone kept →
      Culled key (a ++ x :: b) ((x, b) :: gone) kept

/-- How many entries outlast `x`. -/
def outlasting (key : α → κ) (a : List α) (x : α) (b : List α) : Nat :=
  a.countP (fun y => decide (key x < key y)) + b.countP fun y => decide (key x ≤ key y)

omit [LinearOrder κ] in
/-- Where the entries of a list with one more are. -/
theorem split_insert {x₀ : α} {P : List α → List α → Prop} :
    (∃ a' b', a ++ x₀ :: b = a' ++ x :: b' ∧ P a' b') ↔
      (x = x₀ ∧ P a b) ∨ (∃ a' b', a = a' ++ x :: b' ∧ P a' (b' ++ x₀ :: b)) ∨
        ∃ a' b', b = a' ++ x :: b' ∧ P (a ++ x₀ :: a') b' := by
  constructor
  · rintro ⟨a', b', h, hP⟩
    rcases List.append_eq_append_iff.1 h with ⟨e, rfl, he⟩ | ⟨e, rfl, he⟩
    · cases e with
      | nil =>
          obtain ⟨rfl, rfl⟩ := List.cons.inj he
          rw [List.append_nil] at hP
          exact .inl ⟨rfl, hP⟩
      | cons y e =>
          obtain ⟨rfl, rfl⟩ := List.cons.inj he
          exact .inr (.inr ⟨e, b', rfl, hP⟩)
    · cases e with
      | nil =>
          obtain ⟨rfl, rfl⟩ := List.cons.inj he
          rw [List.append_nil]
          exact .inl ⟨rfl, hP⟩
      | cons y e =>
          obtain ⟨rfl, rfl⟩ := List.cons.inj he
          exact .inr (.inl ⟨a', e, rfl, hP⟩)
  · rintro (⟨rfl, hP⟩ | ⟨a', b', rfl, hP⟩ | ⟨a', b', rfl, hP⟩)
    · exact ⟨a, b, rfl, hP⟩
    · exact ⟨a', b' ++ x₀ :: b, by simp, hP⟩
    · exact ⟨a ++ x₀ :: a', b', by simp, hP⟩

omit [LinearOrder κ] in
theorem split_append {P : List α → List α → Prop} :
    (∃ a' b', a ++ b = a' ++ x :: b' ∧ P a' b') ↔
      (∃ a' b', a = a' ++ x :: b' ∧ P a' (b' ++ b)) ∨
        ∃ a' b', b = a' ++ x :: b' ∧ P (a ++ a') b' := by
  constructor
  · rintro ⟨a', b', h, hP⟩
    rcases List.append_eq_append_iff.1 h with ⟨e, rfl, rfl⟩ | ⟨e, rfl, he⟩
    · exact .inr ⟨e, b', rfl, hP⟩
    · cases e with
      | nil => exact .inr ⟨[], b', he.symm, by rwa [List.append_nil, List.append_nil]⟩
      | cons y e =>
          obtain ⟨rfl, rfl⟩ := List.cons.inj he
          exact .inl ⟨a', e, rfl, hP⟩
  · rintro (⟨a', b', rfl, hP⟩ | ⟨a', b', rfl, hP⟩)
    · exact ⟨a', b' ++ b, by simp, hP⟩
    · exact ⟨a ++ a', b', by simp, hP⟩

namespace Culled

theorem perm (h : Culled key l gone kept) : (gone.map Prod.fst ++ kept).Perm l := by
  induction h with
  | stop l => exact List.Perm.refl l
  | take _ _ ih => exact (ih.cons _).trans List.perm_middle.symm

theorem sublist (h : Culled key l gone kept) : kept.Sublist l := by
  induction h with
  | stop l => exact List.Sublist.refl l
  | take _ _ ih => exact ih.trans (List.Sublist.append_left (List.sublist_cons_self _ _) _)

/-- Nothing that is kept has a lesser key than what went. -/
theorem le (h : Culled key l gone kept) : ∀ g ∈ gone, ∀ y ∈ kept, key g.1 ≤ key y := by
  induction h with
  | stop l => simp
  | @take a x b gone kept hleast hrest ih =>
      intro g hg y hy
      rcases List.mem_cons.1 hg with rfl | hg
      · rcases List.mem_append.1 (hrest.sublist.subset hy) with hy | hy
        · exact le_of_lt (hleast.front y hy)
        · exact hleast.back y hy
      · exact ih g hg y hy

theorem length_eq (h : Culled key l gone kept) : gone.length + kept.length = l.length := by
  have hlen := h.perm.length_eq
  rwa [List.length_append, List.length_map] at hlen

end Culled

section

variable {x₀ : α} {a' b' : List α}

/-- An entry in front of the least one does not see it behind itself. -/
theorem outlasting_front (h : key x₀ < key x) :
    outlasting key a' x (b' ++ x₀ :: b) = outlasting key a' x (b' ++ b) := by
  have hx : ¬ key x ≤ key x₀ := not_le.2 h
  simp [outlasting, hx]

/-- Nor does one behind it. -/
theorem outlasting_back (h : key x₀ ≤ key x) :
    outlasting key (a ++ x₀ :: a') x b' = outlasting key (a ++ a') x b' := by
  have hx : ¬ key x < key x₀ := not_lt.2 h
  simp [outlasting, hx]

theorem outlasting_least (h : FirstLeast key a x b) :
    outlasting key a x b = a.length + b.length := by
  rw [outlasting, List.countP_eq_length.2 fun y hy => decide_eq_true (h.front y hy),
    List.countP_eq_length.2 fun y hy => decide_eq_true (h.back y hy)]

end

theorem outlasting_lt : outlasting key a x b < (a ++ x :: b).length := by
  have ha : a.countP (fun y => decide (key x < key y)) ≤ a.length := List.countP_le_length
  have hb : b.countP (fun y => decide (key x ≤ key y)) ≤ b.length := List.countP_le_length
  rw [outlasting, List.length_append, List.length_cons]
  omega

/-- What a property of the splits of a list says of the splits without its
least entry. -/
theorem split_least {P : α → Nat → List α → Prop} (h : FirstLeast key a x b) {z : α} :
    (∃ a' b', a ++ x :: b = a' ++ z :: b' ∧
        P z (outlasting key a' z b') (b'.filter fun y => decide (key z ≤ key y))) ↔
      (z = x ∧ P x (a.length + b.length) b) ∨
        ∃ a' b', a ++ b = a' ++ z :: b' ∧
          P z (outlasting key a' z b') (b'.filter fun y => decide (key z ≤ key y)) := by
  have hb : b.filter (fun y => decide (key x ≤ key y)) = b :=
    List.filter_eq_self.2 fun y hy => decide_eq_true (h.back y hy)
  rw [split_insert (P := fun a' b' =>
      P z (outlasting key a' z b') (b'.filter fun y => decide (key z ≤ key y))),
    split_append (P := fun a' b' =>
      P z (outlasting key a' z b') (b'.filter fun y => decide (key z ≤ key y)))]
  refine or_congr (and_congr_right ?_) (or_congr ?_ ?_)
  · rintro rfl
    rw [outlasting_least h, hb]
  · refine exists₂_congr fun a' b' => and_congr_right ?_
    rintro rfl
    have hz : key x < key z := h.front z (by simp)
    have hno : ¬ key z ≤ key x := not_le.2 hz
    rw [outlasting_front hz]
    simp [hno]
  · refine exists₂_congr fun a' b' => and_congr_right ?_
    rintro rfl
    rw [outlasting_back (h.back z (by simp))]

/-- What goes is what fewer entries than are kept outlast, and behind it stand
then the entries of no lesser key. -/
theorem Culled.mem_gone_iff (h : Culled key l gone kept) {g : α × List α} :
    g ∈ gone ↔ ∃ a b, l = a ++ g.1 :: b ∧ kept.length ≤ outlasting key a g.1 b ∧
      g.2 = b.filter fun y => decide (key g.1 ≤ key y) := by
  induction h with
  | stop l =>
      refine iff_of_false List.not_mem_nil ?_
      rintro ⟨a, b, rfl, hle, -⟩
      exact absurd outlasting_lt (Nat.not_lt.2 hle)
  | @take a x b gone kept hleast hrest ih =>
      have hlen := hrest.length_eq
      rw [List.length_append] at hlen
      rw [List.mem_cons, ih, split_least (P := fun _ n c => kept.length ≤ n ∧ g.2 = c) hleast]
      refine or_congr ?_ Iff.rfl
      rw [Prod.ext_iff]
      exact and_congr_right fun _ => (and_iff_right (by omega)).symm

theorem Culled.mem_kept_iff (h : Culled key l gone kept) {z : α} :
    z ∈ kept ↔ ∃ a b, l = a ++ z :: b ∧ outlasting key a z b < kept.length := by
  induction h with
  | stop l =>
      rw [List.mem_iff_append]
      refine exists₂_congr fun a b => ⟨fun heq => ⟨heq, ?_⟩, fun h => h.1⟩
      rw [heq]
      exact outlasting_lt
  | @take a x b gone kept hleast hrest ih =>
      have hlen := hrest.length_eq
      rw [List.length_append] at hlen
      rw [ih, split_least (P := fun _ n _ => n < kept.length) hleast]
      exact (or_iff_right fun h => by omega).symm

end Sundae.Lib
