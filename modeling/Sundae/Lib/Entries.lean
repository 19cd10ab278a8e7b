import Mathlib.Data.List.Nodup

/-!
# Entries under keys

A list that is searched from the front for the entry of a key, where writing
replaces the entry that is found or takes it out, and a new entry goes to the
end. As long as no two entries have one key, each key is a variable of its own:
a write shows in the reads of its key and in no others.
-/

namespace Sundae.Lib

variable {α κ : Type}

/-- Replace the first entry that `p` finds, or take it out; `none` if there is
none. -/
def amendFirst (p : α → Bool) (f : α → Option α) : List α → Option (List α)
  | [] => none
  | a :: l =>
    if p a then
      match f a with
      | none => some l
      | some b => some (b :: l)
    else (amendFirst p f l).map (a :: ·)

variable {key : α → κ} {k : κ} {p q : α → Bool} {f : α → Option α} {l l' : List α}

theorem amendFirst_eq_none : amendFirst p f l = none ↔ ∀ a ∈ l, p a = false := by
  induction l with
  | nil => simp [amendFirst]
  | cons a l ih =>
      rw [amendFirst]
      cases ha : p a with
      | false => simp [ih, ha]
      | true =>
          cases hf : f a with
          | none => simp [ha]
          | some b => simp [ha]

/-- What a successful write did: it found its entry, and what it left there. -/
theorem amendFirst_eq_some (h : amendFirst p f l = some l') :
    ∃ s a t, l = s ++ a :: t ∧ p a = true ∧ (∀ b ∈ s, p b = false) ∧
      l' = s ++ (f a).toList ++ t := by
  induction l generalizing l' with
  | nil => cases h
  | cons a l ih =>
      rw [amendFirst] at h
      split at h
      · next ha =>
        refine ⟨[], a, l, rfl, ha, fun b hb => absurd hb List.not_mem_nil, ?_⟩
        cases hf : f a with
        | none => rw [hf] at h; exact (Option.some.inj h).symm
        | some b => rw [hf] at h; exact (Option.some.inj h).symm
      · next ha =>
        obtain ⟨m, hm, rfl⟩ := Option.map_eq_some_iff.1 h
        obtain ⟨s, b, t, rfl, hb, hs, rfl⟩ := ih hm
        refine ⟨a :: s, b, t, rfl, hb, fun c hc => ?_, rfl⟩
        rcases List.mem_cons.1 hc with rfl | hc
        · simpa using ha
        · exact hs c hc

theorem length_amendFirst_le (h : amendFirst p f l = some l') : l'.length ≤ l.length := by
  obtain ⟨s, a, t, rfl, -, -, rfl⟩ := amendFirst_eq_some h
  have hone : (f a).toList.length ≤ 1 := by cases f a <;> simp
  simp only [List.length_append, List.length_cons]
  omega

/-- A write does not show in a search for another key. -/
theorem find?_amendFirst_ne (h : amendFirst p f l = some l')
    (hq : ∀ a, p a = true → q a = false)
    (hkeep : ∀ a b, f a = some b → q b = q a) : l'.find? q = l.find? q := by
  obtain ⟨s, a, t, rfl, ha, -, rfl⟩ := amendFirst_eq_some h
  rw [List.find?_append, List.find?_append, List.find?_append,
    List.find?_cons_of_neg (by simp [hq a ha])]
  cases hfa : f a with
  | none => simp
  | some b => simp [hkeep a b hfa, hq a ha]

theorem modify_append_cons (s t : List α) (a : α) (g : α → α) :
    (s ++ a :: t).modify s.length g = s ++ g a :: t := by
  induction s with
  | nil => rfl
  | cons b s ih =>
      rw [List.cons_append, List.length_cons, List.modify_succ_cons, ih]
      rfl

section

variable (hp : ∀ a, p a = true ↔ key a = k) (hf : ∀ a b, f a = some b → key b = key a)
include hf

/-- A write keeps the keys apart. -/
theorem nodup_amendFirst (h : amendFirst p f l = some l') (hnd : (l.map key).Nodup) :
    (l'.map key).Nodup := by
  obtain ⟨s, a, t, rfl, -, -, rfl⟩ := amendFirst_eq_some h
  have hsub : ((f a).toList.map key).Sublist [key a] := by
    cases hfa : f a with
    | none => exact List.nil_sublist _
    | some b => simp [hf a b hfa]
  have hall : ((s ++ (f a).toList ++ t).map key).Sublist ((s ++ a :: t).map key) := by
    rw [List.map_append, List.map_append, List.map_append, List.map_cons,
      List.append_assoc]
    exact (List.Sublist.refl _).append (hsub.append (List.Sublist.refl _))
  exact hnd.sublist hall

include hp

/-- A search for its own key finds what it wrote. -/
theorem find?_amendFirst_self (h : amendFirst p f l = some l') (hnd : (l.map key).Nodup) :
    l'.find? p = (l.find? p).bind f := by
  obtain ⟨s, a, t, rfl, ha, hs, rfl⟩ := amendFirst_eq_some h
  have hfront : s.find? p = none := List.find?_eq_none.2 fun b hb => by simp [hs b hb]
  have hback : t.find? p = none := by
    refine List.find?_eq_none.2 fun b hb hpb => ?_
    rw [List.map_append, List.map_cons] at hnd
    have hnot := (List.nodup_cons.1 (List.nodup_append.1 hnd).2.1).1
    exact hnot (List.mem_map.2 ⟨b, hb, ((hp b).1 hpb).trans ((hp a).1 ha).symm⟩)
  rw [List.find?_append, List.find?_append, List.find?_append, hfront, hback,
    List.find?_cons_of_pos ha]
  cases hfa : f a with
  | none => simp [hfa]
  | some b =>
      have hpb : p b = true := (hp b).2 ((hf a b hfa).trans ((hp a).1 ha))
      simp [hfa, hpb]

end

end Sundae.Lib
