import Mathlib.Data.List.Nodup

/-!
# Entries filed in bins

A table of bins, each an array of entries, where the bin an entry belongs in
depends on the entry and no two entries of a bin share a key. The operations
are the loops a program writes over such an array: overwrite the first match,
take the matches out, append. Which entries the whole table holds afterwards
is all the rest of a development wants to know.
-/

namespace Sundae.Lib

variable {ζ α κ : Type}

/-- Write through a pointer to the first entry that matches. -/
def modifyFirst (p : α → Bool) (f : α → α) : List α → List α
  | [] => []
  | a :: l => if p a then f a :: l else a :: modifyFirst p f l

/-- Take the matches out of an array by moving the rest down, while the index
goes on: the entry moved into the gap is not looked at. -/
def sweepMatches (p : α → Bool) : List α → List α
  | [] => []
  | [a] => if p a then [] else [a]
  | a :: b :: l => if p a then b :: sweepMatches p l else a :: sweepMatches p (b :: l)

/-- Replace one bin. -/
def setBin [DecidableEq ζ] (t : ζ → List α) (z : ζ) (l : List α) : ζ → List α :=
  fun z' => if z' = z then l else t z'

/-- Some bin holds the entry. -/
def Present (t : ζ → List α) (a : α) : Prop := ∃ z, a ∈ t z

theorem present_setBin [DecidableEq ζ] {t : ζ → List α} {z : ζ} {l : List α} {a : α} :
    Present (setBin t z l) a ↔ a ∈ l ∨ ∃ z', z' ≠ z ∧ a ∈ t z' := by
  constructor
  · rintro ⟨z', h⟩
    by_cases hz : z' = z
    · simp only [setBin, hz, if_true] at h
      exact .inl h
    · simp only [setBin, hz, if_false] at h
      exact .inr ⟨z', hz, h⟩
  · rintro (h | ⟨z', hz, h⟩)
    · exact ⟨z, by simpa [setBin] using h⟩
    · exact ⟨z', by simpa [setBin, hz] using h⟩

/-- Two equal keys do not both match in a list without repeated keys. -/
theorem mem_modifyFirst {key : α → κ} {k : κ} {p : α → Bool} {f : α → α} {l : List α} {a b : α}
    (hp : ∀ c, p c = true ↔ key c = k) (hl : (l.map key).Nodup) (ha : l.find? p = some a) :
    b ∈ modifyFirst p f l ↔ (b ∈ l ∧ key b ≠ k) ∨ b = f a := by
  induction l with
  | nil => simp at ha
  | cons c l ih =>
      rw [List.map_cons, List.nodup_cons] at hl
      by_cases hc : p c = true
      · rw [List.find?_cons_of_pos hc] at ha
        obtain rfl := Option.some.inj ha
        have hkey := (hp c).1 hc
        have hrest : ∀ d ∈ l, key d ≠ k := by
          intro d hd heq
          exact hl.1 (List.mem_map.2 ⟨d, hd, heq.trans hkey.symm⟩)
        rw [modifyFirst, if_pos hc]
        constructor
        · intro h
          rcases List.mem_cons.1 h with rfl | h
          · exact .inr rfl
          · exact .inl ⟨List.mem_cons_of_mem _ h, hrest b h⟩
        · rintro (⟨h, hb⟩ | rfl)
          · rcases List.mem_cons.1 h with rfl | h
            · exact absurd hkey hb
            · exact List.mem_cons_of_mem _ h
          · exact List.mem_cons_self
      · rw [List.find?_cons_of_neg hc] at ha
        have hkey : key c ≠ k := fun h => hc ((hp c).2 h)
        rw [modifyFirst, if_neg hc, List.mem_cons, ih hl.2 ha, List.mem_cons]
        constructor
        · rintro (rfl | ⟨h, hb⟩ | rfl)
          · exact .inl ⟨.inl rfl, hkey⟩
          · exact .inl ⟨.inr h, hb⟩
          · exact .inr rfl
        · rintro (⟨rfl | h, hb⟩ | rfl)
          · exact .inl rfl
          · exact .inr (.inl ⟨h, hb⟩)
          · exact .inr (.inr rfl)

theorem modifyFirst_append_left {p : α → Bool} {f : α → α} {l m : List α}
    (h : ∃ a ∈ l, p a = true) : modifyFirst p f (l ++ m) = modifyFirst p f l ++ m := by
  induction l with
  | nil => simp at h
  | cons a l ih =>
      by_cases ha : p a = true
      · simp [modifyFirst, ha]
      · have hl : ∃ b ∈ l, p b = true := by simpa [ha] using h
        simp [modifyFirst, ha, ih hl]

theorem modifyFirst_append_right {p : α → Bool} {f : α → α} {l m : List α}
    (h : ∀ a ∈ l, ¬ p a = true) : modifyFirst p f (l ++ m) = l ++ modifyFirst p f m := by
  induction l with
  | nil => rfl
  | cons a l ih =>
      have ha := h a List.mem_cons_self
      simp [modifyFirst, ha, ih fun b hb => h b (List.mem_cons_of_mem _ hb)]

theorem map_modifyFirst {key : α → κ} {p : α → Bool} {f : α → α}
    (hf : ∀ a, key (f a) = key a) (l : List α) :
    (modifyFirst p f l).map key = l.map key := by
  induction l with
  | nil => rfl
  | cons a l ih =>
      rw [modifyFirst]
      split
      · simp [hf]
      · simp [ih]

theorem find?_modifyFirst {p : α → Bool} {f : α → α} {l : List α} {a : α}
    (hf : ∀ b, p (f b) = p b) (ha : l.find? p = some a) :
    (modifyFirst p f l).find? p = some (f a) := by
  induction l with
  | nil => simp at ha
  | cons b l ih =>
      by_cases hb : p b = true
      · rw [List.find?_cons_of_pos hb] at ha
        obtain rfl := Option.some.inj ha
        rw [modifyFirst, if_pos hb, List.find?_cons_of_pos ((hf b).trans hb)]
      · rw [List.find?_cons_of_neg hb] at ha
        rw [modifyFirst, if_neg hb, List.find?_cons_of_neg hb]
        exact ih ha

/-- Who looks for something else does not see the write. -/
theorem find?_modifyFirst_of_ne {p q : α → Bool} {f : α → α} (hq : ∀ a, p a = true → q a = false)
    (hf : ∀ a, q (f a) = q a) (l : List α) : (modifyFirst p f l).find? q = l.find? q := by
  induction l with
  | nil => rfl
  | cons a l ih =>
      rw [modifyFirst]
      split
      · next ha =>
        rw [List.find?_cons_of_neg (by rw [hf, hq a ha]; exact Bool.false_ne_true),
          List.find?_cons_of_neg (by rw [hq a ha]; exact Bool.false_ne_true)]
      · rw [List.find?_cons, List.find?_cons, ih]

/-- Who looks for something else does not miss what is taken out. -/
theorem find?_eraseP_of_ne {p q : α → Bool} (hq : ∀ a, p a = true → q a = false) (l : List α) :
    (l.eraseP p).find? q = l.find? q := by
  induction l with
  | nil => rfl
  | cons a l ih =>
      by_cases ha : p a = true
      · rw [List.eraseP_cons_of_pos ha,
          List.find?_cons_of_neg (by rw [hq a ha]; exact Bool.false_ne_true)]
      · rw [List.eraseP_cons_of_neg ha, List.find?_cons, List.find?_cons, ih]

/-- With no key twice the one taken out was the only one. -/
theorem find?_eraseP_self (key : α → κ) (k : κ) {p : α → Bool} {l : List α}
    (hp : ∀ c, p c = true ↔ key c = k) (hl : (l.map key).Nodup) : (l.eraseP p).find? p = none := by
  induction l with
  | nil => rfl
  | cons a l ih =>
      rw [List.map_cons, List.nodup_cons] at hl
      by_cases ha : p a = true
      · rw [List.eraseP_cons_of_pos ha, List.find?_eq_none]
        intro b hb hpb
        exact hl.1 (List.mem_map.2 ⟨b, hb, ((hp b).1 hpb).trans ((hp a).1 ha).symm⟩)
      · rw [List.eraseP_cons_of_neg ha, List.find?_cons_of_neg ha, ih hl.2]

/-- With no key twice there is at most one match, and the skipped entry is
not one. -/
theorem sweepMatches_eq_filter {key : α → κ} {k : κ} {p : α → Bool} {l : List α}
    (hp : ∀ c, p c = true ↔ key c = k) (hl : (l.map key).Nodup) :
    sweepMatches p l = l.filter fun a => !p a := by
  induction l using sweepMatches.induct p with
  | case1 => rfl
  | case2 a ha => simp [sweepMatches, ha]
  | case3 a ha => simp [sweepMatches, ha]
  | case4 a b l ha ih =>
      simp only [List.map_cons, List.nodup_cons, List.mem_cons, not_or] at hl
      have hb : p b = false := by
        by_contra h
        have hb' : p b = true := by simpa using h
        exact hl.1.1 (((hp a).1 ha).trans ((hp b).1 hb').symm)
      rw [sweepMatches, if_pos ha, ih hl.2.2]
      simp [ha, hb]
  | case5 a b l ha ih =>
      rw [List.map_cons, List.nodup_cons] at hl
      rw [sweepMatches, if_neg ha, ih hl.2]
      simp [ha]

/-- Every entry is in the bin it belongs in, and no key is twice in a bin. -/
structure Shelved (home : α → Option ζ) (key : α → κ) (t : ζ → List α) : Prop where
  home_eq : ∀ z, ∀ a ∈ t z, home a = some z
  nodup : ∀ z, ((t z).map key).Nodup

namespace Shelved

variable {home : α → Option ζ} {key : α → κ} {t : ζ → List α}

theorem empty : Shelved home key fun _ : ζ => ([] : List α) := by
  constructor
  · simp
  · simp

theorem setBin [DecidableEq ζ] (hs : Shelved home key t) {z : ζ} {l : List α}
    (hhome : ∀ a ∈ l, home a = some z) (hl : (l.map key).Nodup) :
    Shelved home key (setBin t z l) := by
  constructor
  · intro z' a ha
    by_cases hz : z' = z
    · subst hz
      simp only [Lib.setBin, if_true] at ha
      exact hhome a ha
    · simp only [Lib.setBin, hz, if_false] at ha
      exact hs.home_eq z' a ha
  · intro z'
    by_cases hz : z' = z
    · simpa [Lib.setBin, hz] using hl
    · simpa [Lib.setBin, hz] using hs.nodup z'

/-- The entries with a key are all in the bin the key belongs in. -/
theorem present_iff {z : ζ} {b : α} (hs : Shelved home key t) (hb : home b = some z) :
    Present t b ↔ b ∈ t z := by
  constructor
  · rintro ⟨z', h⟩
    have := (hs.home_eq z' b h).symm.trans hb
    exact Option.some.inj this ▸ h
  · exact fun h => ⟨z, h⟩

section Match

variable {k : κ} {p : α → Bool} {z : ζ}

/-- The one match, set apart. -/
theorem split (hs : Shelved home key t) (hp : ∀ c, p c = true ↔ key c = k)
    (hk : ∀ c, key c = k → home c = some z) {a : α} (ha : (t z).find? p = some a) (b : α) :
    Present t b ↔ (Present t b ∧ ¬ p b = true) ∨ b = a := by
  have hpa : p a = true := List.find?_some ha
  have hmem : a ∈ t z := List.mem_of_find?_eq_some ha
  constructor
  · intro h
    by_cases hb : p b = true
    · have hin := (hs.present_iff (hk b ((hp b).1 hb))).1 h
      have heq : key b = key a := ((hp b).1 hb).trans ((hp a).1 hpa).symm
      exact .inr (List.inj_on_of_nodup_map (hs.nodup z) hin hmem heq)
    · exact .inl ⟨h, hb⟩
  · rintro (⟨h, -⟩ | rfl)
    · exact h
    · exact ⟨z, hmem⟩

theorem none_present (hs : Shelved home key t) (hp : ∀ c, p c = true ↔ key c = k)
    (hk : ∀ c, key c = k → home c = some z) (ha : (t z).find? p = none) {b : α}
    (hb : Present t b) : ¬ p b = true := by
  intro h
  have hin := (hs.present_iff (hk b ((hp b).1 h))).1 hb
  exact List.find?_eq_none.1 ha b hin h

variable [DecidableEq ζ]

/-- Overwriting the first match replaces it. -/
theorem modify (hs : Shelved home key t) (hp : ∀ c, p c = true ↔ key c = k)
    (hk : ∀ c, key c = k → home c = some z) {f : α → α} (hf : ∀ a, key (f a) = key a)
    (hhome : ∀ a, home (f a) = home a) {a : α} (ha : (t z).find? p = some a) :
    Shelved home key (Lib.setBin t z (modifyFirst p f (t z))) ∧
      ∀ b, Present (Lib.setBin t z (modifyFirst p f (t z))) b ↔
        (Present t b ∧ ¬ p b = true) ∨ b = f a := by
  have hmem := fun b => mem_modifyFirst (f := f) (b := b) hp (hs.nodup z) ha
  constructor
  · refine hs.setBin ?_ ?_
    · intro b hb
      rcases (hmem b).1 hb with ⟨h, -⟩ | rfl
      · exact hs.home_eq z b h
      · rw [hhome]
        exact hs.home_eq z a (List.mem_of_find?_eq_some ha)
    · rw [map_modifyFirst hf]
      exact hs.nodup z
  · intro b
    rw [present_setBin, hmem b]
    constructor
    · rintro ((⟨h, hb⟩ | rfl) | ⟨z', hz, h⟩)
      · exact .inl ⟨⟨z, h⟩, fun hpb => hb ((hp b).1 hpb)⟩
      · exact .inr rfl
      · refine .inl ⟨⟨z', h⟩, fun hpb => hz ?_⟩
        have hz' := (hs.home_eq z' b h).symm.trans (hk b ((hp b).1 hpb))
        exact Option.some.inj hz'
    · rintro (⟨⟨z', h⟩, hb⟩ | rfl)
      · by_cases hz : z' = z
        · subst hz
          exact .inl (.inl ⟨h, fun hkb => hb ((hp b).2 hkb)⟩)
        · exact .inr ⟨z', hz, h⟩
      · exact .inl (.inr rfl)

theorem sweep (hs : Shelved home key t) (hp : ∀ c, p c = true ↔ key c = k)
    (hk : ∀ c, key c = k → home c = some z) :
    Shelved home key (Lib.setBin t z (sweepMatches p (t z))) ∧
      ∀ b, Present (Lib.setBin t z (sweepMatches p (t z))) b ↔
        Present t b ∧ ¬ p b = true := by
  rw [sweepMatches_eq_filter hp (hs.nodup z)]
  constructor
  · refine hs.setBin (fun b hb => hs.home_eq z b (List.mem_filter.1 hb).1) ?_
    exact (hs.nodup z).sublist (List.filter_sublist.map key)
  · intro b
    rw [present_setBin, List.mem_filter]
    constructor
    · rintro (⟨h, hb⟩ | ⟨z', hz, h⟩)
      · exact ⟨⟨z, h⟩, by simpa using hb⟩
      · refine ⟨⟨z', h⟩, fun hpb => hz ?_⟩
        have hz' := (hs.home_eq z' b h).symm.trans (hk b ((hp b).1 hpb))
        exact Option.some.inj hz'
    · rintro ⟨⟨z', h⟩, hb⟩
      by_cases hz : z' = z
      · subst hz
        exact .inl ⟨h, by simpa using hb⟩
      · exact .inr ⟨z', hz, h⟩

/-- Appending an entry whose key is new. -/
theorem append (hs : Shelved home key t) {a : α} (hp : ∀ c, p c = true ↔ key c = key a)
    (hhome : home a = some z) (ha : (t z).find? p = none) :
    Shelved home key (Lib.setBin t z (t z ++ [a])) ∧
      ∀ b, Present (Lib.setBin t z (t z ++ [a])) b ↔ Present t b ∨ b = a := by
  constructor
  · refine hs.setBin ?_ ?_
    · intro b hb
      rcases List.mem_append.1 hb with h | h
      · exact hs.home_eq z b h
      · rw [List.mem_singleton.1 h]
        exact hhome
    · rw [List.map_append, List.map_singleton, ← List.concat_eq_append]
      refine (hs.nodup z).concat fun h => ?_
      obtain ⟨b, hb, hkey⟩ := List.mem_map.1 h
      exact List.find?_eq_none.1 ha b hb ((hp b).2 hkey)
  · intro b
    rw [present_setBin, List.mem_append, List.mem_singleton]
    constructor
    · rintro ((h | rfl) | ⟨z', -, h⟩)
      · exact .inl ⟨z, h⟩
      · exact .inr rfl
      · exact .inl ⟨z', h⟩
    · rintro (⟨z', h⟩ | rfl)
      · by_cases hz : z' = z
        · subst hz
          exact .inl (.inl h)
        · exact .inr ⟨z', hz, h⟩
      · exact .inl (.inr rfl)

end Match

end Shelved

end Sundae.Lib
