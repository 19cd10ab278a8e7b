import Sundae.Lib.Tally
import Sundae.Ref.Inventory

/-!
# What the inventory operations do to what is held

`held` is how many units of an item a list of slots holds: the stack of a
stackable item, the number of slots of any other. Removing and giving are
described by what they do to `held`, for every item.

Giving loses nothing but what a stack cannot take. Removing takes out what it
was asked for, or all there is, with one exception that `doubled` names: the
loop of `player_inv_remove` restarts at slot 1 after its first removal, so of
an item in both of the first two slots it always leaves one.
-/

namespace Sundae.Proofs

open Sundae.Ref Sundae.Lib

/-- The units of its item a slot holds. -/
def units (t : ItemTable) (x : InvItem) : Nat := if t.stackable x.id then x.stack else 1

/-- The units of an item held in a list of slots. -/
def held (t : ItemTable) (id : Nat) (inv : List InvItem) : Nat :=
  tally InvItem.id (units t) id inv

/-- What every inventory keeps: two slots of one item only if it does not
stack, and nothing worn that has no config (`player_wear` looks it up). -/
structure InvWf (t : ItemTable) (inv : List InvItem) : Prop where
  single : (inv.map InvItem.id).Pairwise fun a b => a = b → t.stackable a = false
  wornKnown : ∀ x ∈ inv, x.worn = true → (t.byId x.id).isSome = true

variable {t : ItemTable} {inv : List InvItem} {id k count n : Nat}

theorem units_stackable {x : InvItem} (h : t.stackable x.id = true) : units t x = x.stack := by
  rw [units, if_pos h]

theorem units_unstackable {x : InvItem} (h : t.stackable x.id = false) : units t x = 1 := by
  rw [units, h]
  exact if_neg Bool.false_ne_true

theorem held_unstackable (h : t.stackable id = false) :
    held t id inv = inv.countP (·.id == id) := by
  refine (tally_eq_countP fun x _ hx => units_unstackable (hx ▸ h)).trans ?_
  simp only [beq_eq_decide]

theorem InvWf.sublist {l : List InvItem} (h : InvWf t inv) (hs : l.Sublist inv) : InvWf t l :=
  ⟨h.single.sublist (hs.map InvItem.id), fun x hx => h.wornKnown x (hs.subset hx)⟩

/-- The slot of a stackable item is the only one. -/
theorem InvWf.unique (h : InvWf t inv) (hid : t.stackable id = true) {i j : Nat}
    {x y : InvItem} (hi : inv[i]? = some x) (hx : x.id = id) (hj : inv[j]? = some y)
    (hy : y.id = id) : j = i := by
  obtain ⟨hil, hi⟩ := List.getElem?_eq_some_iff.1 hi
  obtain ⟨hjl, hj⟩ := List.getElem?_eq_some_iff.1 hj
  have hpair : ∀ (a b : Nat) (ha : a < inv.length) (hb : b < inv.length), a < b →
      inv[a].id = id → inv[b].id = id → False := by
    intro a b ha hb hlt hai hbi
    have h1 := List.pairwise_iff_getElem.1 h.single a b (by rwa [List.length_map])
      (by rwa [List.length_map]) hlt
    rw [List.getElem_map, List.getElem_map, hai, hbi] at h1
    rw [h1 rfl] at hid
    exact Bool.false_ne_true hid
  rcases Nat.lt_trichotomy i j with hlt | heq | hgt
  · exact (hpair i j hil hjl hlt (by rw [hi, hx]) (by rw [hj, hy])).elim
  · exact heq.symm
  · exact (hpair j i hjl hil hgt (by rw [hj, hy]) (by rw [hi, hx])).elim

/-- A stackable item has one slot. -/
theorem InvWf.eq_of_id (h : InvWf t inv) {x y : InvItem} (hid : t.stackable x.id = true)
    (hx : x ∈ inv) (hy : y ∈ inv) (heq : y.id = x.id) : y = x := by
  obtain ⟨i, hi⟩ := List.mem_iff_getElem?.1 hx
  obtain ⟨j, hj⟩ := List.mem_iff_getElem?.1 hy
  have hij := h.unique hid hi rfl hj heq
  rw [hij, hi] at hj
  exact (Option.some.inj hj).symm

/-- Of a stackable item the slot holds all there is. -/
theorem held_stackable (h : InvWf t inv) (hid : t.stackable id = true) {i : Nat} {x : InvItem}
    (hi : inv[i]? = some x) (hx : x.id = id) : held t id inv = x.stack := by
  rw [held, tally_of_unique hi hx fun j y hj hy => h.unique hid hi hx hj hy,
    units_stackable (hx ▸ hid)]

/-- Changing the stack of a stackable item's slot. -/
theorem held_modify (hid : t.stackable id = true) {i : Nat} {x : InvItem}
    {f : InvItem → InvItem} (hi : inv[i]? = some x) (hx : x.id = id) (hf : (f x).id = x.id) :
    held t k (inv.modify i f) + (if k = id then x.stack else 0) =
      held t k inv + if k = id then (f x).stack else 0 := by
  have hmod := tally_modify_of_key InvItem.id (units t) (k := k) _ hi hf
  rw [units_stackable (hx ▸ hid), units_stackable (by rw [hf, hx, hid]), hx] at hmod
  exact hmod

theorem held_eq_zero (h : ∀ x ∈ inv, x.id ≠ id) : held t id inv = 0 := tally_eq_zero h

/-! ## Finding a slot -/

theorem findSlot_eq {hit : InvItem → Except Assert Bool} {p : InvItem → Bool}
    (h : ∀ x ∈ inv, hit x = .ok (p x)) : findSlot hit inv = .ok (inv.findIdx? p) := by
  induction inv with
  | nil => rfl
  | cons x inv ih =>
      have hinv := ih fun y hy => h y (List.mem_cons_of_mem x hy)
      rw [findSlot, h x List.mem_cons_self, List.findIdx?_cons, hinv]
      cases p x <;> rfl

theorem mem_of_findIdx {p : InvItem → Bool} {i : Nat} (h : inv.findIdx? p = some i) :
    ∃ x, inv[i]? = some x ∧ p x = true := by
  obtain ⟨hlt, hp, -⟩ := List.findIdx?_eq_some_iff_getElem.1 h
  exact ⟨inv[i], List.getElem?_eq_getElem hlt, hp⟩

theorem not_mem_of_findIdx {p : InvItem → Bool} (h : inv.findIdx? p = none) :
    ∀ x ∈ inv, p x = false := List.findIdx?_eq_none_iff.1 h

/-! ## Removing -/

/-- Take out the first `n` entries that hit. -/
def eraseFirst (p : InvItem → Bool) : Nat → List InvItem → List InvItem
  | 0, l => l
  | n + 1, l => eraseFirst p n (l.eraseP p)

/-- Leave slot 0 alone. -/
def keepHead (f : List InvItem → List InvItem) : List InvItem → List InvItem
  | [] => []
  | x :: l => x :: f l

/-- What the removal loop takes out: the first slot that hits, then the first
ones after slot 0. -/
def removeMatches (p : InvItem → Bool) : Nat → List InvItem → List InvItem
  | 0, l => l
  | n + 1, l => keepHead (eraseFirst p n) (l.eraseP p)

theorem eraseFirst_sublist {p : InvItem → Bool} {l : List InvItem} :
    (eraseFirst p n l).Sublist l := by
  induction n generalizing l with
  | zero => exact List.Sublist.refl l
  | succ n ih => exact ih.trans List.eraseP_sublist

theorem removeMatches_sublist {p : InvItem → Bool} {l : List InvItem} :
    (removeMatches p n l).Sublist l := by
  cases n with
  | zero => exact List.Sublist.refl l
  | succ n =>
      refine List.Sublist.trans ?_ (List.eraseP_sublist (p := p))
      rw [removeMatches]
      cases l.eraseP p with
      | nil => exact List.Sublist.refl []
      | cons x l => exact eraseFirst_sublist.cons_cons x

theorem eraseFirst_of_none {p : InvItem → Bool} {l : List InvItem} (h : ∀ x ∈ l, p x = false) :
    eraseFirst p n l = l := by
  induction n with
  | zero => rfl
  | succ n ih =>
      rw [eraseFirst, List.eraseP_of_forall_not fun x hx => by rw [h x hx]; exact Bool.false_ne_true]
      exact ih

theorem countP_eraseP {p : InvItem → Bool} {l : List InvItem} :
    (l.eraseP p).countP p = l.countP p - 1 := by
  induction l with
  | nil => rfl
  | cons x l ih =>
      cases hx : p x with
      | true => rw [List.eraseP_cons_of_pos hx, List.countP_cons_of_pos hx, Nat.add_sub_cancel]
      | false =>
          have hx' : ¬ p x = true := by rw [hx]; exact Bool.false_ne_true
          rw [List.eraseP_cons_of_neg hx', List.countP_cons_of_neg hx',
            List.countP_cons_of_neg hx', ih]

theorem countP_eraseFirst {p : InvItem → Bool} {l : List InvItem} :
    (eraseFirst p n l).countP p = l.countP p - n := by
  induction n generalizing l with
  | zero => rfl
  | succ n ih =>
      rw [eraseFirst, ih, countP_eraseP]
      omega

/-- One if the first two slots both hit: the slot the removal loop misses. -/
def doubled (p : InvItem → Bool) : List InvItem → Nat
  | x :: y :: _ => if p x && p y then 1 else 0
  | _ => 0

/-- The removal loop takes out what it was asked for, or all it can see. -/
theorem countP_removeMatches {p : InvItem → Bool} :
    (removeMatches p n inv).countP p = inv.countP p - min n (inv.countP p - doubled p inv) := by
  cases n with
  | zero => rw [Nat.zero_min, Nat.sub_zero, removeMatches]
  | succ n =>
      rw [removeMatches]
      match inv with
      | [] => rfl
      | [x] =>
          cases hx : p x with
          | true =>
              rw [List.eraseP_cons_of_pos hx, List.countP_cons_of_pos hx]
              show 0 = 0 + 1 - min (n + 1) (0 + 1 - 0)
              omega
          | false =>
              have hx' : ¬ p x = true := by rw [hx]; exact Bool.false_ne_true
              rw [List.eraseP_cons_of_neg hx', List.eraseP_nil, keepHead,
                List.countP_cons_of_neg hx', List.countP_cons_of_neg hx', countP_eraseFirst]
              show 0 - n = 0 - min (n + 1) (0 - 0)
              omega
      | x :: y :: l =>
          have hdoubled : doubled p (x :: y :: l) = if p x && p y then 1 else 0 := rfl
          rw [hdoubled]
          cases hx : p x with
          | true =>
              rw [List.eraseP_cons_of_pos hx, keepHead, List.countP_cons_of_pos hx]
              cases hy : p y with
              | true =>
                  rw [List.countP_cons_of_pos hy, List.countP_cons_of_pos hy, countP_eraseFirst,
                    Bool.and_self, if_pos rfl]
                  omega
              | false =>
                  have hy' : ¬ p y = true := by rw [hy]; exact Bool.false_ne_true
                  rw [List.countP_cons_of_neg hy', List.countP_cons_of_neg hy', countP_eraseFirst,
                    Bool.and_false, if_neg Bool.false_ne_true]
                  omega
          | false =>
              have hx' : ¬ p x = true := by rw [hx]; exact Bool.false_ne_true
              rw [List.eraseP_cons_of_neg hx', keepHead, List.countP_cons_of_neg hx',
                List.countP_cons_of_neg hx', countP_eraseFirst, countP_eraseP, Bool.false_and,
                if_neg Bool.false_ne_true]
              omega

theorem held_removeMatches_ne (hne : k ≠ id) :
    held t k (removeMatches (·.id == id) n inv) = held t k inv := by
  have hp : ∀ a : InvItem, (a.id == id) = true → a.id ≠ k := fun a ha hk =>
    hne (hk.symm.trans (eq_of_beq ha))
  have hfirst : ∀ (n : Nat) (l : List InvItem),
      held t k (eraseFirst (·.id == id) n l) = held t k l := by
    intro n
    induction n with
    | zero => exact fun _ => rfl
    | succ n ih => exact fun l => (ih _).trans (tally_eraseP_ne hp)
  cases n with
  | zero => rfl
  | succ n =>
      rw [removeMatches, ← show held t k (inv.eraseP (·.id == id)) = held t k inv from
        tally_eraseP_ne hp]
      cases inv.eraseP (·.id == id) with
      | nil => rfl
      | cons x l =>
          have hl : tally InvItem.id (units t) k (eraseFirst (·.id == id) n l) =
              tally InvItem.id (units t) k l := hfirst n l
          rw [keepHead, held, held, tally_cons, tally_cons, hl]

theorem equipKnown_of_wf (h : InvWf t inv) : equipKnown t inv = true := by
  rw [equipKnown, List.all_eq_true]
  intro x hx
  cases hw : x.worn with
  | false => rfl
  | true => exact h.wornKnown x hx hw

/-- The loop after its first removal. -/
theorem removeSlots_tail {hit : InvItem → Except Assert Bool} {p : InvItem → Bool}
    (hwf : InvWf t inv) (hhit : ∀ x ∈ inv, hit x = .ok (p x)) :
    removeSlots t hit n 1 inv = .ok (keepHead (eraseFirst p n) inv) := by
  induction n generalizing inv with
  | zero =>
      cases inv with
      | nil => rfl
      | cons x l => rfl
  | succ n ih =>
      cases inv with
      | nil => rfl
      | cons x l =>
          have hl : ∀ y ∈ l, hit y = .ok (p y) := fun y hy => hhit y (List.mem_cons_of_mem x hy)
          rw [removeSlots, List.drop_succ_cons, List.drop_zero, findSlot_eq hl, keepHead]
          cases hf : l.findIdx? p with
          | none => rw [eraseFirst_of_none (not_mem_of_findIdx hf)]
          | some j =>
              have herase : (x :: l).eraseIdx (1 + j) = x :: l.eraseP p := by
                rw [Nat.add_comm, List.eraseIdx_cons_succ, List.eraseP_eq_eraseIdx, hf]
              have hsub : (x :: l.eraseP p).Sublist (x :: l) := List.eraseP_sublist.cons_cons x
              have hwf' := hwf.sublist hsub
              simp only [herase, equipKnown_of_wf hwf', Bool.not_true, Bool.and_false,
                Bool.false_eq_true, if_false]
              rw [ih hwf' fun y hy => hhit y (hsub.subset hy), keepHead, eraseFirst]

/-- The removal loop, where every slot can be looked at. -/
theorem removeSlots_eq {hit : InvItem → Except Assert Bool} {p : InvItem → Bool}
    (hwf : InvWf t inv) (hhit : ∀ x ∈ inv, hit x = .ok (p x)) :
    removeSlots t hit n 0 inv = .ok (removeMatches p n inv) := by
  cases n with
  | zero => rfl
  | succ n =>
      rw [removeSlots, List.drop_zero, findSlot_eq hhit, removeMatches]
      cases hf : inv.findIdx? p with
      | none =>
          have hnone := not_mem_of_findIdx hf
          rw [List.eraseP_of_forall_not fun x hx => by rw [hnone x hx]; exact Bool.false_ne_true]
          cases inv with
          | nil => rfl
          | cons x l =>
              rw [keepHead, eraseFirst_of_none fun y hy => hnone y (List.mem_cons_of_mem x hy)]
      | some j =>
          have herase : inv.eraseIdx (0 + j) = inv.eraseP p := by
            rw [Nat.zero_add, List.eraseP_eq_eraseIdx, hf]
          have hwf' := hwf.sublist (List.eraseP_sublist (p := p))
          simp only [herase, equipKnown_of_wf hwf', Bool.not_true, Bool.and_false,
            Bool.false_eq_true, if_false]
          exact removeSlots_tail hwf' fun y hy => hhit y (List.eraseP_sublist.subset hy)

/-- What is left of the slots after a removal by a test that has an answer for
every slot. -/
def removed (p : InvItem → Bool) (weight count : Nat) (inv : List InvItem) : List InvItem :=
  if weight = 0 then
    match inv.findIdx? p with
    | none => inv
    | some k =>
      if inv[k]?.any (count < ·.stack) then
        inv.modify k fun x => x.setStack (x.stack - count)
      else inv.eraseP p
  else removeMatches p count inv

theorem invRemove_eq {hit : InvItem → Except Assert Bool} {p : InvItem → Bool} {weight : Nat}
    (hwf : InvWf t inv) (hhit : ∀ x ∈ inv, hit x = .ok (p x)) :
    invRemove t hit weight count inv = .ok (removed p weight count inv) := by
  unfold invRemove removed
  by_cases hw : weight = 0
  · rw [if_pos hw, if_pos hw, findSlot_eq hhit]
    cases hf : inv.findIdx? p with
    | none =>
        have hnone := not_mem_of_findIdx hf
        show removeSlots t hit count 0 inv = .ok inv
        rw [removeSlots_eq hwf hhit]
        cases count with
        | zero => rfl
        | succ n =>
            rw [removeMatches, List.eraseP_of_forall_not fun x hx => by simp [hnone x hx]]
            cases inv with
            | nil => rfl
            | cons x l =>
                rw [keepHead, eraseFirst_of_none fun y hy => hnone y (List.mem_cons_of_mem x hy)]
    | some k =>
        show (if inv[k]?.any (count < ·.stack) then _ else removeSlots t hit 1 0 inv) = _
        split
        · next hlt => simp only [hlt, if_true]
        · next hge =>
          have hone : keepHead (eraseFirst p 0) (inv.eraseP p) = inv.eraseP p := by
            cases inv.eraseP p <;> rfl
          simp only [hge, Bool.false_eq_true, if_false]
          rw [removeSlots_eq hwf hhit, removeMatches, hone]
  · rw [if_neg hw, if_neg hw, removeSlots_eq hwf hhit]

/-- Where a slot after a removal comes from. -/
theorem mem_removed {p : InvItem → Bool} {weight : Nat} {x : InvItem}
    (hx : x ∈ removed p weight count inv) :
    ∃ y ∈ inv, x.id = y.id ∧ x.worn = y.worn ∧ x.stack ≤ y.stack ∧
      (y.stack = 1 → x.stack = 1) := by
  unfold removed at hx
  split at hx
  · split at hx
    · exact ⟨x, hx, rfl, rfl, Nat.le_refl _, id⟩
    · next k hk =>
      split at hx
      · next hlt =>
        rcases mem_modify hx with hx | ⟨y, hy, rfl⟩
        · exact ⟨x, hx, rfl, rfl, Nat.le_refl _, id⟩
        · rw [hy, Option.any_some, decide_eq_true_eq] at hlt
          refine ⟨y, List.mem_of_getElem? hy, rfl, rfl, Nat.sub_le _ _, fun h1 => ?_⟩
          rw [y.setStack_stack]
          omega
      · exact ⟨x, List.mem_of_mem_eraseP hx, rfl, rfl, Nat.le_refl _, id⟩
  · exact ⟨x, removeMatches_sublist.subset hx, rfl, rfl, Nat.le_refl _, id⟩

theorem map_removed_sublist (p : InvItem → Bool) (weight count : Nat) (inv : List InvItem) :
    ((removed p weight count inv).map InvItem.id).Sublist (inv.map InvItem.id) := by
  unfold removed
  split
  · split
    · exact List.Sublist.refl _
    · split
      · rw [map_modify_of_key InvItem.id fun x => x.setStack_id _]
      · exact List.eraseP_sublist.map _
  · exact removeMatches_sublist.map _

theorem removed_wf {p : InvItem → Bool} {weight : Nat} (hwf : InvWf t inv) :
    InvWf t (removed p weight count inv) := by
  refine ⟨hwf.single.sublist (map_removed_sublist _ _ _ _), fun x hx hw => ?_⟩
  obtain ⟨y, hy, hid, hworn, -⟩ := mem_removed hx
  rw [hid]
  exact hwf.wornKnown y hy (hworn ▸ hw)

theorem held_split {a b : List InvItem} {x : InvItem} :
    held t k (a ++ x :: b) = held t k (a ++ b) + if k = x.id then units t x else 0 := by
  simp only [held, tally_append, tally_cons, share]
  omega

/-- Of a stackable item nothing is left. -/
theorem ne_of_split {a b : List InvItem} {x : InvItem} (hwf : InvWf t (a ++ x :: b))
    (hid : t.stackable x.id = true) : ∀ y ∈ a ++ b, y.id ≠ x.id := by
  intro y hy heq
  have hpair := hwf.single
  rw [List.map_append, List.map_cons, List.pairwise_append, List.pairwise_cons] at hpair
  obtain ⟨-, ⟨hafter, -⟩, hbefore⟩ := hpair
  rcases List.mem_append.1 hy with hy | hy
  · have hno := hbefore y.id (List.mem_map_of_mem hy) x.id List.mem_cons_self heq
    rw [heq, hid] at hno
    cases hno
  · have hno := hafter y.id (List.mem_map_of_mem hy) heq.symm
    rw [hid] at hno
    cases hno

theorem mem_split_of_ne {a b : List InvItem} {x z : InvItem} (hz : z.id ≠ x.id) :
    z ∈ a ++ x :: b ↔ z ∈ a ++ b := by
  have hne : z ≠ x := fun h => hz (congrArg InvItem.id h)
  simp [hne]

theorem exists_split (h : ∃ x ∈ inv, x.id = id) :
    ∃ a x b, inv = a ++ x :: b ∧ x.id = id ∧ ∀ y ∈ a, y.id ≠ x.id := by
  induction inv with
  | nil => simp at h
  | cons y inv ih =>
      by_cases hy : y.id = id
      · exact ⟨[], y, inv, rfl, hy, by simp⟩
      · have hinv : ∃ x ∈ inv, x.id = id := by
          obtain ⟨x, hx, hid⟩ := h
          rcases List.mem_cons.1 hx with rfl | hx
          · exact absurd hid hy
          · exact ⟨x, hx, hid⟩
        obtain ⟨a, x, b, rfl, hid, ha⟩ := ih hinv
        refine ⟨y :: a, x, b, rfl, hid, fun z hz => ?_⟩
        rcases List.mem_cons.1 hz with rfl | hz
        · rw [hid]
          exact hy
        · exact ha z hz

/-- Two slots of a stackable item are the same slot. -/
theorem split_unique {a b a' b' : List InvItem} {x x' : InvItem}
    (hwf : InvWf t (a ++ x :: b)) (hid : t.stackable x.id = true)
    (h : a ++ x :: b = a' ++ x' :: b') (hx : x'.id = x.id) : x = x' ∧ b = b' := by
  have hlen : a'.length = a.length := by
    refine hwf.unique hid (i := a.length) (j := a'.length) (by simp) rfl ?_ hx
    rw [h]
    simp
  obtain ⟨-, hrest⟩ := List.append_inj h hlen.symm
  exact List.cons.inj hrest

/-- The first slot of its item goes whole. -/
theorem removed_split {a b : List InvItem} {x : InvItem} {weight : Nat}
    (ha : ∀ y ∈ a, y.id ≠ x.id) :
    removed (·.id == x.id) weight (if weight = 0 then x.stack else 1) (a ++ x :: b) = a ++ b := by
  have hmiss : ∀ y ∈ a, (y.id == x.id) = false := fun y hy => beq_false_of_ne (ha y hy)
  have hfirst : (a ++ x :: b).findIdx? (·.id == x.id) = some a.length := by
    rw [List.findIdx?_append, List.findIdx?_eq_none_iff.2 hmiss, List.findIdx?_cons]
    simp
  have herase : (a ++ x :: b).eraseP (·.id == x.id) = a ++ b := by
    rw [List.eraseP_append_right _ fun y hy => by simp [hmiss y hy],
      List.eraseP_cons_of_pos (by simp)]
  unfold removed
  split
  · simp [hfirst, herase]
  · rw [removeMatches, herase]
    cases a ++ b <;> rfl

/-- Part of a stack goes. -/
theorem removed_part {a b : List InvItem} {x : InvItem} (ha : ∀ y ∈ a, y.id ≠ x.id)
    (hlt : count < x.stack) :
    removed (·.id == x.id) 0 count (a ++ x :: b) = a ++ x.setStack (x.stack - count) :: b := by
  have hfirst : (a ++ x :: b).findIdx? (·.id == x.id) = some a.length := by
    rw [List.findIdx?_append,
      List.findIdx?_eq_none_iff.2 fun y hy => beq_false_of_ne (ha y hy), List.findIdx?_cons]
    simp
  simp [removed, hfirst, hlt, modify_append]

/-- Where the slot was, there is then what was behind it. -/
theorem stackRead_split {a b : List InvItem} {x : InvItem} :
    stackRead (a ++ x :: b) (a ++ b) a.length = (b.head?.getD x).stack := by
  cases b <;> simp [stackRead]

/-- How many units a removal of `count` finds. -/
def reach (t : ItemTable) (id count : Nat) (inv : List InvItem) : Nat :=
  if t.stackable id then count else min count (held t id inv - doubled (·.id == id) inv)

/-- Removing by id takes units of that item and of no other. -/
theorem held_removed {item : ItemConfig} (hwf : InvWf t inv) (hc : t.byId id = some item) :
    held t k (removed (·.id == id) item.weight count inv) =
      if k = id then held t id inv - reach t id count inv else held t k inv := by
  have hst := ItemTable.stackable_of_byId hc
  unfold removed
  by_cases hw : item.weight = 0
  · rw [if_pos hw]
    have hid : t.stackable id = true := by rw [hst, decide_eq_true hw]
    rw [reach, if_pos hid]
    cases hf : inv.findIdx? (·.id == id) with
    | none =>
        have hzero : held t id inv = 0 := held_eq_zero fun x hx he => by
          simpa [he] using not_mem_of_findIdx hf x hx
        simp only
        split
        · next hk => rw [hk, hzero, Nat.zero_sub]
        · rfl
    | some i =>
        obtain ⟨x, hi, hx⟩ := mem_of_findIdx hf
        have hx := eq_of_beq hx
        have hall := held_stackable hwf hid hi hx
        simp only [hi, Option.any_some, decide_eq_true_eq]
        split
        · next hlt =>
          have hmod := held_modify (k := k) hid hi hx
            (f := fun x => x.setStack (x.stack - count)) (x.setStack_id _)
          rw [x.setStack_stack] at hmod
          split
          · next hk =>
            rw [if_pos hk, if_pos hk, hk, hall] at hmod
            rw [hk, hall]
            omega
          · next hk =>
            rw [if_neg hk, if_neg hk] at hmod
            exact hmod
        · next hge =>
          have herase := tally_eraseIdx InvItem.id (units t) (k := k) hi
          have heq : inv.eraseP (·.id == id) = inv.eraseIdx i := by
            rw [List.eraseP_eq_eraseIdx, hf]
          rw [heq]
          change held t k _ + _ = held t k inv at herase
          by_cases hk : k = id
          · subst hk
            rw [share_of_eq hx, units_stackable (hx ▸ hid), hall] at herase
            rw [if_pos rfl, hall]
            omega
          · rw [share_of_ne fun h => hk (h.symm.trans hx), Nat.add_zero] at herase
            rw [if_neg hk, herase]
  · rw [if_neg hw]
    have hid : t.stackable id = false := by rw [hst, decide_eq_false hw]
    by_cases hk : k = id
    · subst hk
      rw [if_pos rfl, held_unstackable hid, countP_removeMatches, reach, if_neg (by simp [hid]),
        held_unstackable hid]
    · rw [if_neg hk, held_removeMatches_ne hk]

/-- What the first two slots both hold is held at least twice. -/
theorem doubled_lt_held {inv : List InvItem} (hid : t.stackable id = false)
    (h : doubled (·.id == id) inv = 1) :
    2 ≤ held t id inv := by
  rw [held_unstackable hid]
  match inv with
  | [] => cases h
  | [_] => cases h
  | x :: y :: l =>
      have hxy : (x.id == id) = true ∧ (y.id == id) = true := by
        simpa [doubled] using h
      simp only [List.countP_cons, hxy.1, hxy.2, if_true]
      omega

theorem doubled_le_one (p : InvItem → Bool) (inv : List InvItem) : doubled p inv ≤ 1 := by
  unfold doubled
  split
  · split
    · exact Nat.le_refl 1
    · exact Nat.zero_le 1
  · exact Nat.zero_le 1

/-- One unit is always found if there is one. -/
theorem reach_one (h : 1 ≤ held t id inv) : reach t id 1 inv = 1 := by
  unfold reach
  split
  · rfl
  · next hid =>
    have hid : t.stackable id = false := Bool.eq_false_iff.2 hid
    rcases Nat.le_one_iff_eq_zero_or_eq_one.1 (doubled_le_one (·.id == id) inv)
      with h0 | h1
    · rw [h0]
      omega
    · have := doubled_lt_held hid h1
      omega

/-! ## Giving -/

/-- The saturating sum: nothing below the limit is lost, also where the
`uint32_t` sum wraps. -/
theorem addStack_eq {x : InvItem} (hcount : count < u32Size) :
    addStack count x = x.setStack (min (x.stack + count) maxStackSize) := by
  have hu : u32Size = 4294967296 := rfl
  have hm : maxStackSize = 2147483647 := rfl
  simp only [addStack]
  split
  · next h =>
    rw [hu, hm] at h
    rw [Nat.min_eq_right (by omega)]
  · next h =>
    rw [hu, hm] at h
    have hlt : (x.stack + count) % 4294967296 = x.stack + count := by omega
    rw [hu, hlt, Nat.min_eq_left (by omega)]

theorem giveUnits_eq :
    giveUnits id n inv =
      (inv ++ List.replicate (min n (maxInvSize - inv.length)) { id := id, stack := 1 },
        List.replicate (n - (maxInvSize - inv.length)) 1) := by
  induction n generalizing inv with
  | zero => simp [giveUnits]
  | succ n ih =>
      rw [giveUnits]
      split
      · next hlt =>
        obtain ⟨m, hm⟩ : ∃ m, maxInvSize - inv.length = m + 1 :=
          ⟨maxInvSize - inv.length - 1, by omega⟩
        have hm' : maxInvSize - (inv ++ [(⟨id, 1, false⟩ : InvItem)]).length = m := by
          rw [List.length_append, List.length_singleton]
          omega
        rw [ih, hm, hm', Nat.succ_min_succ, List.replicate_succ, List.append_assoc,
          List.singleton_append, Nat.add_sub_add_right]
      · next hge =>
        have h0 : maxInvSize - inv.length = 0 := by omega
        rw [ih, h0]
        simp [List.replicate_succ]

/-- The slot that takes the gift, if there is one, has room for it. -/
def HasRoom (item : ItemConfig) (count : Nat) (inv : List InvItem) : Prop :=
  item.weight = 0 → ∀ x ∈ inv, x.id = item.id → x.stack + count ≤ maxStackSize

theorem held_replicate (hid : t.stackable id = false) :
    held t k (List.replicate n (⟨id, 1, false⟩ : InvItem)) = if k = id then n else 0 := by
  have hu : units t ⟨id, 1, false⟩ = 1 := units_unstackable hid
  induction n with
  | zero => simp [held]
  | succ n ih =>
      rw [List.replicate_succ, held, tally_cons]
      change _ + held t k _ = _
      rw [ih, share, hu]
      by_cases hk : k = id
      · simp [hk, Nat.add_comm]
      · simp [hk]

theorem held_append {l : List InvItem} : held t k (inv ++ l) = held t k inv + held t k l :=
  tally_append

/-- What is given arrives, in the inventory or on the ground. -/
theorem held_invGive {item : ItemConfig} (hc : t.byId id = some item) (hcount : count < u32Size)
    (hroom : HasRoom item count inv) :
    held t k (invGive item count inv).1 + (if k = id then (invGive item count inv).2.sum else 0) =
      held t k inv + if k = id then count else 0 := by
  have hst := ItemTable.stackable_of_byId hc
  have hitem := ItemTable.byId_id hc
  unfold invGive
  by_cases hw : item.weight = 0
  · have hid : t.stackable id = true := by rw [hst, decide_eq_true hw]
    rw [if_pos hw, hitem]
    cases hf : inv.findIdx? (·.id == id) with
    | some i =>
        obtain ⟨x, hi, hx⟩ := mem_of_findIdx hf
        have hx := eq_of_beq hx
        have hfit := hroom hw x (List.mem_of_getElem? hi) (hx.trans hitem.symm)
        have hmod := held_modify (k := k) hid hi hx (f := addStack count)
          (by rw [addStack_eq hcount, x.setStack_id])
        rw [addStack_eq hcount, Nat.min_eq_left hfit, x.setStack_stack] at hmod
        simp only [List.sum_nil, ite_self, Nat.add_zero]
        split
        · next hk =>
          rw [if_pos hk, if_pos hk] at hmod
          omega
        · next hk =>
          rw [if_neg hk, if_neg hk] at hmod
          exact hmod
    | none =>
        simp only
        split
        · simp
        · rw [held_append]
          have hnew : held t k [(⟨id, count, false⟩ : InvItem)] = if k = id then count else 0 := by
            rw [held, tally_cons, tally_nil, share, units_stackable (x := ⟨id, count, false⟩) hid]
            rfl
          rw [hnew]
          simp
  · have hid : t.stackable id = false := by rw [hst, decide_eq_false hw]
    rw [if_neg hw, hitem, giveUnits_eq, held_append, held_replicate hid]
    by_cases hk : k = id
    · simp only [hk, if_true, List.sum_replicate_nat]
      omega
    · simp only [hk, if_false]

theorem held_invGive_ne {item : ItemConfig} (hc : t.byId id = some item) (hk : k ≠ id) :
    held t k (invGive item count inv).1 = held t k inv := by
  have hst := ItemTable.stackable_of_byId hc
  have hitem := ItemTable.byId_id hc
  unfold invGive
  by_cases hw : item.weight = 0
  · have hid : t.stackable id = true := by rw [hst, decide_eq_true hw]
    rw [if_pos hw, hitem]
    cases hf : inv.findIdx? (·.id == id) with
    | some i =>
        obtain ⟨x, hi, hx⟩ := mem_of_findIdx hf
        have hadd : (addStack count x).id = x.id := by
          simp only [addStack]
          split <;> rfl
        have hmod := held_modify (k := k) hid hi (eq_of_beq hx) hadd
        rw [if_neg hk, if_neg hk] at hmod
        exact hmod
    | none =>
        simp only
        split
        · rfl
        · rw [held_append]
          show held t k inv + (share _ _ k _ + 0) = _
          rw [share_of_ne (Ne.symm hk), Nat.add_zero]
  · have hid : t.stackable id = false := by rw [hst, decide_eq_false hw]
    rw [if_neg hw, hitem, giveUnits_eq, held_append, held_replicate hid, if_neg hk, Nat.add_zero]

/-- A stack takes a gift up to the limit. -/
theorem held_invGive_stack {item : ItemConfig} (hwf : InvWf t inv) (hc : t.byId id = some item)
    (hcount : count < u32Size) (hw : item.weight = 0) {y : InvItem} (hy : y ∈ inv)
    (hyid : y.id = id) :
    (invGive item count inv).2 = [] ∧
      held t id (invGive item count inv).1 = min (held t id inv + count) maxStackSize ∧
      held t id inv = y.stack := by
  have hitem := ItemTable.byId_id hc
  have hid : t.stackable id = true := by
    rw [ItemTable.stackable_of_byId hc, decide_eq_true hw]
  unfold invGive
  rw [if_pos hw, hitem]
  cases hf : inv.findIdx? (·.id == id) with
  | none =>
      have hnone := not_mem_of_findIdx hf y hy
      rw [hyid] at hnone
      simp at hnone
  | some i =>
      obtain ⟨x, hi, hx⟩ := mem_of_findIdx hf
      have hx := eq_of_beq hx
      obtain ⟨j, hj⟩ := List.mem_iff_getElem?.1 hy
      have hij := hwf.unique hid hi hx hj hyid
      rw [hij, hi] at hj
      obtain rfl := Option.some.inj hj
      have hall := held_stackable hwf hid hi hx
      have hmod := held_modify (k := id) hid hi hx (f := addStack count)
        (by rw [addStack_eq hcount, x.setStack_id])
      rw [if_pos rfl, if_pos rfl, addStack_eq hcount, x.setStack_stack] at hmod
      refine ⟨rfl, ?_, hall⟩
      simp only
      omega

/-- What does not fit on the stack is gone. -/
theorem held_invGive_lt {item : ItemConfig} (hwf : InvWf t inv) (hc : t.byId id = some item)
    (hcount : count < u32Size) (hfull : ¬ HasRoom item count inv) :
    (invGive item count inv).2 = [] ∧
      held t id (invGive item count inv).1 < held t id inv + count := by
  simp only [HasRoom, not_forall] at hfull
  obtain ⟨hw, y, hy, hyid, hover⟩ := hfull
  obtain ⟨hspill, hheld, hall⟩ :=
    held_invGive_stack hwf hc hcount hw hy (hyid.trans (ItemTable.byId_id hc))
  exact ⟨hspill, by omega⟩

/-- Where a slot after a gift comes from: it is an old one, or it holds the
item given. -/
theorem mem_invGive {item : ItemConfig} {x : InvItem} (hcount : count < u32Size)
    (hx : x ∈ (invGive item count inv).1) :
    x ∈ inv ∨ x.id = item.id ∧ (item.weight ≠ 0 → x.stack = 1) ∧
      (x.worn = false ∨ ∃ y ∈ inv, y.id = x.id ∧ y.worn = x.worn) := by
  unfold invGive at hx
  split at hx
  · next hw =>
    split at hx
    · next i hi =>
      rcases mem_modify hx with hx | ⟨y, hy, rfl⟩
      · exact .inl hx
      · obtain ⟨y', hy', hid⟩ := mem_of_findIdx hi
        obtain rfl := Option.some.inj (hy.symm.trans hy')
        rw [addStack_eq hcount]
        exact .inr ⟨eq_of_beq hid, fun h => absurd hw h,
          .inr ⟨y, List.mem_of_getElem? hy, rfl, rfl⟩⟩
    · split at hx
      · exact .inl hx
      · rcases List.mem_append.1 hx with hx | hx
        · exact .inl hx
        · obtain rfl := List.mem_singleton.1 hx
          exact .inr ⟨rfl, fun h => absurd hw h, .inl rfl⟩
  · rw [giveUnits_eq] at hx
    rcases List.mem_append.1 hx with hx | hx
    · exact .inl hx
    · obtain rfl := List.eq_of_mem_replicate hx
      exact .inr ⟨rfl, fun _ => rfl, .inl rfl⟩

theorem invGive_wf {item : ItemConfig} (hwf : InvWf t inv) (hc : t.byId id = some item)
    (hcount : count < u32Size) : InvWf t (invGive item count inv).1 := by
  have hitem := ItemTable.byId_id hc
  constructor
  · unfold invGive
    by_cases hw : item.weight = 0
    · rw [if_pos hw]
      cases hf : inv.findIdx? (·.id == item.id) with
      | some i =>
          show ((inv.modify i (addStack count)).map InvItem.id).Pairwise _
          rw [map_modify_of_key InvItem.id fun x => by rw [addStack_eq hcount, x.setStack_id]]
          exact hwf.single
      | none =>
          have hnone := not_mem_of_findIdx hf
          simp only
          split
          · exact hwf.single
          · rw [List.map_append, List.pairwise_append]
            refine ⟨hwf.single, List.pairwise_singleton _ _, fun a ha b hb hab => ?_⟩
            obtain ⟨x, hx, rfl⟩ := List.mem_map.1 ha
            have hb : b = item.id := by simpa using hb
            have hx := hnone x hx
            rw [hab, hb] at hx
            simp at hx
    · have hid : t.stackable item.id = false := by
        rw [hitem, ItemTable.stackable_of_byId hc, decide_eq_false hw]
      rw [if_neg hw, giveUnits_eq, List.map_append, List.map_replicate, List.pairwise_append]
      refine ⟨hwf.single, List.pairwise_replicate.2 (.inr fun _ => hid), fun a _ b hb hab => ?_⟩
      rw [hab, List.eq_of_mem_replicate hb]
      exact hid
  · intro x hx hw
    rcases mem_invGive hcount hx with hx | ⟨-, -, hfalse | ⟨y, hy, hid, hworn⟩⟩
    · exact hwf.wornKnown x hx hw
    · rw [hfalse] at hw
      exact absurd hw Bool.false_ne_true
    · rw [← hid]
      exact hwf.wornKnown y hy (hworn.trans hw)

/-! ## Inventories as the game fills them

Every slot is filled by a gift, so its item has a config, and one unit of an
unstackable item is in it. -/

structure InvOk (t : ItemTable) (inv : List InvItem) : Prop where
  single : (inv.map InvItem.id).Pairwise fun a b => a = b → t.stackable a = false
  configured : ∀ x ∈ inv, (t.byId x.id).isSome = true
  unit : ∀ x ∈ inv, t.stackable x.id = false → x.stack = 1
  size : inv.length ≤ maxInvSize

theorem InvOk.wf (h : InvOk t inv) : InvWf t inv :=
  ⟨h.single, fun x hx _ => h.configured x hx⟩

theorem InvOk.sublist {l : List InvItem} (h : InvOk t inv) (hs : l.Sublist inv) : InvOk t l :=
  ⟨h.single.sublist (hs.map _), fun y hy => h.configured y (hs.subset hy),
    fun y hy => h.unit y (hs.subset hy), Nat.le_trans hs.length_le h.size⟩

theorem removed_ok {p : InvItem → Bool} {weight : Nat} (h : InvOk t inv) :
    InvOk t (removed p weight count inv) := by
  refine ⟨(removed_wf h.wf).single, fun x hx => ?_, fun x hx hid => ?_, ?_⟩
  · obtain ⟨y, hy, hid, -⟩ := mem_removed hx
    rw [hid]
    exact h.configured y hy
  · obtain ⟨y, hy, hyid, -, -, hone⟩ := mem_removed hx
    exact hone (h.unit y hy (hyid ▸ hid))
  · have hlen := (map_removed_sublist p weight count inv).length_le
    rw [List.length_map, List.length_map] at hlen
    exact Nat.le_trans hlen h.size

theorem length_invGive {item : ItemConfig} (h : inv.length ≤ maxInvSize) :
    (invGive item count inv).1.length ≤ maxInvSize := by
  unfold invGive
  split
  · split
    · rw [List.length_modify]
      exact h
    · split
      · exact h
      · rw [List.length_append, List.length_singleton]
        omega
  · rw [giveUnits_eq, List.length_append, List.length_replicate]
    omega

theorem invGive_ok {item : ItemConfig} (h : InvOk t inv) (hc : t.byId id = some item)
    (hcount : count < u32Size) : InvOk t (invGive item count inv).1 := by
  have hitem := ItemTable.byId_id hc
  refine ⟨(invGive_wf h.wf hc hcount).single, fun x hx => ?_, fun x hx hid => ?_,
    length_invGive h.size⟩
  · rcases mem_invGive hcount hx with hx | ⟨hxid, -⟩
    · exact h.configured x hx
    · rw [hxid, hitem, hc]
      rfl
  · rcases mem_invGive hcount hx with hx | ⟨hxid, hone, -⟩
    · exact h.unit x hx hid
    · refine hone fun hw => ?_
      rw [hxid, hitem, ItemTable.stackable_of_byId hc, decide_eq_true hw] at hid
      cases hid

/-- The quantity of an item among ground items. -/
def groundOf (id : Nat) (items : List GroundItem) : Nat :=
  tally GroundItem.id GroundItem.stack id items

theorem serverAddTempItem_eq (s : Server) (owner : Option Nat) (x y id stack : Nat) :
    ∃ item : GroundItem, item.id = id ∧ item.stack = stack ∧ item.respawn = false ∧
      item.uniqueId = s.groundItemCounter ∧
      serverAddTempItem s owner x y id stack =
        { s with
          tempItems := s.tempItems ++ [item]
          groundItemCounter := s.groundItemCounter + 1 } :=
  ⟨_, rfl, rfl, rfl, rfl, rfl⟩

theorem addTempItems_eq (owner : Option Nat) (x y : Nat) (piles : List Nat) (s : Server) :
    ∃ new n, addTempItems owner x y id piles s =
        { s with tempItems := s.tempItems ++ new, groundItemCounter := n } ∧
      ∀ k, groundOf k new = if k = id then piles.sum else 0 := by
  induction piles generalizing s with
  | nil => exact ⟨[], s.groundItemCounter, by rw [List.append_nil]; rfl, fun k => by simp [groundOf]⟩
  | cons stack piles ih =>
      obtain ⟨item, hid, hstack, -, -, hadd⟩ :=
        serverAddTempItem_eq s owner x y id stack
      obtain ⟨new, n, heq, hsum⟩ := ih (serverAddTempItem s owner x y id stack)
      refine ⟨item :: new, n, ?_, ?_⟩
      · rw [addTempItems, heq, hadd, List.append_assoc, List.singleton_append]
      · intro k
        have hnew : tally GroundItem.id GroundItem.stack k new =
            if k = id then piles.sum else 0 := hsum k
        rw [groundOf, tally_cons, hnew, List.sum_cons, share, hid, hstack]
        by_cases hk : k = id
        · simp [hk]
        · simp [hk]

/-- A gift changes one inventory and adds to the ground, and nothing else. -/
theorem playerInvGive_eq (s : Server) (i : Nat) (item : ItemConfig) (count : Nat) :
    ∃ new n, playerInvGive s i item count =
        { s.modify i fun p =>
            { p with inventory := (invGive item count (s.get i).inventory).1 } with
          tempItems := s.tempItems ++ new, groundItemCounter := n } ∧
      ∀ k, groundOf k new =
        if k = item.id then (invGive item count (s.get i).inventory).2.sum else 0 := by
  unfold playerInvGive
  exact addTempItems_eq _ _ _ _ _

theorem playerInvRemoveId_eq {s : Server} {i : Nat} {item : ItemConfig}
    (hwf : InvWf t (s.get i).inventory) (hc : t.byId id = some item) :
    playerInvRemoveId t s i id count = .ok (s.modify i fun p =>
      { p with
        inventory := removed (·.id == id) item.weight count (s.get i).inventory }) := by
  rw [playerInvRemoveId, hc]
  simp only [invRemove_eq (p := (·.id == id)) hwf fun _ _ => rfl]

/-- The first slot of an item, taken out. -/
theorem playerInvRemoveId_split {s : Server} {i : Nat} {item : ItemConfig} {a b : List InvItem}
    {x : InvItem} (hinv : (s.get i).inventory = a ++ x :: b)
    (hwf : InvWf t (s.get i).inventory) (hc : t.byId x.id = some item)
    (ha : ∀ y ∈ a, y.id ≠ x.id) :
    playerInvRemoveId t s i x.id (if item.weight = 0 then x.stack else 1) =
      .ok (s.modify i fun p => { p with inventory := a ++ b }) := by
  rw [playerInvRemoveId_eq hwf hc, hinv, removed_split ha]

/-- `player_inv_held_id` compares with what is held. -/
theorem invHeldId_eq {item : ItemConfig} (hwf : InvWf t inv) (hc : t.byId id = some item) :
    invHeldId item id count inv = decide (count ≤ held t id inv) := by
  have hst := ItemTable.stackable_of_byId hc
  unfold invHeldId
  by_cases hw : item.weight = 0
  · have hid : t.stackable id = true := by rw [hst, decide_eq_true hw]
    rw [if_pos hw]
    cases hf : inv.find? (·.id == id) with
    | none =>
        have hzero : held t id inv = 0 := held_eq_zero fun x hx he => by
          simpa [he] using List.find?_eq_none.1 hf x hx
        rw [hzero]
    | some x =>
        obtain ⟨i, hi⟩ := List.mem_iff_getElem?.1 (List.mem_of_find?_eq_some hf)
        have hx := List.find?_some hf
        rw [held_stackable hwf hid hi (eq_of_beq hx)]
  · have hid : t.stackable id = false := by rw [hst, decide_eq_false hw]
    rw [if_neg hw, held_unstackable hid]

/-- Two known items: 0 stacks, 1 does not. -/
def smallTable : ItemTable where
  items := [⟨0, [['c', 'o', 'i', 'n', 's']], 0, 0⟩, ⟨1, [['l', 'o', 'g', 's']], 1, 0⟩]
  id_eq := by
    intro i c h
    match i, h with
    | 0, h => cases h; rfl
    | 1, h => cases h; rfl

end Sundae.Proofs
