import Mathlib.Data.List.Nodup
import Sundae.Lib.Tally
import Sundae.Ref.Shop

/-!
# Restocking

The loop of `shop_process` goes over an array while it takes entries out of
it. Of the entry that is taken out it writes the timer afterwards, through a
pointer to what has moved into its place, and that entry is not looked at. An
entry that runs out is also looked for by its id, from the front. So every
entry fares as it would alone exactly when only the last one is ever taken
out, and none that runs out has its id before it.
-/

namespace Sundae.Proofs

open Sundae.Ref Sundae.Lib

/-! ## What one turn does -/

/-- A player-sold entry whose timer has run out. -/
def Expires (item : ShopItem) : Prop :=
  item.quantity = 0 ∧ 0 < item.curQuantity ∧ item.removalTimer = 0

instance (item : ShopItem) : Decidable (Expires item) := inferInstanceAs (Decidable (_ ∧ _))

/-- There is one of it, and there will not be more. -/
def LastOne (item : ShopItem) : Prop := item.curQuantity = 1 ∧ item.restock = 0

instance (item : ShopItem) : Decidable (LastOne item) := inferInstanceAs (Decidable (_ ∧ _))

/-- The turn of an entry that does not run out. -/
def quietTurn (item : ShopItem) : ShopItem :=
  if item.curQuantity < item.quantity then
    if 0 < item.restockTimer then { item with restockTimer := item.restockTimer - 1 }
    else restocked item
  else if 0 < item.quantity ∨ item.curQuantity = 0 then item
  else { item with removalTimer := item.removalTimer - 1 }

/-- The turn of an entry as it should be. -/
def soloTurn (pawnLimit : Nat) (item : ShopItem) : Option ShopItem :=
  if Expires item then
    if LastOne item then none
    else some { takeOne item with removalTimer := pawnLimit / 5 }
  else some (quietTurn item)

variable {pawnLimit id k : Nat} {item e : ShopItem} {done rest tail : List ShopSlot}

theorem restocked_id (item : ShopItem) : (restocked item).id = item.id := by
  unfold restocked
  simp only
  split <;> rfl

theorem soloTurn_id (h : item ∈ soloTurn pawnLimit e) : item.id = e.id := by
  unfold soloTurn at h
  split at h
  · split at h
    · cases h
    · obtain rfl := Option.some.inj h
      rfl
  · obtain rfl := Option.some.inj h
    unfold quietTurn
    split
    · split
      · rfl
      · exact restocked_id e
    · split <;> rfl

theorem write_slots {w : ShopWalk} (hw : w.slots = done ++ rest) (f : ShopItem → ShopItem) :
    (w.write done.length f).slots = done ++ rest.modifyHead fun s => (f s.1, s.2) := by
  simp only [ShopWalk.write, hw]
  exact modify_append done rest _

@[simp] theorem write_visited (w : ShopWalk) (i : Nat) (f : ShopItem → ShopItem) :
    (w.write i f).visited = w.visited := rfl

theorem removalTurn_visited (pawnLimit i : Nat) (item : ShopItem) (w : ShopWalk) :
    (removalTurn pawnLimit i item w).visited = w.visited := by
  unfold removalTurn
  split
  · rfl
  · split
    · rfl
    · cases dropOne item.id w.slots <;> rfl

@[simp] theorem processTurn_visited (pawnLimit i : Nat) (item : ShopItem) (w : ShopWalk) :
    (processTurn pawnLimit i item w).visited = w.visited := by
  unfold processTurn
  split
  · split
    · rfl
    · exact removalTurn_visited pawnLimit i _ _
  · exact removalTurn_visited pawnLimit i _ _

/-- A turn of an entry that does not run out is its own affair. -/
theorem processTurn_quiet (pawnLimit : Nat) {w : ShopWalk} (hw : w.slots = done ++ (e, k) :: tail)
    (h : ¬ Expires e) :
    (processTurn pawnLimit done.length e w).slots = done ++ (quietTurn e, k) :: tail := by
  unfold processTurn quietTurn
  by_cases hlow : e.curQuantity < e.quantity
  · simp only [hlow, if_true]
    by_cases hwait : 0 < e.restockTimer
    · simp only [hwait, if_true]
      rw [write_slots hw]
      rfl
    · have hquantity : (restocked e).quantity = e.quantity := by
        unfold restocked
        simp only
        split <;> rfl
      simp only [hwait, if_false, removalTurn, hquantity, show 0 < e.quantity by omega, true_or,
        if_true]
      rw [write_slots hw]
      rfl
  · simp only [hlow, if_false, removalTurn]
    by_cases hstock : 0 < e.quantity ∨ e.curQuantity = 0
    · simp only [hstock, if_true, hw]
    · have htimer : 0 < e.removalTimer := by
        unfold Expires at h
        omega
      simp only [hstock, if_false, htimer, if_true]
      rw [write_slots hw]
      rfl

theorem processTurn_expires {w : ShopWalk} (i : Nat) (h : Expires e) :
    processTurn pawnLimit i e w =
      (match dropOne e.id w.slots with
        | none => w
        | some slots => { w with slots := slots, changed := true }).write i
          fun item => { item with removalTimer := pawnLimit / 5 } := by
  obtain ⟨hquantity, hcur, htimer⟩ := h
  have hlow : ¬ e.curQuantity < e.quantity := by omega
  have hstock : ¬ (0 < e.quantity ∨ e.curQuantity = 0) := by omega
  have hrun : ¬ 0 < e.removalTimer := by omega
  unfold processTurn removalTurn
  exact (if_neg hlow).trans ((if_neg hstock).trans (if_neg hrun))

/-! ## Taking one out -/

/-- An id that has been passed is taken from what has been passed. -/
theorem dropOne_append (h : ∃ s ∈ done, slotHas id s = true) :
    dropOne id (done ++ rest) = (dropOne id done).map (· ++ rest) := by
  obtain ⟨s, hs⟩ := Option.isSome_iff_exists.1 (List.find?_isSome.2 h)
  obtain ⟨t, ht, hid⟩ := h
  unfold dropOne
  rw [List.find?_append, hs, Option.some_or]
  simp only
  split
  · rfl
  · split
    · rw [Option.map_some, List.eraseP_append_left hid _ ht]
    · rw [Option.map_some, modifyFirst_append_left ⟨t, ht, hid⟩]

theorem dropOne_here (h : ∀ s ∈ done, ¬ slotHas e.id s = true) (hcur : 0 < e.curQuantity) :
    dropOne e.id (done ++ (e, k) :: tail) =
      some (done ++ if LastOne e then tail else (takeOne e, k) :: tail) := by
  have hself : slotHas e.id (e, k) = true := by simp [slotHas]
  have hnone : done.find? (slotHas e.id) = none := List.find?_eq_none.2 h
  unfold dropOne
  rw [List.find?_append, hnone, Option.none_or, List.find?_cons_of_pos hself]
  simp only [show ¬ e.curQuantity = 0 by omega, if_false]
  by_cases hlast : LastOne e
  · rw [if_pos (show e.curQuantity = 1 ∧ e.restock = 0 from hlast), if_pos hlast,
      List.eraseP_append_right _ h, List.eraseP_cons_of_pos hself]
  · rw [if_neg (show ¬ (e.curQuantity = 1 ∧ e.restock = 0) from hlast), if_neg hlast,
      modifyFirst_append_right h, modifyFirst, if_pos hself]

/-- What is taken out is one of the first entry of the id. -/
theorem dropOne_split {l l' : List ShopSlot} (h : dropOne id l = some l') :
    ∃ pre s post, l = pre ++ s :: post ∧ (∀ t ∈ pre, ¬ slotHas id t = true) ∧
      slotHas id s = true ∧ 0 < s.1.curQuantity ∧
        l' = pre ++ if LastOne s.1 then post else (takeOne s.1, s.2) :: post := by
  cases hfind : l.find? (slotHas id) with
  | none =>
      rw [dropOne, hfind] at h
      cases h
  | some s =>
      obtain ⟨hs, pre, post, rfl, hpre⟩ := List.find?_eq_some_iff_append.1 hfind
      have hnot : ∀ t ∈ pre, ¬ slotHas id t = true := by simpa using hpre
      obtain ⟨item, place⟩ := s
      obtain rfl : item.id = id := by simpa [slotHas] using hs
      have hcur : 0 < item.curQuantity := by
        by_contra hzero
        rw [dropOne, hfind] at h
        simp only [show item.curQuantity = 0 by omega, if_true] at h
        cases h
      rw [dropOne_here hnot hcur] at h
      exact ⟨pre, (item, place), post, rfl, hnot, hs, hcur, (Option.some.inj h).symm⟩

/-- The entries that are left are those there were, with no more of any. -/
theorem mem_dropOne {l l' : List ShopSlot} (h : dropOne id l = some l') :
    ∀ s ∈ l', ∃ t ∈ l, t.2 = s.2 ∧ s.1.curQuantity ≤ t.1.curQuantity := by
  obtain ⟨pre, t, post, rfl, -, -, -, rfl⟩ := dropOne_split h
  intro s hs
  rw [List.mem_append] at hs
  rcases hs with hs | hs
  · exact ⟨s, by simp [hs], rfl, Nat.le_refl _⟩
  · split at hs
    · exact ⟨s, by simp [hs], rfl, Nat.le_refl _⟩
    · rcases List.mem_cons.1 hs with rfl | hs
      · exact ⟨t, by simp, rfl, Nat.sub_le _ _⟩
      · exact ⟨s, by simp [hs], rfl, Nat.le_refl _⟩

/-- Of the entry that was found there is less, or nothing. -/
theorem dropOne_less {l l' : List ShopSlot} (h : dropOne id l = some l')
    (hl : (l.map Prod.snd).Nodup) :
    ∃ s ∈ l, s.1.id = id ∧ 0 < s.1.curQuantity ∧
      ∀ t ∈ l', t.2 = s.2 → t.1.curQuantity ≤ s.1.curQuantity - 1 := by
  obtain ⟨pre, s, post, rfl, -, hs, hcur, rfl⟩ := dropOne_split h
  refine ⟨s, by simp, by simpa [slotHas] using hs, hcur, ?_⟩
  -- no other entry has the place of this one
  rw [List.map_append, List.map_cons, List.nodup_middle, List.nodup_cons, ← List.map_append] at hl
  have hother : ∀ t ∈ pre ++ post, t.2 ≠ s.2 := by
    intro t ht hplace
    exact hl.1 (hplace ▸ List.mem_map_of_mem ht)
  intro t ht hplace
  rw [List.mem_append] at ht
  rcases ht with ht | ht
  · exact absurd hplace (hother t (List.mem_append_left _ ht))
  · split at ht
    · exact absurd hplace (hother t (List.mem_append_right _ ht))
    · rcases List.mem_cons.1 ht with rfl | ht
      · exact Nat.le_refl _
      · exact absurd hplace (hother t (List.mem_append_right _ ht))

/-- What is looked for by another id is where it was. -/
theorem find?_dropOne {l l' : List ShopSlot} {id' : Nat} (h : dropOne id l = some l')
    (hne : id' ≠ id) : l'.find? (slotHas id') = l.find? (slotHas id') := by
  obtain ⟨pre, s, post, rfl, -, hs, -, rfl⟩ := dropOne_split h
  have hid : s.1.id = id := by simpa [slotHas] using hs
  have hother : ¬ s.1.id = id' := fun heq => hne (heq.symm.trans hid)
  split
  · simp [List.find?_append, slotHas, hother]
  · have htake : (takeOne s.1).id = s.1.id := rfl
    simp [List.find?_append, slotHas, hother, htake]

/-- An entry of another id stays as it is. -/
theorem mem_dropOne_other {l l' : List ShopSlot} {s : ShopSlot} (h : dropOne id l = some l')
    (hs : s ∈ l) (hne : s.1.id ≠ id) : s ∈ l' := by
  obtain ⟨pre, t, post, rfl, -, ht, -, rfl⟩ := dropOne_split h
  have hid : t.1.id = id := by simpa [slotHas] using ht
  have hst : s ≠ t := fun heq => hne (heq ▸ hid)
  have hmem : s ∈ pre ∨ s ∈ post := by simpa [hst] using hs
  split
  · simpa using hmem
  · rcases hmem with hmem | hmem <;> simp [hmem]

theorem dropOne_none_iff {l : List ShopSlot} :
    dropOne id l = none ↔ ∀ s ∈ l.find? (slotHas id), s.1.curQuantity = 0 := by
  unfold dropOne
  cases l.find? (slotHas id) with
  | none => simp
  | some s =>
      by_cases hcur : s.1.curQuantity = 0
      · simp [hcur]
      · simp only [hcur, if_false]
        split <;> simp [hcur]

/-- For nobody `shop_remove` does what it does for a player that has paid. -/
theorem dropOne_shopTake (shop : ShopConfig) {slots : List ShopSlot} {s : ShopSlot}
    (hitems : shop.items = slots.map Prod.fst) (hs : slots.find? (slotHas id) = some s)
    (hcur : s.1.curQuantity ≠ 0) :
    (dropOne id slots).map (List.map Prod.fst) = some (shopTake shop s.1).items := by
  have hid : s.1.id = id := by simpa [slotHas] using List.find?_some hs
  have herase : (slots.eraseP (slotHas id)).map Prod.fst = shop.items.eraseP (·.id == id) := by
    rw [hitems, List.eraseP_map]
    rfl
  have hmodify : (modifyFirst (slotHas id) (fun s => (takeOne s.1, s.2)) slots).map Prod.fst =
      modifyFirst (·.id == id) takeOne shop.items := by
    rw [hitems]
    clear hs herase hitems
    induction slots with
    | nil => rfl
    | cons a slots ih =>
        by_cases ha : slotHas id a = true
        · have ha' : (a.1.id == id) = true := ha
          simp [modifyFirst, ha, ha']
        · have ha' : ¬ (a.1.id == id) = true := ha
          simp [modifyFirst, ha, ha', ih]
  unfold dropOne shopTake
  rw [hs, hid]
  simp only [hcur, if_false]
  split
  · rw [Option.map_some, herase]
  · rw [Option.map_some, hmodify]
    rfl

theorem length_dropOne {l l' : List ShopSlot} (h : dropOne id l = some l') :
    l'.length = l.length ∨ l'.length + 1 = l.length := by
  obtain ⟨pre, s, post, rfl, -, -, -, rfl⟩ := dropOne_split h
  split
  · right
    simp only [List.length_append, List.length_cons]
    omega
  · left
    simp only [List.length_append, List.length_cons]

/-! ## The turn of an entry that runs out -/

/-- `item->removal_timer = shop->pawn_limit / 5` -/
def timed (pawnLimit : Nat) (s : ShopSlot) : ShopSlot :=
  ({ s.1 with removalTimer := pawnLimit / 5 }, s.2)

section

variable (pawnLimit : Nat) {w : ShopWalk} (hw : w.slots = done ++ (e, k) :: tail) (h : Expires e)
include hw h

/-- Its id has not been passed: it goes, and if it was the last of its kind
the entry behind it gets the timer. -/
theorem processTurn_own (hnot : ∀ s ∈ done, ¬ slotHas e.id s = true) :
    (processTurn pawnLimit done.length e w).slots =
      done ++ if LastOne e then tail.modifyHead (timed pawnLimit)
        else timed pawnLimit (takeOne e, k) :: tail := by
  rw [processTurn_expires _ h, hw, dropOne_here hnot h.2.1]
  simp only
  rw [write_slots rfl]
  split
  · rfl
  · rfl

/-- Its id has been passed, and there is nothing to take: only the timer is set. -/
theorem processTurn_empty (hdup : ∃ s ∈ done, slotHas e.id s = true)
    (hnone : dropOne e.id done = none) :
    (processTurn pawnLimit done.length e w).slots = done ++ timed pawnLimit (e, k) :: tail := by
  rw [processTurn_expires _ h, hw, dropOne_append hdup, hnone]
  simp only [Option.map_none]
  rw [write_slots hw]
  rfl

/-- Its id has been passed: what was passed is taken instead. If that was the
last of its kind, everything moves up and the timer is that of the entry behind. -/
theorem processTurn_other {kept : List ShopSlot} (hdrop : dropOne e.id done = some kept) :
    (kept.length = done.length ∧ (processTurn pawnLimit done.length e w).slots =
        kept ++ timed pawnLimit (e, k) :: tail) ∨
      (kept.length + 1 = done.length ∧ (processTurn pawnLimit done.length e w).slots =
        kept ++ (e, k) :: tail.modifyHead (timed pawnLimit)) := by
  have hdup : ∃ s ∈ done, slotHas e.id s = true := by
    obtain ⟨pre, s, post, rfl, -, hs, -, -⟩ := dropOne_split hdrop
    exact ⟨s, by simp, hs⟩
  rw [processTurn_expires _ h, hw, dropOne_append hdup, hdrop]
  simp only [Option.map_some]
  obtain hsame | hless := length_dropOne hdrop
  · refine .inl ⟨hsame, ?_⟩
    rw [← hsame, write_slots rfl]
    rfl
  · refine .inr ⟨hless, ?_⟩
    have hlength : done.length = (kept ++ [(e, k)]).length := by
      rw [List.length_append, List.length_singleton]
      omega
    have hslots : ({ w with slots := kept ++ (e, k) :: tail, changed := true } : ShopWalk).slots =
        kept ++ [(e, k)] ++ tail := by simp
    rw [hlength, write_slots hslots, List.append_assoc, List.singleton_append]
    rfl

end

/-! ## The rest of the loop -/

/-- The shape of any turn: of the entries passed one may be taken, the entry
itself or what moves up is passed, and the rest gets shorter. -/
structure Shape (done : List ShopSlot) (e : ShopItem) (k : Nat)
    (tail kept passed rest : List ShopSlot) : Prop where
  taken : kept = done ∨ dropOne e.id done = some kept
  hit : Expires e → ∀ l, dropOne e.id done = some l → kept = l
  mem : ∀ s ∈ passed, s.2 ∈ ((e, k) :: tail).map Prod.snd
  suffix : rest <:+ tail
  next : (kept ++ passed).length = done.length + 1 ∨
    rest = [] ∧ (kept ++ passed).length ≤ done.length + 1

theorem processTurn_shape (pawnLimit : Nat) {w : ShopWalk}
    (hw : w.slots = done ++ (e, k) :: tail) :
    ∃ kept passed rest, Shape done e k tail kept passed rest ∧
      (processTurn pawnLimit done.length e w).slots = kept ++ passed ++ rest := by
  -- the entry that moves up, if there is one, is passed with a new timer
  have hhead : tail.modifyHead (timed pawnLimit) =
      (tail.head?.map (timed pawnLimit)).toList ++ tail.tail := by
    cases tail <;> rfl
  have hplace : ∀ s ∈ (tail.head?.map (timed pawnLimit)).toList,
      s.2 ∈ ((e, k) :: tail).map Prod.snd := by
    cases tail <;> simp [timed]
  have hmoved : (tail.head?.map (timed pawnLimit)).toList.length = 1 ∨
      tail.tail = [] ∧ (tail.head?.map (timed pawnLimit)).toList.length = 0 := by
    cases tail <;> simp
  by_cases hexp : Expires e
  · by_cases hdup : ∃ s ∈ done, slotHas e.id s = true
    · cases hdrop : dropOne e.id done with
      | none =>
          refine ⟨done, [timed pawnLimit (e, k)], tail, ⟨.inl rfl, by simp [hdrop], by simp [timed],
            List.suffix_refl _, .inl (by simp)⟩, ?_⟩
          rw [processTurn_empty pawnLimit hw hexp hdup hdrop]
          simp
      | some kept =>
          obtain ⟨hsame, hslots⟩ | ⟨hless, hslots⟩ :=
            processTurn_other pawnLimit hw hexp hdrop
          · refine ⟨kept, [timed pawnLimit (e, k)], tail, ⟨.inr hdrop, by simp [hdrop],
              by simp [timed], List.suffix_refl _, .inl (by simp [hsame])⟩, ?_⟩
            rw [hslots]
            simp
          · refine ⟨kept, (e, k) :: (tail.head?.map (timed pawnLimit)).toList, tail.tail,
              ⟨.inr hdrop, by simp [hdrop], ?_, List.tail_suffix _, ?_⟩, ?_⟩
            · intro s hs
              rcases List.mem_cons.1 hs with rfl | hs
              · simp
              · exact hplace s hs
            · simp only [List.length_append, List.length_cons]
              rcases hmoved with hone | ⟨hnil, hzero⟩
              · exact .inl (by omega)
              · exact .inr ⟨hnil, by omega⟩
            · rw [hslots, hhead]
              simp
    · have hmiss : ∀ l, dropOne e.id done = some l → done = l := by
        intro l hdrop
        obtain ⟨pre, s, post, rfl, -, hs, -⟩ := dropOne_split hdrop
        exact absurd ⟨s, by simp, hs⟩ hdup
      have hown := processTurn_own pawnLimit hw hexp
        fun s hs hid => hdup ⟨s, hs, hid⟩
      by_cases hlast : LastOne e
      · rw [if_pos hlast, hhead] at hown
        refine ⟨done, (tail.head?.map (timed pawnLimit)).toList, tail.tail,
          ⟨.inl rfl, fun _ => hmiss, hplace, List.tail_suffix _, ?_⟩,
          by rw [hown, List.append_assoc]⟩
        simp only [List.length_append]
        rcases hmoved with hone | ⟨hnil, hzero⟩
        · exact .inl (by omega)
        · exact .inr ⟨hnil, by omega⟩
      · rw [if_neg hlast] at hown
        refine ⟨done, [timed pawnLimit (takeOne e, k)], tail, ⟨.inl rfl, fun _ => hmiss,
          by simp [timed], List.suffix_refl _, .inl (by simp)⟩, ?_⟩
        rw [hown]
        simp
  · refine ⟨done, [(quietTurn e, k)], tail, ⟨.inl rfl, fun h => absurd h hexp, by simp,
      List.suffix_refl _, .inl (by simp)⟩, ?_⟩
    rw [processTurn_quiet pawnLimit hw hexp]
    simp

/-- What no later turn spoils holds in the end. -/
theorem processLoop_lasting {P : List Nat → List ShopSlot → List ShopSlot → Prop}
    (hP : ∀ visited done e k tail kept passed rest, P visited done ((e, k) :: tail) →
      Shape done e k tail kept passed rest → P (visited ++ [k]) (kept ++ passed) rest)
    (n : Nat) {w : ShopWalk} {i : Nat} (hw : w.slots = done ++ rest)
    (hi : i = done.length ∨ rest = [] ∧ done.length ≤ i) (hn : rest.length ≤ n)
    (h : P w.visited done rest) :
    P (processLoop pawnLimit n i w).visited (processLoop pawnLimit n i w).slots [] := by
  induction n generalizing w i done rest with
  | zero =>
      obtain rfl : rest = [] := List.length_eq_zero_iff.1 (Nat.le_zero.1 hn)
      rw [List.append_nil] at hw
      rw [processLoop, hw]
      exact h
  | succ n ih =>
      cases rest with
      | nil =>
          rw [List.append_nil] at hw
          have hend : w.slots[i]? = none := by
            rw [hw, List.getElem?_eq_none_iff]
            rcases hi with rfl | ⟨-, hi⟩
            · exact Nat.le_refl _
            · exact hi
          rw [processLoop, hend, hw]
          exact h
      | cons s tail =>
          obtain ⟨e, k⟩ := s
          obtain rfl : i = done.length := by
            rcases hi with hi | ⟨hnil, -⟩
            · exact hi
            · cases hnil
          have hget : w.slots[done.length]? = some (e, k) := by
            rw [hw, List.getElem?_append_right (Nat.le_refl _), Nat.sub_self]
            rfl
          obtain ⟨kept, passed, rest, hshape, hslots⟩ := processTurn_shape pawnLimit
            (w := { w with visited := w.visited ++ [k] }) hw
          rw [processLoop, hget]
          simp only
          apply ih hslots
          · obtain hnext | ⟨hnil, hnext⟩ := hshape.next
            · exact .inl hnext.symm
            · exact .inr ⟨hnil, hnext⟩
          · have hshort := hshape.suffix.length_le
            rw [List.length_cons] at hn
            omega
          · rw [processTurn_visited]
            exact hP _ _ _ _ _ _ _ _ h hshape

/-! ## What goes wrong stays wrong -/

section

variable (pawnLimit : Nat) {w : ShopWalk} {i n : Nat} (hw : w.slots = done ++ rest)
    (hi : i = done.length ∨ rest = [] ∧ done.length ≤ i) (hn : rest.length ≤ n)
include hw hi hn

/-- An entry that has been passed only gets less. -/
theorem processLoop_bounded {b : Nat} (hdone : ∀ s ∈ done, s.2 = k → s.1.curQuantity ≤ b)
    (hrest : ∀ s ∈ rest, s.2 ≠ k) :
    ∀ s ∈ (processLoop pawnLimit n i w).slots, s.2 = k → s.1.curQuantity ≤ b := by
  refine (processLoop_lasting (P := fun _ done rest =>
    (∀ s ∈ done, s.2 = k → s.1.curQuantity ≤ b) ∧ ∀ s ∈ rest, s.2 ≠ k) ?_ n hw hi hn
      ⟨hdone, hrest⟩).1
  intro _ done e place tail kept passed rest h hshape
  have hnew : ∀ s ∈ passed, s.2 ≠ k := by
    intro s hs
    obtain ⟨t, ht, hplace⟩ := List.mem_map.1 (hshape.mem s hs)
    rw [← hplace]
    exact h.2 t ht
  refine ⟨?_, fun s hs => h.2 s (List.mem_cons_of_mem _ (hshape.suffix.subset hs))⟩
  intro s hs hk
  rcases List.mem_append.1 hs with hs | hs
  · obtain rfl | hdrop := hshape.taken
    · exact h.1 s hs hk
    · obtain ⟨t, ht, hplace, hle⟩ := mem_dropOne hdrop s hs
      exact Nat.le_trans hle (h.1 t ht (hplace.trans hk))
  · exact absurd hk (hnew s hs)

/-- An entry behind an empty one of its id is never taken from. -/
theorem processLoop_stuck (hmem : (e, k) ∈ done) (hnone : dropOne e.id done = none)
    (hdup : (done.find? (slotHas e.id)).isSome = true) :
    (e, k) ∈ (processLoop pawnLimit n i w).slots := by
  refine (processLoop_lasting (P := fun _ done _ => (e, k) ∈ done ∧ dropOne e.id done = none ∧
    (done.find? (slotHas e.id)).isSome = true) ?_ n hw hi hn ⟨hmem, hnone, hdup⟩).1
  intro _ done f place tail kept passed rest h hshape
  obtain ⟨hmem, hnone, hdup⟩ := h
  have hkept : (e, k) ∈ kept ∧ kept.find? (slotHas e.id) = done.find? (slotHas e.id) := by
    obtain rfl | hdrop := hshape.taken
    · exact ⟨hmem, rfl⟩
    · have hne : e.id ≠ f.id := by
        intro heq
        rw [heq, hdrop] at hnone
        cases hnone
      exact ⟨mem_dropOne_other hdrop hmem hne, find?_dropOne hdrop hne⟩
  obtain ⟨s, hs⟩ := Option.isSome_iff_exists.1 hdup
  have hfind : (kept ++ passed).find? (slotHas e.id) = some s := by
    rw [List.find?_append, hkept.2, hs, Option.some_or]
  refine ⟨List.mem_append_left _ hkept.1, ?_, by rw [hfind]; rfl⟩
  rw [dropOne_none_iff, hfind]
  rw [dropOne_none_iff, hs] at hnone
  exact hnone

/-- An entry that has been skipped is never looked at. -/
theorem processLoop_skipped (hseen : k ∉ w.visited) (hrest : ∀ s ∈ rest, s.2 ≠ k) :
    k ∉ (processLoop pawnLimit n i w).visited := by
  refine (processLoop_lasting (P := fun visited _ rest => k ∉ visited ∧ ∀ s ∈ rest, s.2 ≠ k) ?_ n
    hw hi hn ⟨hseen, hrest⟩).1
  intro visited _ f place tail _ _ rest h hshape
  refine ⟨?_, fun s hs => h.2 s (List.mem_cons_of_mem _ (hshape.suffix.subset hs))⟩
  have hplace : place ≠ k := h.2 (f, place) List.mem_cons_self
  simpa [h.1] using Ne.symm hplace

end

/-! ## Every entry as if it were alone -/

/-- What the shop does to one entry if it has no other. -/
def onlyOne (shop : ShopConfig) (item : ShopItem) : List ShopItem :=
  (shopProcess { shop with items := [item] }).items

theorem onlyOne_eq (shop : ShopConfig) (item : ShopItem) :
    onlyOne shop item = (soloTurn shop.pawnLimit item).toList := by
  have hw : ({ slots := [(item, 0)], visited := [0], changed := shop.changed } : ShopWalk).slots =
      [] ++ (item, 0) :: [] := rfl
  show (processTurn shop.pawnLimit 0 item
    { slots := [(item, 0)], visited := [0], changed := shop.changed }).slots.map Prod.fst = _
  unfold soloTurn
  by_cases hexp : Expires item
  · have hown := processTurn_own shop.pawnLimit hw hexp (by simp)
    rw [List.length_nil] at hown
    rw [hown, if_pos hexp]
    by_cases hlast : LastOne item
    · simp [hlast]
    · simp [hlast, timed]
  · have hquiet := processTurn_quiet shop.pawnLimit hw hexp
    rw [List.length_nil] at hquiet
    rw [hquiet, if_neg hexp]
    rfl

/-- Every entry there was is looked at once, and gets what it would get alone. -/
structure Independent (shop : ShopConfig) : Prop where
  visited : (shopWalk shop).visited = shop.items.zipIdx.map Prod.snd
  slots : (shopWalk shop).slots =
    shop.items.zipIdx.flatMap fun s => (onlyOne shop s.1).map fun item => (item, s.2)

/-- An entry runs out only if none before it has its id, and the last of its
kind only at the end of the shop. `ids` are those before the entries. -/
def Undisturbed (ids : List Nat) (items : List ShopItem) : Prop :=
  ∀ pre e post, items = pre ++ e :: post → Expires e →
    (LastOne e → post = []) ∧ e.id ∉ ids ++ pre.map ShopItem.id

theorem undisturbed_cons {ids : List Nat} {items : List ShopItem} :
    Undisturbed ids (e :: items) ↔
      (Expires e → (LastOne e → items = []) ∧ e.id ∉ ids) ∧ Undisturbed (ids ++ [e.id]) items := by
  constructor
  · intro h
    refine ⟨fun hexp => by simpa using h [] e items rfl hexp, ?_⟩
    intro pre f post hsplit hexp
    have hcons := h (e :: pre) f post (by rw [hsplit]; rfl) hexp
    simpa using hcons
  · rintro ⟨hhead, htail⟩ pre f post hsplit hexp
    cases pre with
    | nil =>
        obtain ⟨rfl, rfl⟩ := List.cons.inj hsplit
        simpa using hhead hexp
    | cons a pre =>
        obtain ⟨rfl, hrest⟩ := List.cons.inj hsplit
        simpa using htail pre f post hrest hexp

theorem processLoop_end (n : Nat) {w : ShopWalk} {i : Nat} (h : w.slots.length ≤ i) :
    processLoop pawnLimit n i w = w := by
  cases n with
  | zero => rfl
  | succ n => rw [processLoop, List.getElem?_eq_none h]

theorem processLoop_next {w : ShopWalk} (n : Nat) (hw : w.slots = done ++ (e, k) :: tail) :
    processLoop pawnLimit (n + 1) done.length w =
      processLoop pawnLimit n (done.length + 1)
        (processTurn pawnLimit done.length e { w with visited := w.visited ++ [k] }) := by
  have hget : w.slots[done.length]? = some (e, k) := by
    rw [hw, List.getElem?_append_right (Nat.le_refl _), Nat.sub_self]
    rfl
  rw [processLoop, hget]

/-- The entries as they should be. -/
def soloSlots (pawnLimit : Nat) (slots : List ShopSlot) : List ShopSlot :=
  slots.flatMap fun s => (soloTurn pawnLimit s.1).toList.map fun item => (item, s.2)

theorem soloSlots_place {s : ShopSlot} (h : s ∈ soloSlots pawnLimit rest) :
    ∃ t ∈ rest, t.2 = s.2 ∧ s.1 ∈ soloTurn pawnLimit t.1 := by
  obtain ⟨t, ht, hs⟩ := List.mem_flatMap.1 h
  obtain ⟨item, hitem, rfl⟩ := List.mem_map.1 hs
  exact ⟨t, ht, rfl, Option.mem_toList.1 hitem⟩

/-- An id that has been passed is taken from the wrong entry, or from none. -/
theorem processLoop_wrong (pawnLimit : Nat) {w : ShopWalk} {n : Nat}
    (hw : w.slots = done ++ (e, k) :: tail)
    (hn : tail.length ≤ n) (hplaces : ((done ++ (e, k) :: tail).map Prod.snd).Nodup)
    (hexp : Expires e) (hdup : ∃ s ∈ done, slotHas e.id s = true) :
    (processLoop pawnLimit n (done.length + 1)
      (processTurn pawnLimit done.length e w)).slots ≠
        done ++ soloSlots pawnLimit ((e, k) :: tail) := by
  rw [List.map_append, List.nodup_append, List.map_cons, List.nodup_cons] at hplaces
  obtain ⟨hdone, ⟨hk, htail⟩, hapart⟩ := hplaces
  intro heq
  cases hdrop : dropOne e.id done with
  | none =>
      have hslots : (processTurn pawnLimit done.length e w).slots =
          (done ++ [timed pawnLimit (e, k)]) ++ tail := by
        rw [processTurn_empty pawnLimit hw hexp hdup hdrop]
        simp
      have hfound := List.find?_isSome.2 hdup
      have hi : done.length + 1 = (done ++ [timed pawnLimit (e, k)]).length ∨
          tail = [] ∧ (done ++ [timed pawnLimit (e, k)]).length ≤ done.length + 1 := .inl (by simp)
      have hstuck := processLoop_stuck pawnLimit hslots hi hn
        (e := (timed pawnLimit (e, k)).1) (k := k) (by simp [timed])
        (by
          show dropOne e.id (done ++ [timed pawnLimit (e, k)]) = none
          rw [dropOne_append hdup, hdrop]
          rfl)
        (by
          show ((done ++ [timed pawnLimit (e, k)]).find? (slotHas e.id)).isSome = true
          rw [List.find?_append]
          simp [hfound])
      rw [heq] at hstuck
      rcases List.mem_append.1 hstuck with hmem | hmem
      · exact hapart k (List.mem_map_of_mem hmem) k List.mem_cons_self rfl
      · obtain ⟨t, ht, hplace, hsolo⟩ := soloSlots_place hmem
        rcases List.mem_cons.1 ht with rfl | ht
        · -- alone it would have one less
          have hcur := hexp.2.1
          rw [soloTurn, if_pos hexp] at hsolo
          split at hsolo
          · cases hsolo
          · have hless := congrArg ShopItem.curQuantity (Option.some.inj hsolo)
            simp only [takeOne, timed] at hless
            omega
        · exact hk (hplace ▸ List.mem_map_of_mem ht)
  | some kept =>
      obtain ⟨kept', passed, rest, hshape, hslots⟩ := processTurn_shape pawnLimit hw
      obtain rfl := hshape.hit hexp kept hdrop
      obtain ⟨s, hs, -, hcur, hless⟩ := dropOne_less hdrop hdone
      have hsplace : ∀ t : ShopSlot, t.2 ∈ ((e, k) :: tail).map Prod.snd → t.2 ≠ s.2 := by
        intro t ht hplace
        exact hapart s.2 (List.mem_map_of_mem hs) t.2 ht hplace.symm
      have hi : done.length + 1 = (kept' ++ passed).length ∨
          rest = [] ∧ (kept' ++ passed).length ≤ done.length + 1 :=
        hshape.next.imp_left Eq.symm
      have hbound := processLoop_bounded pawnLimit hslots hi
        (Nat.le_trans hshape.suffix.length_le hn) (k := s.2) (b := s.1.curQuantity - 1)
        (by
          intro t ht hplace
          rcases List.mem_append.1 ht with ht | ht
          · exact hless t ht hplace
          · exact absurd hplace (hsplace t (hshape.mem t ht)))
        (by
          intro t ht
          have hmem : t ∈ (e, k) :: tail := List.mem_cons_of_mem _ (hshape.suffix.subset ht)
          exact hsplace t (List.mem_map_of_mem hmem))
      rw [heq] at hbound
      have hle := hbound s (List.mem_append_left _ hs) rfl
      omega

/-- The last of an entry has moved the next one into its place, where the loop does not
look any more. -/
theorem processLoop_past_last (pawnLimit n : Nat) {w : ShopWalk} {g : ShopSlot}
    (hw : w.slots = done ++ (g :: tail).modifyHead (timed pawnLimit)) (hn : tail.length ≤ n)
    (hg : g.2 ∉ tail.map Prod.snd) (hseen : g.2 ∉ w.visited) :
    g.2 ∉ (processLoop pawnLimit n (done.length + 1) w).visited := by
  have hslots : w.slots = (done ++ [timed pawnLimit g]) ++ tail := by
    rw [hw]
    simp
  have hi : done.length + 1 = (done ++ [timed pawnLimit g]).length ∨
      tail = [] ∧ (done ++ [timed pawnLimit g]).length ≤ done.length + 1 := .inl (by simp)
  exact processLoop_skipped pawnLimit hslots hi hn hseen
    fun t ht hplace => hg (hplace ▸ List.mem_map_of_mem ht)

/-- From some entry on: each of those to come fares as it would alone exactly
when nothing disturbs them. -/
theorem processLoop_iff (pawnLimit n : Nat) {w : ShopWalk} (hw : w.slots = done ++ rest)
    (hn : rest.length ≤ n) (hplaces : ((done ++ rest).map Prod.snd).Nodup)
    (hseen : ∀ s ∈ rest, s.2 ∉ w.visited) :
    ((processLoop pawnLimit n done.length w).visited = w.visited ++ rest.map Prod.snd ∧
        (processLoop pawnLimit n done.length w).slots = done ++ soloSlots pawnLimit rest) ↔
      Undisturbed (done.map fun s => s.1.id) (rest.map Prod.fst) := by
  induction rest generalizing n w done with
  | nil =>
      have hend : processLoop pawnLimit n done.length w = w :=
        processLoop_end n (by simp [hw])
      rw [hend]
      refine iff_of_true ⟨by simp, by simpa [soloSlots] using hw⟩ ?_
      intro pre e post hsplit
      simp at hsplit
  | cons s tail ih =>
      obtain ⟨e, k⟩ := s
      obtain ⟨n, rfl⟩ : ∃ m, n = m + 1 := ⟨n - 1, by rw [List.length_cons] at hn; omega⟩
      have hn' : tail.length ≤ n := by
        rw [List.length_cons] at hn
        omega
      have hw' : ({ w with visited := w.visited ++ [k] } : ShopWalk).slots =
          done ++ (e, k) :: tail := hw
      have hvisited := processTurn_visited pawnLimit done.length e
        { w with visited := w.visited ++ [k] }
      have hk : ∀ t ∈ tail, t.2 ≠ k := by
        rw [List.map_append, List.nodup_append, List.map_cons, List.nodup_cons] at hplaces
        intro t ht hplace
        exact hplaces.2.1.1 (List.mem_map.2 ⟨t, ht, hplace⟩)
      have hseen' : ∀ t ∈ tail, t.2 ∉ w.visited ++ [k] := by
        intro t ht
        have hone := hseen t (List.mem_cons_of_mem _ ht)
        simp [hone, hk t ht]
      rw [processLoop_next n hw]
      show _ ↔ Undisturbed _ (e :: tail.map Prod.fst)
      rw [undisturbed_cons]
      -- the entry that is passed has had its own turn, and the rest goes on
      have hgo : ∀ item, soloTurn pawnLimit e = some item →
          (processTurn pawnLimit done.length e { w with visited := w.visited ++ [k] }).slots =
            done ++ (item, k) :: tail →
          (((processLoop pawnLimit n (done.length + 1) (processTurn pawnLimit done.length e
              { w with visited := w.visited ++ [k] })).visited =
                w.visited ++ ((e, k) :: tail).map Prod.snd ∧
            (processLoop pawnLimit n (done.length + 1) (processTurn pawnLimit done.length e
              { w with visited := w.visited ++ [k] })).slots =
                done ++ soloSlots pawnLimit ((e, k) :: tail)) ↔
            Undisturbed ((done.map fun s => s.1.id) ++ [e.id]) (tail.map Prod.fst)) := by
        intro item hsolo hslots
        have hid : item.id = e.id := soloTurn_id hsolo
        have hsplit : (processTurn pawnLimit done.length e
            { w with visited := w.visited ++ [k] }).slots = (done ++ [(item, k)]) ++ tail := by
          rw [hslots]
          simp
        have hrest := ih n hsplit hn' (by simpa using hplaces) (by rw [hvisited]; exact hseen')
        rw [hvisited, List.length_append, List.length_singleton, List.map_append] at hrest
        simpa [soloSlots, hsolo, hid] using hrest
      by_cases hexp : Expires e
      · by_cases hdup : ∃ s ∈ done, slotHas e.id s = true
        · have hwrong := processLoop_wrong pawnLimit hw' hn' hplaces hexp hdup
          refine iff_of_false (fun h => hwrong h.2) ?_
          rintro ⟨hhead, -⟩
          obtain ⟨t, ht, hid⟩ := hdup
          apply (hhead hexp).2
          rw [← beq_iff_eq.1 hid]
          exact List.mem_map_of_mem ht
        · have hnot : ∀ s ∈ done, ¬ slotHas e.id s = true := fun s hs hid => hdup ⟨s, hs, hid⟩
          have hids : e.id ∉ done.map fun s => s.1.id := by
            intro hmem
            obtain ⟨t, ht, hid⟩ := List.mem_map.1 hmem
            exact hnot t ht (beq_iff_eq.2 hid)
          have hown := processTurn_own pawnLimit hw' hexp hnot
          by_cases hlast : LastOne e
          · rw [if_pos hlast] at hown
            have hsolo : soloTurn pawnLimit e = none := by rw [soloTurn, if_pos hexp, if_pos hlast]
            cases tail with
            | nil =>
                have hend : processLoop pawnLimit n (done.length + 1)
                    (processTurn pawnLimit done.length e { w with visited := w.visited ++ [k] }) =
                      processTurn pawnLimit done.length e { w with visited := w.visited ++ [k] } :=
                  processLoop_end n (by rw [hown]; simp)
                rw [hend, hown, hvisited]
                refine iff_of_true ⟨by simp, by simp [soloSlots, hsolo]⟩ ⟨fun _ => ⟨by simp, hids⟩, ?_⟩
                intro pre f post hsplit
                simp at hsplit
            | cons g tail =>
                -- the entry that moves up is skipped
                have hg : g.2 ∉ tail.map Prod.snd := by
                  rw [List.map_append, List.nodup_append, List.map_cons, List.nodup_cons,
                    List.map_cons, List.nodup_cons] at hplaces
                  exact hplaces.2.1.2.1
                have hshort : tail.length ≤ n := by
                  rw [List.length_cons] at hn'
                  omega
                have hskip := processLoop_past_last pawnLimit n hown hshort hg
                  (by rw [hvisited]; exact hseen' g List.mem_cons_self)
                refine iff_of_false ?_ ?_
                · rintro ⟨hall, -⟩
                  rw [hall] at hskip
                  exact hskip (by simp)
                · rintro ⟨hhead, -⟩
                  have hnil := (hhead hexp).1 hlast
                  cases hnil
          · rw [if_neg hlast] at hown
            have hsolo : soloTurn pawnLimit e = some (timed pawnLimit (takeOne e, k)).1 := by
              rw [soloTurn, if_pos hexp, if_neg hlast]
              rfl
            rw [hgo _ hsolo hown]
            exact (and_iff_right fun _ => ⟨fun h => absurd h hlast, hids⟩).symm
      · have hsolo : soloTurn pawnLimit e = some (quietTurn e) := by rw [soloTurn, if_neg hexp]
        rw [hgo _ hsolo (processTurn_quiet pawnLimit hw' hexp)]
        exact (and_iff_right fun h => absurd h hexp).symm

/-- Restocking treats every entry as if it were alone exactly when no entry
that runs out has its id in front of it, and only the last of the shop is
taken out of it. -/
theorem shop_process_independent_iff (shop : ShopConfig) :
    Independent shop ↔ Undisturbed [] shop.items := by
  have hslots : (shop.items.zipIdx.flatMap fun s => (onlyOne shop s.1).map fun item => (item, s.2)) =
      soloSlots shop.pawnLimit shop.items.zipIdx := by
    unfold soloSlots
    simp only [onlyOne_eq]
  have hplaces : (([] ++ shop.items.zipIdx).map Prod.snd).Nodup := by
    simp [List.nodup_range']
  have hstart : ({ slots := shop.items.zipIdx, changed := shop.changed } : ShopWalk).slots =
      [] ++ shop.items.zipIdx := rfl
  have hiff := processLoop_iff shop.pawnLimit shop.items.length hstart (by simp) hplaces (by simp)
  simp only [List.map_nil, List.nil_append, List.length_nil, List.zipIdx_map_fst] at hiff
  rw [← hiff, ← hslots]
  exact ⟨fun h => ⟨h.visited, h.slots⟩, fun h => ⟨h.1, h.2⟩⟩

/-- An entry that waits to be restocked. -/
def waiting : ShopItem where
  id := 3
  quantity := 10
  curQuantity := 8
  restock := 50
  restockTimer := 5

/-- An entry that is taken out, and one behind it that waits. -/
def soldShop : ShopConfig where
  sellModifier := 100
  buyModifier := 60
  pawnLimit := 600
  items := [{ id := 2, quantity := 0, curQuantity := 1, restock := 0 }, waiting]

/-- The second entry does not count down, and gets a timer it has no use for. -/
theorem sold_item_skips :
    ¬ Independent soldShop ∧
      (shopProcess soldShop).items = [{ waiting with removalTimer := 120 }] ∧
        onlyOne soldShop waiting = [{ waiting with restockTimer := 4 }] := by
  refine ⟨?_, by decide, by decide⟩
  intro h
  exact absurd h.visited (by decide)

end Sundae.Proofs
