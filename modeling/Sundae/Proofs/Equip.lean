import Sundae.Lib.Run
import Sundae.Ref.Equip

/-!
# What is worn and what is remembered of it

Bonuses, projectile and sprites are computed from the worn items and kept. They
stay what they are while the worn items are the same ones in the same order,
whatever else the inventory holds, and whoever changes the worn items computes
them again. No two worn items share a basic type: wearing takes off what it
shares one with, and nothing else puts an item on.
-/

namespace Sundae.Proofs

open Sundae.Ref Sundae.Lib

variable {t : GearTable} {p p' : EquipPlayer} {inv : List InvItem}

/-- The ids of the worn items, in the order of their slots. -/
def wornIds (inv : List InvItem) : List Nat := (inv.filter (·.worn)).map (·.id)

/-- The two items have a basic type in common. -/
def Clash (t : GearTable) (a b : Nat) : Prop :=
  ∃ basic ∈ basicTypes,
    hasType (t.gear a).equipType basic = true ∧ hasType (t.gear b).equipType basic = true

def WornDisjoint (t : GearTable) (inv : List InvItem) : Prop :=
  (wornIds inv).Pairwise fun a b => ¬ Clash t a b

theorem itemEquipClear_iff {a b : Nat} :
    itemEquipClear (t.gear a).equipType (t.gear b).equipType = true ↔ Clash t a b := by
  simp [itemEquipClear, Clash]

theorem Clash.symm {a b : Nat} (h : Clash t a b) : Clash t b a := by
  obtain ⟨basic, hmem, ha, hb⟩ := h
  exact ⟨basic, hmem, hb, ha⟩

/-! ## The worn items and the caches -/

theorem wornIds_append (inv inv' : List InvItem) :
    wornIds (inv ++ inv') = wornIds inv ++ wornIds inv' := by
  simp [wornIds]

/-- The loop looks at the worn items only. -/
theorem recalculateLoop_congr {inv' : List InvItem} (h : wornIds inv = wornIds inv')
    (e : Equipped) : recalculateLoop t e inv = recalculateLoop t e inv' := by
  suffices hids : ∀ (inv : List InvItem) (e : Equipped), recalculateLoop t e inv =
      recalculateLoop t e ((wornIds inv).map fun id => ⟨id, 0, true⟩) by
    rw [hids inv, hids inv', h]
  intro inv
  induction inv with
  | nil => exact fun _ => rfl
  | cons x inv ih =>
      intro e
      cases hx : x.worn with
      | false =>
          have hids : wornIds (x :: inv) = wornIds inv := by simp [wornIds, hx]
          rw [hids, ← ih, recalculateLoop, hx, if_neg Bool.false_ne_true]
      | true =>
          have hids : wornIds (x :: inv) = x.id :: wornIds inv := by simp [wornIds, hx]
          rw [hids, List.map_cons, recalculateLoop, recalculateLoop, hx, if_pos rfl, if_pos rfl]
          cases t.byId x.id with
          | none => rfl
          | some item => exact ih _

/-- What was recalculated has a config for whatever is worn. -/
theorem recalculateLoop_known {e e' : Equipped} (h : recalculateLoop t e inv = .ok e') {x : InvItem}
    (hx : x ∈ inv) (hworn : x.worn = true) : (t.byId x.id).isSome = true := by
  induction inv generalizing e with
  | nil => cases hx
  | cons y inv ih =>
      rw [recalculateLoop] at h
      rcases List.mem_cons.1 hx with rfl | hx
      · rw [if_pos hworn] at h
        cases hid : t.byId x.id with
        | none =>
            rw [hid] at h
            cases h
        | some item => rfl
      · split at h
        · split at h
          · cases h
          · exact ih h hx
        · exact ih h hx

/-- The two invariants of a player. -/
structure Dressed (t : GearTable) (p : EquipPlayer) : Prop where
  disjoint : WornDisjoint t p.inventory
  current : p.recalculated = true → equippedOf t p.spritesBase p.inventory = .ok p.equipped

theorem playerRecalculateEquip_ok (h : playerRecalculateEquip t p = .ok p') :
    equippedOf t p.spritesBase p.inventory = .ok p'.equipped ∧
      p'.inventory = p.inventory ∧ p'.spritesBase = p.spritesBase := by
  unfold playerRecalculateEquip at h
  split at h
  · cases h
  · next e he =>
    cases h
    exact ⟨he, rfl, rfl⟩

theorem Dressed.recalculate (hd : WornDisjoint t p.inventory)
    (h : playerRecalculateEquip t p = .ok p') : Dressed t p' := by
  obtain ⟨he, hinv, hbase⟩ := playerRecalculateEquip_ok h
  constructor
  · rw [hinv]
    exact hd
  · intro _
    rw [hinv, hbase]
    exact he

/-- Another inventory with the same items worn. -/
theorem Dressed.congr (hp : Dressed t p) (h : wornIds inv = wornIds p.inventory) :
    Dressed t { p with inventory := inv } := by
  constructor
  · show (wornIds inv).Pairwise _
    rw [h]
    exact hp.disjoint
  · intro hr
    exact (recalculateLoop_congr h _).trans (hp.current hr)

theorem recalculateLoop_of_known (h : equipKnown t.toItemTable inv = true) (e : Equipped) :
    ∃ e', recalculateLoop t e inv = .ok e' := by
  induction inv generalizing e with
  | nil => exact ⟨e, rfl⟩
  | cons x inv ih =>
      rw [equipKnown, List.all_cons, Bool.and_eq_true] at h
      rw [recalculateLoop]
      split
      · next hworn =>
        rw [hworn] at h
        obtain ⟨item, hitem⟩ := Option.isSome_iff_exists.1 h.1
        rw [hitem]
        exact ih h.2 _
      · exact ih h.2 _

theorem recalculateLoop_of_unknown (h : equipKnown t.toItemTable inv = false) (e : Equipped) :
    recalculateLoop t e inv = .error .itemConfig := by
  induction inv generalizing e with
  | nil => cases h
  | cons x inv ih =>
      rw [equipKnown, List.all_cons] at h
      rw [recalculateLoop]
      split
      · next hworn =>
        cases hitem : t.byId x.id with
        | none => rfl
        | some item =>
            rw [hworn, hitem] at h
            exact ih h _
      · next hworn =>
        rw [Bool.eq_false_iff.2 hworn] at h
        exact ih h _

/-- The slots after a recalculation, which stops at a worn item without a
config. -/
theorem playerRecalculateEquip_inventory (p : EquipPlayer) :
    (playerRecalculateEquip t p).map (·.inventory) =
      if equipKnown t.toItemTable p.inventory then .ok p.inventory else .error .itemConfig := by
  unfold playerRecalculateEquip equippedOf
  cases hknown : equipKnown t.toItemTable p.inventory with
  | true =>
      obtain ⟨e, he⟩ := recalculateLoop_of_known hknown { sprites := p.spritesBase }
      rw [he]
      rfl
  | false =>
      rw [recalculateLoop_of_unknown hknown]
      rfl

/-! ## Giving and removing -/

theorem wornIds_modify (inv : List InvItem) (k : Nat) {f : InvItem → InvItem}
    (hf : ∀ x, (f x).id = x.id ∧ (f x).worn = x.worn) : wornIds (inv.modify k f) = wornIds inv := by
  induction inv generalizing k with
  | nil => cases k <;> rfl
  | cons x inv ih =>
      cases k with
      | zero =>
          obtain ⟨hid, hworn⟩ := hf x
          simp only [List.modify_zero_cons, wornIds, List.filter_cons, hworn]
          split
          · rw [List.map_cons, List.map_cons, hid]
          · rfl
      | succ k =>
          have hrest := ih k
          simp only [wornIds] at hrest
          simp only [List.modify_succ_cons, wornIds, List.filter_cons]
          split
          · rw [List.map_cons, List.map_cons, hrest]
          · exact hrest

theorem giveUnits_wornIds (id n : Nat) (inv : List InvItem) :
    wornIds (giveUnits id n inv).1 = wornIds inv := by
  induction n generalizing inv with
  | zero => rfl
  | succ n ih =>
      rw [giveUnits]
      split
      · rw [ih, wornIds_append]
        simp [wornIds]
      · exact ih inv

theorem addStack_keeps (count : Nat) (x : InvItem) :
    (addStack count x).id = x.id ∧ (addStack count x).worn = x.worn := by
  unfold addStack
  simp only
  split
  · exact ⟨rfl, rfl⟩
  · exact ⟨rfl, rfl⟩

theorem invGive_wornIds (item : ItemConfig) (count : Nat) (inv : List InvItem) :
    wornIds (invGive item count inv).1 = wornIds inv := by
  unfold invGive
  split
  · split
    · next k hk => exact wornIds_modify inv k (addStack_keeps count)
    · split
      · rfl
      · rw [wornIds_append]
        simp [wornIds]
  · exact giveUnits_wornIds _ _ _

theorem equipGive_dressed (hp : Dressed t p) (item : ItemConfig) (count : Nat) :
    Dressed t (equipGive p item count) := hp.congr (invGive_wornIds item count p.inventory)

theorem wornIds_eraseIdx_sublist (inv : List InvItem) (k : Nat) :
    (wornIds (inv.eraseIdx k)).Sublist (wornIds inv) :=
  ((List.eraseIdx_sublist inv k).filter _).map _

theorem wornIds_eraseIdx {k : Nat} (h : inv[k]?.any (·.worn) = false) :
    wornIds (inv.eraseIdx k) = wornIds inv := by
  induction inv generalizing k with
  | nil => rfl
  | cons x inv ih =>
      cases k with
      | zero =>
          have hx : x.worn = false := h
          simp [wornIds, hx]
      | succ k =>
          have hrest := ih (k := k) h
          simp only [wornIds] at hrest
          simp only [List.eraseIdx_cons_succ, wornIds, List.filter_cons]
          split
          · rw [List.map_cons, List.map_cons, hrest]
          · exact hrest

theorem removeSlot_dressed (hp : Dressed t p) {k : Nat} (h : removeSlot t p k = .ok p') :
    Dressed t p' := by
  unfold removeSlot at h
  simp only at h
  split at h
  · exact Dressed.recalculate (hp.disjoint.sublist (wornIds_eraseIdx_sublist _ _)) h
  · next hworn =>
    cases h
    exact hp.congr (wornIds_eraseIdx (Bool.eq_false_iff.2 hworn))

variable {hit : InvItem → Except Assert Bool}

theorem equipRemoveSlots_dressed {left i : Nat} (hp : Dressed t p)
    (h : equipRemoveSlots t hit left i p = .ok p') : Dressed t p' := by
  induction left generalizing i p with
  | zero =>
      cases h
      exact hp
  | succ left ih =>
      rw [equipRemoveSlots] at h
      split at h
      · cases h
      · cases h
        exact hp
      · split at h
        · cases h
        · next q hq => exact ih (removeSlot_dressed hp hq) h

theorem equipRemoveHits_dressed {weight count : Nat} (hp : Dressed t p)
    (h : equipRemoveHits t hit weight count p = .ok p') : Dressed t p' := by
  unfold equipRemoveHits at h
  split at h
  · split at h
    · cases h
    · exact equipRemoveSlots_dressed hp h
    · split at h
      · cases h
        exact hp.congr (wornIds_modify _ _ fun x => ⟨rfl, rfl⟩)
      · exact equipRemoveSlots_dressed hp h
  · exact equipRemoveSlots_dressed hp h

theorem equipRemove_dressed {name : List Char} {count : Nat} (hp : Dressed t p)
    (h : equipRemove t p name count = .ok p') : Dressed t p' := by
  unfold equipRemove at h
  split at h
  · cases h
  · exact equipRemoveHits_dressed hp h

theorem equipRemoveId_dressed {id count : Nat} (hp : Dressed t p)
    (h : equipRemoveId t p id count = .ok p') : Dressed t p' := by
  unfold equipRemoveId at h
  split at h
  · cases h
  · exact equipRemoveHits_dressed hp h

theorem equipDrop_dressed {slot : Nat} (hp : Dressed t p) (h : equipDrop t p slot = .ok p') :
    Dressed t p' := by
  unfold equipDrop at h
  split at h
  · cases h
    exact hp
  · exact equipRemoveId_dressed hp h

theorem removeSlot_inventory (p : EquipPlayer) (k : Nat) :
    (removeSlot t p k).map (·.inventory) =
      if p.inventory[k]?.any (·.worn) && !equipKnown t.toItemTable (p.inventory.eraseIdx k) then
        .error .itemConfig
      else .ok (p.inventory.eraseIdx k) := by
  simp only [removeSlot]
  cases hworn : p.inventory[k]?.any (·.worn) with
  | false => rfl
  | true =>
      have hinv := playerRecalculateEquip_inventory (t := t)
        { p with inventory := p.inventory.eraseIdx k }
      simp only [if_true, Bool.true_and] at hinv ⊢
      rw [hinv]
      cases equipKnown t.toItemTable (p.inventory.eraseIdx k) with
      | false => rfl
      | true => rfl

theorem equipRemoveSlots_inventory (left i : Nat) (p : EquipPlayer) :
    (equipRemoveSlots t hit left i p).map (·.inventory) =
      removeSlots t.toItemTable hit left i p.inventory := by
  induction left generalizing i p with
  | zero => rfl
  | succ left ih =>
      rw [equipRemoveSlots, removeSlots]
      cases hfind : findSlot hit (p.inventory.drop i) with
      | error a => rfl
      | ok found =>
          cases found with
          | none => rfl
          | some k =>
              have hslot := removeSlot_inventory (t := t) p (i + k)
              simp only
              cases hq : removeSlot t p (i + k) with
              | error a =>
                  rw [hq] at hslot
                  split at hslot
                  · next hstop =>
                    rw [if_pos hstop]
                    exact hslot
                  · cases hslot
              | ok q =>
                  rw [hq] at hslot
                  split at hslot
                  · cases hslot
                  · next hgo =>
                    rw [if_neg hgo, ← Except.ok.inj hslot]
                    exact ih 1 q

/-- A removal here is the one of the inventory alone, with the recalculation:
it stops when that one does, and leaves the same slots. -/
theorem equipRemoveHits_inventory (weight count : Nat) (p : EquipPlayer) :
    (equipRemoveHits t hit weight count p).map (·.inventory) =
      invRemove t.toItemTable hit weight count p.inventory := by
  unfold equipRemoveHits invRemove
  split
  · cases hfind : findSlot hit p.inventory with
    | error a => rfl
    | ok found =>
        cases found with
        | none => exact equipRemoveSlots_inventory _ _ _
        | some k =>
            simp only
            split
            · rfl
            · exact equipRemoveSlots_inventory _ _ _
  · exact equipRemoveSlots_inventory _ _ _

/-! ## Dying -/

theorem dropLowest_dressed {keptMax n : Nat} (hp : Dressed t p)
    (h : dropLowest t keptMax n p = .ok p') : Dressed t p' := by
  induction n generalizing p with
  | zero =>
      cases h
      exact hp
  | succ n ih =>
      rw [dropLowest] at h
      split at h
      · cases h
        exact hp
      · split at h
        · cases h
          exact hp
        · split at h
          · cases h
          · next q hq => exact ih (equipRemoveId_dressed hp hq) h

theorem keepOne_dressed {n i : Nat} (hp : Dressed t p) (h : keepOne t n i p = .ok p') :
    Dressed t p' := by
  induction n generalizing i p with
  | zero =>
      cases h
      exact hp
  | succ n ih =>
      rw [keepOne] at h
      split at h
      · cases h
        exact hp
      · split at h
        · cases h
        · split at h
          · split at h
            · cases h
            · next q hq => exact ih (equipRemoveId_dressed hp hq) h
          · exact ih hp h

theorem equipDie_dressed {skulled protectItem : Bool} (hp : Dressed t p)
    (h : equipDie t skulled protectItem p = .ok p') : Dressed t p' := by
  unfold equipDie at h
  simp only at h
  split at h
  · cases h
  · next q hq =>
    have hdropped := dropLowest_dressed hp hq
    split at h
    · cases h
    · next r hr =>
      cases h
      have hflag : Dressed t { q with appearanceChanged := true } :=
        ⟨hdropped.disjoint, hdropped.current⟩
      exact keepOne_dressed hflag hr

/-! ## Wearing -/

/-- The same slot by slot. -/
theorem wornDisjoint_iff : WornDisjoint t inv ↔ ∀ (i j : Nat) (hi : i < inv.length)
    (hj : j < inv.length), i < j → inv[i].worn = true → inv[j].worn = true →
      ¬ Clash t inv[i].id inv[j].id := by
  unfold WornDisjoint wornIds
  rw [List.pairwise_map, List.pairwise_filter, List.pairwise_iff_getElem]

theorem WornDisjoint.ne (h : WornDisjoint t inv) {i j : Nat} (hi : i < inv.length)
    (hj : j < inv.length) (hij : i ≠ j) (hwi : inv[i].worn = true) (hwj : inv[j].worn = true) :
    ¬ Clash t inv[i].id inv[j].id := by
  rcases Nat.lt_or_gt_of_ne hij with hlt | hgt
  · exact wornDisjoint_iff.1 h i j hi hj hlt hwi hwj
  · intro hclash
    exact wornDisjoint_iff.1 h j i hj hi hgt hwj hwi hclash.symm

theorem clearSlot_keeps (itemType slot i : Nat) (x : InvItem) :
    (clearSlot t itemType slot i x).id = x.id ∧
      ((clearSlot t itemType slot i x).worn = true → x.worn = true) := by
  unfold clearSlot
  split
  · exact ⟨rfl, id⟩
  · split
    · exact ⟨rfl, id⟩
    · split
      · exact ⟨rfl, id⟩
      · split
        · exact ⟨rfl, fun h => nomatch h⟩
        · exact ⟨rfl, id⟩

/-- A known item that is still worn in another slot has no basic type in
common with the one put on. -/
theorem clearSlot_worn {id slot i : Nat} {x : InvItem} (hi : i ≠ slot)
    (hknown : (t.byId x.id).isSome = true)
    (h : (clearSlot t (t.gear id).equipType slot i x).worn = true) : ¬ Clash t id x.id := by
  have hworn := (clearSlot_keeps _ _ _ _).2 h
  intro hclash
  obtain ⟨item, hitem⟩ := Option.isSome_iff_exists.1 hknown
  have hfree : ¬ (i = slot ∨ x.worn = false) := by
    rw [hworn]
    simp [hi]
  have hzero : (t.gear x.id).equipType ≠ 0 := by
    intro hzero
    obtain ⟨basic, -, -, hbasic⟩ := hclash
    rw [hzero, hasType, Nat.zero_and] at hbasic
    cases hbasic
  simp only [clearSlot, if_neg hfree, hitem, if_neg hzero, itemEquipClear_iff.2 hclash,
    if_true] at h
  cases h

/-- The inventory with the item of the id `id` put on in `slot`. -/
def putOn (t : GearTable) (id slot : Nat) (inv : List InvItem) : List InvItem :=
  (inv.mapIdx fun i y => clearSlot t (t.gear id).equipType slot i y).modify slot
    fun y => { y with worn := true }

theorem length_putOn (id slot : Nat) : (putOn t id slot inv).length = inv.length := by
  simp [putOn]

theorem putOn_id {id slot k : Nat} (hk : k < inv.length) (hk' : k < (putOn t id slot inv).length) :
    (putOn t id slot inv)[k].id = inv[k].id := by
  simp only [putOn, List.getElem_modify, List.getElem_mapIdx]
  split
  · exact (clearSlot_keeps _ _ _ _).1
  · exact (clearSlot_keeps _ _ _ _).1

theorem putOn_of_ne {id slot k : Nat} (hne : k ≠ slot) (hk : k < inv.length)
    (hk' : k < (putOn t id slot inv).length) :
    (putOn t id slot inv)[k] = clearSlot t (t.gear id).equipType slot k inv[k] := by
  simp only [putOn, List.getElem_modify, List.getElem_mapIdx]
  exact if_neg hne.symm

theorem putOn_disjoint {slot : Nat} (hslot : slot < inv.length) (h : WornDisjoint t inv)
    (hknown : ∀ y ∈ putOn t inv[slot].id slot inv, y.worn = true → (t.byId y.id).isSome = true) :
    WornDisjoint t (putOn t inv[slot].id slot inv) := by
  have hother : ∀ k (hk : k < inv.length) (hk' : k < (putOn t inv[slot].id slot inv).length),
      k ≠ slot → (putOn t inv[slot].id slot inv)[k].worn = true →
        inv[k].worn = true ∧ ¬ Clash t inv[slot].id inv[k].id := by
    intro k hk hk' hne hworn
    have hid := hknown _ (List.getElem_mem hk') hworn
    rw [putOn_id hk] at hid
    rw [putOn_of_ne hne hk] at hworn
    exact ⟨(clearSlot_keeps _ _ _ _).2 hworn, clearSlot_worn hne hid hworn⟩
  rw [wornDisjoint_iff]
  intro i j hi' hj' hij hwi hwj
  have hi : i < inv.length := by rwa [length_putOn] at hi'
  have hj : j < inv.length := by rwa [length_putOn] at hj'
  rw [putOn_id hi, putOn_id hj]
  by_cases hsi : i = slot
  · subst hsi
    exact (hother j hj hj' (Nat.ne_of_gt hij) hwj).2
  · by_cases hsj : j = slot
    · subst hsj
      intro hclash
      exact (hother i hi hi' hsi hwi).2 hclash.symm
    · exact h.ne hi hj (Nat.ne_of_lt hij) (hother i hi hi' hsi hwi).1 (hother j hj hj' hsj hwj).1

theorem wearable_some {slot : Nat} {x : InvItem} (h : wearable t p slot = some x) :
    p.inventory[slot]? = some x := by
  unfold wearable at h
  split at h
  · cases h
  · next y hy =>
    split at h
    · cases h
    · cases h
      exact hy

theorem playerWear_dressed {allowed : Bool} {slot : Nat} (hp : Dressed t p)
    (h : playerWear t allowed p slot = .ok p') : Dressed t p' := by
  unfold playerWear at h
  split at h
  · cases h
    exact hp
  · next x hx =>
    split at h
    · obtain ⟨hslot, rfl⟩ := List.getElem?_eq_some_iff.1 (wearable_some hx)
      refine Dressed.recalculate ?_ h
      refine putOn_disjoint hslot hp.disjoint fun y hy hworn => ?_
      exact recalculateLoop_known (playerRecalculateEquip_ok h).1 hy hworn
    · cases h
      exact hp

theorem wornIds_modify_sublist (inv : List InvItem) (k : Nat) :
    (wornIds (inv.modify k fun y => { y with worn := false })).Sublist (wornIds inv) := by
  induction inv generalizing k with
  | nil => cases k <;> exact List.Sublist.refl _
  | cons x inv ih =>
      cases k with
      | zero =>
          have hoff : wornIds ({ x with worn := false } :: inv) = wornIds inv := by simp [wornIds]
          rw [List.modify_zero_cons, hoff]
          exact ((List.sublist_cons_self x inv).filter _).map _
      | succ k =>
          rw [List.modify_succ_cons]
          have hcons : ∀ inv, wornIds (x :: inv) = wornIds [x] ++ wornIds inv := fun inv =>
            wornIds_append [x] inv
          rw [hcons (inv.modify k _), hcons inv]
          exact (ih k).append_left _

theorem playerUnwear_dressed {slot : Nat} (hp : Dressed t p) (h : playerUnwear t p slot = .ok p') :
    Dressed t p' := by
  unfold playerUnwear at h
  split at h
  · cases h
    exact hp
  · exact Dressed.recalculate (hp.disjoint.sublist (wornIds_modify_sublist _ _)) h

/-! ## The run -/

theorem equipDesign_dressed {data : List Nat} (hp : Dressed t p)
    (h : equipDesign t data p = .ok p') : Dressed t p' := by
  unfold equipDesign at h
  simp only at h
  split at h
  · cases h
  · next q hq =>
    cases h
    have hdressed : Dressed t q := by
      refine Dressed.recalculate ?_ hq
      exact hp.disjoint
    exact ⟨hdressed.disjoint, hdressed.current⟩

/-- What a save has is worn as properly as what the player has. -/
structure Sound (t : GearTable) (w : Wardrobe) : Prop where
  player : Dressed t w.player
  saved : WornDisjoint t w.savedInventory

theorem Wardrobe.set_sound {w w' : Wardrobe} {r : Except Assert EquipPlayer} (hw : Sound t w)
    (hr : ∀ p', r = .ok p' → Dressed t p') (h : w.set r = .ok w') : Sound t w' := by
  unfold Wardrobe.set at h
  split at h
  · cases h
  · next p' =>
    cases h
    exact ⟨hr p' rfl, hw.saved⟩

theorem equipStep_sound {w w' : Wardrobe} {e : EquipEvent} (hw : Sound t w)
    (h : equipStep t w e = .ok w') : Sound t w' := by
  cases e with
  | wear slot allowed => exact Wardrobe.set_sound hw (fun _ => playerWear_dressed hw.player) h
  | unwear slot => exact Wardrobe.set_sound hw (fun _ => playerUnwear_dressed hw.player) h
  | give item count =>
      cases h
      exact ⟨equipGive_dressed hw.player item count, hw.saved⟩
  | remove name count => exact Wardrobe.set_sound hw (fun _ => equipRemove_dressed hw.player) h
  | removeId id count => exact Wardrobe.set_sound hw (fun _ => equipRemoveId_dressed hw.player) h
  | drop slot => exact Wardrobe.set_sound hw (fun _ => equipDrop_dressed hw.player) h
  | die skulled protectItem => exact Wardrobe.set_sound hw (fun _ => equipDie_dressed hw.player) h
  | design data => exact Wardrobe.set_sound hw (fun _ => equipDesign_dressed hw.player) h
  | save =>
      cases h
      exact ⟨hw.player, hw.player.disjoint⟩
  | login existing =>
      refine Wardrobe.set_sound hw (fun q hq => ?_) h
      split at hq
      · exact Dressed.recalculate hw.saved hq
      · cases hq
        exact ⟨hw.saved, fun hr => nomatch hr⟩

/-- Once the caches of a player were computed, they are what would be computed
again, and no two worn items share a basic type. -/
theorem equipment_sound (t : GearTable) {tr : List (Wardrobe × EquipEvent)} {w : Wardrobe}
    (hrun : Run (· = {}) (equipStep t) tr w) (hr : w.player.recalculated = true) :
    (wornIds w.player.inventory).Pairwise (fun a b => ∀ basic ∈ basicTypes,
        ¬ (hasType (t.gear a).equipType basic = true ∧ hasType (t.gear b).equipType basic = true)) ∧
      equippedOf t w.player.spritesBase w.player.inventory = .ok w.player.equipped := by
  have hsound : Sound t w := by
    refine hrun.always ?_ fun w e w' hw h => equipStep_sound hw h
    rintro _ rfl
    exact ⟨⟨List.Pairwise.nil, fun h => nomatch h⟩, List.Pairwise.nil⟩
  refine ⟨hsound.player.disjoint.imp ?_, hsound.player.current hr⟩
  intro a b hclash basic hmem hboth
  exact hclash ⟨basic, hmem, hboth⟩

/-- A sword, a two-handed sword and a shield. -/
def swordTable : GearTable where
  items := [⟨0, [['s']], 1, 0⟩, ⟨1, [['t']], 1, 0⟩, ⟨2, [['h']], 1, 0⟩]
  id_eq := by
    intro i c h
    match i with
    | 0 | 1 | 2 => cases h; rfl
    | i + 3 => cases h
  gear
    | 0 => { equipType := 0x0010, entitySprite := 8, bonusPower := 5 }
    | 1 => { equipType := 0x2018, entitySprite := 9, bonusPower := 20 }
    | 2 => { equipType := 0x0008, entitySprite := 10, bonusArmour := 7 }
    | _ => {}
  value _ := 1
  projectiles := []

/-- A sword and a shield are worn, then a two-handed sword. -/
theorem equipment_sound_swords : ∃ tr w,
    Run (· = {}) (equipStep swordTable) tr w ∧ w.player.recalculated = true ∧
    wornIds w.player.inventory = [1] ∧
    equippedOf swordTable w.player.spritesBase w.player.inventory = .ok w.player.equipped := by
  obtain ⟨tr, w, hrun, hr, hworn⟩ : ∃ tr w, Run (· = {}) (equipStep swordTable) tr w ∧
      w.player.recalculated = true ∧ wornIds w.player.inventory = [1] :=
    ⟨_, _, Run.of_exec [.design [0, 0, 0, 1], .give ⟨0, [['s']], 1, 0⟩ 1,
      .give ⟨1, [['t']], 1, 0⟩ 1, .give ⟨2, [['h']], 1, 0⟩ 1, .wear 0 true, .wear 2 true,
      .wear 1 true] rfl rfl, rfl, rfl⟩
  exact ⟨tr, w, hrun, hr, hworn, (equipment_sound swordTable hrun hr).2⟩

end Sundae.Proofs
