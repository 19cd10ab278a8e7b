import Sundae.Lib.Climb
import Sundae.Lib.Run
import Sundae.Proofs.Inventory
import Sundae.Ref.Shop

/-!
# No gain from a shop

A shop pays for an item what the level of its stock is worth before the sale,
and charges for it at the level before the purchase, one higher. One more in
stock takes at most one off the percentage, which the difference of the two
modifiers makes up for. So what the levels below the present stock are worth
bounds what was paid by what was charged. An entry that is bought out is made
anew with no base quantity, where every level is worth less.
-/

namespace Sundae.Proofs

open Sundae.Ref Sundae.Lib

variable {t : PricedTable} {shop shop' : ShopConfig} {s s' : Server} {i id k price : Nat}

/-! ## Prices -/

/-- The difference between base quantity and stock, as far as it counts. -/
def gap (quantity cur : Nat) : Int := max (-127) (min 127 ((quantity : Int) - cur))

theorem shopPriceModifier_eq (item : ShopItem) :
    shopPriceModifier item = gap item.quantity item.curQuantity := by
  unfold shopPriceModifier gap
  simp only
  omega

/-- The price at a modifier where nothing overflows. -/
def priceAt (modifier value quantity cur : Nat) : Nat :=
  (max 10 (modifier + gap quantity cur)).toNat * value / 100

theorem priceAt_le_next {m m' : Nat} (h : m < m') (value quantity cur : Nat) :
    priceAt m value quantity cur ≤ priceAt m' value quantity (cur + 1) := by
  refine Nat.div_le_div_right (Nat.mul_le_mul_right value ?_)
  unfold gap
  omega

theorem priceAt_le_base {m : Nat} {quantity quantity' : Nat} (h : quantity ≤ quantity')
    (value cur : Nat) : priceAt m value quantity cur ≤ priceAt m value quantity' cur := by
  refine Nat.div_le_div_right (Nat.mul_le_mul_right value ?_)
  unfold gap
  omega

theorem percentOf_eq {m value : Nat} (hm : m ≤ 382) (hv : value * 382 < u32Size) :
    percentOf m value = m * value / 100 := by
  have hlt : m * value < u32Size := by
    calc m * value ≤ 382 * value := Nat.mul_le_mul_right value hm
      _ = value * 382 := Nat.mul_comm _ _
      _ < u32Size := hv
  rw [percentOf, Nat.mod_eq_of_lt hlt]

/-- What a shop pays, or asks, for an item. -/
theorem shopPrice_eq {item : ShopItem} (hv : t.value item.id * 382 < u32Size) {sale : Bool}
    (h : shopPrice t shop item sale = .ok price) :
    price = priceAt (if sale then shop.sellModifier else shop.buyModifier) (t.value item.id)
      item.quantity item.curQuantity := by
  unfold shopPrice at h
  split at h
  · cases h
  · next config hc =>
    rw [ItemTable.byId_id hc, shopPriceModifier_eq] at h
    have hsell := shop.sellModifier.isLt
    have hbuy := shop.buyModifier.isLt
    have hgap : gap item.quantity item.curQuantity ≤ 127 := by
      unfold gap
      omega
    obtain rfl := Except.ok.inj h
    rw [percentOf_eq (by split <;> split <;> omega) hv, priceAt]
    congr 2
    cases sale
    · simp only [Bool.false_eq_true, if_false]
      split <;> omega
    · simp only [if_true]
      split <;> omega

/-- What a pawned item brings in, which is not subject to the least price. -/
theorem pawn_le (hv : t.value id * 382 < u32Size) :
    percentOf shop.buyModifier (t.value id) ≤ priceAt shop.buyModifier (t.value id) 0 0 := by
  have hbuy := shop.buyModifier.isLt
  rw [percentOf_eq (by omega) hv]
  refine Nat.div_le_div_right (Nat.mul_le_mul_right _ ?_)
  unfold gap
  omega

/-! ## Stock -/

/-- Base quantity and stock of an item; an item not listed has none of either. -/
def stockOf (shop : ShopConfig) (id : Nat) : Nat × Nat :=
  match shop.items.find? (·.id == id) with
  | some item => (item.quantity, item.curQuantity)
  | none => (0, 0)

/-- No item is listed twice. -/
def ListedOnce (shop : ShopConfig) : Prop := (shop.items.map ShopItem.id).Nodup

theorem stockOf_some {item : ShopItem} (h : shop.items.find? (·.id == id) = some item) :
    stockOf shop id = (item.quantity, item.curQuantity) := by
  rw [stockOf, h]

theorem stockOf_none (h : shop.items.find? (·.id == id) = none) : stockOf shop id = (0, 0) := by
  rw [stockOf, h]

/-- A trade in one item: the terms of the shop stay, and so does every other
item. -/
structure TradesIn (id : Nat) (shop shop' : ShopConfig) : Prop where
  buyModifier : shop'.buyModifier = shop.buyModifier
  sellModifier : shop'.sellModifier = shop.sellModifier
  listedOnce : ListedOnce shop → ListedOnce shop'
  others : ∀ k, k ≠ id → stockOf shop' k = stockOf shop k

theorem id_of_find {item : ShopItem} (h : shop.items.find? (·.id == id) = some item) :
    item.id = id := by
  have hbeq := List.find?_some (p := fun item : ShopItem => item.id == id) h
  exact eq_of_beq hbeq

/-- A write to the entry of an item. -/
theorem tradesIn_modify {f : ShopItem → ShopItem} {items : List ShopItem}
    (hitems : shop.items = items) (hshop : shop' = { shop with
      items := modifyFirst (·.id == id) f items, changed := true })
    (hf : ∀ item, (f item).id = item.id) : TradesIn id shop shop' := by
  subst hshop
  refine ⟨rfl, rfl, fun h => ?_, fun k hk => ?_⟩
  · rw [ListedOnce, map_modifyFirst hf, ← hitems]
    exact h
  · rw [stockOf, stockOf, find?_modifyFirst_of_ne (fun a ha => ?_) (fun a => by rw [hf]), hitems]
    rw [eq_of_beq ha]
    exact beq_false_of_ne (Ne.symm hk)

theorem stockOf_modify {f : ShopItem → ShopItem} {item : ShopItem}
    (hfind : shop.items.find? (·.id == id) = some item)
    (hshop : shop' = { shop with items := modifyFirst (·.id == id) f shop.items, changed := true })
    (hf : ∀ item, (f item).id = item.id) :
    stockOf shop' id = ((f item).quantity, (f item).curQuantity) := by
  subst hshop
  exact stockOf_some (find?_modifyFirst (fun b => by rw [hf]) hfind)

/-- A new entry for an item that is not listed. -/
theorem tradesIn_append {new : ShopItem} (hnew : new.id = id)
    (hfind : shop.items.find? (·.id == id) = none)
    (hshop : shop' = { shop with items := shop.items ++ [new], changed := true }) :
    TradesIn id shop shop' := by
  subst hshop
  refine ⟨rfl, rfl, fun h => ?_, fun k hk => ?_⟩
  · rw [ListedOnce, List.map_append, List.map_singleton, List.nodup_append]
    refine ⟨h, List.nodup_singleton _, fun a ha b hb hab => ?_⟩
    obtain ⟨item, hitem, rfl⟩ := List.mem_map.1 ha
    rw [List.mem_singleton.1 hb, hnew] at hab
    have hno := List.find?_eq_none.1 hfind item hitem
    simp [hab] at hno
  · have hne : (new.id == k) = false := by rw [hnew]; exact beq_false_of_ne (Ne.symm hk)
    rw [stockOf, stockOf, List.find?_append, List.find?_singleton, hne]
    simp

theorem stockOf_append {new : ShopItem} (hnew : new.id = id)
    (hfind : shop.items.find? (·.id == id) = none)
    (hshop : shop' = { shop with items := shop.items ++ [new], changed := true }) :
    stockOf shop' id = (new.quantity, new.curQuantity) := by
  subst hshop
  refine stockOf_some ?_
  rw [List.find?_append, hfind, List.find?_singleton, hnew]
  simp

/-- The entry of an item is taken out. -/
theorem tradesIn_erase (hshop : shop' = { shop with
      items := shop.items.eraseP (·.id == id), changed := true }) : TradesIn id shop shop' := by
  subst hshop
  refine ⟨rfl, rfl, fun h => h.sublist (List.eraseP_sublist.map _), fun k hk => ?_⟩
  rw [stockOf, stockOf, find?_eraseP_of_ne fun a ha => ?_]
  rw [eq_of_beq ha]
  exact beq_false_of_ne (Ne.symm hk)

theorem stockOf_erase (hlisted : ListedOnce shop) (hshop : shop' = { shop with
      items := shop.items.eraseP (·.id == id), changed := true }) : stockOf shop' id = (0, 0) := by
  subst hshop
  exact stockOf_none (find?_eraseP_self ShopItem.id id
    (fun c => ⟨eq_of_beq, beq_of_eq⟩) hlisted)

/-! ## A trade -/

/-- What a unit of the item is worth to the shop at a level of the stock. -/
def worth (t : PricedTable) (shop : ShopConfig) (id quantity cur : Nat) : Nat :=
  priceAt shop.buyModifier (t.value id) quantity cur

/-- A sale raises the stock by one, and pays no more than the level is worth. -/
theorem shopSell_spec {inShop : Bool}
    (h : shopSell t shop s i inShop id = .ok (some (shop', s', price))) :
    TradesIn id shop shop' ∧
      stockOf shop' id = ((stockOf shop id).1, (stockOf shop id).2 + 1) ∧
      (t.value id * 382 < u32Size →
        price ≤ worth t shop id (stockOf shop id).1 (stockOf shop id).2) := by
  unfold shopSell at h
  split at h
  · cases h
  · split at h
    · cases h
    · next config hc =>
      split at h
      · cases h
      · split at h
        · next item hfind =>
          have hid := id_of_find hfind
          split at h
          · cases h
          · split at h
            · cases h
            · cases h
            · next s₁ price₁ hs₁ hprice =>
              obtain ⟨rfl, hrest⟩ := Prod.mk.inj (Option.some.inj (Except.ok.inj h))
              obtain ⟨rfl, rfl⟩ := Prod.mk.inj hrest
              rw [stockOf_some hfind]
              refine ⟨tradesIn_modify rfl rfl fun _ => rfl,
                stockOf_modify hfind rfl fun _ => rfl, fun hv => ?_⟩
              rw [shopPrice_eq (by rw [hid]; exact hv) hprice, hid]
              exact Nat.le_refl _
        · next hfind =>
          split at h
          · cases h
          · split at h
            · cases h
            · simp only at h
              split at h
              · cases h
              · next s₁ hs₁ =>
                obtain ⟨rfl, hrest⟩ := Prod.mk.inj (Option.some.inj (Except.ok.inj h))
                obtain ⟨rfl, rfl⟩ := Prod.mk.inj hrest
                rw [stockOf_none hfind]
                refine ⟨tradesIn_append rfl hfind rfl, stockOf_append rfl hfind rfl, fun hv => ?_⟩
                rw [ItemTable.byId_id hc]
                exact pawn_le hv

/-- A purchase lowers the stock by one, and where the last one goes the entry
may go with it. It charges at least what the level is worth. -/
theorem shopRemove_spec (h : shopRemove t shop s i id = .ok (some (shop', s', price))) :
    TradesIn id shop shop' ∧ ∃ c, (stockOf shop id).2 = c + 1 ∧
      (stockOf shop' id = ((stockOf shop id).1, c) ∨
        c = 0 ∧ (ListedOnce shop → stockOf shop' id = (0, 0))) ∧
      (t.value id * 382 < u32Size → shop.buyModifier < shop.sellModifier →
        worth t shop id (stockOf shop id).1 c ≤ price) := by
  unfold shopRemove at h
  split at h
  · cases h
  · next item hfind =>
    have hid := id_of_find hfind
    split at h
    · cases h
    · next hcur =>
      obtain ⟨c, hc⟩ := Nat.exists_eq_succ_of_ne_zero hcur
      split at h
      · cases h
      · next price₁ hprice =>
        split at h
        · cases h
        · cases h
        · split at h
          · cases h
          · next s₁ hs₁ =>
            obtain ⟨hshop, hrest⟩ := Prod.mk.inj (Option.some.inj (Except.ok.inj h))
            obtain ⟨rfl, rfl⟩ := Prod.mk.inj hrest
            rw [stockOf_some hfind]
            have hcharge : t.value id * 382 < u32Size → shop.buyModifier < shop.sellModifier →
                worth t shop id item.quantity c ≤ price₁ := by
              intro hv hmod
              rw [shopPrice_eq (by rw [hid]; exact hv) hprice, hid, hc]
              exact priceAt_le_next hmod _ _ _
            unfold shopTake at hshop
            split at hshop
            · next hlast =>
              rw [hid] at hshop
              have hzero : c = 0 := by omega
              exact ⟨tradesIn_erase hshop.symm, c, hc,
                .inr ⟨hzero, fun hlisted => stockOf_erase hlisted hshop.symm⟩, hcharge⟩
            · rw [hid] at hshop
              refine ⟨tradesIn_modify rfl hshop.symm fun _ => rfl, c, hc, .inl ?_, hcharge⟩
              rw [stockOf_modify hfind hshop.symm fun _ => rfl]
              show (item.quantity, item.curQuantity - 1) = (item.quantity, c)
              rw [hc, Nat.succ_sub_one]

theorem shopBuy_eq {inShop : Bool}
    (h : shopBuy t shop s i inShop id = .ok (some (shop', s', price))) :
    ∃ s₁, shopRemove t shop s i id = .ok (some (shop', s₁, price)) := by
  unfold shopBuy at h
  split at h
  · cases h
  · simp only at h
    split at h
    · cases h
    · split at h
      · cases h
      · cases h
      · next shop₁ s₁ price₁ hremove =>
        obtain ⟨rfl, hrest⟩ := Prod.mk.inj (Option.some.inj (Except.ok.inj h))
        obtain ⟨rfl, rfl⟩ := Prod.mk.inj hrest
        exact ⟨s₁, hremove⟩

/-! ## The books of a run -/

/-- The trades in one item of one kind. -/
def dealsIn (w : ShopWorld) (bought : Bool) (id : Nat) : List Deal :=
  w.deals.filter fun d => d.bought == bought && d.id == id

/-- The coins that moved with them. -/
def coinsOf (w : ShopWorld) (bought : Bool) (id : Nat) : Nat :=
  ((dealsIn w bought id).map Deal.price).sum

/-- What a run keeps: the terms it began with, and for the item the books of
its stock. -/
structure Honest (t : PricedTable) (id : Nat) (w₀ w : ShopWorld) : Prop where
  buyModifier : w.shop.buyModifier = w₀.shop.buyModifier
  sellModifier : w.shop.sellModifier = w₀.shop.sellModifier
  listedOnce : ListedOnce w.shop
  base : (stockOf w.shop id).1 ≤ (stockOf w₀.shop id).1
  books : Lib.Books (worth t w₀.shop id (stockOf w₀.shop id).1)
    (worth t w₀.shop id (stockOf w.shop id).1) (stockOf w₀.shop id).2 (stockOf w.shop id).2
    (dealsIn w false id).length (dealsIn w true id).length (coinsOf w false id) (coinsOf w true id)

variable {w₀ w w' : ShopWorld}

theorem dealsIn_append {d : Deal} {bought : Bool} (h : w'.deals = w.deals ++ [d]) (id : Nat) :
    dealsIn w' bought id =
      dealsIn w bought id ++ if d.bought = bought ∧ d.id = id then [d] else [] := by
  rw [dealsIn, h, List.filter_append, List.filter_singleton]
  by_cases hd : d.bought = bought ∧ d.id = id
  · simp [dealsIn, hd]
  · have hfalse : (d.bought == bought && d.id == id) = false := by
      rw [Bool.eq_false_iff, ne_eq, Bool.and_eq_true, beq_iff_eq, beq_iff_eq]
      exact hd
    simp [dealsIn, hd, hfalse]

/-- Nothing in the item was traded. -/
theorem Honest.same (h : Honest t id w₀ w) (hbuy : w'.shop.buyModifier = w.shop.buyModifier)
    (hsell : w'.shop.sellModifier = w.shop.sellModifier) (hlisted : ListedOnce w'.shop)
    (hstock : stockOf w'.shop id = stockOf w.shop id)
    (hdeals : ∀ bought, dealsIn w' bought id = dealsIn w bought id) : Honest t id w₀ w' := by
  refine ⟨hbuy.trans h.buyModifier, hsell.trans h.sellModifier, hlisted, ?_, ?_⟩
  · rw [hstock]
    exact h.base
  · have hbooks := h.books
    rwa [coinsOf, coinsOf, hstock, hdeals, hdeals]

/-- A trade in another item. -/
theorem Honest.other (h : Honest t id w₀ w) {k : Nat} (hk : id ≠ k) {d : Deal} (hid : d.id = k)
    (hdeals : w'.deals = w.deals ++ [d]) (htrades : TradesIn k w.shop w'.shop) :
    Honest t id w₀ w' := by
  refine h.same htrades.buyModifier htrades.sellModifier (htrades.listedOnce h.listedOnce)
    (htrades.others id hk) fun bought => ?_
  rw [dealsIn_append hdeals, if_neg fun hd => hk (hd.2.symm.trans hid), List.append_nil]

theorem worth_congr (h : w.shop.buyModifier = w₀.shop.buyModifier) :
    worth t w.shop id = worth t w₀.shop id := by
  funext quantity cur
  rw [worth, worth, h]

/-- The shop buys the item from a player. -/
theorem Honest.sold (h : Honest t id w₀ w) (hv : t.value id * 382 < u32Size) {inShop : Bool}
    (hsell : shopSell t w.shop s i inShop id = .ok (some (w'.shop, s', price)))
    (hdeals : w'.deals = w.deals ++ [⟨false, id, price⟩]) : Honest t id w₀ w' := by
  obtain ⟨htrades, hstock, hprice⟩ := shopSell_spec hsell
  have hsold : dealsIn w' false id = dealsIn w false id ++ [⟨false, id, price⟩] := by
    rw [dealsIn_append hdeals, if_pos ⟨rfl, rfl⟩]
  have hbought : dealsIn w' true id = dealsIn w true id := by
    rw [dealsIn_append hdeals, if_neg (fun hd => by cases hd.1), List.append_nil]
  refine ⟨htrades.buyModifier.trans h.buyModifier, htrades.sellModifier.trans h.sellModifier,
    htrades.listedOnce h.listedOnce, ?_, ?_⟩
  · rw [hstock]
    exact h.base
  · have hle := hprice hv
    rw [worth_congr h.buyModifier] at hle
    have hrise := h.books.rise hle
    rw [coinsOf, coinsOf, hstock, hsold, hbought, List.length_append, List.map_append,
      List.sum_append]
    exact hrise

/-- A player buys the item from the shop. -/
theorem Honest.bought (h : Honest t id w₀ w) (hv : t.value id * 382 < u32Size)
    (hmod : w₀.shop.buyModifier < w₀.shop.sellModifier) {inShop : Bool}
    (hbuy : shopBuy t w.shop s i inShop id = .ok (some (w'.shop, s', price)))
    (hdeals : w'.deals = w.deals ++ [⟨true, id, price⟩]) : Honest t id w₀ w' := by
  obtain ⟨s₁, hremove⟩ := shopBuy_eq hbuy
  obtain ⟨htrades, c, hcur, hstock, hprice⟩ := shopRemove_spec hremove
  have hsold : dealsIn w' false id = dealsIn w false id := by
    rw [dealsIn_append hdeals, if_neg (fun hd => by cases hd.1), List.append_nil]
  have hbought : dealsIn w' true id = dealsIn w true id ++ [⟨true, id, price⟩] := by
    rw [dealsIn_append hdeals, if_pos ⟨rfl, rfl⟩]
  have hle := hprice hv (by rw [h.buyModifier, h.sellModifier]; exact hmod)
  rw [worth_congr h.buyModifier] at hle
  have hbooks := h.books
  rw [hcur] at hbooks
  have hfall := hbooks.fall hle
  have hlisted := htrades.listedOnce h.listedOnce
  have hmoney : coinsOf w' true id = coinsOf w true id + price := by
    rw [coinsOf, hbought, List.map_append, List.sum_append]
    rfl
  have hcount : (dealsIn w' true id).length = (dealsIn w true id).length + 1 := by
    rw [hbought, List.length_append, List.length_singleton]
  have hpaid : coinsOf w' false id = coinsOf w false id := by rw [coinsOf, hsold, coinsOf]
  refine ⟨htrades.buyModifier.trans h.buyModifier, htrades.sellModifier.trans h.sellModifier,
    hlisted, ?_, ?_⟩
  · rcases hstock with hstock | ⟨-, hgone⟩
    · rw [hstock]
      exact h.base
    · rw [hgone h.listedOnce]
      exact Nat.zero_le _
  · rw [hmoney, hcount, hpaid, hsold]
    rcases hstock with hstock | ⟨rfl, hgone⟩
    · rw [hstock]
      exact hfall
    · -- the entry is gone, and the next sale makes one with another base
      rw [hgone h.listedOnce]
      exact hfall.rebase

theorem Honest.step (h : Honest t id w₀ w) (hv : t.value id * 382 < u32Size)
    (hmod : w₀.shop.buyModifier < w₀.shop.sellModifier) {e : ShopEvent}
    (hs : shopStep t w e = .ok w') : Honest t id w₀ w' := by
  have hdeal : ∀ {bought : Bool} {k : Nat} {r : Except Assert (Option (ShopConfig × Server × Nat))},
      shopDeal w bought k r = .ok w' → w' = w ∨ ∃ s' price, r = .ok (some (w'.shop, s', price)) ∧
        w'.deals = w.deals ++ [⟨bought, k, price⟩] := by
    intro bought k r hr
    unfold shopDeal at hr
    split at hr
    · cases hr
    · exact .inl (Except.ok.inj hr).symm
    · next shop₁ s₁ price₁ =>
      obtain rfl := Except.ok.inj hr
      exact .inr ⟨s₁, price₁, rfl, rfl⟩
  cases e with
  | elsewhere server =>
      obtain rfl := Except.ok.inj hs
      exact h.same rfl rfl h.listedOnce rfl fun _ => rfl
  | sell i inShop k =>
      rcases hdeal hs with rfl | ⟨s', price, hsell, hdeals⟩
      · exact h
      · by_cases hk : id = k
        · subst hk
          exact h.sold hv hsell hdeals
        · exact h.other hk rfl hdeals (shopSell_spec hsell).1
  | buy i inShop k =>
      rcases hdeal hs with rfl | ⟨s', price, hbuy, hdeals⟩
      · exact h
      · by_cases hk : id = k
        · subst hk
          exact h.bought hv hmod hbuy hdeals
        · obtain ⟨s₁, hremove⟩ := shopBuy_eq hbuy
          exact h.other hk rfl hdeals (shopRemove_spec hremove).1

theorem honest_start (hlisted : ListedOnce w.shop) (hdeals : w.deals = []) :
    Honest t id w w := by
  refine ⟨rfl, rfl, hlisted, Nat.le_refl _, ?_⟩
  rw [coinsOf, coinsOf, dealsIn, dealsIn, hdeals]
  exact .start_self _ _

/-- Whoever trades, in whatever order: if an item was bought as often as it was
sold, the shop has not paid more coins for it than it charged. -/
theorem no_arbitrage (t : PricedTable) (id : Nat) {tr : List (ShopWorld × ShopEvent)}
    (hlisted : ListedOnce w₀.shop)
    (hmod : w₀.shop.buyModifier < w₀.shop.sellModifier) (hdeals : w₀.deals = [])
    (hv : t.value id * 382 < u32Size) (hrun : Run (· = w₀) (shopStep t) tr w)
    (hcount : (dealsIn w true id).length = (dealsIn w false id).length) :
    coinsOf w false id ≤ coinsOf w true id := by
  have hhonest : Honest t id w₀ w := by
    refine hrun.always (fun w hw => ?_) fun w e w' h hs => h.step hv hmod hs
    subst hw
    exact honest_start hlisted hdeals
  exact hhonest.books.paid_le hcount fun cur => priceAt_le_base hhonest.base _ _

/-- Coins at their place, and ten things that do not stack. -/
def shopTable : PricedTable where
  items := (List.range 11).map fun i =>
    if i = itemCoins then ⟨i, [coinsName], 0, 0⟩ else ⟨i, [], 1, 0⟩
  id_eq i c h := by
    rw [List.getElem?_map] at h
    obtain ⟨j, hj, rfl⟩ := Option.map_eq_some_iff.1 h
    obtain ⟨hlt, hij⟩ := List.getElem?_eq_some_iff.1 hj
    rw [List.getElem_range] at hij
    subst hij
    split <;> rfl
  value := fun _ => 10

/-- A shop with one thing left, and a player with a hundred coins. -/
def corner : ShopWorld where
  server :=
    { players := fun i => if i = 0 then some { inventory := [⟨itemCoins, 100, false⟩] } else none
      maxPlayerId := 1 }
  shop :=
    { sellModifier := 100, buyModifier := 60, pawnLimit := 50
      items := [{ id := 1, quantity := 2, curQuantity := 1, restock := 0 }] }

/-- The last one is bought, and sold back to a shop that lists it no more. -/
theorem no_arbitrage_last : ∃ tr w,
    exec (shopStep shopTable) corner [.buy 0 true 1, .sell 0 true 1] = .ok (tr, w) ∧
      (dealsIn w true 1).length = 1 ∧ coinsOf w false 1 ≤ coinsOf w true 1 := by
  have hrun : Run (· = corner) (shopStep shopTable) _ _ :=
    Run.of_exec [.buy 0 true 1, .sell 0 true 1] rfl rfl
  have hlisted : ListedOnce corner.shop := List.nodup_singleton 1
  exact ⟨_, _, rfl, rfl,
    no_arbitrage shopTable 1 hlisted (by decide) rfl (by decide) hrun rfl⟩

end Sundae.Proofs
