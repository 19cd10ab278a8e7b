import Mathlib.Algebra.GroupWithZero.Nat
import Sundae.Lib.Shelf
import Sundae.Ref.Inventory

/-!
# Shops

`shop_price`, `shop_sell`, `shop_remove` and `shop_buy` of `shop.c`, and a
shop among whatever else happens on the server. A call that returns without a
trade is `none`; one that trades gives the shop, the server and the price.
-/

namespace Sundae.Ref

open Sundae.Lib

def itemCoins : Nat := 10
def maxShopStack : Nat := 65535
def maxShopItems : Nat := 40

def coinsName : List Char := ['c', 'o', 'i', 'n', 's']

/-- The item table with the `value` of every record. -/
structure PricedTable extends ItemTable where
  value : Nat → Nat

structure ShopItem where
  id : Nat
  quantity : Nat
  curQuantity : Nat
  restock : Nat
  restockTimer : Nat := 0
  removalTimer : Nat := 0
  deriving DecidableEq, Repr

instance modifierSize_ne_zero : NeZero 256 := ⟨by decide⟩

/-- `struct shop_config`; the modifiers are `uint8_t`. -/
structure ShopConfig where
  sellModifier : Fin 256
  buyModifier : Fin 256
  pawnLimit : Nat
  items : List ShopItem
  changed : Bool := false
  deriving DecidableEq, Repr

/-- `shop_price_modifier` -/
def shopPriceModifier (item : ShopItem) : Int :=
  let difference : Int := (item.quantity : Int) - item.curQuantity
  let difference := if difference < -127 then -127 else difference
  if 127 < difference then 127 else difference

/-- `(price_mod * value) / 100` in `uint32_t`. -/
def percentOf (priceMod value : Nat) : Nat := priceMod * value % u32Size / 100

def shopPrice (t : PricedTable) (shop : ShopConfig) (item : ShopItem) (sale : Bool) :
    Except Assert Nat :=
  match t.byId item.id with
  | none => .error .itemConfig
  | some config =>
    let difference := shopPriceModifier item
    let priceMod : Int :=
      if sale then shop.sellModifier + difference else shop.buyModifier + difference
    let priceMod := if priceMod < 10 then 10 else priceMod
    .ok (percentOf priceMod.toNat (t.value config.id))

/-- `if (price > 0) player_inv_give(p, coins, price)` -/
def payOut (s : Server) (i : Nat) (coins : ItemConfig) (price : Nat) : Server :=
  if 0 < price then playerInvGive s i coins price else s

/-- The entry a sale creates. It leaves `restock_timer` as it finds it, which
nothing reads while `restock` is zero. -/
def pawned (shop : ShopConfig) (id : Nat) : ShopItem :=
  { id := id, quantity := 0, curQuantity := 1, restock := 0, removalTimer := shop.pawnLimit / 5 }

/-- `inShop` says whether `p->shop` is set. -/
def shopSell (t : PricedTable) (shop : ShopConfig) (s : Server) (i : Nat) (inShop : Bool)
    (id : Nat) : Except Assert (Option (ShopConfig × Server × Nat)) :=
  match t.byId itemCoins with
  | none => .error .itemConfig
  | some coins =>
    match t.byId id with
    | none => .ok none
    | some config =>
      if !inShop || !invHeldId config id 1 (s.get i).inventory then .ok none
      else
        match shop.items.find? (·.id == id) with
        | some item =>
          if item.curQuantity = maxShopStack then .ok none
          else
            match playerInvRemoveId t.toItemTable s i id 1, shopPrice t shop item false with
            | .error a, _ | _, .error a => .error a
            | .ok s, .ok price =>
              .ok (some ({ shop with
                  items := modifyFirst (·.id == id)
                    (fun item => { item with curQuantity := item.curQuantity + 1 }) shop.items
                  changed := true }, payOut s i coins price, price))
        | none =>
          if maxShopItems ≤ shop.items.length then .ok none
          else if shop.pawnLimit = 0 then .ok none
          else
            let price := percentOf shop.buyModifier (t.value config.id)
            match playerInvRemoveId t.toItemTable s i id 1 with
            | .error a => .error a
            | .ok s =>
              .ok (some ({ shop with items := shop.items ++ [pawned shop id], changed := true },
                payOut s i coins price, price))

/-- What `shop_remove` does to the entry once it is paid for. -/
def shopTake (shop : ShopConfig) (item : ShopItem) : ShopConfig :=
  if item.curQuantity = 1 ∧ item.restock = 0 then
    { shop with items := shop.items.eraseP (·.id == item.id), changed := true }
  else
    { shop with
      items := modifyFirst (·.id == item.id)
        (fun item =>
          { item with
            restockTimer := if item.restock = 0 then item.restockTimer else item.restock / 5
            curQuantity := item.curQuantity - 1 }) shop.items
      changed := true }

/-- `shop_remove` for a player. -/
def shopRemove (t : PricedTable) (shop : ShopConfig) (s : Server) (i id : Nat) :
    Except Assert (Option (ShopConfig × Server × Nat)) :=
  match shop.items.find? (·.id == id) with
  | none => .ok none
  | some item =>
    if item.curQuantity = 0 then .ok none
    else
      match shopPrice t shop item true with
      | .error a => .error a
      | .ok price =>
        match playerInvHeld t.toItemTable s i coinsName price with
        | .error a => .error a
        | .ok false => .ok none
        | .ok true =>
          match playerInvRemove t.toItemTable s i coinsName price with
          | .error a => .error a
          | .ok s => .ok (some (shopTake shop item, s, price))

def shopBuy (t : PricedTable) (shop : ShopConfig) (s : Server) (i : Nat) (inShop : Bool)
    (id : Nat) : Except Assert (Option (ShopConfig × Server × Nat)) :=
  match t.byId id with
  | none => .ok none
  | some config =>
    let stacked := config.weight == 0 && (s.get i).inventory.any (·.id == id)
    if !inShop || (!stacked && (s.get i).inventory.length == maxInvSize) then .ok none
    else
      match shopRemove t shop s i id with
      | .error a => .error a
      | .ok none => .ok none
      | .ok (some (shop, s, price)) => .ok (some (shop, playerInvGive s i config 1, price))

/-! ## Restocking -/

/-- An entry, and the place it had when `shop_process` began: that is not in
the source. -/
abbrev ShopSlot := ShopItem × Nat

/-- `shop_process` on its way. The places it has looked at are not in the source. -/
structure ShopWalk where
  slots : List ShopSlot
  visited : List Nat := []
  changed : Bool
  deriving DecidableEq, Repr

def slotHas (id : Nat) (s : ShopSlot) : Bool := s.1.id == id

/-- One of an entry that stays. -/
def takeOne (item : ShopItem) : ShopItem :=
  { item with
    restockTimer := if item.restock = 0 then item.restockTimer else item.restock / 5
    curQuantity := item.curQuantity - 1 }

/-- `shop_remove` for nobody. -/
def dropOne (id : Nat) (slots : List ShopSlot) : Option (List ShopSlot) :=
  match slots.find? (slotHas id) with
  | none => none
  | some (item, _) =>
    if item.curQuantity = 0 then none
    else if item.curQuantity = 1 ∧ item.restock = 0 then some (slots.eraseP (slotHas id))
    else some (modifyFirst (slotHas id) (fun s => (takeOne s.1, s.2)) slots)

/-- A write through `item`, which points to place `i` of the array. -/
def ShopWalk.write (w : ShopWalk) (i : Nat) (f : ShopItem → ShopItem) : ShopWalk :=
  { w with slots := w.slots.modify i fun s => (f s.1, s.2) }

/-- An entry that gets one more, as its `restock_timer` is over. -/
def restocked (item : ShopItem) : ShopItem :=
  let item := { item with curQuantity := item.curQuantity + 1 }
  if item.curQuantity < item.quantity then { item with restockTimer := item.restock / 5 } else item

/-- The body of the loop from `if (item->quantity > 0 ..` on. -/
def removalTurn (pawnLimit i : Nat) (item : ShopItem) (w : ShopWalk) : ShopWalk :=
  if 0 < item.quantity ∨ item.curQuantity = 0 then w
  else if 0 < item.removalTimer then
    w.write i fun item => { item with removalTimer := item.removalTimer - 1 }
  else
    let w :=
      match dropOne item.id w.slots with
      | none => w
      | some slots => { w with slots := slots, changed := true }
    w.write i fun item => { item with removalTimer := pawnLimit / 5 }

def processTurn (pawnLimit i : Nat) (item : ShopItem) (w : ShopWalk) : ShopWalk :=
  if item.curQuantity < item.quantity then
    if 0 < item.restockTimer then
      w.write i fun item => { item with restockTimer := item.restockTimer - 1 }
    else
      removalTurn pawnLimit i (restocked item)
        { w.write i fun _ => restocked item with changed := true }
  else removalTurn pawnLimit i item w

/-- `for (size_t i = 0; i < shop->item_count; ++i)`, from `i` on. -/
def processLoop (pawnLimit : Nat) : Nat → Nat → ShopWalk → ShopWalk
  | 0, _, w => w
  | n + 1, i, w =>
    match w.slots[i]? with
    | none => w
    | some (item, place) =>
      processLoop pawnLimit n (i + 1)
        (processTurn pawnLimit i item { w with visited := w.visited ++ [place] })

def shopWalk (shop : ShopConfig) : ShopWalk :=
  processLoop shop.pawnLimit shop.items.length 0
    { slots := shop.items.zipIdx, changed := shop.changed }

def shopProcess (shop : ShopConfig) : ShopConfig :=
  { shop with items := (shopWalk shop).slots.map Prod.fst, changed := (shopWalk shop).changed }

/-! ## A shop in use -/

/-- A trade that came about: what was traded, and the coins that moved. -/
structure Deal where
  bought : Bool
  id : Nat
  price : Nat
  deriving DecidableEq, Repr

/-- `deals` is not in the source: it records every trade of the shop. -/
structure ShopWorld where
  server : Server
  shop : ShopConfig
  deals : List Deal := []

/-- A player buys, a player sells, or something else happens to the players:
anything at all. -/
inductive ShopEvent where
  | buy (i : Nat) (inShop : Bool) (id : Nat)
  | sell (i : Nat) (inShop : Bool) (id : Nat)
  | elsewhere (server : Server)

def shopDeal (w : ShopWorld) (bought : Bool) (id : Nat) :
    Except Assert (Option (ShopConfig × Server × Nat)) → Except Assert ShopWorld
  | .error a => .error a
  | .ok none => .ok w
  | .ok (some (shop, s, price)) =>
    .ok { server := s, shop := shop, deals := w.deals ++ [⟨bought, id, price⟩] }

def shopStep (t : PricedTable) (w : ShopWorld) : ShopEvent → Except Assert ShopWorld
  | .buy i inShop id => shopDeal w true id (shopBuy t w.shop w.server i inShop id)
  | .sell i inShop id => shopDeal w false id (shopSell t w.shop w.server i inShop id)
  | .elsewhere server => .ok { w with server := server }

end Sundae.Ref
