import Sundae.Proofs.Removal
import Sundae.Proofs.Shop

/-!
# A deal is whole, or there is none

What `shop_buy` and `shop_sell` check they check before anything is changed,
and what they check is enough for each change that follows. The one thing they
do not look at is how many coins a stack takes: a sale that would make it too
large pays what still fits.
-/

namespace Sundae.Proofs

open Sundae.Ref Sundae.Lib

variable {t : PricedTable} {s : Server} {i id n m gets pays price : Nat} {w w' : ShopWorld}
  {item coins : ItemConfig} {inv : List InvItem} {shop shop' : ShopConfig}

/-! ## What a player gets and pays -/

/-- A player gets `n` of one item, in a slot or on the ground, and pays `m` of
another. -/
structure Trades (t : ItemTable) (i : Nat) (s s' : Server) (gets n pays m : Nat) : Prop where
  others : ∀ j, j ≠ i → s'.get j = s.get j
  goods : ∃ new, s'.tempItems = s.tempItems ++ new ∧ (∀ k, k ≠ gets → groundOf k new = 0) ∧
    ∀ k, held t k (s'.get i).inventory + groundOf k new + (if k = pays then m else 0) =
      held t k (s.get i).inventory + if k = gets then n else 0

/-- Slots that have paid are given something. -/
theorem trades_give {t : ItemTable} (hlive : s.live i) (hc : t.byId item.id = some item)
    (hn : n < u32Size) (hroom : HasRoom item n inv)
    (hpaid : ∀ k, held t k inv + (if k = pays then m else 0) = held t k (s.get i).inventory) :
    Trades t i s (playerInvGive (s.modify i fun p => { p with inventory := inv }) i item n)
      item.id n pays m := by
  obtain ⟨new, c, hgive, hground⟩ :=
    playerInvGive_eq (s.modify i fun p => { p with inventory := inv }) i item n
  rw [Server.get_modify_self hlive] at hgive hground
  have hget : ∀ j, (playerInvGive (s.modify i fun p => { p with inventory := inv }) i item n).get j =
      if j = i then { s.get i with inventory := (invGive item n inv).1 } else s.get j := by
    intro j
    rw [hgive]
    show ((s.modify i _).modify i _).get j = _
    rw [Server.modify_modify, Server.get_modify]
    simp only [hlive, and_true]
  refine ⟨fun j hj => ?_, new, by rw [hgive]; rfl, fun k hk => ?_, fun k => ?_⟩
  · rw [hget, if_neg hj]
  · rw [hground, if_neg hk]
  · have hall := held_invGive (k := k) hc hn hroom
    rw [hget, if_pos rfl, hground, ← hpaid]
    simp only
    omega

/-- Nothing is given. -/
theorem trades_nothing {t : ItemTable} (hlive : s.live i)
    (hpaid : ∀ k, held t k inv + (if k = pays then m else 0) = held t k (s.get i).inventory) :
    Trades t i s (s.modify i fun p => { p with inventory := inv }) gets 0 pays m := by
  refine ⟨fun j hj => Server.get_modify_ne hj, [], by simp, fun k _ => rfl, fun k => ?_⟩
  rw [Server.get_modify_self hlive, ite_self, ← hpaid]
  rfl

theorem trades_payOut {t : ItemTable} (hlive : s.live i) (hc : t.byId item.id = some item)
    (hn : n < u32Size) (hroom : HasRoom item n inv)
    (hpaid : ∀ k, held t k inv + (if k = pays then m else 0) = held t k (s.get i).inventory) :
    Trades t i s (payOut (s.modify i fun p => { p with inventory := inv }) i item n)
      item.id n pays m := by
  unfold payOut
  split
  · exact trades_give hlive hc hn hroom hpaid
  · next hn =>
    obtain rfl : n = 0 := by omega
    exact trades_nothing hlive hpaid

/-- A unit that is held can be paid. -/
theorem held_pay_one {t : ItemTable} (hwf : InvWf t inv) (hc : t.byId id = some item)
    (hheld : 1 ≤ held t id inv) (k : Nat) :
    held t k (removed (·.id == id) item.weight 1 inv) + (if k = id then 1 else 0) =
      held t k inv := by
  rw [held_removed hwf hc, reach_one hheld]
  by_cases hk : k = id
  · rw [if_pos hk, if_pos hk, hk]
    omega
  · rw [if_neg hk, if_neg hk, Nat.add_zero]

/-- So can as much of a stack as there is. -/
theorem held_pay_stack {t : ItemTable} (hwf : InvWf t inv) (hc : t.byId id = some item)
    (hw : item.weight = 0) (hheld : n ≤ held t id inv) (k : Nat) :
    held t k (removed (·.id == id) item.weight n inv) + (if k = id then n else 0) =
      held t k inv := by
  have hid : t.stackable id = true := by
    rw [ItemTable.stackable_of_byId hc, decide_eq_true hw]
  rw [held_removed hwf hc, reach, if_pos hid]
  by_cases hk : k = id
  · rw [if_pos hk, if_pos hk, hk]
    omega
  · rw [if_neg hk, if_neg hk, Nat.add_zero]

/-- A stack has room as far as it goes. -/
theorem hasRoom_of_held {t : ItemTable} (hwf : InvWf t inv) (hc : t.byId id = some item)
    (hle : held t id inv + n ≤ maxStackSize) : HasRoom item n inv := by
  intro hw x hx hxid
  have hitem := ItemTable.byId_id hc
  have hid : t.stackable id = true := by
    rw [ItemTable.stackable_of_byId hc, decide_eq_true hw]
  obtain ⟨j, hj⟩ := List.mem_iff_getElem?.1 hx
  have hall := held_stackable hwf hid hj (hxid.trans hitem)
  omega

/-- `player_inv_held` of the name of an item that stacks. -/
theorem heldLoop_eq {t : ItemTable} {name : List Char} (hname : DenotesOne t name item)
    (hw : item.weight = 0) (hwf : InvWf t inv)
    (hconfig : ∀ x ∈ inv, (t.byId x.id).isSome = true) (count : Nat) :
    heldLoop t name count 0 inv = .ok (decide (count ≤ held t item.id inv)) := by
  have hc := ItemTable.byId_of_byName hname.1
  have hid : t.stackable item.id = true := by
    rw [ItemTable.stackable_of_byId hc, decide_eq_true hw]
  induction inv with
  | nil => rfl
  | cons x inv ih =>
      have hx := hconfig x List.mem_cons_self
      rw [heldLoop, nameMatch_eq hx, answers_denoted hname hx]
      by_cases hxid : x.id = item.id
      · have hall := held_stackable hwf hid (i := 0) rfl hxid
        simp only [hxid, beq_self_eq_true, hc, hw, if_true, hall]
      · have hrest := ih (hwf.sublist (List.sublist_cons_self x inv)) fun y hy =>
          hconfig y (List.mem_cons_of_mem x hy)
        have hsame : held t item.id (x :: inv) = held t item.id inv := by
          rw [held, tally_cons, share_of_ne hxid, Nat.zero_add]
          rfl
        rw [hsame, ← hrest, beq_false_of_ne hxid]

/-! ## What becomes of the stock -/

/-- `e` is the first entry of the item. -/
structure EntryAt (shop : ShopConfig) (id : Nat) (a : List ShopItem) (e : ShopItem)
    (b : List ShopItem) : Prop where
  items : shop.items = a ++ e :: b
  entry : e.id = id
  first : ∀ x ∈ a, x.id ≠ id

/-- The shop has one less of the item, at the price it asked before. The last
one goes with its entry where it is not restocked. -/
def Lowered (t : PricedTable) (id price : Nat) (shop shop' : ShopConfig) : Prop :=
  ∃ a e b, EntryAt shop id a e b ∧ shopPrice t shop e true = .ok price ∧ 1 ≤ e.curQuantity ∧
    shop' = { shop with
      items := a ++ (if e.curQuantity = 1 ∧ e.restock = 0 then b else takeOne e :: b)
      changed := true }

/-- The shop has one more of the item, at the price it offered before. -/
def Raised (t : PricedTable) (id price : Nat) (shop shop' : ShopConfig) : Prop :=
  (∃ a e b, EntryAt shop id a e b ∧ shopPrice t shop e false = .ok price ∧
    e.curQuantity + 1 ≤ maxShopStack ∧
    shop' = { shop with
      items := a ++ { e with curQuantity := e.curQuantity + 1 } :: b
      changed := true }) ∨
  (∀ x ∈ shop.items, x.id ≠ id) ∧ price = percentOf shop.buyModifier (t.value id) ∧
    shop.items.length < maxShopItems ∧
    shop' = { shop with items := shop.items ++ [pawned shop id], changed := true }

theorem entryAt_of_find {e : ShopItem} (h : shop.items.find? (·.id == id) = some e) :
    ∃ a b, EntryAt shop id a e b := by
  obtain ⟨hid, a, b, hitems, hfirst⟩ := List.find?_eq_some_iff_append.1 h
  exact ⟨a, b, hitems, eq_of_beq hid, fun x hx => by simpa using hfirst x hx⟩

theorem EntryAt.modifyFirst_eq {a b : List ShopItem} {e : ShopItem} (h : EntryAt shop id a e b)
    (f : ShopItem → ShopItem) :
    modifyFirst (·.id == id) f shop.items = a ++ f e :: b := by
  have hself : (e.id == id) = true := by simp [h.entry]
  rw [h.items, modifyFirst_append_right fun x hx => by simpa using h.first x hx, modifyFirst,
    if_pos hself]

theorem EntryAt.eraseP_eq {a b : List ShopItem} {e : ShopItem} (h : EntryAt shop id a e b) :
    shop.items.eraseP (·.id == id) = a ++ b := by
  have hself : (e.id == id) = true := by simp [h.entry]
  rw [h.items, List.eraseP_append_right _ fun x hx => by simpa using h.first x hx,
    List.eraseP_cons_of_pos (by simpa using hself)]

/-- `shop_remove` takes one of the entry it finds. -/
theorem shopTake_lowered {e : ShopItem} (hfind : shop.items.find? (·.id == id) = some e)
    (hprice : shopPrice t shop e true = .ok price) (hcur : e.curQuantity ≠ 0) :
    Lowered t id price shop (shopTake shop e) := by
  obtain ⟨a, b, hentry⟩ := entryAt_of_find hfind
  have hid := hentry.entry
  refine ⟨a, e, b, hentry, hprice, by omega, ?_⟩
  unfold shopTake
  rw [hid]
  split
  · rw [hentry.eraseP_eq]
  · rw [hentry.modifyFirst_eq]
    rfl

theorem percentOf_lt (mod value : Nat) : percentOf mod value < u32Size := by
  have hmod : mod * value % u32Size < u32Size := Nat.mod_lt _ (by decide)
  unfold percentOf
  omega

theorem shopPrice_lt {e : ShopItem} {sale : Bool} (h : shopPrice t shop e sale = .ok price) :
    price < u32Size := by
  unfold shopPrice at h
  split at h
  · cases h
  · obtain rfl := Except.ok.inj h
    exact percentOf_lt _ _

theorem shopPrice_ok (shop : ShopConfig) {e : ShopItem} (hc : t.byId e.id = some item) (sale : Bool) :
    ∃ price, shopPrice t shop e sale = .ok price := by
  simp only [shopPrice, hc]
  exact ⟨_, rfl⟩

/-! ## The deals -/

/-- What the item table is asked to say of coins: there is one item of the
name, it has the number the code has for it, and it stacks. -/
structure CoinsKnown (t : ItemTable) (coins : ItemConfig) : Prop where
  config : t.byId itemCoins = some coins
  named : DenotesOne t coinsName coins
  weightless : coins.weight = 0

theorem CoinsKnown.id_eq {t : ItemTable} (h : CoinsKnown t coins) : coins.id = itemCoins :=
  ItemTable.byId_id h.config

theorem shopRemove_whole (shop : ShopConfig) (hok : InvOk t.toItemTable (s.get i).inventory)
    (hcoins : CoinsKnown t.toItemTable coins) (hc : t.byId id = some item) :
    shopRemove t shop s i id = .ok none ∨
      ∃ shop' inv price, Lowered t id price shop shop' ∧ InvOk t.toItemTable inv ∧
        (∀ k, held t.toItemTable k inv + (if k = itemCoins then price else 0) =
          held t.toItemTable k (s.get i).inventory) ∧
        shopRemove t shop s i id =
          .ok (some (shop', s.modify i fun p => { p with inventory := inv }, price)) := by
  unfold shopRemove
  cases hfind : shop.items.find? (·.id == id) with
  | none => exact .inl rfl
  | some e =>
      simp only
      split
      · exact .inl rfl
      · next hcur =>
        have hid := id_of_find hfind
        obtain ⟨price, hprice⟩ := shopPrice_ok shop (by rw [hid]; exact hc) true
        have hheld := heldLoop_eq hcoins.named hcoins.weightless hok.wf hok.configured price
        rw [hcoins.id_eq] at hheld
        have hremove : playerInvRemove t.toItemTable s i coinsName price = _ :=
          playerInvRemove_eq hok.wf hok.configured hcoins.named
        rw [hcoins.id_eq] at hremove
        simp only [hprice, playerInvHeld, hheld]
        by_cases hle : price ≤ held t.toItemTable itemCoins (s.get i).inventory
        · rw [decide_eq_true hle]
          simp only [hremove]
          exact .inr ⟨_, _, price, shopTake_lowered hfind hprice hcur, removed_ok hok,
            held_pay_stack hok.wf hcoins.config hcoins.weightless hle, rfl⟩
        · rw [decide_eq_false hle]
          exact .inl rfl

theorem held_lt_of_below {t : ItemTable} (hwf : InvWf t inv) (hid : t.stackable id = true)
    (hbelow : ∀ x ∈ inv, x.stack < maxStackSize) : held t id inv < maxStackSize := by
  by_cases hmem : ∃ x ∈ inv, x.id = id
  · obtain ⟨x, hx, hxid⟩ := hmem
    obtain ⟨j, hj⟩ := List.mem_iff_getElem?.1 hx
    rw [held_stackable hwf hid hj hxid]
    exact hbelow x hx
  · rw [held_eq_zero fun x hx hxid => hmem ⟨x, hx, hxid⟩]
    decide

theorem shopBuy_whole (shop : ShopConfig) (inShop : Bool) (hlive : s.live i)
    (hok : InvOk t.toItemTable (s.get i).inventory) (hcoins : CoinsKnown t.toItemTable coins)
    (hid : id ≠ itemCoins) (hbelow : ∀ x ∈ (s.get i).inventory, x.stack < maxStackSize) :
    shopBuy t shop s i inShop id = .ok none ∨
      ∃ shop' s' price, shopBuy t shop s i inShop id = .ok (some (shop', s', price)) ∧
        Lowered t id price shop shop' ∧ Trades t.toItemTable i s s' id 1 itemCoins price := by
  unfold shopBuy
  cases hc : t.byId id with
  | none => exact .inl rfl
  | some item =>
      simp only
      split
      · exact .inl rfl
      · rcases shopRemove_whole shop hok hcoins hc with
          hnone | ⟨shop', inv, price, hlowered, hinv, hpaid, hremove⟩
        · rw [hnone]
          exact .inl rfl
        · rw [hremove]
          have hitem := ItemTable.byId_id hc
          have hroom : HasRoom item 1 inv := by
            intro hw
            have hst : t.stackable id = true := by
              rw [ItemTable.stackable_of_byId hc, decide_eq_true hw]
            have hlt := held_lt_of_below hok.wf hst hbelow
            have hsame := hpaid id
            rw [if_neg hid, Nat.add_zero] at hsame
            exact hasRoom_of_held hinv.wf hc (by omega) hw
          have htrades := trades_give hlive (hitem.symm ▸ hc) (by decide) hroom hpaid
          rw [hitem] at htrades
          exact .inr ⟨shop', _, price, rfl, hlowered, htrades⟩

/-- A sale pays what the stack of coins can take. -/
theorem shopSell_whole (shop : ShopConfig) (inShop : Bool) (hlive : s.live i)
    (hok : InvOk t.toItemTable (s.get i).inventory) (hcoins : CoinsKnown t.toItemTable coins)
    (hid : id ≠ itemCoins) (hstock : ∀ e ∈ shop.items, e.curQuantity ≤ maxShopStack) :
    shopSell t shop s i inShop id = .ok none ∨
      ∃ shop' s' price, shopSell t shop s i inShop id = .ok (some (shop', s', price)) ∧
        Raised t id price shop shop' ∧
        (held t.toItemTable itemCoins (s.get i).inventory + price ≤ maxStackSize →
          Trades t.toItemTable i s s' itemCoins price id 1) := by
  unfold shopSell
  rw [hcoins.config]
  cases hc : t.byId id with
  | none => exact .inl rfl
  | some item =>
      simp only
      split
      · exact .inl rfl
      · next hhas =>
        have hheld : 1 ≤ held t.toItemTable id (s.get i).inventory := by
          rw [invHeldId_eq hok.wf hc] at hhas
          have hsome : inShop = true ∧ ¬ held t.toItemTable id (s.get i).inventory = 0 := by
            simpa using hhas
          omega
        have hpaid := held_pay_one hok.wf hc hheld
        have hinv : InvOk t.toItemTable
            (removed (·.id == id) item.weight 1 (s.get i).inventory) := removed_ok hok
        have hremove : playerInvRemoveId t.toItemTable s i id 1 = _ :=
          playerInvRemoveId_eq hok.wf hc
        have htrades : ∀ price, price < u32Size →
            held t.toItemTable itemCoins (s.get i).inventory + price ≤ maxStackSize →
            Trades t.toItemTable i s (payOut (s.modify i fun p => { p with
              inventory := removed (·.id == id) item.weight 1 (s.get i).inventory }) i coins price)
              itemCoins price id 1 := by
          intro price hlt hle
          have hsame := hpaid itemCoins
          rw [if_neg (Ne.symm hid), Nat.add_zero] at hsame
          have hroom := hasRoom_of_held hinv.wf hcoins.config (by rw [hsame]; exact hle)
          have hc' : t.byId coins.id = some coins := hcoins.id_eq.symm ▸ hcoins.config
          have hgot := trades_payOut hlive hc' hlt hroom hpaid
          rwa [hcoins.id_eq] at hgot
        cases hfind : shop.items.find? (·.id == id) with
        | some e =>
            simp only
            split
            · exact .inl rfl
            · next hfull =>
              have heid := id_of_find hfind
              obtain ⟨price, hprice⟩ := shopPrice_ok shop (by rw [heid]; exact hc) false
              obtain ⟨a, b, hentry⟩ := entryAt_of_find hfind
              have hcur := hstock e (List.mem_of_find?_eq_some hfind)
              simp only [hremove, hprice]
              refine .inr ⟨_, _, price, rfl, .inl ⟨a, e, b, hentry, hprice, by omega, ?_⟩,
                htrades price (shopPrice_lt hprice)⟩
              rw [hentry.modifyFirst_eq]
        | none =>
            simp only
            split
            · exact .inl rfl
            · next hroom =>
              split
              · exact .inl rfl
              · simp only [hremove]
                refine .inr ⟨_, _, _, rfl, .inr ⟨?_, ?_, Nat.lt_of_not_le hroom, rfl⟩,
                  htrades _ (percentOf_lt _ _)⟩
                · intro e he
                  simpa using List.find?_eq_none.1 hfind e he
                · rw [ItemTable.byId_id hc]

/-- A purchase and a sale each come about as a whole, or nothing happens: one
unit goes over, and the price the shop has at the level of its stock goes back,
if the stack of coins can take it. The stock stays within its type, and the
other entries stay as they are. -/
theorem deal_whole (t : PricedTable) (w : ShopWorld) {i id : Nat} (inShop : Bool)
    {coins : ItemConfig} (hlive : w.server.live i)
    (hok : InvOk t.toItemTable (w.server.get i).inventory)
    (hcoins : CoinsKnown t.toItemTable coins) (hid : id ≠ itemCoins)
    (hbelow : ∀ x ∈ (w.server.get i).inventory, x.stack < maxStackSize)
    (hstock : ∀ e ∈ w.shop.items, e.curQuantity ≤ maxShopStack) :
    (∃ w', shopStep t w (.buy i inShop id) = .ok w' ∧ (w' = w ∨
      ∃ price, Lowered t id price w.shop w'.shop ∧
        Trades t.toItemTable i w.server w'.server id 1 itemCoins price)) ∧
    ∃ w', shopStep t w (.sell i inShop id) = .ok w' ∧ (w' = w ∨
      ∃ price, Raised t id price w.shop w'.shop ∧
        (held t.toItemTable itemCoins (w.server.get i).inventory + price ≤ maxStackSize →
          Trades t.toItemTable i w.server w'.server itemCoins price id 1)) := by
  constructor
  · rcases shopBuy_whole w.shop inShop hlive hok hcoins hid hbelow with
      hnone | ⟨shop', s', price, hbuy, hlowered, htrades⟩
    · exact ⟨w, by rw [shopStep, hnone]; rfl, .inl rfl⟩
    · exact ⟨_, by rw [shopStep, hbuy]; rfl, .inr ⟨price, hlowered, htrades⟩⟩
  · rcases shopSell_whole w.shop inShop hlive hok hcoins hid hstock with
      hnone | ⟨shop', s', price, hsell, hraised, htrades⟩
    · exact ⟨w, by rw [shopStep, hnone]; rfl, .inl rfl⟩
    · exact ⟨_, by rw [shopStep, hsell]; rfl, .inr ⟨price, hraised, htrades⟩⟩

def cornerCoins : ItemConfig := ⟨itemCoins, [coinsName], 0, 0⟩

/-- The last one in the corner shop is bought as a whole. -/
theorem deal_whole_last : ∃ w', shopStep shopTable corner (.buy 0 true 1) = .ok w' ∧
    ∃ price, Lowered shopTable 1 price corner.shop w'.shop ∧
      Trades shopTable.toItemTable 0 corner.server w'.server 1 1 itemCoins price := by
  have hok : InvOk shopTable.toItemTable (corner.server.get 0).inventory :=
    ⟨by decide, by decide, by decide, by decide⟩
  have hcoins : CoinsKnown shopTable.toItemTable cornerCoins := by
    refine ⟨rfl, ⟨rfl, fun k c hk hname => ?_⟩, rfl⟩
    have hlt : k < 11 := (List.getElem?_eq_some_iff.1 hk).1
    have hall : ∀ k < 11, ((shopTable.byId k).any fun c =>
        c.names.any (strcasecmp coinsName ·)) = true → k = itemCoins := by decide +kernel
    exact hall k hlt (by rw [hk]; exact hname)
  have hlive : corner.server.live 0 := rfl
  have hid : 1 ≠ itemCoins := by decide
  obtain ⟨w', hstep, hwhole⟩ :=
    (deal_whole shopTable corner true hlive hok hcoins hid (by decide) (by decide)).1
  refine ⟨w', hstep, ?_⟩
  rcases hwhole with rfl | hwhole
  · have hdeals : (shopStep shopTable corner (.buy 0 true 1)).map (fun w => w.deals.length) =
        .ok 1 := by decide +kernel
    rw [hstep] at hdeals
    cases hdeals
  · exact hwhole

/-- A player with a log, and a stack of coins that takes five more. -/
def heavyPurse : ShopWorld where
  server :=
    { players := fun i =>
        if i = 0 then some { inventory := [⟨itemCoins, 2147483642, false⟩, ⟨1, 1, false⟩] } else none
      maxPlayerId := 1 }
  shop := corner.shop

/-- No stack is a full one, the shop pays six coins, and five arrive. -/
theorem sale_overfills :
    (∀ x ∈ (heavyPurse.server.get 0).inventory, x.stack < maxStackSize) ∧
      ¬ ∃ w', shopStep shopTable heavyPurse (.sell 0 true 1) = .ok w' ∧ (w' = heavyPurse ∨
        ∃ price, Raised shopTable 1 price heavyPurse.shop w'.shop ∧
          Trades shopTable.toItemTable 0 heavyPurse.server w'.server itemCoins price 1 1) := by
  refine ⟨by decide, ?_⟩
  rintro ⟨w', hstep, hwhole⟩
  have hgot : (shopStep shopTable heavyPurse (.sell 0 true 1)).map (fun w =>
      (w.deals.length, (w.server.get 0).inventory, w.server.tempItems.length)) =
      .ok (1, [⟨itemCoins, 2147483647, false⟩], 0) := by decide +kernel
  rw [hstep] at hgot
  obtain ⟨hdeals, hrest⟩ := Prod.mk.inj (Except.ok.inj hgot)
  obtain ⟨hinv, htemp⟩ := Prod.mk.inj hrest
  rcases hwhole with rfl | ⟨price, hraised, htrades⟩
  · cases hdeals
  · obtain ⟨new, hnew, -, hgoods⟩ := htrades.goods
    have hnone : new = [] := by
      rw [hnew] at htemp
      exact List.eq_nil_of_length_eq_zero htemp
    have hcoins := hgoods itemCoins
    rw [hinv, hnone] at hcoins
    have hfive : 2147483647 + 0 + 0 + 0 = 2147483642 + price := hcoins
    have hsix : price = 6 := by
      rcases hraised with ⟨a, e, b, hentry, hprice, -⟩ | ⟨hnot, -⟩
      · have hmem : e ∈ heavyPurse.shop.items := by
          rw [hentry.items]
          simp
        obtain rfl := List.mem_singleton.1 hmem
        exact (Except.ok.inj hprice).symm
      · exact absurd rfl (hnot _ (List.mem_singleton.2 rfl))
    omega

end Sundae.Proofs
