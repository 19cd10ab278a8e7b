import Mathlib.Data.Rat.Floor
import Sundae.Proofs.Inventory
import Sundae.Ref.Sale

/-!
# What a script pays for what it takes

`script_sellinv` takes the slot of an item out and then reads how many it had
where the slot was, which is now the next slot. So a stack brings in what the
stack behind it is worth at the price of the item; in the last slot, and
for an item that does not stack, the price is right.
-/

namespace Sundae.Proofs

open Sundae.Ref Sundae.Lib

variable {t : PricedTable} {s s' : Server} {i k : Nat} {item coins : ItemConfig}
  {percentage : Int} {inv a b : List InvItem} {x : InvItem} {q : ℚ} {n : Nat}

/-! ## Amounts -/

/-- What `n` of an item bring in. -/
def proceeds (t : PricedTable) (item : ItemConfig) (percentage : Int) (n : Nat) : ℚ :=
  n * (t.value item.id * (percentage / 100))

theorem lt_of_toUint32 (h : toUint32 q = .ok n) : n < u32Size := by
  simp only [toUint32] at h
  split at h
  · next hn =>
    obtain rfl := Except.ok.inj h
    omega
  · cases h

/-- Of what is not negative the fraction is all that is lost. -/
theorem toUint32_floor (hq : 0 ≤ ⌊q⌋) :
    toUint32 q = if ⌊q⌋ < u32Size then .ok ⌊q⌋.toNat else .error .conversion := by
  have hnum : 0 ≤ q.num := Rat.num_nonneg.2 (Int.floor_nonneg.1 hq)
  have htrunc : q.num.tdiv q.den = ⌊q⌋ := by
    rw [Int.tdiv_eq_ediv_of_nonneg hnum, Rat.floor_def']
  simp only [toUint32, htrunc, hq, true_and]

theorem toUint32_of_floor (hq : (n : Int) = ⌊q⌋) (hn : n < u32Size) : toUint32 q = .ok n := by
  rw [toUint32_floor (by omega), if_pos (by omega), ← hq, Int.toNat_natCast]

/-! ## The course of a sale -/

theorem live_of_idToPlayer {playerId : Int} (h : idToPlayer s playerId = some i) : s.live i := by
  unfold idToPlayer at h
  split at h
  · cases h
  · split at h
    · next hlive =>
      obtain rfl := Option.some.inj h
      exact hlive
    · cases h

/-- Without the item nothing happens. -/
theorem scriptSellinv_none {playerId : Int} {itemName : List Char}
    (hplayer : idToPlayer s playerId = some i) (hcoins : t.byName coinsName = some coins)
    (hitem : t.byName itemName = some item) (hno : ∀ x ∈ (s.get i).inventory, x.id ≠ item.id) :
    scriptSellinv t s playerId itemName percentage = .ok (some s) := by
  have hmiss : ∀ x ∈ (s.get i).inventory, (x.id == item.id) = false := fun x hx =>
    beq_false_of_ne (hno x hx)
  simp only [scriptSellinv, hplayer, hcoins, hitem]
  split
  · next hw =>
    have hcount : (s.get i).inventory.countP (·.id == item.id) = 0 :=
      List.countP_eq_zero.2 fun x hx => by simp [hmiss x hx]
    simp [invHeldId, Nat.ne_of_gt hw, hcount]
  · simp [List.findIdx?_eq_none_iff.2 hmiss]

/-- With the item, its first slot goes, and a number of them that is read
where the slot was is paid for. -/
theorem scriptSellinv_split (percentage : Int) {playerId : Int} {itemName : List Char}
    (hplayer : idToPlayer s playerId = some i) (hcoins : t.byName coinsName = some coins)
    (hitem : t.byName itemName = some item) (hwf : InvWf t.toItemTable (s.get i).inventory)
    (hinv : (s.get i).inventory = a ++ x :: b) (hx : x.id = item.id)
    (ha : ∀ y ∈ a, y.id ≠ x.id) :
    scriptSellinv t s playerId itemName percentage =
      match toUint32 (proceeds t item percentage
        (if item.weight = 0 then (b.head?.getD x).stack else 1)) with
      | .error f => .error f
      | .ok n => .ok (some (playerInvGive (s.modify i fun p => { p with inventory := a ++ b })
          i coins n)) := by
  have hc := ItemTable.byId_of_byName hitem
  have hremove := playerInvRemoveId_split hinv hwf (hx ▸ hc) ha
  have hget : ((s.modify i fun p => { p with inventory := a ++ b }).get i).inventory = a ++ b := by
    rw [Server.get_modify_self (live_of_idToPlayer hplayer)]
  simp only [scriptSellinv, hplayer, hcoins, hitem]
  by_cases hw : item.weight = 0
  · have hfirst : (a ++ x :: b).findIdx? (·.id == x.id) = some a.length := by
      rw [List.findIdx?_append,
        List.findIdx?_eq_none_iff.2 fun y hy => beq_false_of_ne (ha y hy)]
      simp [List.findIdx?_cons]
    rw [if_pos hw] at hremove
    have hslot : (((a ++ x :: b)[a.length]?).map InvItem.stack).getD 0 = x.stack := by simp
    simp only [hw, Nat.lt_irrefl, if_false, if_true, hinv, hfirst, sellAway, ← hx, hslot, hremove,
      hget, stackRead_split, proceeds]
    generalize toUint32 _ = r
    cases r <;> rfl
  · have hheld : invHeldId item x.id 1 (s.get i).inventory = true := by
      have hcount : 1 ≤ (s.get i).inventory.countP (·.id == x.id) := by
        rw [hinv]
        exact List.countP_pos_iff.2 ⟨x, by simp, by simp⟩
      simp [invHeldId, hw, hcount]
    rw [if_neg hw] at hremove
    have hweight : 0 < item.weight := Nat.pos_of_ne_zero hw
    simp only [hweight, if_true, hheld, sellAway, ← hx, hremove, hw, if_false, proceeds,
      Nat.cast_one, one_mul]
    generalize toUint32 _ = r
    cases r <;> rfl

/-! ## What a sale should do -/

/-- How many of the item there are to sell. -/
def soldOf (t : ItemTable) (item : ItemConfig) (inv : List InvItem) : Nat :=
  if item.weight = 0 then held t item.id inv else min 1 (held t item.id inv)

/-- A sale that takes what it should and pays for what it takes. -/
structure SoldFor (t : PricedTable) (item coins : ItemConfig) (percentage : Int) (i : Nat)
    (s s' : Server) (given : Nat) : Prop where
  price : (given : Int) =
    ⌊proceeds t item percentage (soldOf t.toItemTable item (s.get i).inventory)⌋
  taken : ∀ k, k ≠ coins.id →
    held t.toItemTable k (s.get i).inventory = held t.toItemTable k (s'.get i).inventory +
      if k = item.id then soldOf t.toItemTable item (s.get i).inventory else 0
  ground : ∀ k, k ≠ coins.id → groundOf k s'.tempItems = groundOf k s.tempItems
  paid : held t.toItemTable coins.id (s'.get i).inventory + groundOf coins.id s'.tempItems +
      (if coins.id = item.id then soldOf t.toItemTable item (s.get i).inventory else 0) =
    held t.toItemTable coins.id (s.get i).inventory + groundOf coins.id s.tempItems + given
  others : ∀ j, j ≠ i → s'.get j = s.get j

/-- These coins make the stack of coins a full one. -/
def Fills (coins : ItemConfig) (given : Nat) (inv : List InvItem) : Prop :=
  coins.weight = 0 ∧ ∃ z ∈ inv, z.id = coins.id ∧ z.stack + given = maxStackSize

/-- The coins for the item can be given, and the stack behind its slot does not
show in what is given. -/
structure PaysRight (t : PricedTable) (item coins : ItemConfig) (percentage : Int)
    (inv : List InvItem) (given : Nat) : Prop where
  price : (given : Int) = ⌊proceeds t item percentage (soldOf t.toItemTable item inv)⌋
  fits : given < u32Size
  room : coins.id ≠ item.id → HasRoom coins given inv
  behind : item.weight = 0 → ∀ a x y b, inv = a ++ x :: y :: b → x.id = item.id →
    ∃ n, toUint32 (proceeds t item percentage y.stack) = .ok n ∧
      (n = given ∨ given ≤ n ∧ coins.id ≠ item.id ∧ Fills coins given inv)

theorem soldOf_split {t : ItemTable} (hwf : InvWf t (a ++ x :: b)) (hc : t.byId x.id = some item) :
    soldOf t item (a ++ x :: b) = (if item.weight = 0 then x.stack else 1) ∧
      units t x = if item.weight = 0 then x.stack else 1 := by
  have hst := ItemTable.stackable_of_byId hc
  have hitem := ItemTable.byId_id hc
  unfold soldOf
  rw [hitem, held_split, if_pos rfl]
  by_cases hw : item.weight = 0
  · have hid : t.stackable x.id = true := by rw [hst, decide_eq_true hw]
    have hzero : held t x.id (a ++ b) = 0 := held_eq_zero (ne_of_split hwf hid)
    simp only [hw, if_true, units_stackable hid, hzero, Nat.zero_add, and_self]
  · have hid : t.stackable x.id = false := by rw [hst, decide_eq_false hw]
    simp only [hw, if_false, units_unstackable hid, and_true]
    omega

/-- What the coins come to, on the stack and on the ground. -/
theorem gain_iff {t : ItemTable} {given : Nat} (hwf : InvWf t inv)
    (hc : t.byId coins.id = some coins) (hn : n < u32Size) :
    held t coins.id (invGive coins n inv).1 + (invGive coins n inv).2.sum =
        held t coins.id inv + given ↔
      HasRoom coins given inv ∧ (n = given ∨ given ≤ n ∧ Fills coins given inv) := by
  by_cases hroom : HasRoom coins n inv
  · have hall := held_invGive (k := coins.id) hc hn hroom
    rw [if_pos rfl, if_pos rfl] at hall
    constructor
    · intro h
      obtain rfl : n = given := by omega
      exact ⟨hroom, .inl rfl⟩
    · rintro ⟨-, rfl | ⟨hle, hw, z, hz, hzid, hfull⟩⟩
      · exact hall
      · have hfit := hroom hw z hz hzid
        omega
  · have hfull := hroom
    simp only [HasRoom, not_forall] at hfull
    obtain ⟨hw, z, hz, hzid, hover⟩ := hfull
    obtain ⟨hspill, hheld, hall⟩ := held_invGive_stack hwf hc hn hw hz hzid
    have hunique : ∀ y ∈ inv, y.id = coins.id → y.stack = z.stack := fun y hy hyid =>
      (held_invGive_stack hwf hc hn hw hy hyid).2.2.symm.trans hall
    rw [hspill, hheld, List.sum_nil]
    constructor
    · intro h
      have hfits : z.stack + given = maxStackSize := by omega
      refine ⟨fun _ y hy hyid => ?_, .inr ⟨by omega, hw, z, hz, hzid, hfits⟩⟩
      rw [hunique y hy hyid]
      omega
    · rintro ⟨hgiven, rfl | ⟨hle, -, y, hy, hyid, hfits⟩⟩
      · exact absurd hgiven hroom
      · rw [hunique y hy hyid] at hfits
        omega

theorem hasRoom_split {t : ItemTable} {given : Nat} (hwf : InvWf t (a ++ x :: b))
    (hc : t.byId coins.id = some coins) :
    HasRoom coins given (a ++ b) ↔ (coins.id ≠ x.id → HasRoom coins given (a ++ x :: b)) := by
  by_cases hx : coins.id = x.id
  · refine iff_of_true (fun hw y hy hyid => ?_) fun h => absurd hx h
    have hid : t.stackable x.id = true := by
      rw [← hx, ItemTable.stackable_of_byId hc, decide_eq_true hw]
    exact absurd (hyid.trans hx) (ne_of_split hwf hid y hy)
  · have hmem : ∀ z : InvItem, z.id = coins.id → (z ∈ a ++ x :: b ↔ z ∈ a ++ b) := fun z hz =>
      mem_split_of_ne (hz ▸ hx)
    constructor
    · exact fun h _ hw y hy hyid => h hw y ((hmem y hyid).1 hy) hyid
    · exact fun h hw y hy hyid => h hx hw y ((hmem y hyid).2 hy) hyid

theorem fills_split {t : ItemTable} {given : Nat} (hwf : InvWf t (a ++ x :: b))
    (hc : t.byId coins.id = some coins) :
    Fills coins given (a ++ b) ↔ coins.id ≠ x.id ∧ Fills coins given (a ++ x :: b) := by
  constructor
  · rintro ⟨hw, z, hz, hzid, hfull⟩
    have hx : coins.id ≠ x.id := by
      intro hx
      have hid : t.stackable x.id = true := by
        rw [← hx, ItemTable.stackable_of_byId hc, decide_eq_true hw]
      exact ne_of_split hwf hid z hz (hzid.trans hx)
    exact ⟨hx, hw, z, (mem_split_of_ne (hzid ▸ hx)).2 hz, hzid, hfull⟩
  · rintro ⟨hx, hw, z, hz, hzid, hfull⟩
    exact ⟨hw, z, (mem_split_of_ne (hzid ▸ hx)).1 hz, hzid, hfull⟩

/-- What a sale that pays out `n` coins comes to. -/
theorem soldFor_iff {given : Nat} (hlive : s.live i)
    (hcoins : t.byId coins.id = some coins) (hc : t.byId x.id = some item)
    (hinv : (s.get i).inventory = a ++ x :: b) (hwf : InvWf t.toItemTable (s.get i).inventory)
    (hn : n < u32Size) :
    SoldFor t item coins percentage i s
        (playerInvGive (s.modify i fun p => { p with inventory := a ++ b }) i coins n) given ↔
      (given : Int) =
          ⌊proceeds t item percentage (if item.weight = 0 then x.stack else 1)⌋ ∧
        HasRoom coins given (a ++ b) ∧ (n = given ∨ given ≤ n ∧ Fills coins given (a ++ b)) := by
  rw [hinv] at hwf
  have hitem := ItemTable.byId_id hc
  obtain ⟨hsold, hunits⟩ := soldOf_split hwf hc
  have hrest : InvWf t.toItemTable (a ++ b) :=
    hwf.sublist (List.Sublist.append_left (List.sublist_cons_self x b) a)
  obtain ⟨new, m, hgive, hground⟩ :=
    playerInvGive_eq (s.modify i fun p => { p with inventory := a ++ b }) i coins n
  have hget : ∀ j, (playerInvGive (s.modify i fun p => { p with inventory := a ++ b })
      i coins n).get j = if j = i then
        { s.get i with inventory := (invGive coins n (a ++ b)).1 } else s.get j := by
    intro j
    rw [hgive, Server.get_modify_self hlive]
    show ((s.modify i _).modify i _).get j = _
    rw [Server.modify_modify, Server.get_modify]
    simp only [hlive, and_true]
  have hself := hget i
  rw [if_pos rfl] at hself
  have htemp : ∀ k, groundOf k (playerInvGive (s.modify i fun p => { p with inventory := a ++ b })
      i coins n).tempItems = groundOf k s.tempItems +
        if k = coins.id then (invGive coins n (a ++ b)).2.sum else 0 := by
    intro k
    have hnew := hground k
    rw [Server.get_modify_self hlive] at hnew
    rw [hgive]
    show groundOf k (s.tempItems ++ new) = _
    rw [groundOf, tally_append, ← hnew]
    rfl
  have hcoin := held_split (t := t.toItemTable) (k := coins.id) (a := a) (x := x) (b := b)
  rw [hunits, ← hitem] at hcoin
  have hgain : _ ↔ HasRoom coins given (a ++ b) ∧ _ := gain_iff hrest hcoins hn
  constructor
  · intro h
    have hprice := h.price
    rw [hinv, hsold] at hprice
    have hpaid := h.paid
    rw [hself, htemp, if_pos rfl, hinv, hsold] at hpaid
    exact ⟨hprice, hgain.1 (by simp only at hpaid; omega)⟩
  · rintro ⟨hprice, hgiven⟩
    have hsum := hgain.2 hgiven
    refine ⟨?_, fun k hk => ?_, fun k hk => ?_, ?_, fun j hj => ?_⟩
    · rw [hinv, hsold]
      exact hprice
    · rw [hself, hinv, hsold, held_split, hunits, hitem]
      show _ = held t.toItemTable k (invGive coins n (a ++ b)).1 + _
      rw [held_invGive_ne hcoins hk]
    · rw [htemp, if_neg hk, Nat.add_zero]
    · rw [hself, htemp, if_pos rfl, hinv, hsold]
      show held t.toItemTable coins.id (invGive coins n (a ++ b)).1 + _ + _ = _
      omega
    · rw [hget, if_neg hj]

/-- A script pays the price of all it takes if and only if these coins can be
given, and, where a stack is sold that is not in the last slot, the stack in the
next slot would bring in as many coins, or would bring in more and the stack of
coins is full with these. -/
theorem sellinv_pays_iff (t : PricedTable) (s : Server) {playerId : Int} {i : Nat}
    {itemName : List Char} (percentage : Int) {item coins : ItemConfig}
    (hplayer : idToPlayer s playerId = some i) (hcoins : t.byName coinsName = some coins)
    (hitem : t.byName itemName = some item) (hwf : InvWf t.toItemTable (s.get i).inventory) :
    (∃ s' given, scriptSellinv t s playerId itemName percentage = .ok (some s') ∧
        SoldFor t item coins percentage i s s' given) ↔
      ((∃ x ∈ (s.get i).inventory, x.id = item.id) →
        ∃ given, PaysRight t item coins percentage (s.get i).inventory given) := by
  by_cases hmem : ∃ x ∈ (s.get i).inventory, x.id = item.id
  · simp only [hmem, forall_true_left]
    obtain ⟨a, x, b, hinv, hx, ha⟩ := exists_split hmem
    have hlive := live_of_idToPlayer hplayer
    have hcoin := ItemTable.byId_of_byName hcoins
    have hc : t.byId x.id = some item := hx ▸ ItemTable.byId_of_byName hitem
    have hrun := scriptSellinv_split percentage hplayer hcoins hitem hwf hinv hx ha
    have hwf' := hwf
    rw [hinv] at hwf'
    obtain ⟨hsold, -⟩ := soldOf_split hwf' hc
    constructor
    · rintro ⟨s', given, h, hs'⟩
      rw [hrun] at h
      split at h
      · cases h
      · next n hn =>
        obtain rfl := Option.some.inj (Except.ok.inj h)
        obtain ⟨hprice, hgiven, hmost⟩ :=
          (soldFor_iff hlive hcoin hc hinv hwf (lt_of_toUint32 hn)).1 hs'
        have hlt := lt_of_toUint32 hn
        refine ⟨given, by rw [hinv, hsold]; exact hprice, by omega, ?_, ?_⟩
        · rw [hinv, ← hx]
          exact (hasRoom_split hwf' hcoin).1 hgiven
        · intro hw a' x' y' b' hsplit hx'
          have hid : t.stackable x.id = true := by
            rw [ItemTable.stackable_of_byId hc, decide_eq_true hw]
          obtain ⟨-, rfl⟩ := split_unique hwf' hid (hinv.symm.trans hsplit) (hx'.trans hx.symm)
          rw [if_pos hw] at hn
          refine ⟨n, hn, ?_⟩
          rw [hinv, ← hx, ← fills_split hwf' hcoin]
          exact hmost
    · rintro ⟨given, h⟩
      have hprice := h.price
      rw [hinv, hsold] at hprice
      have hgiven : HasRoom coins given (a ++ b) := by
        have hfit := h.room
        rw [hinv, ← hx] at hfit
        exact (hasRoom_split hwf' hcoin).2 hfit
      have hpaid : ∃ n, toUint32 (proceeds t item percentage
          (if item.weight = 0 then (b.head?.getD x).stack else 1)) = .ok n ∧
          (n = given ∨ given ≤ n ∧ Fills coins given (a ++ b)) := by
        by_cases hw : item.weight = 0
        · cases b with
          | nil =>
              rw [if_pos hw] at hprice
              rw [if_pos hw]
              exact ⟨given, toUint32_of_floor hprice h.fits, .inl rfl⟩
          | cons y b =>
              obtain ⟨n, hn, hmost⟩ := h.behind hw a x y b hinv hx
              rw [hinv, ← hx, ← fills_split hwf' hcoin] at hmost
              rw [if_pos hw]
              exact ⟨n, hn, hmost⟩
        · rw [if_neg hw] at hprice
          rw [if_neg hw]
          exact ⟨given, toUint32_of_floor hprice h.fits, .inl rfl⟩
      obtain ⟨n, hn, hmost⟩ := hpaid
      rw [hn] at hrun
      exact ⟨_, given, hrun,
        (soldFor_iff hlive hcoin hc hinv hwf (lt_of_toUint32 hn)).2 ⟨hprice, hgiven, hmost⟩⟩
  · simp only [hmem, false_implies, iff_true]
    have hno : ∀ x ∈ (s.get i).inventory, x.id ≠ item.id := fun x hx hid => hmem ⟨x, hx, hid⟩
    have hzero : soldOf t.toItemTable item (s.get i).inventory = 0 := by
      simp [soldOf, held_eq_zero hno]
    refine ⟨s, 0, scriptSellinv_none hplayer hcoins hitem hno, ?_, ?_, fun _ _ => rfl, ?_,
      fun _ _ => rfl⟩
    · simp [hzero, proceeds]
    · simp [hzero]
    · simp [hzero]

/-- Coins, a rune that stacks and a log that does not. -/
def alchTable : PricedTable where
  items := [⟨0, [coinsName], 0, 0⟩, ⟨1, [['r', 'u', 'n', 'e']], 0, 0⟩, ⟨2, [['l', 'o', 'g']], 1, 0⟩]
  id_eq i c h := by
    match i, h with
    | 0, h => cases h; rfl
    | 1, h => cases h; rfl
    | 2, h => cases h; rfl
  value := fun _ => 10

def alchRune : ItemConfig := ⟨1, [['r', 'u', 'n', 'e']], 0, 0⟩
def alchCoins : ItemConfig := ⟨0, [coinsName], 0, 0⟩

def alchServer (inv : List InvItem) : Server :=
  { players := fun i => if i = 0 then some { inventory := inv } else none, maxPlayerId := 1 }

/-- Runes in the last slot are paid for. -/
theorem sellinv_pays_last : ∃ s' given,
    scriptSellinv alchTable (alchServer [⟨2, 1, false⟩, ⟨1, 20, false⟩]) 0 ['r', 'u', 'n', 'e'] 60 =
        .ok (some s') ∧
      SoldFor alchTable alchRune alchCoins 60 0 (alchServer [⟨2, 1, false⟩, ⟨1, 20, false⟩])
        s' given := by
  have hwf : InvWf alchTable.toItemTable [⟨2, 1, false⟩, ⟨1, 20, false⟩] :=
    ⟨by decide, by decide⟩
  have hplayer : idToPlayer (alchServer [⟨2, 1, false⟩, ⟨1, 20, false⟩]) 0 = some 0 := rfl
  have hcoins : alchTable.byName coinsName = some alchCoins := rfl
  refine (sellinv_pays_iff alchTable _ 60 hplayer hcoins rfl hwf).2 fun _ =>
    ⟨120, by decide +kernel, by decide, fun _ _ x hx => ?_, ?_⟩
  · revert x
    decide
  · intro _ a x y b hsplit hx
    match a, hsplit with
    | [], hsplit =>
        obtain ⟨rfl, -⟩ := List.cons.inj hsplit
        cases hx
    | [_], hsplit => cases hsplit
    | _ :: _ :: _, hsplit =>
        have hlen : 2 = _ := congrArg List.length hsplit
        simp at hlen

/-- Runes in front of a log are paid for as one. -/
theorem stack_sold_as_next :
    ¬ ∃ s' given,
      scriptSellinv alchTable (alchServer [⟨1, 20, false⟩, ⟨2, 1, false⟩]) 0
          ['r', 'u', 'n', 'e'] 60 = .ok (some s') ∧
        SoldFor alchTable alchRune alchCoins 60 0 (alchServer [⟨1, 20, false⟩, ⟨2, 1, false⟩])
          s' given := by
  rintro ⟨s', given, hrun, hsold⟩
  have hprice : ⌊proceeds alchTable alchRune 60 (soldOf alchTable.toItemTable alchRune
      [⟨1, 20, false⟩, ⟨2, 1, false⟩])⌋ = 120 := by decide +kernel
  have hgot : (scriptSellinv alchTable (alchServer [⟨1, 20, false⟩, ⟨2, 1, false⟩]) 0
      ['r', 'u', 'n', 'e'] 60).map (fun r => r.map fun s' => ((s'.get 0).inventory, s'.tempItems)) =
      .ok (some ([⟨2, 1, false⟩, ⟨0, 6, false⟩], [])) := by decide +kernel
  rw [hrun] at hgot
  obtain ⟨hinv, htemp⟩ := Prod.mk.inj (Option.some.inj (Except.ok.inj hgot))
  have hgiven := hsold.price.trans hprice
  have hpaid := hsold.paid
  rw [hinv, htemp] at hpaid
  have hsix : 6 + 0 + 0 = 0 + 0 + given := hpaid
  omega

end Sundae.Proofs
