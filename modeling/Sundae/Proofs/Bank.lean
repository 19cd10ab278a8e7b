import Sundae.Lib.Run
import Sundae.Proofs.Inventory
import Sundae.Ref.Bank

/-!
# The bank keeps its books

`BankInv` is what the table behind a bank and the inventory beside it must
satisfy, and `ledger` counts an item wherever a deposit or a withdrawal can
put it. Each of the two operations is described once by what it leaves
(`playerDeposit_cases`, `playerWithdraw_cases`); `bankGood_iff` reads off when
a step keeps the invariant and the ledger, and `bank_good_iff` carries that
along any sequence of operations.
-/

namespace Sundae.Proofs

open Sundae.Ref Sundae.Lib

/-- A request at the bank counter. -/
inductive BankOp where
  | deposit (id : UInt16) (amount : UInt32)
  | withdraw (id : UInt16) (amount : UInt32)
  deriving DecidableEq, Repr

/-- The request of the player in slot `i`. -/
def bankStep (t : ItemTable) (i : Nat) (s : Server) : BankOp → Except Assert Server
  | .deposit id amount => playerDeposit t s i id.toNat amount.toNat
  | .withdraw id amount => .ok (playerWithdraw t s i id.toNat amount.toNat)

/-- The quantity of an item in a bank. -/
def bankOf (id : Nat) (bank : List BankItem) : Nat := tally BankItem.id BankItem.amount id bank

/-- The quantity of an item in a player's hands, in the bank and on the ground. -/
def ledger (t : ItemTable) (i k : Nat) (s : Server) : Nat :=
  held t k (s.get i).inventory + bankOf k (s.get i).bank + groundOf k s.tempItems

/-- Bank ids distinct, amounts between 1 and `MAX_STACK_SIZE`, at most
`MAX_BANK_SIZE` entries. -/
structure BankWf (bank : List BankItem) : Prop where
  distinct : (bank.map BankItem.id).Nodup
  amounts : ∀ b ∈ bank, 1 ≤ b.amount ∧ b.amount ≤ maxStackSize
  size : bank.length ≤ maxBankSize

/-- What holds of a player's bank and inventory. -/
structure BankInv (t : ItemTable) (i : Nat) (s : Server) : Prop where
  live : s.live i
  inv : InvWf t (s.get i).inventory
  bank : BankWf (s.get i).bank

variable {t : ItemTable} {s : Server} {i id amount k : Nat}

/-! ## The entries -/

theorem mem_bank_of_findIdx {bank : List BankItem} {j : Nat}
    (h : bank.findIdx? (·.id == id) = some j) : ∃ b, bank[j]? = some b ∧ b.id = id := by
  obtain ⟨hlt, hp, -⟩ := List.findIdx?_eq_some_iff_getElem.1 h
  exact ⟨bank[j], List.getElem?_eq_getElem hlt, eq_of_beq hp⟩

theorem not_mem_bank_of_findIdx {bank : List BankItem}
    (h : bank.findIdx? (·.id == id) = none) : ∀ b ∈ bank, b.id ≠ id := fun b hb he => by
  simpa [he] using List.findIdx?_eq_none_iff.1 h b hb

theorem stackRoom_eq (h : amount ≤ maxStackSize) : stackRoom amount = maxStackSize - amount := by
  unfold stackRoom u32Size
  unfold maxStackSize at *
  omega

theorem mod_u32Size (h : amount ≤ maxStackSize) : amount % u32Size = amount :=
  Nat.mod_eq_of_lt (Nat.lt_of_le_of_lt h (by decide))

/-- What a deposit does to the bank. -/
def bankAdd (id amount : Nat) (bank : List BankItem) : List BankItem :=
  match bank.findIdx? (·.id == id) with
  | some j => bank.modify j fun b => b.setAmount (b.amount + amount)
  | none => bank ++ [⟨id, amount⟩]

theorem bankOf_bankAdd {bank : List BankItem} :
    bankOf k (bankAdd id amount bank) = bankOf k bank + if k = id then amount else 0 := by
  unfold bankAdd
  split
  · next j hj =>
    obtain ⟨b, hb, hbid⟩ := mem_bank_of_findIdx hj
    have hmod : bankOf k _ + _ = bankOf k bank + _ :=
      tally_modify_of_key BankItem.id BankItem.amount
          (fun b => b.setAmount (b.amount + amount)) hb (b.setAmount_id _)
    rw [hbid, b.setAmount_amount] at hmod
    split
    · next hk =>
      rw [if_pos hk, if_pos hk] at hmod
      omega
    · next hk =>
      rw [if_neg hk, if_neg hk] at hmod
      exact hmod
  · rw [bankOf, tally_append, tally_cons, tally_nil, share]
    rfl

/-- An entry that exists must have room; a new one must be an amount, and have
a place. -/
theorem bankAdd_wf (amount : Nat) {bank : List BankItem} (hwf : BankWf bank)
    (hold : ∀ b ∈ bank, b.id = id → b.amount + amount ≤ maxStackSize)
    (hplace : (∀ b ∈ bank, b.id ≠ id) → bank.length < maxBankSize) :
    BankWf (bankAdd id amount bank) ↔
      ((∀ b ∈ bank, b.id ≠ id) → 1 ≤ amount ∧ amount ≤ maxStackSize) := by
  unfold bankAdd
  cases hf : bank.findIdx? (·.id == id) with
  | some j =>
      obtain ⟨b, hb, hbid⟩ := mem_bank_of_findIdx hf
      have hmem := List.mem_of_getElem? hb
      refine ⟨fun _ hnone => absurd hbid (hnone b hmem), fun _ => ⟨?_, ?_, ?_⟩⟩
      · simp only
        rw [map_modify_of_key BankItem.id fun b => b.setAmount_id _]
        exact hwf.distinct
      · intro c hc
        rcases mem_modify hc with hc | ⟨d, hd, rfl⟩
        · exact hwf.amounts c hc
        · obtain rfl := Option.some.inj (hb.symm.trans hd)
          have h1 := (hwf.amounts b hmem).1
          have h2 := hold b hmem hbid
          rw [b.setAmount_amount]
          omega
      · simp only [List.length_modify]
        exact hwf.size
  | none =>
      have hnone := not_mem_bank_of_findIdx hf
      constructor
      · intro hwf' _
        exact hwf'.amounts ⟨id, amount⟩ (List.mem_append_right _ (List.mem_singleton_self _))
      · intro hamount
        refine ⟨?_, ?_, ?_⟩
        · simp only [List.map_append, List.map_cons, List.map_nil]
          rw [List.nodup_append]
          refine ⟨hwf.distinct, List.nodup_singleton _, ?_⟩
          rintro a ha b hb rfl
          obtain ⟨c, hc, hca⟩ := List.mem_map.1 ha
          exact hnone c hc (hca.trans (List.mem_singleton.1 hb))
        · intro b hb
          rcases List.mem_append.1 hb with hb | hb
          · exact hwf.amounts b hb
          · obtain rfl := List.mem_singleton.1 hb
            exact hamount hnone
        · have := hplace hnone
          simp only [List.length_append, List.length_singleton]
          omega

/-- `player_bank_remove` takes at most what was asked for, from one entry. -/
theorem bankRemove_spec (k id amount : Nat) {bank : List BankItem} (hwf : BankWf bank) :
    BankWf (bankRemove id amount bank).2 ∧
      (bankRemove id amount bank).1 ≤ amount ∧
      (bankRemove id amount bank).1 ≤ maxStackSize ∧
      bankOf k (bankRemove id amount bank).2 +
        (if k = id then (bankRemove id amount bank).1 else 0) = bankOf k bank := by
  unfold bankRemove
  cases hf : bank.findIdx? (·.id == id) with
  | none => exact ⟨hwf, Nat.zero_le _, Nat.zero_le _, by simp⟩
  | some j =>
      obtain ⟨b, hb, hbid⟩ := mem_bank_of_findIdx hf
      have hmem := List.mem_of_getElem? hb
      have hmax := (hwf.amounts b hmem).2
      simp only [hb]
      split
      · next hle =>
        have hsub : (bank.eraseIdx j).Sublist bank := List.eraseIdx_sublist ..
        have herase : bankOf k _ + _ = bankOf k bank :=
          tally_eraseIdx BankItem.id BankItem.amount hb
        rw [share, hbid] at herase
        exact ⟨⟨hwf.distinct.sublist (hsub.map _), fun c hc => hwf.amounts c (hsub.subset hc),
          Nat.le_trans hsub.length_le hwf.size⟩, hle, hmax, herase⟩
      · next hlt =>
        have hmod : bankOf k _ + _ = bankOf k bank + _ :=
          tally_modify_of_key BankItem.id BankItem.amount
            (fun b => b.setAmount (b.amount - amount)) hb (b.setAmount_id _)
        rw [hbid, b.setAmount_amount] at hmod
        refine ⟨⟨?_, ?_, ?_⟩, Nat.le_refl _, by simp only; omega, ?_⟩
        · simp only
          rw [map_modify_of_key BankItem.id fun b => b.setAmount_id _]
          exact hwf.distinct
        · intro c hc
          rcases mem_modify hc with hc | ⟨d, hd, rfl⟩
          · exact hwf.amounts c hc
          · obtain rfl := Option.some.inj (hb.symm.trans hd)
            rw [b.setAmount_amount]
            omega
        · simp only [List.length_modify]
          exact hwf.size
        · simp only
          split
          · next hk =>
            rw [if_pos hk, if_pos hk] at hmod
            omega
          · next hk =>
            rw [if_neg hk, if_neg hk] at hmod
            omega

/-- What comes out is the entry, or as much of it as was asked for. -/
theorem bankRemove_amount {bank : List BankItem} (hwf : BankWf bank) {b : BankItem}
    (hb : b ∈ bank) (hid : b.id = id) : (bankRemove id amount bank).1 = min amount b.amount := by
  unfold bankRemove
  cases hf : bank.findIdx? (·.id == id) with
  | none => exact absurd hid (not_mem_bank_of_findIdx hf b hb)
  | some j =>
      obtain ⟨c, hc, hcid⟩ := mem_bank_of_findIdx hf
      obtain rfl : c = b := List.inj_on_of_nodup_map hwf.distinct (List.mem_of_getElem? hc) hb
        (hcid.trans hid.symm)
      simp only [hc]
      split
      · next hle => exact (Nat.min_eq_right hle).symm
      · next hlt => exact (Nat.min_eq_left (by omega)).symm

theorem bankRemove_none (amount : Nat) {bank : List BankItem} (h : ∀ b ∈ bank, b.id ≠ id) :
    (bankRemove id amount bank).1 = 0 := by
  unfold bankRemove
  cases hf : bank.findIdx? (·.id == id) with
  | none => rfl
  | some j =>
      obtain ⟨b, hb, hbid⟩ := mem_bank_of_findIdx hf
      exact absurd hbid (h b (List.mem_of_getElem? hb))

/-! ## One request -/

/-- The deposit is let through: the bank is open, the item known, the amount
held, and the entry has room, or there is a place for a new one. -/
def DepositTaken (t : ItemTable) (p : Player) (id amount : Nat) : Prop :=
  p.uiBankOpen = true ∧ amount ≤ held t id p.inventory ∧
    (∀ b ∈ p.bank, b.id = id → b.amount + amount ≤ maxStackSize) ∧
    ((∀ b ∈ p.bank, b.id ≠ id) → p.bank.length < maxBankSize)

/-- What a deposit that is let through leaves of its player. -/
def deposited (item : ItemConfig) (id amount : Nat) (p : Player) : Player :=
  { p with
    inventory := removed (·.id == id) item.weight amount p.inventory
    bank := bankAdd id amount p.bank }

theorem playerDeposit_cases (hinv : BankInv t i s) (id amount : Nat) :
    (¬ (s.get i).uiBankOpen = true ∧ playerDeposit t s i id amount = .ok s) ∨
    ((s.get i).uiBankOpen = true ∧ t.byId id = none ∧
      playerDeposit t s i id amount = .error .itemConfig) ∨
    ∃ item, t.byId id = some item ∧
      ((¬ DepositTaken t (s.get i) id amount ∧ playerDeposit t s i id amount = .ok s) ∨
      (DepositTaken t (s.get i) id amount ∧
        playerDeposit t s i id amount = .ok (s.modify i (deposited item id amount)))) := by
  unfold playerDeposit
  by_cases hui : (s.get i).uiBankOpen = true
  · right
    rw [if_neg (by simp [hui]), playerInvHeldId]
    cases hc : t.byId id with
    | none => exact .inl ⟨hui, rfl, rfl⟩
    | some item =>
        refine .inr ⟨item, rfl, ?_⟩
        simp only [invHeldId_eq hinv.inv hc]
        by_cases hheld : amount ≤ held t id (s.get i).inventory
        · rw [decide_eq_true hheld]
          simp only
          cases hf : (s.get i).bank.findIdx? (·.id == id) with
          | some j =>
              obtain ⟨b, hb, hbid⟩ := mem_bank_of_findIdx hf
              have hmem := List.mem_of_getElem? hb
              have hmax := (hinv.bank.amounts b hmem).2
              simp only [hb, Option.any_some, decide_eq_true_eq, stackRoom_eq hmax]
              split
              · next hlt =>
                left
                refine ⟨fun h => ?_, rfl⟩
                have := h.2.2.1 b hmem hbid
                omega
              · next hge =>
                right
                refine ⟨⟨hui, hheld, fun c hc hcid => ?_, fun h => absurd hbid (h b hmem)⟩, ?_⟩
                · obtain rfl : b = c := List.inj_on_of_nodup_map hinv.bank.distinct hmem hc
                    (hbid.trans hcid.symm)
                  omega
                · rw [playerInvRemoveId_eq hinv.inv hc]
                  simp only [Server.modify_modify]
                  refine congrArg Except.ok (Server.modify_congr ?_)
                  have hadd : (s.get i).bank.modify j
                        (fun b => b.setAmount ((b.amount + amount) % u32Size)) =
                      (s.get i).bank.modify j fun b => b.setAmount (b.amount + amount) := by
                    refine modify_congr_at hb ?_
                    rw [mod_u32Size (by omega)]
                  simp only [deposited, bankAdd, hf, hadd]
          | none =>
              have hnone := not_mem_bank_of_findIdx hf
              simp only
              split
              · next hlt =>
                right
                refine ⟨⟨hui, hheld, fun b hb hbid => absurd hbid (hnone b hb), fun _ => hlt⟩, ?_⟩
                rw [playerInvRemoveId_eq hinv.inv hc]
                simp only [Server.modify_modify]
                refine congrArg Except.ok (Server.modify_congr ?_)
                simp only [deposited, bankAdd, hf]
              · next hge => exact .inl ⟨fun h => hge (h.2.2.2 hnone), rfl⟩
        · rw [decide_eq_false hheld]
          exact .inl ⟨fun h => hheld h.2.1, rfl⟩
  · exact .inl ⟨hui, by rw [if_pos (by simpa using hui)]⟩

/-- The request is refused, and then no slot could have overflowed, or the
bank gives what it has and the inventory takes it. -/
theorem playerWithdraw_cases (t : ItemTable) (s : Server) (i id amount : Nat) :
    ((∀ item n, t.byId id = some item → (s.get i).uiBankOpen = true →
        HasRoom item n (s.get i).inventory) ∧ playerWithdraw t s i id amount = s) ∨
    ∃ item, t.byId id = some item ∧ (s.get i).uiBankOpen = true ∧
      playerWithdraw t s i id amount = withdrawFound s i item id amount := by
  unfold playerWithdraw
  cases hc : t.byId id with
  | none => exact .inl ⟨fun item n h => (by cases h), rfl⟩
  | some item =>
      simp only
      generalize (if item.weight = 0 then (1 : Int) else toInt32 amount) = needed
      split
      · next hui => exact .inl ⟨fun _ _ _ h => absurd (hui.symm.trans h) (by simp), rfl⟩
      · next hui =>
        have hui : (s.get i).uiBankOpen = true := by simpa using hui
        split
        · exact .inr ⟨item, rfl, hui, rfl⟩
        · next hslot =>
          split
          · refine .inl ⟨fun item' n h _ hw x hx hxid => ?_, rfl⟩
            obtain rfl := Option.some.inj h
            refine absurd ⟨hw, ?_⟩ hslot
            rw [List.any_eq_true]
            exact ⟨x, hx, by simp [hxid, ItemTable.byId_id hc]⟩
          · exact .inr ⟨item, rfl, hui, rfl⟩

/-- A deposit that is not let through in full changes nothing. -/
def Honoured (t : ItemTable) (i : Nat) (s s' : Server) : BankOp → Prop
  | .deposit id amount =>
    s' = s ∨
      bankOf id.toNat (s'.get i).bank = bankOf id.toNat (s.get i).bank + amount.toNat ∧
        held t id.toNat (s'.get i).inventory + amount.toNat = held t id.toNat (s.get i).inventory
  | .withdraw _ _ => True

/-- What a request must do: answer, keep the invariant, neither make nor lose a
unit of any item, and deposit all or nothing. -/
def BankGood (t : ItemTable) (i : Nat) (s : Server) (op : BankOp) : Prop :=
  ∃ s', bankStep t i s op = .ok s' ∧ BankInv t i s' ∧
    (∀ k, ledger t i k s' = ledger t i k s) ∧ Honoured t i s s' op

/-- When it does. A deposit must name a known item; where it is let through, a
new entry must be given a valid amount, and the removal loop must not meet all
of an unstackable item with one unit in each of the first two slots. A
withdrawal must not overflow the stack it goes to. -/
def BankOk (t : ItemTable) (i : Nat) (s : Server) : BankOp → Prop
  | .deposit id amount =>
    (s.get i).uiBankOpen = true → ∃ item, t.byId id.toNat = some item ∧
      (DepositTaken t (s.get i) id.toNat amount.toNat →
        ((∀ b ∈ (s.get i).bank, b.id ≠ id.toNat) →
          1 ≤ amount.toNat ∧ amount.toNat ≤ maxStackSize) ∧
        ¬ (item.weight ≠ 0 ∧ held t id.toNat (s.get i).inventory = amount.toNat ∧
          doubled (·.id == id.toNat) (s.get i).inventory = 1))
  | .withdraw id amount =>
    ∀ item, t.byId id.toNat = some item → (s.get i).uiBankOpen = true →
      ∀ b ∈ (s.get i).bank, b.id = id.toNat → 0 < amount.toNat →
        HasRoom item (min amount.toNat b.amount) (s.get i).inventory

/-- The removal finds what is held, but for the slot it misses. -/
theorem reach_eq_iff {inv : List InvItem} {item : ItemConfig} (hc : t.byId id = some item)
    (hheld : amount ≤ held t id inv) :
    reach t id amount inv = amount ↔
      ¬ (item.weight ≠ 0 ∧ held t id inv = amount ∧ doubled (·.id == id) inv = 1) := by
  have hst := ItemTable.stackable_of_byId hc
  unfold reach
  by_cases hw : item.weight = 0
  · simp [hst, hw]
  · have hid : t.stackable id = false := by rw [hst, decide_eq_false hw]
    have hle := doubled_le_one (·.id == id) inv
    have hlt : doubled (·.id == id) inv = 1 → 2 ≤ held t id inv := doubled_lt_held hid
    rw [if_neg (by simp [hid])]
    constructor
    · rintro h ⟨-, h1, h2⟩
      have := hlt h2
      omega
    · intro h
      by_contra hne
      exact h ⟨hw, by omega, by omega⟩

theorem depositGood_iff (hinv : BankInv t i s) (id : UInt16) (amount : UInt32) :
    BankGood t i s (.deposit id amount) ↔ BankOk t i s (.deposit id amount) := by
  have hsame : BankInv t i s ∧ (∀ k, ledger t i k s = ledger t i k s) ∧
      Honoured t i s s (.deposit id amount) := ⟨hinv, fun _ => rfl, .inl rfl⟩
  simp only [BankGood, BankOk, bankStep]
  rcases playerDeposit_cases hinv id.toNat amount.toNat with
    ⟨hui, heq⟩ | ⟨hui, hnone, heq⟩ | ⟨item, hc, ⟨hnot, heq⟩ | ⟨htaken, heq⟩⟩
  · exact ⟨fun _ h => absurd h hui, fun _ => ⟨s, heq, hsame⟩⟩
  · constructor
    · rintro ⟨s', hs', -⟩
      rw [heq] at hs'
      cases hs'
    · intro h
      obtain ⟨item, hsome, -⟩ := h hui
      rw [hnone] at hsome
      cases hsome
  · exact ⟨fun _ _ => ⟨item, hc, fun h => absurd h hnot⟩, fun _ => ⟨s, heq, hsame⟩⟩
  · have hget := Server.get_modify_self (f := deposited item id.toNat amount.toNat) hinv.live
    have hwf := bankAdd_wf amount.toNat hinv.bank htaken.2.2.1 htaken.2.2.2
    have hreach := reach_eq_iff hc htaken.2.1
    have hheld := htaken.2.1
    have hledger : ∀ k, ledger t i k (s.modify i (deposited item id.toNat amount.toNat)) +
          (if k = id.toNat then
            min (reach t id.toNat amount.toNat (s.get i).inventory)
              (held t id.toNat (s.get i).inventory) else 0) =
        ledger t i k s + if k = id.toNat then amount.toNat else 0 := by
      intro k
      simp only [ledger, hget, deposited, Server.modify_tempItems]
      rw [held_removed hinv.inv hc, bankOf_bankAdd]
      split
      · next hk =>
        rw [hk]
        omega
      · omega
    constructor
    · rintro ⟨s', hs', hinv', hsum, -⟩ _
      rw [heq] at hs'
      obtain rfl := Except.ok.inj hs'
      refine ⟨item, hc, fun _ => ⟨?_, hreach.1 ?_⟩⟩
      · have hbank := hinv'.bank
        rw [hget] at hbank
        exact hwf.1 hbank
      · have h := hledger id.toNat
        rw [hsum, if_pos rfl, if_pos rfl] at h
        have hle : reach t id.toNat amount.toNat (s.get i).inventory ≤ amount.toNat := by
          unfold reach
          split
          · exact Nat.le_refl _
          · exact Nat.min_le_left _ _
        omega
    · intro hok
      obtain ⟨item', hc', himp⟩ := hok htaken.1
      obtain rfl : item = item' := Option.some.inj (hc.symm.trans hc')
      obtain ⟨hamount, hdouble⟩ := himp htaken
      have hr := hreach.2 hdouble
      refine ⟨_, heq, ⟨Server.live_modify.2 hinv.live, ?_, ?_⟩, fun k => ?_, .inr ?_⟩
      · rw [hget]
        exact removed_wf hinv.inv
      · rw [hget]
        exact hwf.2 hamount
      · have h := hledger k
        rw [hr, Nat.min_eq_left hheld] at h
        omega
      · rw [hget]
        simp only [deposited]
        rw [bankOf_bankAdd, held_removed hinv.inv hc, if_pos rfl, if_pos rfl, hr]
        omega

/-- What came out of the bank, where anything did, is given. -/
theorem withdrawFound_eq (hlive : s.live i) (item : ItemConfig) (id amount : Nat) :
    let n := (bankRemove id amount (s.get i).bank).1
    let given := if 0 < n then invGive item n (s.get i).inventory else ((s.get i).inventory, [])
    ∃ new c, withdrawFound s i item id amount =
        { s.modify i (fun p =>
            { p with inventory := given.1, bank := (bankRemove id amount (s.get i).bank).2 }) with
          tempItems := s.tempItems ++ new, groundItemCounter := c } ∧
      ∀ k, groundOf k new = if k = item.id then given.2.sum else 0 := by
  intro n given
  let banked : Player → Player := fun p =>
    { p with bank := (bankRemove id amount (s.get i).bank).2 }
  have hget : ((s.modify i banked).get i).inventory = (s.get i).inventory := by
    rw [Server.get_modify_self hlive]
  by_cases hn : 0 < n
  · obtain ⟨new, c, heq, hnew⟩ := playerInvGive_eq (s.modify i banked) i item n
    have hgiven : given = invGive item n (s.get i).inventory := if_pos hn
    rw [Server.modify_modify, hget] at heq
    rw [hget] at hnew
    refine ⟨new, c, ?_, by rw [hgiven]; exact hnew⟩
    rw [hgiven]
    exact (if_pos hn).trans heq
  · have hgiven : given = ((s.get i).inventory, []) := if_neg hn
    refine ⟨[], s.groundItemCounter, ?_, fun k => by simp [hgiven, groundOf]⟩
    have hmod : s.modify i banked = s.modify i fun p =>
        { p with
          inventory := (s.get i).inventory
          bank := (bankRemove id amount (s.get i).bank).2 } := Server.modify_congr rfl
    rw [hgiven, List.append_nil, ← hmod]
    exact if_neg hn

/-- A gift keeps the count exactly if it fits. -/
theorem invGive_exact_iff {inv : List InvItem} {item : ItemConfig} {n : Nat}
    (hwf : InvWf t inv) (hc : t.byId id = some item) (hn : n < u32Size) :
    (∀ k, held t k (invGive item n inv).1 +
        (if k = id then (invGive item n inv).2.sum else 0) =
      held t k inv + if k = id then n else 0) ↔ HasRoom item n inv := by
  constructor
  · intro h
    by_contra hfull
    obtain ⟨hspill, hlt⟩ := held_invGive_lt hwf hc hn hfull
    have hid := h id
    rw [if_pos rfl, if_pos rfl, hspill, List.sum_nil] at hid
    omega
  · exact fun hroom k => held_invGive hc hn hroom

/-- What a withdrawal that goes ahead keeps. -/
theorem withdrawFound_good_iff (hinv : BankInv t i s) {item : ItemConfig}
    (hc : t.byId id = some item) :
    (BankInv t i (withdrawFound s i item id amount) ∧
      ∀ k, ledger t i k (withdrawFound s i item id amount) = ledger t i k s) ↔
    (0 < (bankRemove id amount (s.get i).bank).1 →
      HasRoom item (bankRemove id amount (s.get i).bank).1 (s.get i).inventory) := by
  obtain ⟨new, c, heq, hnew⟩ := withdrawFound_eq hinv.live item id amount
  have hspec := fun k => bankRemove_spec k id amount hinv.bank
  have hitem := ItemTable.byId_id hc
  generalize hn : (bankRemove id amount (s.get i).bank).1 = n at heq hnew hspec ⊢
  have hn32 : n < u32Size := by
    have h := (hspec 0).2.2.1
    unfold maxStackSize at h
    unfold u32Size
    omega
  generalize hg : (if 0 < n then invGive item n (s.get i).inventory
    else ((s.get i).inventory, [])) = given at heq hnew
  have hget : (withdrawFound s i item id amount).get i =
      { s.get i with
        inventory := given.1
        bank := (bankRemove id amount (s.get i).bank).2 } := by
    rw [heq]
    exact Server.get_modify_self hinv.live
  have hlive : (withdrawFound s i item id amount).live i := by
    rw [heq]
    exact Server.live_modify.2 hinv.live
  have hground : ∀ k, groundOf k (withdrawFound s i item id amount).tempItems =
      groundOf k s.tempItems + if k = id then given.2.sum else 0 := by
    intro k
    have h := hnew k
    rw [hitem] at h
    rw [heq, ← h]
    exact tally_append
  have hbank : BankInv t i (withdrawFound s i item id amount) := by
    refine ⟨hlive, ?_, ?_⟩
    · rw [hget, ← hg]
      simp only
      split
      · exact invGive_wf hinv.inv hc hn32
      · exact hinv.inv
    · rw [hget]
      exact (hspec 0).1
  have hledger : ∀ k, ledger t i k (withdrawFound s i item id amount) = ledger t i k s ↔
      held t k given.1 + (if k = id then given.2.sum else 0) =
        held t k (s.get i).inventory + if k = id then n else 0 := by
    intro k
    have h := (hspec k).2.2.2
    rw [ledger, ledger, hget, hground]
    simp only
    omega
  rw [and_iff_right hbank, forall_congr' hledger, ← hg]
  by_cases hpos : 0 < n
  · rw [if_pos hpos, invGive_exact_iff hinv.inv hc hn32]
    exact ⟨fun h _ => h, fun h => h hpos⟩
  · obtain rfl : n = 0 := by omega
    simp

theorem withdrawGood_iff (hinv : BankInv t i s) (id : UInt16) (amount : UInt32) :
    BankGood t i s (.withdraw id amount) ↔ BankOk t i s (.withdraw id amount) := by
  simp only [BankGood, BankOk, bankStep, Honoured, and_true, Except.ok.injEq, exists_eq_left']
  rcases playerWithdraw_cases t s i id.toNat amount.toNat with ⟨hroom, heq⟩ | ⟨item, hc, hui, heq⟩
  · rw [heq]
    exact ⟨fun _ item hc hui b _ _ _ => hroom item _ hc hui, fun _ => ⟨hinv, fun _ => rfl⟩⟩
  · rw [heq, withdrawFound_good_iff hinv hc]
    have hmin : ∀ b ∈ (s.get i).bank, b.id = id.toNat →
        (bankRemove id.toNat amount.toNat (s.get i).bank).1 = min amount.toNat b.amount :=
      fun b hb hbid => bankRemove_amount hinv.bank hb hbid
    constructor
    · intro h item' hc' _ b hb hbid hpos
      obtain rfl : item = item' := Option.some.inj (hc.symm.trans hc')
      have hone := (hinv.bank.amounts b hb).1
      rw [hmin b hb hbid] at h
      exact h (by omega)
    · intro h hpos
      by_cases hentry : ∃ b ∈ (s.get i).bank, b.id = id.toNat
      · obtain ⟨b, hb, hbid⟩ := hentry
        rw [hmin b hb hbid] at hpos ⊢
        exact h item hc hui b hb hbid (by omega)
      · have hzero := bankRemove_none amount.toNat fun b hb hbid =>
          hentry ⟨b, hb, hbid⟩
        omega

theorem bankGood_iff (hinv : BankInv t i s) (op : BankOp) :
    BankGood t i s op ↔ BankOk t i s op := by
  cases op with
  | deposit id amount => exact depositGood_iff hinv id amount
  | withdraw id amount => exact withdrawGood_iff hinv id amount

/-! ## Any sequence of requests -/

/-- From any state that satisfies the invariant, every request of a sequence
is served as it must be exactly when every request is one `BankOk` allows. -/
theorem bank_good_iff (t : ItemTable) (i : Nat) (ops : List BankOp) {s : Server}
    (hinv : BankInv t i s) :
    Along (bankStep t i) (BankGood t i) s ops ↔ Along (bankStep t i) (BankOk t i) s ops := by
  refine along_congr (I := BankInv t i) (fun s op h => bankGood_iff h op) ?_ ops hinv
  rintro s op s' - ⟨s'', hs'', hinv', -⟩ hs'
  obtain rfl := Except.ok.inj (hs''.symm.trans hs')
  exact hinv'

/-- One player at the bank counter. -/
def atBank (inventory : List InvItem) (bank : List BankItem) : Server :=
  { players := fun j => if j = 0 then
      some { uiBankOpen := true, inventory := inventory, bank := bank } else none }

theorem atBank_inv {inventory : List InvItem} {bank : List BankItem}
    (hinv : InvWf smallTable inventory) (hbank : BankWf bank) :
    BankInv smallTable 0 (atBank inventory bank) := ⟨rfl, hinv, hbank⟩

theorem bank_good_iff_coins :
    Along (bankStep smallTable 0) (BankGood smallTable 0)
      (atBank [{ id := 0, stack := 10 }] [⟨0, 5⟩]) [.deposit 0 4, .withdraw 0 7] := by
  refine (bank_good_iff smallTable 0 _ (atBank_inv ?_ ?_)).2 ⟨?_, ?_⟩
  · exact ⟨by decide, by decide⟩
  · exact ⟨by decide, by decide, by decide⟩
  · intro _
    exact ⟨_, rfl, fun _ => ⟨fun _ => by decide, by decide⟩⟩
  · intro s' hs'
    obtain rfl := Except.ok.inj hs'
    refine ⟨?_, fun _ _ => trivial⟩
    intro item _ _ b hb _ _ _ x hx _
    have hb : b ∈ [(⟨0, 9⟩ : BankItem)] := hb
    have hx : x ∈ [(⟨0, 6, false⟩ : InvItem)] := hx
    obtain rfl := List.mem_singleton.1 hb
    obtain rfl := List.mem_singleton.1 hx
    decide

/-- Two logs in the first two slots, both deposited: the bank gets two and one
stays in the inventory. -/
theorem deposit_duplicates :
    ¬ ∀ (t : ItemTable) (i : Nat) (s : Server) (ops : List BankOp), BankInv t i s →
      Along (bankStep t i) (BankGood t i) s ops := by
  intro hall
  have hinv : BankInv smallTable 0
      (atBank [{ id := 1, stack := 1 }, { id := 1, stack := 1 }] []) :=
    atBank_inv ⟨by decide, by decide⟩ ⟨by decide, by decide, by decide⟩
  obtain ⟨⟨s', hs', -, hsum, -⟩, -⟩ := hall smallTable 0 _ [.deposit 1 2] hinv
  obtain rfl := Except.ok.inj hs'
  exact absurd (hsum 1) (by decide)

end Sundae.Proofs
