import Sundae.Ref.Inventory

/-!
# The bank

`bank.c`.
-/

namespace Sundae.Ref

/-- A `uint32_t` value converted to `int`. -/
def toInt32 (n : Nat) : Int := if n ≤ maxStackSize then n else (n : Int) - u32Size

/-- `MAX_STACK_SIZE - amount`, of a `uint32_t`. -/
def stackRoom (amount : Nat) : Nat := (u32Size + maxStackSize - amount) % u32Size

def playerDeposit (t : ItemTable) (s : Server) (i id amount : Nat) : Except Assert Server :=
  if (s.get i).uiBankOpen = false then .ok s
  else
    match playerInvHeldId t s i id amount with
    | .error a => .error a
    | .ok false => .ok s
    | .ok true =>
      match (s.get i).bank.findIdx? (·.id == id) with
      | some k =>
        if (s.get i).bank[k]?.any (stackRoom ·.amount < amount) then .ok s
        else
          match playerInvRemoveId t s i id amount with
          | .error a => .error a
          | .ok s => .ok (s.modify i fun p => { p with
              bank := p.bank.modify k fun b => b.setAmount ((b.amount + amount) % u32Size) })
      | none =>
        if (s.get i).bank.length < maxBankSize then
          match playerInvRemoveId t s i id amount with
          | .error a => .error a
          | .ok s => .ok (s.modify i fun p => { p with bank := p.bank ++ [⟨id, amount⟩] })
        else .ok s

/-- `player_bank_remove` on the entries: what it returns and what it leaves. -/
def bankRemove (id amount : Nat) (bank : List BankItem) : Nat × List BankItem :=
  match bank.findIdx? (·.id == id) with
  | none => (0, bank)
  | some k =>
    match bank[k]? with
    | none => (0, bank)
    | some b =>
      if b.amount ≤ amount then (b.amount, bank.eraseIdx k)
      else (amount, bank.modify k fun b => b.setAmount (b.amount - amount))

/-- Take from the bank and give what came out. -/
def withdrawFound (s : Server) (i : Nat) (config : ItemConfig) (id amount : Nat) : Server :=
  let (amount, bank) := bankRemove id amount (s.get i).bank
  let s := s.modify i fun p => { p with bank := bank }
  if 0 < amount then playerInvGive s i config amount else s

def playerWithdraw (t : ItemTable) (s : Server) (i id amount : Nat) : Server :=
  match t.byId id with
  | none => s
  | some config =>
    let p := s.get i
    if p.uiBankOpen = false then s
    else if config.weight = 0 ∧ p.inventory.any (·.id == id) then
      withdrawFound s i config id amount
    else
      let neededSpace : Int := if config.weight = 0 then 1 else toInt32 amount
      -- "You don't have room to hold everything!"
      if (maxInvSize : Int) - p.inventory.length < neededSpace then s
      else withdrawFound s i config id amount

end Sundae.Ref
