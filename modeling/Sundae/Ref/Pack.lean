import Sundae.Lib.Smart
import Sundae.Ref.Bank
import Sundae.Ref.View

/-!
# What a client is told it has

`buf_putsmartu32`, `player_send_inv` and `player_send_show_bank`, what a client
reads of their packets, and what happens to a player's inventory and bank.
-/

namespace Sundae.Ref

open Sundae.Lib

def opSrvBankShow : UInt8 := 222
def opSrvInventory : UInt8 := 252

/-- `buf_putsmartu32`, which returns the offset behind what it has put. -/
def bufPutsmartu32 (b : List UInt8) (offset buflen n : Nat) : Option (List UInt8 × Nat) :=
  if n < 128 then (bufPutu8 b offset buflen (UInt8.ofNat n)).map fun b => (b, offset + 1)
  else if buflen < offset + 4 then none
  else
    let b := b.set offset (UInt8.ofNat (n / 16777216 + 128))
    let b := b.set (offset + 1) (UInt8.ofNat (n / 65536))
    let b := b.set (offset + 2) (UInt8.ofNat (n / 256))
    some (b.set (offset + 3) (UInt8.ofNat n), offset + 4)

def Draft.putsmartu32 (d : Draft) (n : Nat) : Option Draft :=
  (bufPutsmartu32 d.tmpbuf d.offset playerBufsize n).map fun (b, offset) =>
    { d with tmpbuf := b, offset := offset }

/-- A byte of the header, for which there is always room. -/
def Draft.putHeader (d : Draft) (x : UInt8) : Draft := (d.putu8 x).getD d

/-- One slot: `id += 0x8000` if it is worn, and how many if they stack. -/
def putInvItem (t : ItemTable) (d : Draft) (x : InvItem) : Option Draft :=
  match d.putu16 (if x.worn then x.id + 0x8000 else x.id) with
  | none => none
  | some d =>
    match t.byId x.id with
    | none => none
    | some item => if item.weight = 0 then d.putsmartu32 x.stack else some d

def putBankItem (d : Draft) (b : BankItem) : Option Draft :=
  match d.putu16 b.id with
  | none => none
  | some d => d.putsmartu32 b.amount

/-- `for (int i = 0; i < count; ++i)` -/
def putEach (put : Draft → α → Option Draft) : Draft → List α → Option Draft
  | d, [] => some d
  | d, a :: rest =>
    match put d a with
    | none => none
    | some d => putEach put d rest

/-- The packet `player_send_inv` writes; `none` is a `-1` before it does. -/
def invPacket (t : ItemTable) (tmpbuf : List UInt8) (inventory : List InvItem) :
    Option (List UInt8) :=
  let d := (Draft.opened tmpbuf opSrvInventory).putHeader (UInt8.ofNat inventory.length)
  (putEach (putInvItem t) d inventory).map Draft.payload

/-- The packet `player_send_show_bank` writes. -/
def bankPacket (protocolRev : Nat) (tmpbuf : List UInt8) (bank : List BankItem) :
    Option (List UInt8) :=
  let d := (Draft.opened tmpbuf opSrvBankShow).putHeader (UInt8.ofNat bank.length)
  let d := if 124 < protocolRev then d.putHeader (UInt8.ofNat maxBankSize) else d
  (putEach putBankItem d bank).map Draft.payload

/-! ## The client -/

def readU16 : List UInt8 → Option (Nat × List UInt8)
  | high :: low :: rest => some (high.toNat * 256 + low.toNat, rest)
  | _ => none

/-- A slot: the top bit of the id says that it is worn, and of what stacks there
is a quantity. -/
def readInvItem (stackable : Nat → Bool) (bytes : List UInt8) : Option (InvItem × List UInt8) :=
  match readU16 bytes with
  | none => none
  | some (id, rest) =>
    let worn := decide (0x8000 ≤ id)
    let id := id % 0x8000
    if stackable id then (readSmart rest).map fun (n, rest) => (⟨id, n, worn⟩, rest)
    else some (⟨id, 1, worn⟩, rest)

def readBankItem (bytes : List UInt8) : Option (BankItem × List UInt8) :=
  match readU16 bytes with
  | none => none
  | some (id, rest) => (readSmart rest).map fun (n, rest) => (⟨id, n⟩, rest)

/-- What a client has in its inventory after an `OP_SRV_INVENTORY` packet. -/
def readInv (stackable : Nat → Bool) : List UInt8 → Option (List InvItem)
  | _ :: count :: rest => (readMany (readInvItem stackable) count.toNat rest).map Prod.fst
  | _ => none

/-- And in its bank after an `OP_SRV_BANK_SHOW` packet. -/
def readBank (protocolRev : Nat) : List UInt8 → Option (List BankItem)
  | _ :: count :: rest =>
    (readMany readBankItem count.toNat (if 124 < protocolRev then rest.drop 1 else rest)).map
      Prod.fst
  | _ => none

/-! ## What happens -/

/-- A gift, whoever makes it; items taken away, by id or by name; something put on
or off; and what happens at the bank counter. -/
inductive PackEvent where
  | give (id : Nat) (count : UInt32)
  | removeId (id : Nat) (count : UInt32)
  | remove (name : List Char) (count : UInt32)
  | wear (slot : Nat) (worn : Bool)
  | deposit (id : UInt16) (amount : UInt32)
  | withdraw (id : UInt16) (amount : UInt32)
  | bankOpen (shown : Bool)

/-- It happens to the player in slot `i`. -/
def packStep (t : ItemTable) (i : Nat) (s : Server) : PackEvent → Except Assert Server
  | .give id count =>
    match t.byId id with
    | none => .ok s
    | some item => .ok (playerInvGive s i item count.toNat)
  | .removeId id count => playerInvRemoveId t s i id count.toNat
  | .remove name count => playerInvRemove t s i name count.toNat
  | .wear slot worn => .ok (s.modify i fun p =>
      { p with inventory := p.inventory.modify slot fun x => { x with worn := worn } })
  | .deposit id amount => playerDeposit t s i id.toNat amount.toNat
  | .withdraw id amount => .ok (playerWithdraw t s i id.toNat amount.toNat)
  | .bankOpen shown => .ok (s.modify i fun p => { p with uiBankOpen := shown })

end Sundae.Ref
