import Sundae.Ref.Equip
import Sundae.Ref.Pack

/-!
# What a client is told of its slots

`player_send_inv_slot` and `player_send_inv_remove`, and the functions of
`inventory.c` and `player.c` that call them, with what they write. The whole
inventory is written at the end of a tick in which `inv_changed` was set.
-/

namespace Sundae.Ref

open Sundae.Lib

def opSrvInventoryRemove : UInt8 := 212
def opSrvInventoryItem : UInt8 := 213

/-- A player and its side of the connection, with the packets that have been placed
in its buffer, in that order. For the record, `lost` is whether one has been
refused since the whole inventory was written. -/
structure Post where
  player : EquipPlayer := newEquipPlayer
  invChanged : Bool := false
  tmpbuf : List UInt8
  isaacOut : Nat → UInt32
  out : Outgoing
  sent : List (List UInt8) := []
  lost : Bool := false

namespace Post

def inventory (s : Post) : List InvItem := s.player.inventory

def setInventory (s : Post) (inv : List InvItem) : Post :=
  { s with player := { s.player with inventory := inv } }

/-- `player_write_packet` of what is in `tmpbuf`; nobody looks at what it returns. -/
def write (s : Post) (d : Draft) : Post :=
  let (out, placed) := playerWritePacket s.isaacOut s.out d.payload
  { s with
    tmpbuf := d.tmpbuf
    out := out
    sent := if placed.isSome then s.sent ++ [d.payload] else s.sent
    lost := s.lost || placed.isNone }

/-! ## outgoing.c -/

/-- `player_send_inv`; a `-1` is before anything is written. -/
def playerSendInv (t : ItemTable) (s : Post) : Post :=
  let d := (Draft.opened s.tmpbuf opSrvInventory).putHeader (UInt8.ofNat s.inventory.length)
  match putEach (putInvItem t) d s.inventory with
  | none => { s with lost := true }
  | some d => { s with lost := false }.write d

/-- `player_send_inv_slot`, of a slot that there is. What the writes return is not
looked at. -/
def playerSendInvSlot (t : ItemTable) (s : Post) (slot : Nat) : Post :=
  match s.inventory[slot]? with
  | none => s
  | some x =>
    let d := (Draft.opened s.tmpbuf opSrvInventoryItem).putHeader (UInt8.ofNat slot)
    let d := (d.putu16 (if x.worn then x.id + 0x8000 else x.id)).getD d
    s.write (if t.stackable x.id then (d.putsmartu32 x.stack).getD d else d)

def playerSendInvRemove (s : Post) (slot : Nat) : Post :=
  s.write ((Draft.opened s.tmpbuf opSrvInventoryRemove).putHeader (UInt8.ofNat slot))

/-! ## inventory.c -/

/-- An item is put behind the last slot. -/
def append (t : ItemTable) (s : Post) (x : InvItem) : Post :=
  (s.setInventory (s.inventory ++ [x])).playerSendInvSlot t s.inventory.length

/-- `for (unsigned i = 0; i < count; ++i)`; what does not fit is dropped. -/
def giveUnits (t : ItemTable) (id : Nat) : Nat → Post → Post
  | 0, s => s
  | n + 1, s =>
    if s.inventory.length < maxInvSize then
      giveUnits t id n (s.append t { id := id, stack := 1 })
    else giveUnits t id n s

def playerInvGive (t : ItemTable) (s : Post) (item : ItemConfig) (count : Nat) : Post :=
  if item.weight = 0 then
    match s.inventory.findIdx? (·.id == item.id) with
    | some k => (s.setInventory (s.inventory.modify k (addStack count))).playerSendInvSlot t k
    | none =>
      if maxInvSize ≤ s.inventory.length then s
      else s.append t { id := item.id, stack := count }
  else giveUnits t item.id count s

/-- One slot is taken out. -/
def removeSlot (t : GearTable) (s : Post) (k : Nat) : Except Assert Post :=
  let wasWorn := s.inventory[k]?.any (·.worn)
  let s := (s.setInventory (s.inventory.eraseIdx k)).playerSendInvRemove k
  if wasWorn then
    match playerRecalculateEquip t s.player with
    | .error a => .error a
    | .ok p => .ok { s with player := p }
  else .ok s

/-- The second loop of `player_inv_remove` and `player_inv_remove_id`. -/
def removeSlots (t : GearTable) (hit : InvItem → Except Assert Bool) :
    Nat → Nat → Post → Except Assert Post
  | 0, _, s => .ok s
  | left + 1, i, s =>
    match findSlot hit (s.inventory.drop i) with
    | .error a => .error a
    | .ok none => .ok s
    | .ok (some k) =>
      match s.removeSlot t (i + k) with
      | .error a => .error a
      | .ok s => removeSlots t hit left 1 s

def removeHits (t : GearTable) (hit : InvItem → Except Assert Bool) (weight count : Nat)
    (s : Post) : Except Assert Post :=
  if weight = 0 then
    match findSlot hit s.inventory with
    | .error a => .error a
    | .ok none => removeSlots t hit count 0 s
    | .ok (some k) =>
      if s.inventory[k]?.any (count < ·.stack) then
        .ok ((s.setInventory (s.inventory.modify k fun x =>
          x.setStack (x.stack - count))).playerSendInvSlot t.toItemTable k)
      else removeSlots t hit 1 0 s
  else removeSlots t hit count 0 s

def playerInvRemove (t : GearTable) (s : Post) (name : List Char) (count : Nat) :
    Except Assert Post :=
  match t.byName name with
  | none => .error .itemConfig
  | some item => s.removeHits t (fun x => nameMatch t.toItemTable x.id name) item.weight count

def playerInvRemoveId (t : GearTable) (s : Post) (id count : Nat) : Except Assert Post :=
  match t.byId id with
  | none => .error .itemConfig
  | some item => s.removeHits t (fun x => .ok (x.id == id)) item.weight count

/-- `player_inv_clear`, which writes nothing yet. -/
def playerInvClear (s : Post) : Post := { s.setInventory [] with invChanged := true }

/-! ## player.c -/

/-- The loop of `player_wear` over the other slots, with `left` of them to go from
`i`. -/
def wearLoop (t : GearTable) (itemType slot : Nat) : Nat → Nat → Post → Post
  | 0, _, s => s
  | left + 1, i, s =>
    match s.inventory[i]? with
    | none => s
    | some x =>
      let y := clearSlot t itemType slot i x
      if y = x then wearLoop t itemType slot left (i + 1) s
      else
        wearLoop t itemType slot left (i + 1)
          ((s.setInventory (s.inventory.set i y)).playerSendInvSlot t.toItemTable i)

/-- The end of `player_wear` and `player_unwear`. -/
def setWorn (t : GearTable) (s : Post) (slot : Nat) (worn : Bool) : Except Assert Post :=
  let s := s.setInventory (s.inventory.modify slot fun y => { y with worn := worn })
  match playerRecalculateEquip t s.player with
  | .error a => .error a
  | .ok p => .ok ({ s with player := p }.playerSendInvSlot t.toItemTable slot)

def playerWear (t : GearTable) (allowed : Bool) (s : Post) (slot : Nat) : Except Assert Post :=
  match wearable t s.player slot with
  | none => .ok s
  | some x =>
    if allowed then
      (wearLoop t (t.gear x.id).equipType slot s.inventory.length 0 s).setWorn t slot true
    else .ok s

def playerUnwear (t : GearTable) (s : Post) (slot : Nat) : Except Assert Post :=
  match wearable t s.player slot with
  | none => .ok s
  | some _ => s.setWorn t slot false

/-- `ACTION_INV_DROP` -/
def drop (t : GearTable) (s : Post) (slot : Nat) : Except Assert Post :=
  match s.inventory[slot]? with
  | none => .ok s
  | some x => s.playerInvRemoveId t x.id x.stack

/-- `while (p->inv_count > kept_max)` -/
def dropLowest (t : GearTable) (keptMax : Nat) : Nat → Post → Except Assert Post
  | 0, s => .ok s
  | n + 1, s =>
    if s.inventory.length ≤ keptMax then .ok s
    else
      match (lowestSlot t s.inventory).bind (s.inventory[·]?) with
      | none => .ok s
      | some x =>
        match s.playerInvRemoveId t x.id (if t.stackable x.id then x.stack else 1) with
        | .error a => .error a
        | .ok s => dropLowest t keptMax n s

/-- The loop over what is kept. -/
def keepOne (t : GearTable) : Nat → Nat → Post → Except Assert Post
  | 0, _, s => .ok s
  | n + 1, i, s =>
    match s.inventory[i]? with
    | none => .ok s
    | some x =>
      match t.byId x.id with
      | none => .error .itemConfig
      | some item =>
        if item.weight = 0 ∧ 1 < x.stack then
          match s.playerInvRemoveId t x.id (x.stack - 1) with
          | .error a => .error a
          | .ok s => keepOne t n (i + 1) s
        else keepOne t n (i + 1) s

/-- `player_die` -/
def playerDie (t : GearTable) (skulled protectItem : Bool) (s : Post) : Except Assert Post :=
  let keptMax := (if skulled then 0 else 3) + if protectItem then 1 else 0
  match dropLowest t keptMax s.inventory.length s with
  | .error a => .error a
  | .ok s =>
    keepOne t s.inventory.length 0 { s with player := { s.player with appearanceChanged := true } }

/-- `server_tick` with the flag. -/
def tick (t : ItemTable) (s : Post) : Post :=
  { (if s.invChanged then s.playerSendInv t else s) with invChanged := false }

end Post

/-! ## The client -/

/-- A slot is written over, or is one more; the slots between are as they come. -/
def putSlot (inv : List InvItem) (slot : Nat) (x : InvItem) : List InvItem :=
  if slot < inv.length then inv.set slot x
  else inv ++ List.replicate (slot - inv.length) ⟨0, 0, false⟩ ++ [x]

/-- What a client has after one of the three packets. -/
def readUpdate (stackable : Nat → Bool) (inv : List InvItem) : List UInt8 → List InvItem
  | opcode :: slot :: rest =>
    if opcode = opSrvInventory then (readInv stackable (opcode :: slot :: rest)).getD inv
    else if opcode = opSrvInventoryItem then
      (readInvItem stackable rest).elim inv fun (x, _) => putSlot inv slot.toNat x
    else if opcode = opSrvInventoryRemove then inv.eraseIdx slot.toNat
    else inv
  | _ => inv

/-- What a client has after packets. -/
def readUpdates (stackable : Nat → Bool) (inv : List InvItem) (sent : List (List UInt8)) :
    List InvItem := sent.foldl (readUpdate stackable) inv

/-! ## What happens -/

/-- A player and its client. -/
structure Slots where
  post : Post
  savedInventory : List InvItem := []
  client : List InvItem := []

/-- The client reads what has been written. -/
def Slots.deliver (t : ItemTable) (w : Slots) (r : Except Assert Post) : Except Assert Slots :=
  match r with
  | .error a => .error a
  | .ok s => .ok { w with
      post := { s with sent := [] }
      client := readUpdates t.stackable w.client s.sent }

/-- What happens to an inventory, and the end of a tick. A login is of a new client
that has nothing, and `output` is whatever is done to the player's side of the
connection in between. -/
inductive SlotEvent where
  | wear (slot : Nat) (allowed : Bool)
  | unwear (slot : Nat)
  | give (item : ItemConfig) (count : UInt32)
  | remove (name : List Char) (count : UInt32)
  | removeId (id : Nat) (count : UInt32)
  | drop (slot : Nat)
  | die (skulled protectItem : Bool)
  | clear
  | tick
  | save
  | login
  | output (isaacOut : Nat → UInt32) (out : Outgoing)

/-- What a step does to the player, without the packets. -/
def SlotEvent.equip : SlotEvent → Option EquipEvent
  | .wear slot allowed => some (.wear slot allowed)
  | .unwear slot => some (.unwear slot)
  | .give item count => some (.give item count.toNat)
  | .remove name count => some (.remove name count.toNat)
  | .removeId id count => some (.removeId id count.toNat)
  | .drop slot => some (.drop slot)
  | .die skulled protectItem => some (.die skulled protectItem)
  | .clear | .tick | .save | .login | .output _ _ => none

def slotStep (t : GearTable) (w : Slots) : SlotEvent → Except Assert Slots
  | .wear slot allowed => w.deliver t.toItemTable (w.post.playerWear t allowed slot)
  | .unwear slot => w.deliver t.toItemTable (w.post.playerUnwear t slot)
  | .give item count =>
    w.deliver t.toItemTable (.ok (w.post.playerInvGive t.toItemTable item count.toNat))
  | .remove name count => w.deliver t.toItemTable (w.post.playerInvRemove t name count.toNat)
  | .removeId id count => w.deliver t.toItemTable (w.post.playerInvRemoveId t id count.toNat)
  | .drop slot => w.deliver t.toItemTable (w.post.drop t slot)
  | .die skulled protectItem => w.deliver t.toItemTable (w.post.playerDie t skulled protectItem)
  | .clear => w.deliver t.toItemTable (.ok w.post.playerInvClear)
  | .tick => w.deliver t.toItemTable (.ok (w.post.tick t.toItemTable))
  | .save => .ok { w with savedInventory := w.post.inventory }
  | .login => .ok { w with
      post := { (w.post.setInventory w.savedInventory) with invChanged := true, sent := [] }
      client := [] }
  | .output isaacOut out => .ok { w with
      post := { w.post with isaacOut := isaacOut, out := out } }

end Sundae.Ref
