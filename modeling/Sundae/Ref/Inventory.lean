import Sundae.Ref.Ground

/-!
# The inventory

`inventory.c`. The loops work on the list of slots; `playerInvGive` and the
rest lift them to the player in a server slot.
-/

namespace Sundae.Ref

/-- `name_match`, which asserts that the slot's item has a config. -/
def nameMatch (t : ItemTable) (id : Nat) (name : List Char) : Except Assert Bool :=
  match t.byId id with
  | none => .error .itemConfig
  | some config => .ok (config.names.any (strcasecmp name ·))

/-- The first slot that hits. -/
def findSlot (hit : InvItem → Except Assert Bool) : List InvItem → Except Assert (Option Nat)
  | [] => .ok none
  | x :: inv =>
    match hit x with
    | .error a => .error a
    | .ok true => .ok (some 0)
    | .ok false =>
      match findSlot hit inv with
      | .error a => .error a
      | .ok found => .ok (found.map (· + 1))

/-! ## Giving -/

/-- `uint32_t new_stack = inventory[i].stack + count`, saturating at
`MAX_STACK_SIZE`. -/
def addStack (count : Nat) (x : InvItem) : InvItem :=
  let newStack := (x.stack + count) % u32Size
  if maxStackSize < newStack ∨ newStack < x.stack then x.setStack maxStackSize
  else x.setStack newStack

/-- One unit to a slot until the inventory is full; what spills is the list of
stacks put on the ground. -/
def giveUnits (id : Nat) : Nat → List InvItem → List InvItem × List Nat
  | 0, inv => (inv, [])
  | n + 1, inv =>
    if inv.length < maxInvSize then giveUnits id n (inv ++ [{ id := id, stack := 1 }])
    else ((giveUnits id n inv).1, 1 :: (giveUnits id n inv).2)

/-- The loops of `player_inv_give`. -/
def invGive (item : ItemConfig) (count : Nat) (inv : List InvItem) : List InvItem × List Nat :=
  if item.weight = 0 then
    match inv.findIdx? (·.id == item.id) with
    | some k => (inv.modify k (addStack count), [])
    | none =>
      if maxInvSize ≤ inv.length then (inv, [count])
      else (inv ++ [{ id := item.id, stack := count }], [])
  else giveUnits item.id count inv

def playerInvGive (s : Server) (i : Nat) (item : ItemConfig) (count : Nat) : Server :=
  let p := s.get i
  let (inv, spill) := invGive item count p.inventory
  addTempItems (some i) p.mob.x p.mob.y item.id spill
    (s.modify i fun p => { p with inventory := inv })

/-! ## Removing -/

/-- `player_recalculate_equip` asserts that whatever is worn has a config. -/
def equipKnown (t : ItemTable) (inv : List InvItem) : Bool :=
  inv.all fun x => !x.worn || (t.byId x.id).isSome

/-- The second loop of `player_inv_remove` and `player_inv_remove_id` with
`left` removals to go, its index at `i`. A removal sets the index to 0 and the
loop's own increment takes it to 1. -/
def removeSlots (t : ItemTable) (hit : InvItem → Except Assert Bool) :
    Nat → Nat → List InvItem → Except Assert (List InvItem)
  | 0, _, inv => .ok inv
  | left + 1, i, inv =>
    match findSlot hit (inv.drop i) with
    | .error a => .error a
    | .ok none => .ok inv
    | .ok (some k) =>
      let wasWorn := inv[i + k]?.any (·.worn)
      let inv := inv.eraseIdx (i + k)
      if wasWorn && !equipKnown t inv then .error .itemConfig
      else removeSlots t hit left 1 inv

/-- `player_inv_remove` and `player_inv_remove_id` after the item lookup: they
differ in which slots hit. -/
def invRemove (t : ItemTable) (hit : InvItem → Except Assert Bool) (weight count : Nat)
    (inv : List InvItem) : Except Assert (List InvItem) :=
  if weight = 0 then
    match findSlot hit inv with
    | .error a => .error a
    | .ok none => removeSlots t hit count 0 inv
    | .ok (some k) =>
      if inv[k]?.any (count < ·.stack) then
        .ok (inv.modify k fun x => x.setStack (x.stack - count))
      else removeSlots t hit 1 0 inv
  else removeSlots t hit count 0 inv

def playerInvRemove (t : ItemTable) (s : Server) (i : Nat) (name : List Char) (count : Nat) :
    Except Assert Server :=
  match t.byName name with
  | none => .error .itemConfig
  | some item =>
    match invRemove t (fun x => nameMatch t x.id name) item.weight count (s.get i).inventory with
    | .error a => .error a
    | .ok inv => .ok (s.modify i fun p => { p with inventory := inv })

def playerInvRemoveId (t : ItemTable) (s : Server) (i id count : Nat) : Except Assert Server :=
  match t.byId id with
  | none => .error .itemConfig
  | some item =>
    match invRemove t (fun x => .ok (x.id == id)) item.weight count (s.get i).inventory with
    | .error a => .error a
    | .ok inv => .ok (s.modify i fun p => { p with inventory := inv })

/-- `inventory[slot].stack`, read when the slots that were `old` are `inv`. The
loops that move slots down write none from the new `inv_count` on. -/
def stackRead (old inv : List InvItem) (slot : Nat) : Nat :=
  match inv[slot]? with
  | some x => x.stack
  | none => (old[slot]?.map InvItem.stack).getD 0

/-! ## Asking -/

/-- The loop of `player_inv_held`, with `found` slots counted so far. -/
def heldLoop (t : ItemTable) (name : List Char) (count : Nat) :
    Nat → List InvItem → Except Assert Bool
  | found, [] => .ok (count ≤ found)
  | found, x :: inv =>
    match nameMatch t x.id name with
    | .error a => .error a
    | .ok false => heldLoop t name count found inv
    | .ok true =>
      match t.byId x.id with
      | none => .error .itemConfig
      | some item =>
        if item.weight = 0 then .ok (count ≤ x.stack) else heldLoop t name count (found + 1) inv

def playerInvHeld (t : ItemTable) (s : Server) (i : Nat) (name : List Char) (count : Nat) :
    Except Assert Bool :=
  heldLoop t name count 0 (s.get i).inventory

/-- `player_inv_held_id` on the slots. -/
def invHeldId (item : ItemConfig) (id count : Nat) (inv : List InvItem) : Bool :=
  if item.weight = 0 then
    match inv.find? (·.id == id) with
    | some x => count ≤ x.stack
    | none => count ≤ 0
  else count ≤ inv.countP (·.id == id)

def playerInvHeldId (t : ItemTable) (s : Server) (i id count : Nat) : Except Assert Bool :=
  match t.byId id with
  | none => .error .itemConfig
  | some item => .ok (invHeldId item id count (s.get i).inventory)

end Sundae.Ref
