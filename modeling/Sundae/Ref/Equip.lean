import Mathlib.Data.Fintype.Defs
import Mathlib.Data.Fintype.Sets
import Sundae.Ref.Design
import Sundae.Ref.Inventory

/-!
# Equipment

`item_equip_clear` of `config.c`, `player_recalculate_equip`, `player_wear`,
`player_unwear` and the inventory's part of `player_die` of `player.c`, and
`inventory.c` once more with the call of `player_recalculate_equip` that its
removals make. A player here is what these functions read and write of one.
-/

namespace Sundae.Ref

def equipTypeShield : Nat := 0x0008
def equipTypeWeapon : Nat := 0x0010
def equipTypeWeaponOff : Nat := 0x0018
def equipTypeHead : Nat := 0x0020
def equipTypeHeadFull : Nat := 0x0021
def equipTypeTorso : Nat := 0x0040
def equipTypeTorsoFull : Nat := 0x0142
def equipTypeHands : Nat := 0x0100
def equipTypeLegs : Nat := 0x0080
def equipTypeLegsFull : Nat := 0x0284
def equipTypeShoes : Nat := 0x0200
def equipTypeNeck : Nat := 0x0400
def equipTypeBack : Nat := 0x0800

/-- `(equip_type & basic_type) != 0` -/
def hasType (equipType basicType : Nat) : Bool := equipType &&& basicType != 0

/-- The `basic_types` of `item_equip_clear`. -/
def basicTypes : List Nat :=
  [equipTypeShield, equipTypeWeapon, equipTypeHead, equipTypeTorso, equipTypeNeck,
    equipTypeHands, equipTypeLegs, equipTypeShoes, equipTypeBack]

def itemEquipClear (itemType equipType : Nat) : Bool :=
  basicTypes.any fun b => hasType itemType b && hasType equipType b

/-- `enum animslot` -/
inductive AnimSlot where
  | head | body | legs | offhand | hand | hat | shirt | trousers | neck | shoes | gloves | back
  deriving DecidableEq, Repr

instance : Fintype AnimSlot where
  elems := {.head, .body, .legs, .offhand, .hand, .hat, .shirt, .trousers, .neck, .shoes, .gloves,
    .back}
  complete := by
    intro slot
    cases slot <;> simp

/-- What `struct item_config` has for wearing. -/
structure Gear where
  equipType : Nat := 0
  entitySprite : Nat := 0
  bonusAim : Nat := 0
  bonusArmour : Nat := 0
  bonusMagic : Nat := 0
  bonusPower : Nat := 0
  bonusPrayer : Nat := 0
  projectile : List Char := ['_']

/-- The item table with what its records have for wearing and their value, and
the names of the projectiles. -/
structure GearTable extends ItemTable where
  gear : Nat → Gear
  value : Nat → Nat
  projectiles : List (List Char)

/-- `server_find_projectile`, as an index. -/
def serverFindProjectile (t : GearTable) (name : List Char) : Option Nat :=
  if name.head? = some '_' then none else t.projectiles.findIdx? (strcasecmp · name)

/-- What `player_recalculate_equip` computes. -/
structure Equipped where
  bonusArmour : Nat := 1
  bonusWeaponaim : Nat := 1
  bonusWeaponpower : Nat := 1
  bonusMagic : Nat := 1
  bonusPrayer : Nat := 1
  projectile : Option Nat := none
  sprites : AnimSlot → Nat
  deriving DecidableEq

def Equipped.setSprite (e : Equipped) (slot : AnimSlot) (sprite : Nat) : Equipped :=
  { e with sprites := fun k => if k = slot then sprite else e.sprites k }

structure EquipPlayer where
  inventory : List InvItem := []
  spritesBase : AnimSlot → Nat
  equipped : Equipped
  bonusChanged : Bool := false
  appearanceChanged : Bool := false
  /-- no field of the source: `player_recalculate_equip` has run -/
  recalculated : Bool := false

/-! ## The caches -/

/-- The slot a worn item is drawn in. -/
def spriteSlot (equipType : Nat) : Option AnimSlot :=
  -- bows go in the shield slot
  if equipType = equipTypeWeaponOff then some .offhand
  else if hasType equipType equipTypeWeapon then some .hand
  else if hasType equipType equipTypeShield then some .offhand
  else if hasType equipType equipTypeHead then some .hat
  else if hasType equipType equipTypeTorso then some .shirt
  else if hasType equipType equipTypeHands then some .gloves
  else if hasType equipType equipTypeLegs then some .trousers
  else if hasType equipType equipTypeShoes then some .shoes
  else if hasType equipType equipTypeNeck then some .neck
  else if hasType equipType equipTypeBack then some .back
  else none

/-- The part of the body a worn item covers. -/
def coveredSlot (equipType : Nat) : Option AnimSlot :=
  if equipType = equipTypeHeadFull then some .head
  else if equipType = equipTypeTorsoFull then some .body
  else if equipType = equipTypeLegsFull then some .legs
  else none

/-- One worn item; the bonuses and sprites are `uint8_t`. -/
def addGear (t : GearTable) (e : Equipped) (item : Gear) : Equipped :=
  let e := { e with
    projectile := (serverFindProjectile t item.projectile).or e.projectile
    bonusArmour := (e.bonusArmour + item.bonusArmour) % 256
    bonusWeaponaim := (e.bonusWeaponaim + item.bonusAim) % 256
    bonusWeaponpower := (e.bonusWeaponpower + item.bonusPower) % 256
    bonusMagic := (e.bonusMagic + item.bonusMagic) % 256
    bonusPrayer := (e.bonusPrayer + item.bonusPrayer) % 256 }
  let e := match spriteSlot item.equipType with
    | some slot => e.setSprite slot ((item.entitySprite + 1) % 256)
    | none => e
  match coveredSlot item.equipType with
  | some slot => e.setSprite slot 0
  | none => e

/-- The loop over the inventory, which asserts that what is worn has a config. -/
def recalculateLoop (t : GearTable) (e : Equipped) : List InvItem → Except Assert Equipped
  | [] => .ok e
  | x :: inv =>
    if x.worn then
      match t.byId x.id with
      | none => .error .itemConfig
      | some _ => recalculateLoop t (addGear t e (t.gear x.id)) inv
    else recalculateLoop t e inv

/-- What `player_recalculate_equip` computes from the worn items. -/
def equippedOf (t : GearTable) (spritesBase : AnimSlot → Nat) (inv : List InvItem) :
    Except Assert Equipped :=
  recalculateLoop t { sprites := spritesBase } inv

def Equipped.sameBonuses (e e' : Equipped) : Bool :=
  e.bonusWeaponaim == e'.bonusWeaponaim && e.bonusWeaponpower == e'.bonusWeaponpower &&
    e.bonusArmour == e'.bonusArmour && e.bonusMagic == e'.bonusMagic &&
    e.bonusPrayer == e'.bonusPrayer

def playerRecalculateEquip (t : GearTable) (p : EquipPlayer) : Except Assert EquipPlayer :=
  match equippedOf t p.spritesBase p.inventory with
  | .error a => .error a
  | .ok e =>
    .ok { p with
      equipped := e
      bonusChanged := p.bonusChanged || !e.sameBonuses p.equipped
      appearanceChanged := p.appearanceChanged || decide (p.equipped.sprites ≠ e.sprites)
      recalculated := true }

/-! ## Wearing -/

/-- What wearing an item of `itemType` in `slot` does to the slot `i`. -/
def clearSlot (t : GearTable) (itemType slot i : Nat) (x : InvItem) : InvItem :=
  if i = slot ∨ x.worn = false then x
  else
    match t.byId x.id with
    | none => x
    | some _ =>
      if (t.gear x.id).equipType = 0 then x
      else if itemEquipClear itemType (t.gear x.id).equipType then { x with worn := false }
      else x

/-- An item in `slot` that can be worn at all. -/
def wearable (t : GearTable) (p : EquipPlayer) (slot : Nat) : Option InvItem :=
  match p.inventory[slot]? with
  | none => none
  | some x => if (t.byId x.id).isNone ∨ (t.gear x.id).equipType = 0 then none else some x

/-- `player_wear`; `allowed` is the answer of `script_onwearobj`. -/
def playerWear (t : GearTable) (allowed : Bool) (p : EquipPlayer) (slot : Nat) :
    Except Assert EquipPlayer :=
  match wearable t p slot with
  | none => .ok p
  | some x =>
    if allowed then
      let inv := p.inventory.mapIdx fun i y => clearSlot t (t.gear x.id).equipType slot i y
      playerRecalculateEquip t
        { p with inventory := inv.modify slot fun y => { y with worn := true } }
    else .ok p

def playerUnwear (t : GearTable) (p : EquipPlayer) (slot : Nat) : Except Assert EquipPlayer :=
  match wearable t p slot with
  | none => .ok p
  | some _ =>
    playerRecalculateEquip t
      { p with inventory := p.inventory.modify slot fun y => { y with worn := false } }

/-! ## Giving and removing -/

def equipGive (p : EquipPlayer) (item : ItemConfig) (count : Nat) : EquipPlayer :=
  { p with inventory := (invGive item count p.inventory).1 }

/-- One slot is taken out of the inventory. -/
def removeSlot (t : GearTable) (p : EquipPlayer) (k : Nat) : Except Assert EquipPlayer :=
  let wasWorn := p.inventory[k]?.any (·.worn)
  let p := { p with inventory := p.inventory.eraseIdx k }
  if wasWorn then playerRecalculateEquip t p else .ok p

/-- `removeSlots` with the recalculation after every worn slot. -/
def equipRemoveSlots (t : GearTable) (hit : InvItem → Except Assert Bool) :
    Nat → Nat → EquipPlayer → Except Assert EquipPlayer
  | 0, _, p => .ok p
  | left + 1, i, p =>
    match findSlot hit (p.inventory.drop i) with
    | .error a => .error a
    | .ok none => .ok p
    | .ok (some k) =>
      match removeSlot t p (i + k) with
      | .error a => .error a
      | .ok p => equipRemoveSlots t hit left 1 p

/-- `invRemove` with the recalculation. -/
def equipRemoveHits (t : GearTable) (hit : InvItem → Except Assert Bool) (weight count : Nat)
    (p : EquipPlayer) : Except Assert EquipPlayer :=
  if weight = 0 then
    match findSlot hit p.inventory with
    | .error a => .error a
    | .ok none => equipRemoveSlots t hit count 0 p
    | .ok (some k) =>
      if p.inventory[k]?.any (count < ·.stack) then
        .ok { p with inventory := p.inventory.modify k fun x => x.setStack (x.stack - count) }
      else equipRemoveSlots t hit 1 0 p
  else equipRemoveSlots t hit count 0 p

/-- `player_inv_remove` -/
def equipRemove (t : GearTable) (p : EquipPlayer) (name : List Char) (count : Nat) :
    Except Assert EquipPlayer :=
  match t.byName name with
  | none => .error .itemConfig
  | some item =>
    equipRemoveHits t (fun x => nameMatch t.toItemTable x.id name) item.weight count p

/-- `player_inv_remove_id` -/
def equipRemoveId (t : GearTable) (p : EquipPlayer) (id count : Nat) : Except Assert EquipPlayer :=
  match t.byId id with
  | none => .error .itemConfig
  | some item => equipRemoveHits t (fun x => .ok (x.id == id)) item.weight count p

/-- `ACTION_INV_DROP`, once the player stands still and trades with nobody. -/
def equipDrop (t : GearTable) (p : EquipPlayer) (slot : Nat) : Except Assert EquipPlayer :=
  match p.inventory[slot]? with
  | none => .ok p
  | some x => equipRemoveId t p x.id x.stack

/-! ## Dying -/

/-- The first slot of the lowest value. -/
def lowestSlot (t : GearTable) (inv : List InvItem) : Option Nat :=
  (inv.zipIdx.foldl (fun (best : Option Nat × Nat) (x, i) =>
    if t.value x.id < best.2 then (some i, t.value x.id) else best) (none, 4294967295)).1

/-- `while (p->inv_count > kept_max)`, with `n` turns left; every turn takes a
slot out. -/
def dropLowest (t : GearTable) (keptMax : Nat) : Nat → EquipPlayer → Except Assert EquipPlayer
  | 0, p => .ok p
  | n + 1, p =>
    if p.inventory.length ≤ keptMax then .ok p
    else
      match (lowestSlot t p.inventory).bind (p.inventory[·]?) with
      | none => .ok p
      | some x =>
        match equipRemoveId t p x.id (if t.stackable x.id then x.stack else 1) with
        | .error a => .error a
        | .ok p => dropLowest t keptMax n p

/-- The loop over what is kept, from slot `i` with `n` slots left: of a stack
one is kept. -/
def keepOne (t : GearTable) : Nat → Nat → EquipPlayer → Except Assert EquipPlayer
  | 0, _, p => .ok p
  | n + 1, i, p =>
    match p.inventory[i]? with
    | none => .ok p
    | some x =>
      match t.byId x.id with
      | none => .error .itemConfig
      | some item =>
        if item.weight = 0 ∧ 1 < x.stack then
          match equipRemoveId t p x.id (x.stack - 1) with
          | .error a => .error a
          | .ok p => keepOne t n (i + 1) p
        else keepOne t n (i + 1) p

/-- `player_die` -/
def equipDie (t : GearTable) (skulled protectItem : Bool) (p : EquipPlayer) :
    Except Assert EquipPlayer :=
  let keptMax := (if skulled then 0 else 3) + if protectItem then 1 else 0
  match dropLowest t keptMax p.inventory.length p with
  | .error a => .error a
  | .ok p =>
    match keepOne t p.inventory.length 0 { p with appearanceChanged := true } with
    | .error a => .error a
    | .ok p => .ok p

/-! ## Designing, saving and connecting again -/

/-- `OP_CLI_ACCEPT_DESIGN` -/
def equipDesign (t : GearTable) (data : List Nat) (p : EquipPlayer) : Except Assert EquipPlayer :=
  let sprite (offset : Nat) (slot : AnimSlot) (sprites : List Int) (first : Int) : Nat :=
    (offered sprites first (readInto data offset (p.spritesBase slot))).toNat
  let base : AnimSlot → Nat
    | .head => sprite 2 .head heads 0
    | .body => sprite 3 .body bodies 1
    | .legs => 3
    | k => p.spritesBase k
  match playerRecalculateEquip t { p with spritesBase := base } with
  | .error a => .error a
  | .ok p => .ok { p with appearanceChanged := true }

/-- `calloc` and the defaults of `player_load`. -/
def newEquipPlayer : EquipPlayer where
  spritesBase
    | .head => 1
    | .body => 2
    | .legs => 3
    | _ => 0
  equipped := { sprites := fun _ => 0 }

/-- A player and what a save has of it. -/
structure Wardrobe where
  player : EquipPlayer := newEquipPlayer
  savedInventory : List InvItem := []
  savedHead : Nat := 1
  savedBody : Nat := 2

/-- What happens to what a player wears. A trade, a visit to the bank or to a
shop gives items and removes them, by id or, for coins, by name, each any
number of times. -/
inductive EquipEvent where
  | wear (slot : Nat) (allowed : Bool)
  | unwear (slot : Nat)
  | give (item : ItemConfig) (count : Nat)
  | remove (name : List Char) (count : Nat)
  | removeId (id count : Nat)
  | drop (slot : Nat)
  | die (skulled protectItem : Bool)
  | design (data : List Nat)
  | save
  /-- the connection ends and the player logs in again, with a character that
  has been played before or with one that has not -/
  | login (existing : Bool)

def Wardrobe.set (w : Wardrobe) (r : Except Assert EquipPlayer) : Except Assert Wardrobe :=
  match r with
  | .error a => .error a
  | .ok p => .ok { w with player := p }

def equipStep (t : GearTable) (w : Wardrobe) : EquipEvent → Except Assert Wardrobe
  | .wear slot allowed => w.set (playerWear t allowed w.player slot)
  | .unwear slot => w.set (playerUnwear t w.player slot)
  | .give item count => .ok { w with player := equipGive w.player item count }
  | .remove name count => w.set (equipRemove t w.player name count)
  | .removeId id count => w.set (equipRemoveId t w.player id count)
  | .drop slot => w.set (equipDrop t w.player slot)
  | .die skulled protectItem => w.set (equipDie t skulled protectItem w.player)
  | .design data => w.set (equipDesign t data w.player)
  | .save =>
    .ok { w with
      savedInventory := w.player.inventory
      savedHead := w.player.spritesBase .head
      savedBody := w.player.spritesBase .body }
  | .login existing =>
    let p := { newEquipPlayer with
      inventory := w.savedInventory
      spritesBase := fun
        | .head => w.savedHead
        | .body => w.savedBody
        | k => newEquipPlayer.spritesBase k }
    w.set (if existing then playerRecalculateEquip t p else .ok p)

end Sundae.Ref
