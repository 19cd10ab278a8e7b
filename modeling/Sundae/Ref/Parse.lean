import Sundae.Lib.Layout
import Sundae.Ref.Config
import Sundae.Ref.Text

/-!
# Parsing the config files

`config_parse_items`, `config_parse_npcs` and `config_parse_shops` of
`config/text.c`. A parser goes through the text, which it cuts up on its way,
and stops where the source would. The arrays of a record have their size in
their type, and what is written behind one stops the parser too.

`alloc` says how many elements `calloc` has memory for.
-/

namespace Sundae.Ref.Parse

open Sundae.Lib Sundae.Ref.Text

def maxItemNames : Nat := 4
def maxNpcNames : Nat := 4
def maxShopItems : Nat := 40

def uint8Max : Int := 255
def uint16Max : Int := 65535

inductive Stop where
  /-- `goto err`, and the assertion there. -/
  | err
  /-- The buffer is left. -/
  | buffer (e : OutOfBounds)
  /-- An array of a record is left. -/
  | array (i : Nat)
  /-- Not of the source: a loop that should have ended has not. -/
  | spin
  deriving DecidableEq, Repr

/-- `buffer` and `offset`; `len` is the length of the buffer. -/
structure Text where
  buffer : List Char
  offset : Nat
  deriving DecidableEq, Repr

abbrev Parser := StateT Text (Except Stop)

variable {α : Type}

def stop (e : Stop) : Parser α := fun _ => .error e

/-- What an unsigned type of so many bits keeps of a number. -/
def asUint (bits : Nat) (n : Int) : Nat := (n % (2 ^ bits : Nat)).toNat

def asInt16 (n : Int) : Int := n.bmod 65536

/-! ## Lines, tokens and numbers -/

/-- `next_line`, and the offset that the caller goes on from. -/
def readLine : Parser (Option Unit) := fun s =>
  match nextLine s.buffer s.offset s.buffer.length with
  | .error e => .error (.buffer e)
  | .ok none => .ok (none, s)
  | .ok (some tmp) => .ok (some (), { s with offset := tmp })

/-- `next_token`: where the string starts, and the string. The caller goes on
from `tmp + strlen(buffer + tmp) + 1`. -/
def readToken : Parser (Option (Nat × List Char)) := fun s =>
  match nextToken s.buffer s.offset s.buffer.length with
  | .error e => .error (.buffer e)
  | .ok none => .ok (none, s)
  | .ok (some (buffer, tmp)) =>
    match stringAt buffer tmp with
    | .error e => .error (.buffer e)
    | .ok string => .ok (some (tmp, string), ⟨buffer, tmp + string.length + 1⟩)

/-- `next_token_int` and `next_token_hex` -/
def readNumber (read : List Char → Nat → Nat → Except OutOfBounds (Option (List Char × Nat × α))) :
    Parser (Option α) := fun s =>
  match read s.buffer s.offset s.buffer.length with
  | .error e => .error (.buffer e)
  | .ok none => .ok (none, s)
  | .ok (some (buffer, tmp, n)) => .ok (some n, ⟨buffer, tmp⟩)

/-- `if (tmp == -1) goto err;` -/
def orErr (p : Parser (Option α)) : Parser α := do
  match ← p with
  | some a => pure a
  | none => stop .err

def line : Parser Unit := orErr readLine

def token : Parser (Nat × List Char) := orErr readToken

/-- With a bound, `if (tmp == -1 || tmpl > max) goto err;`. -/
def int (max : Option Int) : Parser Int := do
  let tmpl ← orErr (readNumber nextTokenInt)
  if max.any (· < tmpl) then stop .err else pure tmpl

def hex : Parser Nat := orErr (readNumber nextTokenHex)

/-- The field of a record for a number, of so many bits. -/
def intField (max : Option Int) (bits : Nat) : Parser Nat := do
  let tmpl ← int max
  pure (asUint bits tmpl)

/-- A `uint32_t` for a hex number. -/
def hexField : Parser Nat := do
  let tmpul ← hex
  pure (tmpul % 4294967296)

/-- A `char *` into the buffer. -/
def stringField : Parser Nat := do
  let (tmp, _) ← token
  pure tmp

/-- `config_find_entity`, where `entities` has the names. -/
def configFindEntity (entities : List (List Char)) (name : List Char) : Int :=
  if strcasecmp name ['n', 'a'] then -1
  else
    match entities.findIdx? (strcasecmp name ·) with
    | some i => i
    | none => -1

/-- `config_find_item`, where `items` has the names of each item. -/
def configFindItem (items : List (List (List Char))) (name : List Char) : Int :=
  if strcasecmp name ['n', 'a'] then -1
  else
    match items.findIdx? fun names => names.any (strcasecmp name ·) with
    | some i => i
    | none => -1

def entityField (entities : List (List Char)) : Parser Int := do
  let (_, name) ← token
  pure (configFindEntity entities name)

def itemField (items : List (List (List Char))) : Parser Nat := do
  let (_, name) ← token
  pure (asUint 16 (configFindItem items name))

/-- `xs[i]` is written. -/
def assign {n : Nat} (xs : Vector α n) (i : Nat) (f : α → α) : Parser (Vector α n) :=
  if h : i < n then pure (xs.set i (f xs[i])) else stop (.array i)

/-- The body of the loops over `names[j]`. -/
def nameAt {n : Nat} (j : Nat) (names : Vector (Option Nat) n) :
    Parser (Vector (Option Nat) n) := do
  let (tmp, _) ← token
  assign names j fun _ => some tmp

/-- The number in front of the records; without one `NULL` is returned, and
without memory for so many records as well. -/
def parseFile (alloc : Nat → Bool) (parse : Nat → Parser (List α)) : Parser (Option (List α)) := do
  match ← readNumber nextTokenInt with
  | none => pure none
  | some tmpl =>
    let max := asUint 64 tmpl
    if alloc max then do
      let records ← parse max
      pure (some records)
    else pure none

/-! ## Items -/

/-- `struct item_config`, with strings as places in the buffer. -/
structure ItemConfig where
  id : Nat
  nameCount : Nat
  names : Vector (Option Nat) maxItemNames
  description : Nat
  spriteId : Nat
  value : Nat
  weight : Nat
  option : Nat
  bonusAim : Nat
  bonusArmour : Nat
  bonusMagic : Nat
  bonusPower : Nat
  bonusPrayer : Nat
  bonusHiding : Nat
  projectile : Nat
  equipType : Nat
  entitySprite : Nat
  colour : Nat
  respawnRate : Nat
  questItem : Nat
  deriving DecidableEq, Repr

/-- An item from its description on. -/
def itemRest (entities : List (List Char)) (i nameCount : Nat)
    (names : Vector (Option Nat) maxItemNames) : Parser ItemConfig := do
  let description ← stringField
  line
  let spriteId ← intField none 16
  let value ← intField none 32
  let weight ← intField none 8
  let option ← stringField
  line
  let bonusAim ← intField none 8
  let bonusArmour ← intField none 8
  let bonusMagic ← intField none 8
  let bonusPower ← intField none 8
  let bonusPrayer ← intField none 8
  let bonusHiding ← intField none 8
  let projectile ← stringField
  line
  let equipType ← intField none 16
  let entitySprite ← entityField entities
  let colour ← hexField
  let respawnRate ← intField none 16
  let questItem ← intField none 8
  pure {
    id := i % 65536, nameCount, names, description, spriteId, value, weight, option, bonusAim,
    bonusArmour, bonusMagic, bonusPower, bonusPrayer, bonusHiding, projectile, equipType,
    entitySprite := asUint 16 entitySprite, colour, respawnRate, questItem }

def parseItem (entities : List (List Char)) (i : Nat) : Parser ItemConfig := do
  line
  let nameCount ← intField (some maxItemNames) 16
  let names ← fill nameAt nameCount 0 (Vector.replicate maxItemNames none)
  itemRest entities i nameCount names

def configParseItems (alloc : Nat → Bool) (entities : List (List Char)) :
    Parser (Option (List ItemConfig)) :=
  parseFile alloc fun max => records (parseItem entities) max 0

/-! ## NPCs -/

/-- `struct npc_drop_config` -/
structure NpcDropConfig where
  id : Nat
  amount : Nat
  deriving DecidableEq, Repr

/-- `struct npc_config` -/
structure NpcConfig where
  id : Nat
  nameCount : Nat
  names : Vector (Option Nat) maxNpcNames
  description : Nat
  attack : Nat
  defense : Nat
  strength : Nat
  hits : Nat
  combatLevel : Nat
  aggression : Nat
  bravery : Nat
  regeneration : Nat
  perception : Nat
  wanderRange : Nat
  moveRestrict : Nat
  respawn : Nat
  unused1 : Nat
  unused2 : Nat
  huntRange : Nat
  unused3 : Nat
  sprites : List Int
  colourHair : Nat
  colourTop : Nat
  colourBottom : Nat
  colourSkin : Nat
  width : Nat
  height : Nat
  walkSpeed : Nat
  combatSpeed : Nat
  combatWidth : Nat
  dropCount : Nat
  drops : List NpcDropConfig
  deriving DecidableEq, Repr

def sprite (entities : List (List Char)) : Parser Int := do
  let i ← entityField entities
  pure (asInt16 i)

def npcDrop (items : List (List (List Char))) : Parser NpcDropConfig := do
  let id ← itemField items
  let amount ← intField none 16
  pure { id, amount }

/-- The drops, which have an array of their own. -/
def npcDrops (alloc : Nat → Bool) (items : List (List (List Char))) (npc : NpcConfig) :
    Parser NpcConfig := do
  let dropCount ← intField none 16
  if alloc dropCount then do
    let drops ← records (fun _ => npcDrop items) dropCount 0
    pure { npc with dropCount, drops }
  else stop .err

/-- An NPC from its description up to its drops. -/
def npcRest (entities : List (List Char)) (i nameCount : Nat)
    (names : Vector (Option Nat) maxNpcNames) : Parser NpcConfig := do
  let description ← stringField
  line
  let attack ← intField (some uint8Max) 8
  let defense ← intField (some uint8Max) 8
  let strength ← intField (some uint8Max) 8
  let hits ← intField (some uint8Max) 8
  let aggression ← intField (some uint8Max) 8
  let bravery ← intField (some uint8Max) 8
  let regeneration ← intField (some uint8Max) 8
  let perception ← intField (some uint8Max) 8
  let wanderRange ← intField (some uint8Max) 8
  let moveRestrict ← intField (some uint8Max) 8
  let respawn ← intField (some uint16Max) 16
  line
  let unused1 ← intField (some uint8Max) 8
  let unused2 ← intField (some uint8Max) 8
  let huntRange ← intField (some uint8Max) 8
  let unused3 ← intField (some uint8Max) 8
  line
  let sprites ← records (fun _ => sprite entities) 12 0
  line
  let colourHair ← hexField
  let colourTop ← hexField
  let colourBottom ← hexField
  let colourSkin ← hexField
  line
  let width ← intField none 16
  let height ← intField none 16
  let walkSpeed ← intField none 8
  let combatSpeed ← intField none 8
  let combatWidth ← intField none 8
  pure {
    id := i % 65536, nameCount, names, description, attack, defense, strength, hits,
    combatLevel := (attack + defense + strength + hits) / 4, aggression, bravery, regeneration,
    perception, wanderRange, moveRestrict, respawn, unused1, unused2, huntRange, unused3, sprites,
    colourHair, colourTop, colourBottom, colourSkin, width, height, walkSpeed, combatSpeed,
    combatWidth, dropCount := 0, drops := [] }

def parseNpc (alloc : Nat → Bool) (entities : List (List Char)) (items : List (List (List Char)))
    (i : Nat) : Parser NpcConfig := do
  line
  let nameCount ← intField (some maxNpcNames) 16
  let names ← fill nameAt nameCount 0 (Vector.replicate maxNpcNames none)
  let npc ← npcRest entities i nameCount names
  npcDrops alloc items npc

def configParseNpcs (alloc : Nat → Bool) (entities : List (List Char))
    (items : List (List (List Char))) : Parser (Option (List NpcConfig)) :=
  parseFile alloc fun max => records (parseNpc alloc entities items) max 0

/-! ## Shops -/

/-- `struct shop_item` -/
structure ShopItem where
  id : Nat := 0
  quantity : Nat := 0
  curQuantity : Nat := 0
  restock : Nat := 0
  restockTimer : Nat := 0
  removalTimer : Nat := 0
  deriving DecidableEq, Repr

/-- `struct shop_config` -/
structure ShopConfig where
  id : Nat := 0
  name : Nat
  sellModifier : Nat
  buyModifier : Nat
  delta : Nat
  pawnLimit : Nat
  itemCount : Nat
  items : Vector ShopItem maxShopItems
  changed : Nat := 0
  deriving DecidableEq, Repr

/-- The `do` loop over the lines in front of a shop; nothing is `goto end`. -/
def shopName : Nat → Parser (Option Nat)
  | 0 => stop .spin
  | n + 1 => do
    match ← readLine with
    | none => pure none
    | some () =>
      match ← readToken with
      | none => pure none
      | some (tmp, name) =>
        if ['s', 't', 'r', 'i', 'n', 'g'] <:+: name then shopName n else pure (some tmp)

/-- The body of the loop over `items[j]`. -/
def shopItem (items : List (List (List Char))) (j : Nat) (xs : Vector ShopItem maxShopItems) :
    Parser (Vector ShopItem maxShopItems) := do
  line
  let id ← itemField items
  let xs ← assign xs j fun x => { x with id }
  let quantity ← intField none 16
  let xs ← assign xs j fun x => { x with quantity, curQuantity := quantity }
  let restock ← intField none 16
  assign xs j fun x => { x with restock }

/-- A shop from its item count on. -/
def shopRest (items : List (List (List Char))) (name : Nat) : Parser ShopConfig := do
  let itemCount ← intField (some uint8Max) 8
  let sellModifier ← intField (some uint8Max) 8
  let buyModifier ← intField (some uint8Max) 8
  let delta ← intField (some uint8Max) 8
  let pawnLimit ← intField (some uint16Max) 16
  let xs ← fill (shopItem items) itemCount 0 (Vector.replicate maxShopItems {})
  pure { name, sellModifier, buyModifier, delta, pawnLimit, itemCount, items := xs }

/-- The shops that are complete where the file ends. -/
def parseShops (items : List (List (List Char))) : Nat → Parser (List ShopConfig)
  | 0 => pure []
  | n + 1 => do
    let s ← get
    match ← shopName (s.buffer.length + 1) with
    | none => pure []
    | some name =>
      let shop ← shopRest items name
      let shops ← parseShops items n
      pure (shop :: shops)

def configParseShops (alloc : Nat → Bool) (items : List (List (List Char))) :
    Parser (Option (List ShopConfig)) :=
  parseFile alloc (parseShops items)

end Sundae.Ref.Parse
