import Sundae.Ref.Appearance

/-!
# What a client has seen of others

A client reads the updates of a packet one after the other, and keeps of every player
what it was last told that it looks like.
-/

namespace Sundae.Ref

open Sundae.Lib World

/-! ## The client -/

/-- What a client is shown of a player. -/
structure Look where
  name : Nat
  figure : Figure
  deriving DecidableEq

/-- One update. -/
inductive Update where
  | bubble (item : Nat)
  | chat (quest : Bool) (text : List UInt8)
  | damage (damage hits maxHits : UInt8)
  | shoot (player : Bool) (sprite target : Nat)
  | look (look : Look)
  | npcChat (target : Nat) (text : List UInt8)
  deriving DecidableEq

def readU8 : List UInt8 → Option (UInt8 × List UInt8)
  | [] => none
  | x :: rest => some (x, rest)

/-- So many bytes. -/
def readData (n : Nat) (bytes : List UInt8) : Option (List UInt8 × List UInt8) :=
  if bytes.length < n then none else some (bytes.take n, bytes.drop n)

/-- A number of these bytes, the most significant one first. -/
def beNumber (bytes : List UInt8) : Nat := bytes.foldl (fun n x => n * 256 + x.toNat) 0

/-- A length and so many bytes. -/
def readText (bytes : List UInt8) : Option (List UInt8 × List UInt8) := do
  let (n, bytes) ← readU8 bytes
  readData n.toNat bytes

/-- There are as many sprites as it says, and none in the slots after them. -/
def readLook (bytes : List UInt8) : Option (Look × List UInt8) := do
  let (_, bytes) ← readU16 bytes
  let (name, bytes) ← readData 8 bytes
  let (sprites, bytes) ← readText bytes
  let (hair, bytes) ← readU8 bytes
  let (top, bytes) ← readU8 bytes
  let (leg, bytes) ← readU8 bytes
  let (skin, bytes) ← readU8 bytes
  let (level, bytes) ← readU8 bytes
  let (skulled, bytes) ← readU8 bytes
  return ({
    name := beNumber name
    figure := {
      sprites := fun slot => sprites.getD (AnimSlot.all.idxOf slot) 0
      hairColour := hair
      topColour := top
      legColour := leg
      skinColour := skin
      combatLevel := level
      skulled := skulled != 0 } }, bytes)

/-- What comes after an id and a kind. -/
def readUpdateOf (npc : Bool) (kind : UInt8) (bytes : List UInt8) :
    Option (Update × List UInt8) :=
  if kind = playerUpdateBubble then
    (readU16 bytes).map fun (item, bytes) => (.bubble item, bytes)
  else if kind = playerUpdateChatPublic ∧ npc then do
    let (target, bytes) ← readU16 bytes
    (readText bytes).map fun (text, bytes) => (.npcChat target text, bytes)
  else if kind = playerUpdateChatPublic ∨ kind = playerUpdateChatQuest then
    (readText bytes).map fun (text, bytes) => (.chat (kind == playerUpdateChatQuest) text, bytes)
  else if kind = playerUpdateDamage then do
    let (damage, bytes) ← readU8 bytes
    let (hits, bytes) ← readU8 bytes
    let (maxHits, bytes) ← readU8 bytes
    return (.damage damage hits maxHits, bytes)
  else if kind = playerUpdateShootMonster ∨ kind = playerUpdateShootPlayer then do
    let (sprite, bytes) ← readU16 bytes
    let (target, bytes) ← readU16 bytes
    return (.shoot (kind == playerUpdateShootPlayer) sprite target, bytes)
  else if kind = playerUpdateAppearance then
    (readLook bytes).map fun (look, bytes) => (.look look, bytes)
  else none

/-- Of whom, and what. -/
def readUpdateRecord (npc : Bool) (bytes : List UInt8) :
    Option ((Nat × Update) × List UInt8) := do
  let (id, bytes) ← readU16 bytes
  let (kind, bytes) ← readU8 bytes
  (readUpdateOf npc kind bytes).map fun (update, bytes) => ((id, update), bytes)

/-- A packet: behind the opcode, how many updates there are, and the updates. -/
def readAppearance (npc : Bool) (payload : List UInt8) : Option (List (Nat × Update)) := do
  let (count, bytes) ← readU16 (payload.drop 1)
  (readMany (readUpdateRecord npc) count bytes).map Prod.fst

def Body.look (b : Body) : Look := { name := nameBits b.name, figure := b.figure }

/-- What `player_recalculate_equip` reads and writes. -/
def Body.gear (b : Body) (inv : List InvItem) : EquipPlayer where
  inventory := inv
  spritesBase := fun slot => (b.spritesBase slot).toNat
  equipped := { sprites := fun slot => (b.figure.sprites slot).toNat }
  appearanceChanged := b.appearanceChanged

def Body.dressed (b : Body) (p : EquipPlayer) : Body :=
  { b with
    spritesBase := fun slot => UInt8.ofNat (p.spritesBase slot)
    figure := { b.figure with sprites := fun slot => UInt8.ofNat (p.equipped.sprites slot) }
    appearanceChanged := p.appearanceChanged }

/-- What is done to a player that a client may be told of. -/
inductive BodyEvent where
  /-- `player_load` with what the database has. -/
  | load (b : Body)
  /-- `player_recalculate_equip` -/
  | recalculate (t : GearTable) (inv : List InvItem)
  /-- `OP_CLI_ACCEPT_DESIGN` -/
  | design (t : GearTable) (inv : List InvItem) (data : List Nat)
  /-- `player_recalculate_combat_level` -/
  | combatLevel (level : UInt8)
  /-- the end of `player_skull` -/
  | skull
  /-- `skull_timer` in `server_tick` -/
  | skullTimer
  /-- `player_die` -/
  | die
  | bubble (item : UInt16)
  | damage (damage hits : UInt8)
  | hits (hits maxHits : UInt8)
  | shoot (sprite player npc : UInt16)
  | chat (type : ChatType) (chat chatCompressed : Speech)

def Body.skullEnds (b : Body) : Body :=
  { b with figure := { b.figure with skulled := false }, appearanceChanged := true }

def Body.step (b : Body) : BodyEvent → Body
  | .load b => { b with appearanceChanged := true }
  | .recalculate t inv =>
    match playerRecalculateEquip t (b.gear inv) with
    | .error _ => b
    | .ok p => b.dressed p
  | .design t inv data =>
    match equipDesign t data (b.gear inv) with
    | .error _ => b
    | .ok p =>
      let colour (offset : Nat) (max : Int) (old : UInt8) : UInt8 :=
        UInt8.ofInt (atMost max (readInto data offset old.toNat))
      let b := b.dressed p
      { b with figure := { b.figure with
          hairColour := colour 5 9 b.figure.hairColour
          topColour := colour 6 14 b.figure.topColour
          legColour := colour 7 14 b.figure.legColour
          skinColour := colour 8 4 b.figure.skinColour } }
  | .combatLevel level =>
    if level ≠ b.figure.combatLevel then
      { b with figure := { b.figure with combatLevel := level }, appearanceChanged := true }
    else b
  | .skull =>
    let b := { b with skullTimer := 2000 }
    if b.figure.skulled then b
    else { b with figure := { b.figure with skulled := true }, appearanceChanged := true }
  | .skullTimer =>
    if 0 < b.skullTimer then
      let b := { b with skullTimer := b.skullTimer - 1 }
      if b.skullTimer = 0 then b.skullEnds else b
    else b
  | .die => b.skullEnds
  | .bubble item => { b with bubbleId := item }
  | .damage damage hits => { b with damage := damage, hits := hits }
  | .hits hits maxHits => { b with hits := hits, maxHits := maxHits }
  | .shoot sprite player npc =>
    { b with
      projectileSprite := sprite
      projectileTargetPlayer := player
      projectileTargetNpc := npc }
  | .chat type chat chatCompressed =>
    { b with chatType := type, chat := chat, chatCompressed := chatCompressed }

/-- The end of `server_tick`. -/
def Body.endTick (b : Body) : Body :=
  { b with
    chatType := .noChat
    chat := .silence
    appearanceChanged := false
    projectileTargetNpc := 65535
    projectileTargetPlayer := 65535
    bubbleId := 65535
    damage := 255 }

/-! ## Runs -/

end Sundae.Ref
