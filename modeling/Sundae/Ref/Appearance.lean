import Sundae.Ref.Equip
import Sundae.Ref.Incoming
import Sundae.Ref.Movement
import Sundae.Ref.Pack

/-!
# Appearance updates

`player_send_appearance_update` and `player_send_npc_appearance_update`: what the
players and NPCs a client knows have said and suffered in the tick, and what those
look like that have changed or are new. `known_players_seen` tells the new ones, and
`player_send_movement` keeps it.
-/

namespace Sundae.Ref

open World

/-! ## The rest of a player -/

/-- The slots of `enum animslot`, in its order. -/
def AnimSlot.all : List AnimSlot :=
  [.head, .body, .legs, .offhand, .hand, .hat, .shirt, .trousers, .neck, .shoes, .gloves, .back]

/-- What there is to see of a player. -/
structure Figure where
  sprites : AnimSlot → UInt8
  hairColour : UInt8
  topColour : UInt8
  legColour : UInt8
  skinColour : UInt8
  combatLevel : UInt8
  skulled : Bool
  deriving DecidableEq

/-- As many bytes of `chat_enc` or `chat_compressed` as the length beside it says. -/
structure Speech where
  text : List UInt8
  short : text.length < 256

def Speech.silence : Speech := ⟨[], Nat.zero_lt_succ _⟩

inductive ChatType where
  | noChat
  | publicChat
  | questChat
  deriving DecidableEq, Repr

/-- The part of `struct player` that updates are made of. A target, a bubble and a
damage that there is not are the greatest number of their type. -/
structure Body where
  name : Int := -1
  spritesBase : AnimSlot → UInt8 := fun slot => UInt8.ofNat (newEquipPlayer.spritesBase slot)
  figure : Figure
  appearanceChanged : Bool := false
  skullTimer : Nat := 0
  bubbleId : UInt16 := 65535
  damage : UInt8 := 255
  hits : UInt8 := 10
  maxHits : UInt8 := 10
  projectileSprite : UInt16 := 0
  projectileTargetPlayer : UInt16 := 65535
  projectileTargetNpc : UInt16 := 65535
  chatType : ChatType := .noChat
  chat : Speech := .silence
  chatCompressed : Speech := .silence

/-- The part of `struct npc`. -/
structure NpcBody where
  talkTarget : UInt16 := 65535
  damage : UInt8 := 255
  hits : UInt8
  maxHits : UInt8
  chat : Speech := .silence
  chatCompressed : Speech := .silence

/-! ## buffer.c -/

/-- `memcpy(buffer + offset, data, inlen)`, one byte after the other. -/
def copyBytes (b : List UInt8) (offset : Nat) : List UInt8 → List UInt8
  | [] => b
  | x :: data => copyBytes (b.set offset x) (offset + 1) data

def bufPutdata (b : List UInt8) (offset buflen : Nat) (data : List UInt8) : Option (List UInt8) :=
  if buflen < offset + data.length then none else some (copyBytes b offset data)

/-- The bytes of a number, the most significant one first. -/
def beBytes : Nat → Nat → List UInt8
  | 0, _ => []
  | n + 1, x => beBytes n (x / 256) ++ [UInt8.ofNat x]

def Draft.putdata (d : Draft) (data : List UInt8) : Option Draft :=
  (bufPutdata d.tmpbuf d.offset playerBufsize data).map fun b =>
    { d with tmpbuf := b, offset := d.offset + data.length }

/-- `buf_putu64`, which looks for room for all eight bytes at once. -/
def Draft.putu64 (d : Draft) (x : Nat) : Option Draft := d.putdata (beBytes 8 x)

/-! ## outgoing.c -/

def opSrvPlayerAppearance : UInt8 := 250
def opSrvNpcAppearance : UInt8 := 247

def playerUpdateBubble : UInt8 := 0
def playerUpdateChatPublic : UInt8 := 1
def playerUpdateDamage : UInt8 := 2
def playerUpdateShootMonster : UInt8 := 3
def playerUpdateShootPlayer : UInt8 := 4
def playerUpdateAppearance : UInt8 := 5
def playerUpdateChatQuest : UInt8 := 6

/-- Client versions with multiple pickaxe tiers have another one. -/
def encodeBubbleId (protocolRev : Nat) (id : UInt16) : UInt16 :=
  if 168 < protocolRev ∧ id = 156 then 1258 else id

/-- The loop goes down from `ANIM_SLOT_BACK` to a slot with a sprite. -/
def animCount (sprites : AnimSlot → UInt8) : Nat :=
  (AnimSlot.all.reverse.dropWhile fun slot => sprites slot = 0).length

/-- `p->name` in 64 bits. -/
def nameBits (name : Int) : Nat := (name % 2 ^ 64).toNat

namespace Draft

/-- `player_send_appearance` -/
def putAppearance (d : Draft) (id : Nat) (b : Body) : Option Draft := do
  let d ← d.putu16 id
  let d ← d.putu8 playerUpdateAppearance
  let d ← d.putu16 id
  let d ← d.putu64 (nameBits b.name)
  let count := animCount b.figure.sprites
  let d ← d.putu8 (UInt8.ofNat count)
  let d ← putEach (fun d slot => d.putu8 (b.figure.sprites slot)) d (AnimSlot.all.take count)
  let d ← d.putu8 b.figure.hairColour
  let d ← d.putu8 b.figure.topColour
  let d ← d.putu8 b.figure.legColour
  let d ← d.putu8 b.figure.skinColour
  let d ← d.putu8 b.figure.combatLevel
  d.putu8 (if b.figure.skulled then 1 else 0)

/-- `player_send_damage` -/
def putDamage (d : Draft) (id : Nat) (damage hits maxHits : UInt8) : Option Draft := do
  let d ← d.putu16 id
  let d ← d.putu8 playerUpdateDamage
  let d ← d.putu8 damage
  let d ← d.putu8 hits
  d.putu8 maxHits

/-- `player_send_bubble` -/
def putBubble (d : Draft) (protocolRev id : Nat) (bubbleId : UInt16) : Option Draft := do
  let d ← d.putu16 id
  let d ← d.putu8 playerUpdateBubble
  d.putu16 (encodeBubbleId protocolRev bubbleId).toNat

/-- `player_send_projectile_pvp` and `player_send_projectile_pvm` -/
def putProjectile (d : Draft) (kind : UInt8) (id : Nat) (sprite target : UInt16) :
    Option Draft := do
  let d ← d.putu16 id
  let d ← d.putu8 kind
  let d ← d.putu16 sprite.toNat
  d.putu16 target.toNat

/-- `player_send_chat` -/
def putChat (d : Draft) (protocolRev : Nat) (chat chatCompressed : Speech) : Option Draft := do
  let text := (if 163 < protocolRev then chatCompressed else chat).text
  let d ← d.putu8 (UInt8.ofNat text.length)
  d.putdata text

/-- One update, if it is due: `update_count++`. -/
def putIf (d : Draft) (due : Bool) (put : Draft → Option Draft) : Option Draft :=
  if due then (put d).map counted else some d

end Draft

/-- What a client is told of its own player. -/
def putOwnUpdates (v : Viewer) (b : Body) (d : Draft) : Option Draft := do
  let d ← d.putIf (b.bubbleId != 65535) fun d => d.putBubble v.out.protocolRev v.id b.bubbleId
  let d ← d.putIf b.appearanceChanged fun d => d.putAppearance v.id b
  let d ← d.putIf (b.damage != 255) fun d => d.putDamage v.id b.damage b.hits b.maxHits
  let d ← d.putIf (b.projectileTargetPlayer != 65535) fun d =>
    d.putProjectile playerUpdateShootPlayer v.id b.projectileSprite b.projectileTargetPlayer
  let d ← d.putIf (b.projectileTargetNpc != 65535) fun d =>
    d.putProjectile playerUpdateShootMonster v.id b.projectileSprite b.projectileTargetNpc
  d.putIf (b.chatType = .questChat) fun d => do
    let d ← d.putu16 v.id
    let d ← d.putu8 playerUpdateChatQuest
    d.putChat v.out.protocolRev b.chat b.chatCompressed

/-- And of a player it knows. -/
def putKnownUpdates (v : Viewer) (blocked seen : Bool) (id : Nat) (b : Body) (d : Draft) :
    Option Draft := do
  let d ← d.putIf (b.bubbleId != 65535) fun d => d.putBubble v.out.protocolRev id b.bubbleId
  let d ← d.putIf (!b.chat.text.isEmpty && !blocked) fun d => do
    let d ← d.putu16 id
    let d ← d.putu8
      (if b.chatType = .publicChat then playerUpdateChatPublic else playerUpdateChatQuest)
    d.putChat v.out.protocolRev b.chat b.chatCompressed
  let d ← d.putIf (b.damage != 255) fun d => d.putDamage id b.damage b.hits b.maxHits
  let d ← d.putIf (b.projectileTargetPlayer != 65535) fun d =>
    d.putProjectile playerUpdateShootPlayer id b.projectileSprite b.projectileTargetPlayer
  let d ← d.putIf (b.projectileTargetNpc != 65535) fun d =>
    d.putProjectile playerUpdateShootMonster id b.projectileSprite b.projectileTargetNpc
  d.putIf (b.appearanceChanged || !seen) fun d => d.putAppearance id b

/-- A known player that is still there. -/
def presentPlayer (w : World) (i : Nat) : Bool :=
  (w.players i).any fun p => !p.logoutConfirmed

/-- The loop over `known_players`, from entry `k` on: `known_players_seen` as it is left,
and the packet unless an update did not fit. -/
def sendKnownUpdates (v : Viewer) (w : World) (bodies : Nat → Body) (blocked : Int → Bool) :
    List (Option Nat) → Nat → List Bool → Draft → List Bool × Option Draft
  | [], _, seen, d => (seen, some d)
  | none :: rest, k, seen, d => sendKnownUpdates v w bodies blocked rest (k + 1) seen d
  | some id :: rest, k, seen, d =>
    if presentPlayer w id then
      match putKnownUpdates v (blocked (bodies id).name) (seen.getD k false) id (bodies id) d with
      | none => (seen, none)
      | some d => sendKnownUpdates v w bodies blocked rest (k + 1) (seen.set k true) d
    else sendKnownUpdates v w bodies blocked rest (k + 1) seen d

/-- The packet with `update_count` where a place was kept for it. -/
def Draft.counts (d : Draft) : Draft :=
  { d with tmpbuf := (bufPutu16 d.tmpbuf 1 playerBufsize d.updateCount).getD d.tmpbuf }

/-- `self` is the player for its lists of friends and of ignored ones and for
`blockPublic`, which comes beside it. -/
def playerSendAppearanceUpdate (isaacOut : Nat → UInt32) (w : World) (bodies : Nat → Body)
    (self : Player) (blockPublic : Bool) (tmpbuf : List UInt8) (v : Viewer) (seen : List Bool) :
    Viewer × List Bool × Sent :=
  let d : Draft := { Draft.opened tmpbuf opSrvPlayerAppearance with offset := 3 }
  match putOwnUpdates v (bodies v.id) d with
  | none => (v, seen, .failed)
  | some d =>
    let blocked := fun name => playerIsBlocked self name blockPublic
    match sendKnownUpdates v w bodies blocked v.knownPlayers 0 seen d with
    | (seen, none) => (v, seen, .failed)
    | (seen, some d) =>
      let (v, sent) := v.writeUpdates isaacOut d.counts
      (v, seen, sent)

/-! ## known_players_seen -/

def putNpcUpdates (v : Viewer) (id : Nat) (b : NpcBody) (d : Draft) : Option Draft := do
  let d ← d.putIf (!b.chat.text.isEmpty) fun d => do
    let d ← d.putu16 id
    let d ← d.putu8 playerUpdateChatPublic
    let d ← d.putu16 b.talkTarget.toNat
    d.putChat v.out.protocolRev b.chat b.chatCompressed
  d.putIf (b.damage != 255) fun d => d.putDamage id b.damage b.hits b.maxHits

def sendNpcUpdates (v : Viewer) (w : World) (bodies : Nat → NpcBody) :
    List (Option Nat) → Draft → Option Draft
  | [], d => some d
  | none :: rest, d => sendNpcUpdates v w bodies rest d
  | some id :: rest, d =>
    if (w.npcs id).isSome then
      match putNpcUpdates v id (bodies id) d with
      | none => none
      | some d => sendNpcUpdates v w bodies rest d
    else sendNpcUpdates v w bodies rest d

def playerSendNpcAppearanceUpdate (isaacOut : Nat → UInt32) (w : World) (bodies : Nat → NpcBody)
    (tmpbuf : List UInt8) (v : Viewer) : Viewer × Sent :=
  let d : Draft := { Draft.opened tmpbuf opSrvNpcAppearance with offset := 3 }
  match sendNpcUpdates v w bodies v.knownNpcs d with
  | none => (v, .failed)
  | some d => v.writeUpdates isaacOut d.counts

end Sundae.Ref
