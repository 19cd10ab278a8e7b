import Sundae.Ref.Appearance
import Sundae.Ref.Chat

/-!
# What is said and to whom

Public chat and speech from scripts are kept in both encodings at once, each
client is sent the one that its version reads, and a private message is encoded
for the one it goes to. The two counts beside the arrays are of a byte.
-/

namespace Sundae.Ref

open World Sundae.Lib

/-! ## utility.c -/

/-- In the C locale. -/
def isalpha (ch : Nat) : Bool :=
  (decide (65 ≤ ch) && decide (ch ≤ 90)) || (decide (97 ≤ ch) && decide (ch ≤ 122))

/-- The search through `legacy_chartab` up to its zero. -/
def legacyIndex (ch : Nat) : Option Nat :=
  (legacyChartab.takeWhile (· != 0)).findIdx? (· == ch)

/-- What is not in the table is encoded as a blank, which is. -/
def encodeCharLegacy (ch : Nat) : Nat :=
  let ch := if isalpha ch then toupper ch else ch
  (legacyIndex ch).getD ((legacyIndex ' '.toNat).getD 0)

/-- `encode_chat_legacy` into an array that is said to be of `outlen` bytes. -/
def encodeChatLegacy (mes : List Nat) (out : List UInt8) (outlen : Nat) :
    Except OutOfBounds (List UInt8) :=
  copy out 0 (((mes.take outlen).map encodeCharLegacy).map UInt8.ofNat)

/-- What `strlen` counts. -/
def untilNul (mes : List Nat) : List Nat := mes.takeWhile (· != 0)

/-- The `len` bytes from `offset` on, decoded as those of a client of this version
into `mes`. -/
def readChat (words : List (List Nat)) (protocolRev : Nat) (data : List UInt8)
    (offset len : Nat) (mes : List Nat) : Except OutOfBounds (List Nat) :=
  if protocolRev ≤ 163 then
    decodeChatLegacy words (((data.drop offset).take len).map UInt8.toNat) mes
  else
    (chatDecompress (data.map UInt8.toNat) offset len mes).map Prod.fst

/-! ## Public chat -/

/-- The speech of a `struct mob`, and the `chat_type` of a player. -/
structure Mouth where
  chatType : ChatType := .noChat
  chatEnc : List UInt8
  chatLen : UInt8 := 0
  chatCompressed : List UInt8
  chatCompressedLen : UInt8 := 0

/-- The arrays are as long as they are declared. -/
structure Mouth.Sized (m : Mouth) : Prop where
  chatEnc : m.chatEnc.length = maxChatLen
  chatCompressed : m.chatCompressed.length = maxChatLen

/-- `OP_CLI_PUBLIC_CHAT`: `data` is the whole packet with its opcode, and `mes` what
the stack held. -/
def publicChat (words : List (List Nat)) (protocolRev : Nat) (data : List UInt8)
    (mes : List Nat) (m : Mouth) : Except OutOfBounds Mouth := do
  let msglen := min (data.length - 1) maxChatLen
  if protocolRev ≤ 163 then
    let chatEnc ← copy m.chatEnc 0 ((data.drop 1).take msglen)
    let mes ← readChat words protocolRev data 1 msglen mes
    let compressed := (chatCompress (untilNul mes)).map UInt8.ofNat
    let chatCompressed ← copy m.chatCompressed 0 compressed
    return ⟨.publicChat, chatEnc, UInt8.ofNat msglen, chatCompressed,
      UInt8.ofNat compressed.length⟩
  else
    let chatCompressed ← copy m.chatCompressed 0 ((data.drop 1).take msglen)
    let mes ← readChat words protocolRev data 1 msglen mes
    let chatLen := (untilNul mes).length
    let chatEnc ← encodeChatLegacy (untilNul mes) m.chatEnc chatLen
    return ⟨.publicChat, chatEnc, UInt8.ofNat chatLen, chatCompressed, UInt8.ofNat msglen⟩

/-- `script_say`, and `script_npcsay` but for the `chat_type`, on a string without its
zero. -/
def scriptSay (mes : List Nat) (m : Mouth) : Except OutOfBounds Mouth := do
  let len := min mes.length maxChatLen
  let chatEnc ← encodeChatLegacy mes m.chatEnc len
  let compressed := (chatCompress mes).map UInt8.ofNat
  let chatCompressed ← copy m.chatCompressed 0 compressed
  return ⟨.questChat, chatEnc, UInt8.ofNat len, chatCompressed, UInt8.ofNat compressed.length⟩

theorem take_short (bytes : List UInt8) (n : UInt8) : (bytes.take n.toNat).length < 256 :=
  Nat.lt_of_le_of_lt (List.length_take_le ..) n.toNat_lt

/-- The two that `player_send_chat` has to choose from. -/
def Mouth.chat (m : Mouth) : Speech := ⟨m.chatEnc.take m.chatLen.toNat, take_short _ _⟩

def Mouth.compressed (m : Mouth) : Speech :=
  ⟨m.chatCompressed.take m.chatCompressedLen.toNat, take_short _ _⟩

/-! ## Private messages -/

def opSrvPrivateMessage : UInt8 := 28

/-- The bytes before the message. -/
def pmHeader (protocolRev privmesNum : Nat) (sender : Int) : List UInt8 :=
  opSrvPrivateMessage :: beBytes 8 (nameBits sender) ++
    if protocolRev ≤ 163 then [] else beBytes 4 (privmesNum + 1)

/-- `player_send_pm` to a client of this version. `encoded` is what the stack held.
The packet is of 93 bytes at most, for which there is room. -/
def playerSendPm (protocolRev privmesNum : Nat) (sender : Int) (mes : List Nat)
    (encoded : List UInt8) : Except OutOfBounds (List UInt8) := do
  if protocolRev ≤ 163 then
    let encoded ← encodeChatLegacy mes encoded maxChatLen
    return pmHeader protocolRev privmesNum sender ++ encoded.take mes.length
  else
    let compressed := (chatCompress mes).map UInt8.ofNat
    let encoded ← copy encoded 0 compressed
    return pmHeader protocolRev privmesNum sender ++ encoded.take compressed.length

/-- `OP_CLI_PRIVATE_MESSAGE`, up to `server_send_pm` for the one whom it reaches. A
packet that is too short is dropped. -/
def privateMessage (words : List (List Nat)) (fromRev toRev privmesNum : Nat) (sender : Int)
    (data : List UInt8) (mes : List Nat) (encoded : List UInt8) :
    Except OutOfBounds (Option (List UInt8)) := do
  if data.length ≤ 9 then return none
  else
    let mes ← readChat words fromRev data 9 (data.length - 9) mes
    return some (← playerSendPm toRev privmesNum sender (untilNul mes) encoded)

end Sundae.Ref
