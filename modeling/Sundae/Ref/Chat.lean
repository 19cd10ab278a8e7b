import Sundae.Lib.Checked

/-!
# What players say

The two encodings of chat in `utility.c`: `chat_compress` and `chat_decompress`
with their half bytes, and the older `decode_chat_legacy` with its dictionary.
Text is a list of bytes without the zero at its end. The buffers have their
size, and indices outside them are errors.
-/

namespace Sundae.Ref

open Sundae.Lib

/-- `MAX_CHAT_LEN` -/
def maxChatLen : Nat := 80

def tolower (ch : Nat) : Nat := if 65 ≤ ch ∧ ch ≤ 90 then ch + 32 else ch

def toupper (ch : Nat) : Nat := if 97 ≤ ch ∧ ch ≤ 122 then ch - 32 else ch

def compressionTab : List Nat := [
    ' ', 'e', 't', 'a', 'o', 'i', 'h', 'n', 's', 'r',
    'd', 'l', 'u', 'm', 'w', 'c', 'y', 'f', 'g', 'p',
    'b', 'v', 'k', 'x', 'j', 'q', 'z', '0', '1', '2',
    '3', '4', '5', '6', '7', '8', '9', ' ', '!', '?',
    '.', ',', ':', ';', '(', ')', '-', '&', '*', '\\',
    '\'', '@', '#', '+', '=', '\u00a3', '$', '%', '"', '[',
    ']'].map Char.toNat

/-! ## `chat_compress` -/

structure Compressor where
  output : List Nat := []
  leftShift : Option Nat := none
  deriving DecidableEq, Repr

/-- The search for a character, and the gap between the short codes and the long. -/
def tabIndex (ch : Nat) : Nat :=
  let j := (compressionTab.findIdx? (· == ch)).getD 0
  if 12 < j then j + 195 else j

/-- One turn of the loop over the input. -/
def compressChar (w : Compressor) (ch : Nat) : Compressor :=
  let i := tabIndex (tolower ch)
  match w.leftShift with
  | none =>
    if i < 13 then { w with leftShift := some i }
    else { w with output := w.output ++ [i &&& 0xff] }
  | some left =>
    if i < 13 then ⟨w.output ++ [((left <<< 4) + i) &&& 0xff], none⟩
    else ⟨w.output ++ [((left <<< 4) + (i >>> 4)) &&& 0xff], some (i &&& 0xf)⟩

def chatCompress (input : List Nat) : List Nat :=
  let w := (input.take maxChatLen).foldl compressChar {}
  match w.leftShift with
  | none => w.output
  | some left => w.output ++ [(left <<< 4) &&& 0xff]

/-! ## `chat_decompress` -/

structure Decompressor where
  out : List Nat
  newLength : Nat := 0
  leftShift : Option Nat := none
  deriving DecidableEq, Repr

/-- What is done with either half of a byte. -/
def decompressHalf (i : Nat) (r : Decompressor) : Except OutOfBounds Decompressor :=
  match r.leftShift with
  | none =>
    if i < 13 then do
      let ch ← load compressionTab i
      let out ← store r.out r.newLength ch
      return { r with out := out, newLength := r.newLength + 1 }
    else return { r with leftShift := some i }
  | some left => do
    let ch ← load compressionTab (((left <<< 4) + i : Nat) - 195)
    let out ← store r.out r.newLength ch
    return ⟨out, r.newLength + 1, none⟩

/-- The symbol decoding loop, with `n` bytes to come. -/
def decompressLoop (buffer : List Nat) :
    Nat → Nat → Decompressor → Except OutOfBounds Decompressor
  | 0, _, r => return r
  | n + 1, offset, r => do
    let cur ← load buffer offset
    if maxChatLen ≤ r.newLength then return r
    else
      let r ← decompressHalf ((cur >>> 4) &&& 0xf) r
      if maxChatLen ≤ r.newLength then return r
      else
        let r ← decompressHalf (cur &&& 0xf) r
        decompressLoop buffer n (offset + 1) r

def storeIf (c : Bool) (out : List Nat) (i ch : Nat) : Except OutOfBounds (List Nat) :=
  if c then store out i ch else return out

/-- One turn of the loop over what was decoded: no colours, no formats, and a
capital after the end of a sentence. -/
def capitalise (i : Nat) (out : List Nat) (newSentence : Bool) :
    Except OutOfBounds (List Nat × Bool) := do
  let ch ← load out i
  let out ← storeIf (decide (4 < i) && ch == '@'.toNat) out i ' '.toNat
  let out ← storeIf (ch == '%'.toNat) out i ' '.toNat
  let first := newSentence && decide ('a'.toNat ≤ ch) && decide (ch ≤ 'z'.toNat)
  let cur ← load out i
  let out ← storeIf first out i (toupper cur)
  let newSentence := newSentence && !first
  return (out, newSentence || ch == '.'.toNat || ch == '!'.toNat)

/-- The loop over what was decoded, with `n` characters to come. -/
def capitaliseLoop : Nat → Nat → List Nat → Bool → Except OutOfBounds (List Nat)
  | 0, _, out, _ => return out
  | n + 1, i, out, newSentence => do
    let (out, newSentence) ← capitalise i out newSentence
    capitaliseLoop n (i + 1) out newSentence

/-- `chat_decompress`: the buffer and `new_length`. -/
def chatDecompress (buffer : List Nat) (offset len : Nat) (out : List Nat) :
    Except OutOfBounds (List Nat × Nat) := do
  let r ← decompressLoop buffer len offset { out := out }
  let out ← capitaliseLoop r.newLength 0 r.out true
  let out ← store out r.newLength 0
  return (out, r.newLength)

/-! ## `decode_chat_legacy` -/

def legacyChartab : List Nat := [
    'A', 'B', 'C', 'D', 'E', 'F', 'G', 'H', 'I', 'J',
    'K', 'L', 'M', 'N', 'O', 'P', 'Q', 'R', 'S', 'T',
    'U', 'V', 'W', 'X', 'Y', 'Z', '0', '1', '2', '3',
    '4', '5', '6', '7', '8', '9', ' ', '!', '?', '.',
    ',', ':', ';', '(', ')', '-', '&', '*', '\\', '\'',
    '\u0000'].map Char.toNat

/-- `switch (colour)` -/
def colourCode (colour : Nat) : List Nat :=
  match colour with
  | 0 => ['@', 'r', 'e', 'd', '@'].map Char.toNat
  | 1 => ['@', 'g', 'r', 'e', '@'].map Char.toNat
  | 2 => ['@', 'b', 'l', 'u', '@'].map Char.toNat
  | 3 => ['@', 'c', 'y', 'a', '@'].map Char.toNat
  | 4 => ['@', 'r', 'a', 'n', '@'].map Char.toNat
  | 5 => ['@', 'w', 'h', 'i', '@'].map Char.toNat
  | 6 => ['@', 'b', 'l', 'a', '@'].map Char.toNat
  | 7 => ['@', 'o', 'r', 'a', '@'].map Char.toNat
  | 8 => ['@', 'y', 'e', 'l', '@'].map Char.toNat
  | 9 => ['@', 'm', 'a', 'g', '@'].map Char.toNat
  | _ => []

structure Legacy where
  i : Nat := 0
  off : Nat := 0
  out : List Nat
  deriving DecidableEq, Repr

/-- How a turn of the loop ends: `break`, or on with the next byte. -/
inductive Turn where
  | stop (s : Legacy)
  | next (s : Legacy)
  deriving DecidableEq, Repr

/-- A word of the dictionary, with or without a blank after it. -/
def legacyWord (dict : List (List Nat)) (entry : Nat) (space : Bool) (s : Legacy) :
    Except OutOfBounds Turn := do
  let word ← load dict entry
  if s.out.length - s.off ≤ word.length then return .stop s
  else
    let out ← copy s.out s.off word
    let s := { s with out := out, off := s.off + word.length }
    if space then
      if s.off = s.out.length - 1 then return .stop s
      else
        let out ← store s.out s.off ' '.toNat
        return .next { s with out := out, off := s.off + 1 }
    else return .next s

/-- A pointer of two bytes, of which `high` is the first. -/
def legacyPointer (dict : List (List Nat)) (mes : List Nat) (high : Nat) (space : Bool)
    (s : Legacy) : Except OutOfBounds Turn :=
  if s.off = s.out.length - 1 then return .stop s
  else do
    let low ← load mes (s.i + 1 : Nat)
    let s := { s with i := s.i + 1 }
    let entry := (high <<< 8) ||| low
    if dict.length ≤ entry then return .next s
    else legacyWord dict entry space s

def legacyTurn (dict : List (List Nat)) (mes : List Nat) (s : Legacy) :
    Except OutOfBounds Turn := do
  let b ← load mes s.i
  if b = 0xff then
    -- the initial header
    if s.i = mes.length - 1 ∨ s.out.length - s.off < 6 then return .stop s
    else
      let colour ← load mes (s.i + 1 : Nat)
      let out ← copy s.out s.off (colourCode colour)
      return .next ⟨s.i + 1, s.off + (colourCode colour).length, out⟩
  else if b < 50 then
    if s.off = s.out.length - 1 then return .stop s
    else
      let ch ← load legacyChartab b
      let out ← store s.out s.off (tolower ch)
      return .next { s with out := out, off := s.off + 1 }
  else if b < 70 then legacyPointer dict mes (b - 50) true s
  else if b < 90 then legacyPointer dict mes (b - 70) false s
  else if dict.length ≤ b then return .next s
  else legacyWord dict (b - 90) true s

/-- `for (size_t i = 0; i < inlen; ++i)`, with at most `n` turns left. -/
def legacyLoop (dict : List (List Nat)) (mes : List Nat) :
    Nat → Legacy → Except OutOfBounds Legacy
  | 0, s => return s
  | n + 1, s =>
    if s.i < mes.length then do
      match ← legacyTurn dict mes s with
      | .stop s => return s
      | .next s => legacyLoop dict mes n { s with i := s.i + 1 }
    else return s

/-- `decode_chat_legacy` on a message and an output buffer that are as long as
they are said to be. The output has room for the zero at least. -/
def decodeChatLegacy (dict : List (List Nat)) (mes out : List Nat) :
    Except OutOfBounds (List Nat) := do
  let s ← legacyLoop dict mes mes.length { out := out }
  store s.out s.off 0

end Sundae.Ref
