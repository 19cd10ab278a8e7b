import Sundae.Lib.Checked
import Sundae.Lib.Numeral

/-!
# The tokenizer of the config files

`next_line`, `next_token` and the two functions that read numbers, of
`config/text.c`. The buffer is what the memory behind `buffer` holds, one
character a byte, and `len` the size that comes with the call; `-1` is `none`.
A string that is returned is the place where it starts.
-/

namespace Sundae.Ref.Text

open Sundae.Lib

/-- `'\0'` -/
def nul : Char := Char.ofNat 0

/-- `'"'` -/
def quote : Char := Char.ofNat 34

/-- The loop of `next_line`, where `left` is `len - offset`: at 0 `buf_getu8`
has nothing to give. -/
def nextLineLoop (buffer : List Char) (len : Nat) : Nat → Nat → Except OutOfBounds (Option Nat)
  | 0, _ => pure none
  | left + 1, offset => do
    let ch ← load buffer offset
    if offset + 1 = len then pure none
    else if ch = '=' then pure (some (offset + 1))
    else nextLineLoop buffer len left (offset + 1)

def nextLine (buffer : List Char) (offset len : Nat) : Except OutOfBounds (Option Nat) :=
  nextLineLoop buffer len (len - offset) offset

/-- The loop of `next_token`, up to the end of the token. -/
def tokenEnd (buffer : List Char) : Nat → Nat → Bool → Except OutOfBounds (Option Nat)
  | 0, _, _ => pure none
  | left + 1, offset, quoted => do
    let ch ← load buffer offset
    let quoted := if ch = quote then !quoted else quoted
    if 1 < offset + 1 ∧ (ch = ',' ∨ ch = ';') ∧ quoted = false then pure (some offset)
    else tokenEnd buffer left (offset + 1) quoted

/-- The inner loop on the way back, from a closing quote to the opening one. -/
def openingQuote (buffer : List Char) : Nat → Except OutOfBounds (Option Nat)
  | 0 => pure none
  | nofs + 1 => do
    let ch ← load buffer nofs
    if ch = quote then pure (some (nofs + 1)) else openingQuote buffer nofs

/-- The way back. Without an opening quote the inner loop ends at 0, and the
outer one with it. -/
def tokenStart (buffer : List Char) : Nat → Except OutOfBounds (List Char × Nat)
  | 0 => .error (.read (-1))
  | nofs + 1 => do
    let ch ← load buffer nofs
    if ch = quote then
      let buffer ← store buffer nofs nul
      let opening ← openingQuote buffer nofs
      pure (buffer, opening.getD 1)
    else if 0 < nofs ∧ ch ≠ nul ∧ ch ≠ ',' ∧ ch ≠ ';' ∧ ch ≠ '=' then tokenStart buffer nofs
    else pure (buffer, nofs + 1)

/-- The buffer as it is left, and the start of the token. -/
def nextToken (buffer : List Char) (offset len : Nat) :
    Except OutOfBounds (Option (List Char × Nat)) := do
  match ← tokenEnd buffer (len - offset) offset false with
  | none => pure none
  | some nofs =>
    let buffer ← store buffer nofs nul
    let found ← tokenStart buffer nofs
    pure (some found)

/-! ## Strings and numbers -/

/-- What a reader of C strings finds from place `i` on. -/
def stringFrom (i : Nat) : List Char → Except OutOfBounds (List Char)
  | [] => .error (.read i)
  | ch :: rest =>
    if ch = nul then pure []
    else do
      let s ← stringFrom (i + 1) rest
      pure (ch :: s)

/-- The string at `buffer + n`. -/
def stringAt (buffer : List Char) (n : Nat) : Except OutOfBounds (List Char) :=
  stringFrom n (buffer.drop n)

/-- `isspace` in the C locale. -/
def isSpace (ch : Char) : Bool := ch = ' ' ∨ 9 ≤ ch.toNat ∧ ch.toNat ≤ 13

def digitValue (base : Nat) (ch : Char) : Option Nat :=
  let value :=
    if ch.isDigit then some (ch.toNat - 48)
    else if ch.isLower then some (ch.toNat - 87)
    else if ch.isUpper then some (ch.toNat - 55)
    else none
  value.filter (· < base)

/-- The digits a string begins with. -/
def digits (base : Nat) : List Char → List Nat
  | [] => []
  | ch :: rest =>
    match digitValue base ch with
    | some d => d :: digits base rest
    | none => []

/-- An optional sign, and whether it is a minus. -/
def sign : List Char → Bool × List Char
  | [] => (false, [])
  | ch :: rest =>
    if ch = '-' then (true, rest) else if ch = '+' then (false, rest) else (false, ch :: rest)

/-- The prefix that `strtoul` skips in base 16. -/
def skipHexPrefix : List Char → List Char
  | '0' :: 'x' :: rest | '0' :: 'X' :: rest => rest
  | s => s

/-- `strtol(s, NULL, 10)`, and 0 if it sets `errno`. -/
def strtol (s : List Char) : Int :=
  let (neg, s) := sign (s.dropWhile isSpace)
  let n := numeral 10 (digits 10 s)
  let result : Int := if neg then -(n : Int) else n
  if -9223372036854775808 ≤ result ∧ result ≤ 9223372036854775807 then result else 0

/-- `strtoul(s, NULL, 16)`, and 0 if it sets `errno`. A minus is taken modulo
the size of the type. -/
def strtoul (s : List Char) : Nat :=
  let (neg, s) := sign (s.dropWhile isSpace)
  let n := numeral 16 (digits 16 (skipHexPrefix s))
  if n ≤ 18446744073709551615 then
    if neg then (18446744073709551616 - n) % 18446744073709551616 else n
  else 0

/-- What `next_token_int` and `next_token_hex` have in common: the buffer, the
offset behind the token, and the number in it. -/
def tokenNumber {α : Type} (read : List Char → α) (buffer : List Char) (offset len : Nat) :
    Except OutOfBounds (Option (List Char × Nat × α)) := do
  match ← nextToken buffer offset len with
  | none => pure none
  | some (buffer, n) =>
    let s ← stringAt buffer n
    pure (some (buffer, n + s.length + 1, read s))

def nextTokenInt := tokenNumber strtol

def nextTokenHex := tokenNumber strtoul

end Sundae.Ref.Text
