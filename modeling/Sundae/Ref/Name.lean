import Mathlib.Algebra.Group.Int.Defs
import Mathlib.Algebra.Group.Nat.Defs
import Sundae.Ref.Config

/-!
# User names as numbers

`mod37_namedec`, `mod37_nameenc` and `username_sanitize` of `utility.c`. An
`int64_t` is an `Int` here; where the source's arithmetic can leave 64 bits it
is wrapped.
-/

namespace Sundae.Ref

/-- The character of one base 37 digit; `rest` is what is left of the number,
which is a multiple of 37 before the first letter of a word. -/
def namedecChar (c rest : Nat) : Char :=
  if c = 0 then ' '
  else if c < 27 then
    if rest % 37 = 0 then Char.ofNat (c + 65 - 1) else Char.ofNat (c + 97 - 1)
  else Char.ofNat (c + 48 - 27)

/-- `while (encoded != 0)`, with `n` turns left. -/
def namedecLoop : Nat → Nat → List Char
  | 0, _ => []
  | n + 1, encoded =>
    if encoded = 0 then []
    else namedecChar (encoded % 37) (encoded / 37) :: namedecLoop n (encoded / 37)

/-- The name of a number that has none. -/
def invalidName : List Char := ['-', 'i', 'n', 'v', 'a', 'l', 'i', 'd', '-']

/-- `mod37_namedec`. A number below `2 ^ 63` has at most 13 digits. -/
def mod37Namedec (encoded : Int) : List Char :=
  if encoded < 0 then invalidName
  else
    let decoded := namedecLoop 13 encoded.toNat
    if decoded.length = 0 then invalidName else decoded.reverse

def usernameSanitize (name : List Char) : List Char :=
  name.map fun c =>
    if c.isUpper then c.toLower else if c.isAlphanum then c else ' '

/-- What one character adds to the number. -/
def nameencDigit (c : Char) : Nat :=
  if c.isAlpha then 1 + c.toNat - 97
  else if c.isDigit then 27 + c.toNat - 48
  else 0

def wrap64 (n : Int) : Int := n.bmod (2 ^ 64)

def mod37Nameenc (name : List Char) : Int :=
  if 20 < name.length then 0
  else (usernameSanitize name).foldl (fun encoded c => wrap64 (encoded * 37 + nameencDigit c)) 0

/-! ## What C leaves undefined

`mod37_nameenc` again, with the indices it writes to and the sums it makes held
against the array and the type. -/

inductive NameFault where
  /-- A product or a sum is no `int64_t`. -/
  | overflow
  /-- A write past the end of `sanitized`. -/
  | outOfBounds (index : Nat)
  deriving DecidableEq, Repr

/-- `char sanitized[21]` -/
def sanitizedSize : Nat := 21

def int64 (n : Int) : Except NameFault Int :=
  if -2 ^ 63 ≤ n ∧ n < 2 ^ 63 then .ok n else .error .overflow

/-- `encoded *= 37` and `encoded += ..`, over the sanitized name. -/
def nameencLoop : List Char → Int → Except NameFault Int
  | [], encoded => .ok encoded
  | c :: cs, encoded =>
    match int64 (encoded * 37) with
    | .error e => .error e
    | .ok encoded =>
      match int64 (encoded + nameencDigit c) with
      | .error e => .error e
      | .ok encoded => nameencLoop cs encoded

/-- Where `username_sanitize` writes, and then `sanitized[len + 1] = '\0'`. -/
def sanitizedWrites (len : Nat) : List Nat := List.range len ++ [len + 1]

def nameencChecked (name : List Char) : Except NameFault Int :=
  if 20 < name.length then .ok 0
  else
    match (sanitizedWrites name.length).find? (sanitizedSize ≤ ·) with
    | some index => .error (.outOfBounds index)
    | none => nameencLoop (usernameSanitize name) 0

end Sundae.Ref
