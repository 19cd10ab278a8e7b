import Mathlib.Algebra.Group.Int.Defs
import Mathlib.Algebra.Group.Nat.Defs
import Mathlib.Data.List.Basic

/-!
# Reading packets

`buf_getu8` and its kin. A packet's bytes are a list, and `none` is the `-1`
of a read that would go past its end.
-/

namespace Sundae.Ref

def bufGetu8 (b : List Nat) (offset : Nat) : Option Nat := b[offset]?

def bufGetu16 (b : List Nat) (offset : Nat) : Option Nat :=
  match b[offset]?, b[offset + 1]? with
  | some x, some y => some (x * 256 + y)
  | _, _ => none

def bufGetu32 (b : List Nat) (offset : Nat) : Option Nat :=
  match bufGetu16 b offset, bufGetu16 b (offset + 2) with
  | some x, some y => some (x * 65536 + y)
  | _, _ => none

/-- Two's complement. -/
def toInt64 (n : Nat) : Int := (n : Int).bmod (2 ^ 64)

def bufGets64 (b : List Nat) (offset : Nat) : Option Int :=
  match bufGetu32 b offset, bufGetu32 b (offset + 4) with
  | some x, some y => some (toInt64 (x * 4294967296 + y))
  | _, _ => none

end Sundae.Ref
