import Mathlib.Data.List.Basic

/-!
# Bytes as half bytes

The half bytes of a list of bytes, the high one of each first, and those of a
list of bytes with one more half byte that waits for its other half.
-/

namespace Sundae.Lib

def nibbles : List Nat → List Nat
  | [] => []
  | b :: bs => b / 16 :: b % 16 :: nibbles bs

theorem nibbles_append (as bs : List Nat) : nibbles (as ++ bs) = nibbles as ++ nibbles bs := by
  induction as with
  | nil => rfl
  | cons a as ih =>
      rw [List.cons_append, nibbles, nibbles, ih]
      rfl

theorem length_nibbles (bs : List Nat) : (nibbles bs).length = 2 * bs.length := by
  induction bs with
  | nil => rfl
  | cons b bs ih =>
      simp only [nibbles, List.length_cons, ih]
      omega

/-- Two halves make the byte they come from. -/
theorem nibbles_concat (bs : List Nat) {m n : Nat} (hn : n < 16) :
    nibbles (bs ++ [m * 16 + n]) = nibbles bs ++ [m, n] := by
  have hhigh : (m * 16 + n) / 16 = m := by omega
  have hlow : (m * 16 + n) % 16 = n := by omega
  rw [nibbles_append, nibbles, nibbles, hhigh, hlow]

/-- The half bytes written when `half` waits for its other half. -/
def pending (bs : List Nat) (half : Option Nat) : List Nat := nibbles bs ++ half.toList

section

variable {bs : List Nat} {m n : Nat}

theorem pending_first : pending bs (some n) = pending bs none ++ [n] := by
  simp [pending]

theorem pending_second (hn : n < 16) :
    pending (bs ++ [m * 16 + n]) none = pending bs (some m) ++ [n] := by
  simp [pending, nibbles_concat bs hn]

theorem pending_byte (hn : n < 16) :
    pending (bs ++ [m * 16 + n]) none = pending bs none ++ [m, n] := by
  simp [pending, nibbles_concat bs hn]

theorem pending_cross {l : Nat} (hm : m < 16) :
    pending (bs ++ [l * 16 + m]) (some n) = pending bs (some l) ++ [m, n] := by
  simp [pending, nibbles_concat bs hm]

end

end Sundae.Lib
