import Mathlib.Data.List.Basic

/-!
# Writing bits

`buf_putbits` on the machine's own integers, with the bytes as a call leaves
them whether it fails or not. The packets of movement are built with the
function on unbounded values, which this one comes to.
-/

namespace Sundae.Ref

/-- `bitmasks` -/
def bitmasks : List (BitVec 32) := [
  0, 0x1, 0x3, 0x7,
  0xf, 0x1f, 0x3f, 0x7f,
  0xff, 0x1ff, 0x3ff, 0x7ff,
  0xfff, 0x1fff, 0x3fff, 0x7fff,
  0xffff, 0x1ffff, 0x3ffff, 0x7ffff,
  0xfffff, 0x1fffff, 0x3fffff, 0x7fffff,
  0xffffff, 0x1ffffff, 0x3ffffff, 0x7ffffff,
  0xfffffff, 0x1fffffff, 0x3fffffff, 0x7fffffff,
  0xffffffff]

def bitmask (num : Nat) : BitVec 32 := bitmasks.getD num 0

/-- `buffer[offset] &= ~mask` and then `buffer[offset] |= bits`. -/
def storeBits (x : UInt8) (mask bits : BitVec 32) : UInt8 :=
  .ofBitVec ((x.toBitVec.setWidth 32 &&& ~~~mask).setWidth 8 ||| bits.setWidth 8)

namespace Raw

/-- The loop of `buf_putbits` and what follows it, in a byte with `i` bits left:
the bytes, and what is returned. It runs at most `num` times before its
condition fails. -/
def putbitsLoop (buflen : Nat) (value : BitVec 32) :
    Nat → List UInt8 → Nat → Nat → Nat → List UInt8 × Int
  | 0, b, _, _, _ => (b, -1)
  | turns + 1, b, offset, i, num =>
    if i < num then
      if buflen < offset + 2 then (b, -1)
      else
        let bits := value.sshiftRight (num - i) &&& bitmask i
        putbitsLoop buflen value turns (b.modify offset fun x => storeBits x (bitmask i) bits)
          (offset + 1) 8 (num - i)
    else if buflen < offset + 1 then (b, -1)
    else if num = i then
      (b.modify offset fun x => storeBits x (bitmask i) (value &&& bitmask i), 0)
    else
      (b.modify offset fun x =>
        storeBits x (bitmask num <<< (i - num)) ((value &&& bitmask num) <<< (i - num)), 0)

def bufPutbits (b : List UInt8) (bitpos buflen num : Nat) (value : BitVec 32) :
    List UInt8 × Int :=
  putbitsLoop buflen value (num + 1) b (bitpos / 8) (8 - bitpos % 8) num

/-- One call after another, each where the one before ended. -/
def putFields (buflen : Nat) :
    List (Nat × BitVec 32) → List UInt8 → Nat → List UInt8 × List Int
  | [], b, _ => (b, [])
  | (num, value) :: fields, b, bitpos =>
    let (b, result) := bufPutbits b bitpos buflen num value
    let (b, results) := putFields buflen fields b (bitpos + num)
    (b, result :: results)

end Raw

end Sundae.Ref
