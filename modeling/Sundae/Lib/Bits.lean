import Mathlib.Tactic.NormNum
import Mathlib.Tactic.Positivity
import Mathlib.Tactic.Ring

/-!
# Fields of bits in a row of bytes

Bits are counted from the high end of the first byte. A value is written as a
field of its low bits, the highest first.
-/

namespace Sundae.Lib

/-- The bit of a number that is worth `2 ^ j`, in two's complement. -/
def valueBit (value : Int) (j : Nat) : Bool := decide (value / 2 ^ j % 2 = 1)

theorem valueBit_ediv (value : Int) (m j : Nat) :
    valueBit (value / 2 ^ m) j = valueBit value (j + m) := by
  unfold valueBit
  rw [Int.ediv_ediv_of_nonneg (by positivity), ← pow_add, Nat.add_comm]

/-- Taking the remainder keeps the low bits. -/
theorem valueBit_emod {num j : Nat} (value : Int) (hj : j < num) :
    valueBit (value % 2 ^ num) j = valueBit value j := by
  have hpow : (2 : Int) ^ num = 2 ^ j * (2 * 2 ^ (num - j - 1)) := by
    rw [← pow_succ', ← pow_add]
    congr 1
    omega
  have hsplit : value =
      value % 2 ^ num + 2 ^ j * (2 * (2 ^ (num - j - 1) * (value / 2 ^ num))) := by
    calc value = value % 2 ^ num + 2 ^ num * (value / 2 ^ num) :=
          (Int.emod_add_mul_ediv _ _).symm
      _ = _ := by rw [hpow]; ring
  have hbit : value / 2 ^ j % 2 = value % 2 ^ num / 2 ^ j % 2 := by
    conv_lhs => rw [hsplit]
    rw [Int.add_mul_ediv_left _ _ (by positivity), Int.add_mul_emod_self_left]
  simp only [valueBit, hbit]

theorem valueBit_natCast (n j : Nat) : valueBit n j = n.testBit j := by
  rw [Nat.testBit_eq_decide_div_mod_eq, valueBit]
  congr 1
  norm_cast

/-- The low bits of a value, the highest of them first. -/
def field : Nat → Int → List Bool
  | 0, _ => []
  | num + 1, value => valueBit value num :: field num value

@[simp] theorem length_field (num : Nat) (value : Int) : (field num value).length = num := by
  induction num with
  | zero => rfl
  | succ num ih => simp [field, ih]

theorem getElem_field {num : Nat} (value : Int) {k : Nat} (h : k < (field num value).length) :
    (field num value)[k] = valueBit value (num - 1 - k) := by
  induction num generalizing k with
  | zero => simp [field] at h
  | succ num ih =>
    cases k with
    | zero => rfl
    | succ k =>
      simp only [field, List.getElem_cons_succ]
      rw [ih (by simpa [field] using h)]
      congr 1
      omega

/-- The number that a field spells. -/
def number (l : List Bool) : Nat := l.foldl (fun n bit => 2 * n + bit.toNat) 0

theorem emod_two_pow_succ (value : Int) (num : Nat) :
    value % 2 ^ (num + 1) = (valueBit value num).toNat * 2 ^ num + value % 2 ^ num := by
  have hpos : (0 : Int) < 2 ^ num := by positivity
  have hsplit := Int.emod_add_mul_ediv (value % 2 ^ (num + 1)) (2 ^ num)
  rw [Int.emod_emod_of_dvd value (pow_dvd_pow 2 (Nat.le_succ num))] at hsplit
  have hlow : 0 ≤ value % 2 ^ (num + 1) / 2 ^ num :=
    Int.ediv_nonneg (Int.emod_nonneg _ (by positivity)) hpos.le
  have hhigh : value % 2 ^ (num + 1) / 2 ^ num < 2 := by
    refine Int.ediv_lt_of_lt_mul hpos ?_
    rw [← pow_succ']
    exact Int.emod_lt_of_pos _ (by positivity)
  have hbit : ((valueBit value num).toNat : Int) = value % 2 ^ (num + 1) / 2 ^ num := by
    rw [← valueBit_emod value (Nat.lt_succ_self num), valueBit]
    generalize value % 2 ^ (num + 1) / 2 ^ num = q at hlow hhigh
    obtain rfl | rfl : q = 0 ∨ q = 1 := by omega
    · rfl
    · rfl
  rw [hbit, Int.mul_comm, Int.add_comm (2 ^ num * _)]
  exact hsplit.symm

theorem number_field (num : Nat) (value : Int) :
    (number (field num value) : Int) = value % 2 ^ num := by
  have hrun : ∀ n : Nat, ((field num value).foldl (fun n bit => 2 * n + bit.toNat) n : Nat) =
      (n : Int) * 2 ^ num + value % 2 ^ num := by
    induction num with
    | zero => simp [field]
    | succ num ih =>
      intro n
      rw [field, List.foldl_cons, ih, emod_two_pow_succ]
      push_cast
      ring
  simpa [number] using hrun 0

/-! ## Bytes -/

def bitAt (b : List UInt8) (k : Nat) : Bool := (b.getD (k / 8) 0).toBitVec.getLsbD (7 - k % 8)

theorem bitAt_modify {b : List UInt8} {offset : Nat} (h : offset < b.length)
    (f : UInt8 → UInt8) (k : Nat) :
    bitAt (b.modify offset f) k =
      if k / 8 = offset then (f (b.getD offset 0)).toBitVec.getLsbD (7 - k % 8)
      else bitAt b k := by
  unfold bitAt
  split
  · next hk =>
    simp [List.getD_eq_getElem?_getD, hk, List.getElem?_eq_getElem h]
  · next hk =>
    have hne : offset ≠ k / 8 := fun h => hk h.symm
    simp [List.getD_eq_getElem?_getD, hne]

/-- Bytes of which all bits agree from a byte on are the same from there on. -/
theorem drop_eq_of_bits {b b' : List UInt8} {n : Nat} (hlen : b'.length = b.length)
    (hbit : ∀ k, 8 * n ≤ k → bitAt b' k = bitAt b k) : b'.drop n = b.drop n := by
  refine List.ext_getElem (by simp [hlen]) fun j h' h => ?_
  rw [List.length_drop] at h h'
  rw [List.getElem_drop, List.getElem_drop]
  refine UInt8.toBitVec_inj.1 (BitVec.eq_of_getLsbD_eq fun i hi => ?_)
  have hsame := hbit (8 * (n + j) + (7 - i)) (by omega)
  have hbyte : (8 * (n + j) + (7 - i)) / 8 = n + j := by omega
  have hplace : 7 - (8 * (n + j) + (7 - i)) % 8 = i := by omega
  simpa only [bitAt, hbyte, hplace, List.getD_eq_getElem?_getD,
    List.getElem?_eq_getElem (show n + j < b'.length by omega),
    List.getElem?_eq_getElem (show n + j < b.length by omega), Option.getD_some] using hsame

/-- `num` bits from `pos` on, read as a number with the highest first. -/
def readBits (b : List UInt8) (pos num : Nat) : Nat :=
  number ((List.range num).map fun k => bitAt b (pos + k))

/-- The bits `l` stand in the bytes from `pos` on. -/
def Spells (b : List UInt8) (pos : Nat) (l : List Bool) : Prop :=
  ∀ k (h : k < l.length), bitAt b (pos + k) = l[k]

theorem Spells.nil (b : List UInt8) (pos : Nat) : Spells b pos [] :=
  fun k h => absurd h (by simp)

theorem Spells.append {b : List UInt8} {pos : Nat} {l m : List Bool} (hl : Spells b pos l)
    (hm : Spells b (pos + l.length) m) : Spells b pos (l ++ m) := by
  intro k h
  by_cases hk : k < l.length
  · rw [List.getElem_append_left hk]
    exact hl k hk
  · rw [List.getElem_append_right (by omega)]
    have hbit := hm (k - l.length) (by simp at h; omega)
    rwa [show pos + l.length + (k - l.length) = pos + k by omega] at hbit

theorem spells_append {b : List UInt8} {pos : Nat} {l m : List Bool} :
    Spells b pos (l ++ m) ↔ Spells b pos l ∧ Spells b (pos + l.length) m := by
  refine ⟨fun h => ⟨fun k hk => ?_, fun k hk => ?_⟩, fun h => h.1.append h.2⟩
  · have hbit := h k (by simp; omega)
    rwa [List.getElem_append_left hk] at hbit
  · have hbit := h (l.length + k) (by simpa using hk)
    rw [List.getElem_append_right (by omega), ← Nat.add_assoc] at hbit
    simpa using hbit

/-- What is read is what is spelled. -/
theorem Spells.readBits {b : List UInt8} {pos : Nat} {l : List Bool} (h : Spells b pos l) :
    readBits b pos l.length = number l := by
  have hbits : (List.range l.length).map (fun k => bitAt b (pos + k)) = l := by
    refine List.ext_getElem (by simp) fun k hk hl => ?_
    rw [List.getElem_map, List.getElem_range]
    exact h k hl
  rw [Lib.readBits, hbits]

/-- What stands in front of a place where the bytes agree stays. -/
theorem Spells.congr {b b' : List UInt8} {pos : Nat} {l : List Bool} (h : Spells b pos l)
    (hsame : ∀ k, k < pos + l.length → bitAt b' k = bitAt b k) : Spells b' pos l := by
  intro k hk
  rw [hsame (pos + k) (by omega)]
  exact h k hk

end Sundae.Lib
