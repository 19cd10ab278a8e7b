import Mathlib.Tactic.Common
import Sundae.Lib.Bits
import Sundae.Ref.Bits
import Sundae.Ref.Movement

/-!
# The bits of a packet

`buf_putbits` writes the field of a value and touches no other bit. It fails
exactly where the field would reach past the buffer.
-/

namespace Sundae.Proofs

open Sundae.Ref Sundae.Lib

theorem lowBits_testBit (num : Nat) (value : Int) (j : Nat) :
    (lowBits num value).testBit j = (decide (j < num) && valueBit value j) := by
  have hpos : (0 : Int) < 2 ^ num := by positivity
  have hmod : ((lowBits num value : Nat) : Int) = value % 2 ^ num :=
    Int.toNat_of_nonneg (Int.emod_nonneg _ hpos.ne')
  by_cases hj : j < num
  · rw [← valueBit_natCast, hmod, valueBit_emod value hj]
    simp [hj]
  · have hlt : lowBits num value < 2 ^ j := by
      have hlt : value % 2 ^ num < 2 ^ num := Int.emod_lt_of_pos _ hpos
      rw [← hmod] at hlt
      have hle : 2 ^ num ≤ 2 ^ j := Nat.pow_le_pow_right (by omega) (by omega)
      exact Nat.lt_of_lt_of_le (by exact_mod_cast hlt) hle
    rw [Nat.testBit_lt_two_pow hlt]
    simp [hj]

theorem putField_bit (x : UInt8) (shift num : Nat) (value : Int) {j : Nat} (hj : j < 8) :
    (putField x shift num value).toBitVec.getLsbD j =
      if shift ≤ j ∧ j < shift + num then valueBit value (j - shift)
      else x.toBitVec.getLsbD j := by
  unfold putField
  rw [UInt8.toBitVec_or, BitVec.getLsbD_or, UInt8.toBitVec_and, BitVec.getLsbD_and,
    UInt8.toBitVec_not, BitVec.getLsbD_not]
  simp only [UInt8.toBitVec_ofNat', BitVec.getLsbD_ofNat, Nat.testBit_shiftLeft,
    Nat.testBit_two_pow_sub_one, lowBits_testBit, hj]
  by_cases h1 : shift ≤ j
  · by_cases h2 : j < shift + num
    · have h3 : j - shift < num := by omega
      simp [h1, h2, h3]
    · have h3 : ¬ j - shift < num := by omega
      simp [h1, h2, h3]
  · simp [h1]

/-- `b'` is `b` with the field of the value in the bits from `pos` on. -/
structure FieldWritten (b b' : List UInt8) (pos num : Nat) (value : Int) : Prop where
  length : b'.length = b.length
  bit : ∀ k, bitAt b' k =
    if pos ≤ k ∧ k < pos + num then valueBit value (pos + num - 1 - k) else bitAt b k

theorem putbitsLoop_cases (value : Int) (turns : Nat) {b : List UInt8} {buflen : Nat}
    (hb : buflen ≤ b.length) (offset : Nat) {i num : Nat}
    (hturns : num < turns) (hi : 0 < i) (hi8 : i ≤ 8) (hnum : 0 < num) :
    (8 * buflen < 8 * offset + (8 - i) + num ∧
      putbitsLoop buflen value turns b offset i num = none) ∨
    (8 * offset + (8 - i) + num ≤ 8 * buflen ∧
      ∃ b', putbitsLoop buflen value turns b offset i num = some b' ∧
        FieldWritten b b' (8 * offset + (8 - i)) num value) := by
  induction turns generalizing b offset i num with
  | zero => omega
  | succ turns ih =>
    unfold putbitsLoop
    by_cases hmore : i < num
    · rw [if_pos hmore]
      by_cases hfull : buflen < offset + 2
      · exact .inl ⟨by omega, if_pos hfull⟩
      · rw [if_neg hfull]
        have hlen : (b.modify offset fun x => putField x 0 i (value / 2 ^ (num - i))).length =
            b.length := List.length_modify ..
        have hnext := ih (hlen.symm ▸ hb) (offset + 1) (i := 8) (by omega) (by omega) (by omega)
          (Nat.sub_pos_of_lt hmore)
        rcases hnext with ⟨hover, heq⟩ | ⟨hroom, b', heq, hlen', hbit⟩
        · exact .inl ⟨by omega, heq⟩
        · refine .inr ⟨by omega, b', heq, hlen'.trans hlen, fun k => ?_⟩
          rw [hbit, bitAt_modify (by omega)]
          by_cases hlater : 8 * (offset + 1) + (8 - 8) ≤ k
          · have hk : k / 8 ≠ offset := by omega
            by_cases hin : k < 8 * offset + (8 - i) + num
            · rw [if_pos (by omega), if_pos (by omega)]
              congr 1
              omega
            · rw [if_neg (by omega), if_neg hk, if_neg (by omega)]
          · rw [if_neg (by omega)]
            by_cases hk : k / 8 = offset
            · rw [if_pos hk, putField_bit _ _ _ _ (by omega)]
              by_cases hin : 8 * offset + (8 - i) ≤ k
              · rw [if_pos (by omega), if_pos (by omega), valueBit_ediv]
                congr 1
                omega
              · rw [if_neg (by omega), if_neg (by omega), bitAt, hk]
            · rw [if_neg hk, if_neg (by omega)]
    · rw [if_neg hmore]
      by_cases hfull : buflen < offset + 1
      · exact .inl ⟨by omega, if_pos hfull⟩
      · rw [if_neg hfull]
        refine .inr ⟨by omega, _, rfl, List.length_modify .., fun k => ?_⟩
        rw [bitAt_modify (by omega)]
        by_cases hk : k / 8 = offset
        · rw [if_pos hk, putField_bit _ _ _ _ (by omega)]
          by_cases hin : 8 * offset + (8 - i) ≤ k ∧ k < 8 * offset + (8 - i) + num
          · rw [if_pos (by omega), if_pos hin]
            congr 1
            omega
          · rw [if_neg (by omega), if_neg hin, bitAt, hk]
        · rw [if_neg hk, if_neg (by omega)]

/-- A field is written if it ends within the buffer. -/
theorem bufPutbits_cases {b : List UInt8} {buflen : Nat} (h : buflen ≤ b.length)
    (bitpos : Nat) {num : Nat} (hnum : 0 < num) (value : Int) :
    (8 * buflen < bitpos + num ∧ bufPutbits b bitpos buflen num value = none) ∨
    (bitpos + num ≤ 8 * buflen ∧ ∃ b', bufPutbits b bitpos buflen num value = some b' ∧
      FieldWritten b b' bitpos num value) := by
  have hpos : 8 * (bitpos / 8) + (8 - (8 - bitpos % 8)) = bitpos := by omega
  have hloop := putbitsLoop_cases value (num + 1) h (bitpos / 8) (i := 8 - bitpos % 8)
    (Nat.lt_succ_self num) (by omega) (by omega) hnum
  rw [hpos] at hloop
  exact hloop

theorem FieldWritten.spells {b b' : List UInt8} {pos num : Nat} {value : Int}
    (h : FieldWritten b b' pos num value) : Spells b' pos (field num value) := by
  intro k hk
  have hnum : k < num := by simpa using hk
  rw [getElem_field, h.bit, if_pos (by omega)]
  congr 1
  omega

/-! ## On the machine -/

theorem bitmask_bit {num j : Nat} (hnum : num ≤ 32) (hj : j < 32) :
    (bitmask num).getLsbD j = decide (j < num) := by
  have hmask : ∀ num ≤ 32, bitmask num = BitVec.ofNat 32 (2 ^ num - 1) := by decide
  rw [hmask num hnum, BitVec.getLsbD_ofNat, Nat.testBit_two_pow_sub_one]
  simp [hj]

theorem valueBit_toInt (value : BitVec 32) {j : Nat} (hj : j < 32) :
    valueBit value.toInt j = value.getLsbD j := by
  have hmod : value.toInt % 2 ^ 32 = value.toNat := by
    have hlt := value.isLt
    rw [BitVec.toInt_eq_toNat_cond]
    split <;> omega
  rw [← valueBit_emod value.toInt hj, hmod, valueBit_natCast]
  rfl

theorem storeBits_bit (x : UInt8) (mask bits : BitVec 32) {j : Nat} (hj : j < 8) :
    (storeBits x mask bits).toBitVec.getLsbD j =
      ((x.toBitVec.getLsbD j && !mask.getLsbD j) || bits.getLsbD j) := by
  have hj' : j < 32 := by omega
  simp [storeBits, hj, hj']

/-- A byte that is stored is the field in it. -/
theorem storeBits_eq (x : UInt8) (shift k : Nat) {num : Nat} (value : BitVec 32)
    (hbyte : shift + num ≤ 8) (hvalue : k + num ≤ 32) :
    storeBits x (bitmask num <<< shift) ((value.sshiftRight k &&& bitmask num) <<< shift) =
      putField x shift num (value.toInt / 2 ^ k) := by
  refine UInt8.toBitVec_inj.1 (BitVec.eq_of_getLsbD_eq fun j hj => ?_)
  have hstored : (storeBits x (bitmask num <<< shift)
      ((value.sshiftRight k &&& bitmask num) <<< shift)).toBitVec.getLsbD j =
      if shift ≤ j ∧ j < shift + num then value.getLsbD (k + (j - shift))
      else x.toBitVec.getLsbD j := by
    have h5 : j < 32 := by omega
    rw [storeBits_bit _ _ _ hj, BitVec.getLsbD_shiftLeft, BitVec.getLsbD_shiftLeft,
      BitVec.getLsbD_and, bitmask_bit (by omega) (by omega), BitVec.getLsbD_sshiftRight]
    by_cases hlow : shift ≤ j
    · have h4 : ¬ j < shift := by omega
      by_cases hhigh : j < shift + num
      · have h1 : j - shift < num := by omega
        have h2 : k + (j - shift) < 32 := by omega
        have h3 : ¬ 32 ≤ j - shift := by omega
        simp [h1, h2, h3, h4, h5, hlow, hhigh]
      · have h1 : ¬ j - shift < num := by omega
        simp [h1, hhigh]
    · have h1 : j < shift := by omega
      simp [h1, hlow]
  rw [hstored, putField_bit _ _ _ _ hj]
  split
  · rw [valueBit_ediv, valueBit_toInt value (by omega), Nat.add_comm]
  · rfl

theorem putbitsLoop_raw (buflen : Nat) (value : BitVec 32) (turns : Nat) (b : List UInt8)
    (offset : Nat) {i num : Nat} (hi8 : i ≤ 8) (hnum : num ≤ 32) :
    match putbitsLoop buflen value.toInt turns b offset i num with
    | some b' => Raw.putbitsLoop buflen value turns b offset i num = (b', 0)
    | none => (Raw.putbitsLoop buflen value turns b offset i num).2 = -1 := by
  induction turns generalizing b offset i num with
  | zero => rfl
  | succ turns ih =>
      rw [putbitsLoop, Raw.putbitsLoop]
      by_cases hmore : i < num
      · rw [if_pos hmore, if_pos hmore]
        by_cases hfull : buflen < offset + 2
        · rw [if_pos hfull, if_pos hfull]
        · rw [if_neg hfull, if_neg hfull]
          have hbyte : ∀ x, storeBits x (bitmask i) (value.sshiftRight (num - i) &&& bitmask i) =
              putField x 0 i (value.toInt / 2 ^ (num - i)) := by
            intro x
            have heq := storeBits_eq x 0 (num - i) value (show 0 + i ≤ 8 by omega) (by omega)
            simpa using heq
          simp only [hbyte]
          exact ih _ _ (Nat.le_refl 8) (by omega)
      · rw [if_neg hmore, if_neg hmore]
        by_cases hfull : buflen < offset + 1
        · rw [if_pos hfull, if_pos hfull]
        · rw [if_neg hfull, if_neg hfull]
          have hbyte : ∀ x, storeBits x (bitmask num <<< (i - num))
              ((value &&& bitmask num) <<< (i - num)) = putField x (i - num) num value.toInt := by
            intro x
            have heq := storeBits_eq x (i - num) 0 value (show i - num + num ≤ 8 by omega) (by omega)
            simpa using heq
          dsimp only
          split
          · next hlast =>
            subst hlast
            simp only [Nat.sub_self, BitVec.shiftLeft_zero] at hbyte ⊢
            simp only [hbyte]
          · simp only [hbyte]

/-- Whatever a call does, it keeps the length and what is past `buflen`. -/
theorem putbitsLoop_keeps {buflen : Nat} (value : BitVec 32) (turns : Nat) (b : List UInt8)
    (offset i num : Nat) :
    (Raw.putbitsLoop buflen value turns b offset i num).1.length = b.length ∧
      (Raw.putbitsLoop buflen value turns b offset i num).1.drop buflen = b.drop buflen := by
  have hmodify : ∀ (b : List UInt8) (offset : Nat) (f : UInt8 → UInt8), ¬ buflen < offset + 1 →
      (b.modify offset f).length = b.length ∧ (b.modify offset f).drop buflen = b.drop buflen := by
    intro b offset f hroom
    exact ⟨List.length_modify .., List.drop_modify_of_lt _ _ _ _ (by omega)⟩
  induction turns generalizing b offset i num with
  | zero => exact ⟨rfl, rfl⟩
  | succ turns ih =>
      rw [Raw.putbitsLoop]
      split
      · split
        · exact ⟨rfl, rfl⟩
        · next hroom =>
          obtain ⟨hlen, hdrop⟩ := hmodify b offset (fun x => storeBits x (bitmask i)
            (value.sshiftRight (num - i) &&& bitmask i)) (by omega)
          obtain ⟨hlen', hdrop'⟩ := ih _ (offset + 1) 8 (num - i)
          exact ⟨hlen'.trans hlen, hdrop'.trans hdrop⟩
      · split
        · exact ⟨rfl, rfl⟩
        · next hroom =>
          split
          · exact hmodify _ _ _ hroom
          · exact hmodify _ _ _ hroom

/-- A call that fits writes its field, and one that does not returns -1. -/
theorem rawPutbits_cases {b : List UInt8} {buflen : Nat} (hb : buflen ≤ b.length) (bitpos : Nat)
    {num : Nat} (hpos : 0 < num) (hnum : num ≤ 32) (value : BitVec 32) :
    (8 * buflen < bitpos + num ∧ (Raw.bufPutbits b bitpos buflen num value).2 = -1) ∨
    (bitpos + num ≤ 8 * buflen ∧ ∃ b', Raw.bufPutbits b bitpos buflen num value = (b', 0) ∧
      FieldWritten b b' bitpos num value.toInt) := by
  have hraw := putbitsLoop_raw buflen value (num + 1) b (bitpos / 8)
    (i := 8 - bitpos % 8) (by omega) hnum
  rcases bufPutbits_cases hb bitpos hpos value.toInt with ⟨hover, heq⟩ | ⟨hroom, b', heq, hb'⟩
  · rw [show putbitsLoop .. = _ from heq] at hraw
    exact .inl ⟨hover, hraw⟩
  · rw [show putbitsLoop .. = _ from heq] at hraw
    exact .inr ⟨hroom, b', hraw, hb'⟩

/-- What a list of fields leaves, of which all fit. -/
structure FieldsWritten (b b' : List UInt8) (pos : Nat) (fields : List (Nat × BitVec 32)) :
    Prop where
  length : b'.length = b.length
  outside : ∀ k, k < pos ∨ pos + (fields.map Prod.fst).sum ≤ k → bitAt b' k = bitAt b k
  spells : Spells b' pos (fields.flatMap fun w => field w.1 w.2.toInt)

theorem putFields_written {buflen : Nat} (fields : List (Nat × BitVec 32)) {b : List UInt8}
    (hb : buflen ≤ b.length) {pos : Nat} (hwidths : ∀ w ∈ fields, 0 < w.1 ∧ w.1 ≤ 32)
    (hfit : pos + (fields.map Prod.fst).sum ≤ 8 * buflen) :
    ∃ b', Raw.putFields buflen fields b pos = (b', fields.map fun _ => 0) ∧
      FieldsWritten b b' pos fields := by
  induction fields generalizing b pos with
  | nil => exact ⟨b, rfl, rfl, fun _ _ => rfl, Spells.nil b pos⟩
  | cons w fields ih =>
      obtain ⟨hpos, hnum⟩ := hwidths w List.mem_cons_self
      simp only [List.map_cons, List.sum_cons] at hfit
      rcases rawPutbits_cases hb pos hpos hnum w.2 with ⟨hover, -⟩ | ⟨-, b₁, hput, hb₁⟩
      · omega
      · obtain ⟨b', hrest, hb'⟩ := @ih b₁ (hb₁.length.symm ▸ hb) (pos + w.1)
          (fun w hw => hwidths w (List.mem_cons_of_mem _ hw)) (by omega)
        refine ⟨b', by rw [Raw.putFields, hput]; dsimp only; rw [hrest]; rfl,
          hb'.length.trans hb₁.length, fun k hk => ?_, ?_⟩
        · simp only [List.map_cons, List.sum_cons] at hk
          rw [hb'.outside k (by omega), hb₁.bit, if_neg (by omega)]
        · have hfirst : Spells b' pos (field w.1 w.2.toInt) := by
            refine hb₁.spells.congr fun k hk => hb'.outside k (.inl ?_)
            simpa using hk
          rw [List.flatMap_cons]
          exact hfirst.append (by rw [length_field]; exact hb'.spells)

/-- What a reader finds that takes fields of these widths, one after the other. -/
def readFields (b : List UInt8) : List Nat → Nat → List Nat
  | [], _ => []
  | num :: nums, pos => readBits b pos num :: readFields b nums (pos + num)

theorem readFields_of_spells {b : List UInt8} (fields : List (Nat × BitVec 32)) {pos : Nat}
    (h : Spells b pos (fields.flatMap fun w => field w.1 w.2.toInt)) :
    (readFields b (fields.map Prod.fst) pos).map (fun n : Nat => (n : Int)) =
      fields.map fun w => w.2.toInt % 2 ^ w.1 := by
  induction fields generalizing pos with
  | nil => rfl
  | cons w fields ih =>
      rw [List.flatMap_cons, spells_append, length_field] at h
      have hread := h.1.readBits
      rw [length_field] at hread
      rw [List.map_cons, readFields, List.map_cons, List.map_cons, ih h.2, hread, number_field]

/-- Fields that fit are written, all of them, so that a reader finds each of the
values, and no other bit is changed. A field that does not fit is refused. A
byte past the end is never touched. -/
theorem putbits_read_back {b : List UInt8} {buflen : Nat} (hb : buflen ≤ b.length) (pos : Nat) :
    (∀ fields : List (Nat × BitVec 32), (∀ w ∈ fields, 1 ≤ w.1 ∧ w.1 ≤ 32) →
      pos + (fields.map Prod.fst).sum ≤ 8 * buflen →
        ∃ b', Raw.putFields buflen fields b pos = (b', fields.map fun _ => 0) ∧
          (readFields b' (fields.map Prod.fst) pos).map (fun n : Nat => (n : Int)) =
            fields.map (fun w => w.2.toInt % 2 ^ w.1) ∧
          b'.length = b.length ∧ b'.drop buflen = b.drop buflen ∧
          ∀ k, k < pos ∨ pos + (fields.map Prod.fst).sum ≤ k → bitAt b' k = bitAt b k) ∧
    ∀ num (value : BitVec 32), 1 ≤ num → num ≤ 32 → 8 * buflen < pos + num →
      (Raw.bufPutbits b pos buflen num value).2 = -1 ∧
        (Raw.bufPutbits b pos buflen num value).1.length = b.length ∧
          (Raw.bufPutbits b pos buflen num value).1.drop buflen = b.drop buflen := by
  constructor
  · intro fields hwidths hfit
    obtain ⟨b', hput, hb'⟩ := putFields_written fields hb hwidths hfit
    exact ⟨b', hput, readFields_of_spells fields hb'.spells, hb'.length,
      drop_eq_of_bits hb'.length fun k hk => hb'.outside k (.inr (by omega)), hb'.outside⟩
  · intro num value hpos hnum hover
    rcases rawPutbits_cases hb pos hpos hnum value with ⟨-, hfail⟩ | ⟨hroom, -⟩
    · exact ⟨hfail, putbitsLoop_keeps value _ b _ _ _⟩
    · omega

/-- Ten bits of -3 and three of 5, from the sixth bit of a byte on. -/
theorem putbits_read_back_ten :
    (∃ b', Raw.putFields 3 [(10, -3), (3, 5)] [255, 255, 255, 255] 5 = (b', [0, 0]) ∧
      (readFields b' [10, 3] 5).map (fun n : Nat => (n : Int)) = [1021, 5]) ∧
      (Raw.bufPutbits [255, 255, 255, 255] 20 3 5 0).2 = -1 := by
  have hall := putbits_read_back (b := [255, 255, 255, 255]) (show 3 ≤ 4 by decide)
  obtain ⟨b', hput, hread, -⟩ := (hall 5).1 [(10, -3), (3, 5)] (by decide) (by decide)
  have hrefused := (hall 20).2 5 0 (by decide) (by decide) (by decide)
  exact ⟨⟨b', hput, hread.trans (by decide)⟩, hrefused.1⟩

end Sundae.Proofs
