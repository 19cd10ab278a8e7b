import Mathlib.Data.List.Basic

/-!
# Numbers in one byte or in four

A number below 128 is one byte, and any other four, the first with its top bit
set: the reader knows from the first byte how many there are. That leaves 31 bits,
so a larger number is not read back. Readers of one thing make readers of a list of
them.
-/

namespace Sundae.Lib

/-- The top bit of the first of four bytes is added to whatever it is. -/
def smartBytes (n : Nat) : List UInt8 :=
  if n < 128 then [UInt8.ofNat n]
  else [UInt8.ofNat (n / 16777216 + 128), UInt8.ofNat (n / 65536), UInt8.ofNat (n / 256),
    UInt8.ofNat n]

def readSmart : List UInt8 → Option (Nat × List UInt8)
  | [] => none
  | a :: rest =>
    if a.toNat < 128 then some (a.toNat, rest)
    else
      match rest with
      | b :: c :: d :: rest =>
        some ((a.toNat - 128) * 16777216 + b.toNat * 65536 + c.toNat * 256 + d.toNat, rest)
      | _ => none

theorem readSmart_smartBytes {n : Nat} (h : n < 2147483648) (rest : List UInt8) :
    readSmart (smartBytes n ++ rest) = some (n, rest) := by
  unfold smartBytes readSmart
  by_cases hsmall : n < 128
  · have hbyte : (UInt8.ofNat n).toNat = n := by
      rw [UInt8.toNat_ofNat']
      omega
    rw [if_pos hsmall, List.singleton_append]
    dsimp only
    rw [hbyte, if_pos hsmall]
  · have hfirst : (UInt8.ofNat (n / 16777216 + 128)).toNat = n / 16777216 + 128 := by
      rw [UInt8.toNat_ofNat']
      omega
    rw [if_neg hsmall]
    dsimp only [List.cons_append, List.nil_append]
    rw [hfirst, if_neg (by omega)]
    simp only [UInt8.toNat_ofNat', Option.some.injEq, Prod.mk.injEq, and_true]
    omega

theorem length_smartBytes_le (n : Nat) : (smartBytes n).length ≤ 4 := by
  unfold smartBytes
  split
  · exact Nat.le_add_left 1 3
  · exact Nat.le_refl 4

/-! ## Lists -/

variable {α β : Type} {read : List β → Option (α × List β)}

/-- Read `n` things, one after the other. -/
def readMany (read : List β → Option (α × List β)) : Nat → List β → Option (List α × List β)
  | 0, bytes => some ([], bytes)
  | n + 1, bytes =>
    match read bytes with
    | none => none
    | some (a, bytes) => (readMany read n bytes).map fun (as, bytes) => (a :: as, bytes)

theorem readMany_flatMap {enc : α → List β} {as : List α}
    (h : ∀ a ∈ as, ∀ rest, read (enc a ++ rest) = some (a, rest)) (rest : List β) :
    readMany read as.length (as.flatMap enc ++ rest) = some (as, rest) := by
  induction as with
  | nil => rfl
  | cons a as ih =>
      have hrest := ih fun b hb => h b (List.mem_cons_of_mem a hb)
      rw [List.length_cons, readMany, List.flatMap_cons, List.append_assoc,
        h a List.mem_cons_self]
      dsimp only
      rw [hrest]
      rfl

/-- What holds of anything that is read holds of all that is. -/
theorem forall_of_readMany {p : α → Prop} (hp : ∀ bytes a rest, read bytes = some (a, rest) → p a)
    {n : Nat} {bytes rest : List β} {as : List α} (h : readMany read n bytes = some (as, rest)) :
    ∀ a ∈ as, p a := by
  induction n generalizing bytes as with
  | zero =>
      obtain ⟨rfl, -⟩ := Prod.mk.inj (Option.some.inj h)
      simp
  | succ n ih =>
      rw [readMany] at h
      cases hread : read bytes with
      | none =>
          rw [hread] at h
          cases h
      | some r =>
          obtain ⟨a, bytes'⟩ := r
          rw [hread] at h
          obtain ⟨⟨as', rest'⟩, hmany, heq⟩ := Option.map_eq_some_iff.1 h
          obtain ⟨rfl, rfl⟩ := Prod.mk.inj heq
          intro b hb
          rcases List.mem_cons.1 hb with rfl | hb
          · exact hp bytes b bytes' hread
          · exact ih hmany b hb

end Sundae.Lib
