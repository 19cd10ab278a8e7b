import Sundae.Proofs.Outgoing
import Sundae.Proofs.Zone
import Sundae.Ref.View

/-!
# Telling a client of its surroundings

Each encoder puts one record into `tmpbuf` for everything that is due and then
writes the packet. So it fails exactly when something is due and the frame of
all the records does not fit behind what is queued, whether it is `tmpbuf` that
is full or the output buffer. What matters is how far the known list has come
by then.
-/

namespace Sundae.Proofs

open Sundae.Lib Sundae.Ref

/-! ## A refused packet -/

/-- The bytes a packet of `n` takes up on the wire. -/
def frameSize (n : Nat) : Nat := if 160 ≤ n then n + 2 else n + 1

/-- Room for a packet of `n` bytes behind what is queued. -/
def FrameFits (v : Viewer) (n : Nat) : Prop := v.out.outbufLen + frameSize n ≤ playerBufsize

theorem FrameFits.le {v : Viewer} {n : Nat} (h : FrameFits v n) : n ≤ playerBufsize := by
  unfold FrameFits frameSize at h
  split at h
  · omega
  · omega

theorem putFrame_none_iff (b : List UInt8) (off : Nat) {payload : List UInt8}
    (h : 0 < payload.length) :
    (putFrame b off payload).2 = none ↔ playerBufsize < off + frameSize payload.length := by
  unfold putFrame putHeader frameSize bufPutu8
  by_cases hlarge : 160 ≤ payload.length
  · simp only [if_pos hlarge]
    by_cases h1 : playerBufsize < off + 1
    · simp [h1]
      omega
    · by_cases h2 : playerBufsize < off + 1 + 1
      · simp [h1, h2]
        omega
      · by_cases h3 : playerBufsize < off + 2 + payload.length
        · simp [h1, h2, h3]
          omega
        · simp [h1, h2, h3]
          omega
  · simp only [if_neg hlarge, if_pos h]
    by_cases h1 : playerBufsize < off + 1
    · simp [h1]
      omega
    · by_cases h2 : playerBufsize < off + 1 + 1
      · simp [h1, h2]
        omega
      · by_cases h3 : playerBufsize < off + 2 + (payload.length - 1)
        · simp [h1, h2, h3]
          omega
        · simp [h1, h2, h3]
          omega

/-- A packet that protocol 203 has is refused exactly for want of room. -/
theorem playerWritePacket_none_iff (isaacOut : Nat → UInt32) (w : Outgoing)
    {payload : List UInt8} (h : 0 < payload.length)
    (hop : opcodesOut203 (payload.headD 0) ≠ 0) :
    (playerWritePacket isaacOut w payload).2 = none ↔
      playerBufsize < w.outbufLen + frameSize payload.length := by
  have hout : ∃ op, outOpcode w.protocolRev (payload.headD 0) = some op := by
    unfold outOpcode
    rw [if_neg hop]
    split
    · exact ⟨_, rfl⟩
    · exact ⟨_, rfl⟩
  obtain ⟨op, hop⟩ := hout
  unfold playerWritePacket
  simp only [hop]
  have hset : (payload.set 0 (cipherOut isaacOut w op).2).length = payload.length :=
    List.length_set
  rw [← hset, ← putFrame_none_iff w.outbuf w.outbufLen (by omega)]
  split
  · next hf =>
    simp [hf]
  · next hf =>
    simp [hf]

/-! ## A packet under construction -/

/-- `tmpbuf` with the opcode and `n` records of `size` bytes. -/
structure Holding (opcode : UInt8) (size n : Nat) (d : Draft) : Prop where
  length : d.tmpbuf.length = playerBufsize
  opcode : d.tmpbuf.head? = some opcode
  offset : d.offset = 1 + size * n
  count : d.updateCount = n
  room : d.offset ≤ playerBufsize

theorem holds_opened {tmpbuf : List UInt8} (h : tmpbuf.length = playerBufsize)
    (opcode : UInt8) (size : Nat) : Holding opcode size 0 (.opened tmpbuf opcode) := by
  refine ⟨by simp [Draft.opened, h], ?_, by simp [Draft.opened], rfl, ?_⟩
  · cases tmpbuf with
    | nil => simp [playerBufsize] at h
    | cons x rest => rfl
  · simp [Draft.opened, playerBufsize]

theorem payload_opened {tmpbuf : List UInt8} (h : tmpbuf.length = playerBufsize)
    (opcode : UInt8) : (Draft.opened tmpbuf opcode).payload = [opcode] := by
  cases tmpbuf with
  | nil => simp [playerBufsize] at h
  | cons x rest => rfl

/-- Bytes put behind the opcode. -/
structure Grows (bytes : List UInt8) (d d' : Draft) : Prop where
  length : d'.tmpbuf.length = d.tmpbuf.length
  opcode : 0 < d.offset → d'.tmpbuf.head? = d.tmpbuf.head?
  offset : d'.offset = d.offset + bytes.length
  count : d'.updateCount = d.updateCount
  room : d'.offset ≤ playerBufsize
  payload : d.tmpbuf.length = playerBufsize → d'.payload = d.payload ++ bytes

theorem Grows.trans {bytes more : List UInt8} {d d' d'' : Draft} (h : Grows bytes d d')
    (h' : Grows more d' d'') : Grows (bytes ++ more) d d'' where
  length := h'.length.trans h.length
  opcode hd := (h'.opcode (by rw [h.offset]; omega)).trans (h.opcode hd)
  offset := by rw [h'.offset, h.offset, List.length_append, Nat.add_assoc]
  count := h'.count.trans h.count
  room := h'.room
  payload hlen := by
    rw [h'.payload (h.length.trans hlen), h.payload hlen, List.append_assoc]

theorem head?_set {l : List UInt8} {k : Nat} (h : 0 < k) (x : UInt8) :
    (l.set k x).head? = l.head? := by
  cases l with
  | nil => rfl
  | cons y rest =>
    cases k with
    | zero => cases h
    | succ k => rfl

theorem take_set_succ {b : List UInt8} {offset : Nat} (h : offset < b.length) (x : UInt8) :
    (b.set offset x).take (offset + 1) = b.take offset ++ [x] := by
  rw [List.take_add_one, List.take_set_of_le (Nat.le_refl offset), List.getElem?_set_self h]
  rfl

/-- The bytes are put if they fit. -/
def PutsBytes (bytes : List UInt8) (d : Draft) (result : Option Draft) : Prop :=
  (playerBufsize < d.offset + bytes.length ∧ result = none) ∨
    ∃ d', result = some d' ∧ Grows bytes d d'

/-- What is put behind what has been put. -/
theorem Grows.puts {bytes more : List UInt8} {d d' : Draft} {result : Option Draft}
    (h : Grows bytes d d') (hmore : PutsBytes more d' result) :
    PutsBytes (bytes ++ more) d result := by
  rcases hmore with ⟨hfull, rfl⟩ | ⟨d'', rfl, h'⟩
  · refine .inl ⟨?_, rfl⟩
    rw [h.offset] at hfull
    rw [List.length_append]
    omega
  · exact .inr ⟨d'', rfl, h.trans h'⟩

theorem PutsBytes.bind {bytes more : List UInt8} {d : Draft} {result : Option Draft}
    {next : Draft → Option Draft} (h : PutsBytes bytes d result)
    (hnext : ∀ d', PutsBytes more d' (next d')) :
    PutsBytes (bytes ++ more) d (result.bind next) := by
  rcases h with ⟨hfull, rfl⟩ | ⟨d', rfl, h⟩
  · refine .inl ⟨?_, rfl⟩
    rw [List.length_append]
    omega
  · exact h.puts (hnext d')

theorem putu8_puts (d : Draft) (x : UInt8) : PutsBytes [x] d (d.putu8 x) := by
  unfold Draft.putu8 bufPutu8
  by_cases h : playerBufsize < d.offset + 1
  · exact .inl ⟨h, by rw [if_pos h]; rfl⟩
  · rw [if_neg h]
    refine .inr ⟨_, rfl, ?_⟩
    refine ⟨List.length_set, fun hd => head?_set hd x, rfl, rfl, Nat.not_lt.1 h, fun hlen => ?_⟩
    exact take_set_succ (by omega) x

theorem putu16_puts (d : Draft) (x : Nat) :
    PutsBytes [UInt8.ofNat (x / 256), UInt8.ofNat x] d (d.putu16 x) := by
  unfold Draft.putu16 bufPutu16
  by_cases h : playerBufsize < d.offset + 2
  · exact .inl ⟨h, by rw [if_pos h]; rfl⟩
  · rw [if_neg h]
    refine .inr ⟨_, rfl, ?_⟩
    refine ⟨by simp, fun hd => ?_, rfl, rfl, Nat.not_lt.1 h, fun hlen => ?_⟩
    · exact (head?_set (by omega) _).trans (head?_set hd _)
    · have hnext : d.offset + 1 < (d.tmpbuf.set d.offset (UInt8.ofNat (x / 256))).length := by
        rw [List.length_set]
        omega
      have hhigh : d.offset < d.tmpbuf.length := by omega
      show ((d.tmpbuf.set d.offset _).set (d.offset + 1) _).take (d.offset + 1 + 1) = _
      rw [take_set_succ hnext, take_set_succ hhigh, List.append_assoc]
      rfl

/-- A further record of `size` bytes, if it fits. -/
def PutsRecord (size : Nat) (d : Draft) (result : Option Draft) : Prop :=
  ∃ bytes result', bytes.length = size ∧ PutsBytes bytes d result' ∧
    result = result'.map Draft.counted

/-- The bytes of a record of an id and a tile. -/
def recordBytes (v : Viewer) (id x y : Nat) : List UInt8 :=
  [UInt8.ofNat (id / 256), UInt8.ofNat id] ++ ([relative x v.x] ++ [relative y v.y])

theorem putRecord_puts (v : Viewer) (id x y : Nat) (d : Draft) :
    ∃ result, PutsBytes (recordBytes v id x y) d result ∧
      d.putRecord v id x y = result.map Draft.counted := by
  refine ⟨_, (putu16_puts d id).bind fun d => (putu8_puts d (relative x v.x)).bind fun d =>
    putu8_puts d (relative y v.y), ?_⟩
  unfold Draft.putRecord
  cases d.putu16 id with
  | none => rfl
  | some d₁ =>
    dsimp only [Option.bind_eq_bind, Option.bind_some]
    cases d₁.putu8 (relative x v.x) with
    | none => rfl
    | some d₂ =>
      dsimp only [Option.bind_some]
      cases d₂.putu8 (relative y v.y) with
      | none => rfl
      | some d₃ => rfl

theorem putRecord_cases (v : Viewer) (id x y : Nat) (d : Draft) :
    PutsRecord 4 d (d.putRecord v id x y) := by
  obtain ⟨result, hputs, heq⟩ := putRecord_puts v id x y d
  exact ⟨_, result, rfl, hputs, heq⟩

theorem putBound_cases (v : Viewer) (bound : Bound) (d : Draft) :
    PutsRecord 5 d (d.putBound v bound) := by
  refine ⟨_, _, rfl, (putu16_puts d bound.id).bind fun d =>
    (putu8_puts d (relative bound.x v.x)).bind fun d =>
      (putu8_puts d (relative bound.y v.y)).bind fun d => putu8_puts d (UInt8.ofNat bound.dir), ?_⟩
  unfold Draft.putBound
  cases d.putu16 bound.id with
  | none => rfl
  | some d₁ =>
    dsimp only [Option.bind_eq_bind, Option.bind_some]
    cases d₁.putu8 (relative bound.x v.x) with
    | none => rfl
    | some d₂ =>
      dsimp only [Option.bind_some]
      cases d₂.putu8 (relative bound.y v.y) with
      | none => rfl
      | some d₃ =>
        dsimp only [Option.bind_some]
        cases d₃.putu8 (UInt8.ofNat bound.dir) with
        | none => rfl
        | some d₄ => rfl

variable {opcode : UInt8} {size n : Nat} {d : Draft}

/-- A record more, with its bytes, or no room for it. -/
theorem Holding.putBytes (h : Holding opcode size n d) {bytes : List UInt8}
    (hsize : bytes.length = size) {result : Option Draft} (hput : PutsBytes bytes d result) :
    (playerBufsize < 1 + size * (n + 1) ∧ result.map Draft.counted = none) ∨
      ∃ d', result.map Draft.counted = some d' ∧ Holding opcode size (n + 1) d' ∧
        d'.payload = d.payload ++ bytes := by
  have hoffset := h.offset
  rcases hput with ⟨hfull, rfl⟩ | ⟨d', rfl, hgrows⟩
  · refine .inl ⟨?_, rfl⟩
    rw [Nat.mul_succ]
    omega
  · have hmore := hgrows.offset
    refine .inr ⟨d'.counted, rfl, ⟨hgrows.length.trans h.length,
      (hgrows.opcode (by omega)).trans h.opcode, ?_, ?_, hgrows.room⟩, hgrows.payload h.length⟩
    · show d'.offset = _
      rw [Nat.mul_succ]
      omega
    · show d'.updateCount + 1 = _
      rw [hgrows.count, h.count]

/-- One record more, or no room for it. -/
theorem Holding.put (h : Holding opcode size n d) {result : Option Draft}
    (hput : PutsRecord size d result) :
    (playerBufsize < 1 + size * (n + 1) ∧ result = none) ∨
      ∃ d', result = some d' ∧ Holding opcode size (n + 1) d' := by
  obtain ⟨bytes, result', hsize, hputs, rfl⟩ := hput
  rcases h.putBytes hsize hputs with hfull | ⟨d', heq, h', -⟩
  · exact .inl hfull
  · exact .inr ⟨d', heq, h'⟩

/-- The first record always fits. -/
theorem Holding.put_first (h : Holding opcode size 0 d) (hsize : size ≤ 5)
    {result : Option Draft} (hput : PutsRecord size d result) : result ≠ none := by
  rcases h.put hput with ⟨hfull, -⟩ | ⟨d', heq, -⟩
  · simp only [playerBufsize] at hfull
    omega
  · simp [heq]

/-- A packet with its opcode in front is refused exactly for want of room. -/
theorem write_failed_iff (isaacOut : Nat → UInt32) (v : Viewer) (hpos : 0 < d.offset)
    (hlen : d.offset ≤ d.tmpbuf.length) (hhead : d.tmpbuf.head? = some opcode)
    (hop : opcodesOut203 opcode ≠ 0) :
    (v.write isaacOut d).2 = .failed ↔ ¬ FrameFits v d.offset := by
  have hlength : d.payload.length = d.offset := by
    rw [Draft.payload, List.length_take]
    omega
  have hopcode : d.payload.headD 0 = opcode := by
    unfold Draft.payload
    cases hb : d.tmpbuf with
    | nil => simp [hb] at hhead
    | cons x rest =>
      rw [hb] at hhead
      obtain ⟨k, hk⟩ := Nat.exists_eq_succ_of_ne_zero (by omega : d.offset ≠ 0)
      rw [hk, List.take_succ_cons]
      exact Option.some.inj hhead
  have hwrite := playerWritePacket_none_iff isaacOut v.out (by rw [hlength]; exact hpos)
    (by rw [hopcode]; exact hop)
  rw [hlength] at hwrite
  rw [FrameFits, Nat.not_le, ← hwrite]
  unfold Viewer.write
  split
  · next heq =>
    simp [heq]
  · next heq =>
    simp [heq]

/-- What is written fails exactly when there is a record and no room for the
frame. -/
theorem writeUpdates_failed_iff (isaacOut : Nat → UInt32) (v : Viewer)
    (h : Holding opcode size n d) (hop : opcodesOut203 opcode ≠ 0) :
    (v.writeUpdates isaacOut d).2 = .failed ↔ ¬ (n = 0 ∨ FrameFits v (1 + size * n)) := by
  have hroom := h.room
  have hoffset := h.offset
  unfold Viewer.writeUpdates
  rw [h.count]
  by_cases hn : n = 0
  · simp [hn]
  · rw [if_neg hn, write_failed_iff isaacOut v (by omega) (by rw [h.length]; exact hroom)
      h.opcode hop, hoffset]
    simp [hn]

/-- The lists of what the client knows stay with a write. -/
theorem write_known (isaacOut : Nat → UInt32) (v : Viewer) (d : Draft) :
    ∃ out, (v.write isaacOut d).1 = { v with out := out } := by
  unfold Viewer.write
  split
  · exact ⟨_, rfl⟩
  · exact ⟨_, rfl⟩

theorem writeUpdates_sent (isaacOut : Nat → UInt32) (v : Viewer) (hcount : d.updateCount ≠ 0)
    (h : (v.writeUpdates isaacOut d).2 ≠ .failed) :
    ∃ out, v.writeUpdates isaacOut d = ({ v with out := out }, .packet d.payload) := by
  unfold Viewer.writeUpdates Viewer.write at h ⊢
  rw [if_neg hcount] at h ⊢
  split at h
  · exact absurd rfl h
  · exact ⟨_, rfl⟩

theorem writeUpdates_known (isaacOut : Nat → UInt32) (v : Viewer) (d : Draft) :
    ∃ out, (v.writeUpdates isaacOut d).1 = { v with out := out } := by
  unfold Viewer.writeUpdates
  split
  · exact ⟨v.out, rfl⟩
  · exact write_known isaacOut v d

end Sundae.Proofs
