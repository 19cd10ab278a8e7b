import Sundae.Ref.Framing

/-!
# Inbound framing

The parse loop reads one packet after another off the unprocessed part of the
buffer, so it is `Codec.drain` at the frame format (`playerParseIncoming_eq`),
and never reads past what was received. What a connection has been handed is
therefore always a prefix of what its client sent.

Whether it is ever handed the rest depends on where the frames fall. The
buffer is never compacted: it starts afresh only when a parse has used up all
of it, so a frame whose first byte has arrived must end within the
`PLAYER_BUFSIZE` bytes counted from the last fresh start. `Fits` says so, and
is exactly the condition under which the connection can still be served.
-/

namespace Sundae.Proofs

open Sundae.Ref Sundae.Lib

/-! ## The frame format -/

/-- Read one packet off the bytes that have arrived. -/
def decode : List UInt8 → Option (List UInt8 × Nat)
  | len1 :: len2 :: rest =>
    let len := if 160 ≤ len1.toNat then (len1.toNat - 160) * 256 + len2.toNat else len1.toNat
    if len = 0 then none
    else if len < 160 then
      if rest.length + 1 < len then none else some (rest.take (len - 1) ++ [len2], len + 1)
    else if rest.length < len then none else some (rest.take len, len + 2)
  | _ => none

/-- What the protocol lets a client send in one packet. -/
def validPacket (data : List UInt8) : Prop :=
  1 ≤ data.length ∧ (frame data).length ≤ playerBufsize

instance (data : List UInt8) : Decidable (validPacket data) :=
  inferInstanceAs (Decidable (_ ∧ _))

theorem length_frame_small {data : List UInt8} (h : data.length < 160) (h1 : 1 ≤ data.length) :
    (frame data).length = data.length + 1 := by
  rw [frame, if_pos h, List.length_cons, List.length_cons, List.length_dropLast]
  omega

theorem length_frame_large {data : List UInt8} (h : ¬ data.length < 160) :
    (frame data).length = data.length + 2 := by
  rw [frame, if_neg h, List.length_cons, List.length_cons]

theorem length_frame_replicate {n : Nat} {x : UInt8} (h : ¬ n < 160) :
    (frame (List.replicate n x)).length = n + 2 := by
  rw [length_frame_large (by rw [List.length_replicate]; exact h), List.length_replicate]

theorem frame_pos (data : List UInt8) : 0 < (frame data).length := by
  unfold frame
  split <;> exact Nat.succ_pos _

/-- The length a small frame's first byte announces. -/
theorem toNat_small {n : Nat} (h : n < 160) : (UInt8.ofNat n).toNat = n := by
  rw [UInt8.toNat_ofNat', Nat.mod_eq_of_lt]
  omega

/-- The length a large frame's two bytes announce. -/
theorem toNat_large {n : Nat} (h : ¬ n < 160) (hmax : n + 2 ≤ playerBufsize) :
    160 ≤ (UInt8.ofNat (160 + n / 256)).toNat ∧
      ((UInt8.ofNat (160 + n / 256)).toNat - 160) * 256 + (UInt8.ofNat (n % 256)).toNat = n := by
  unfold playerBufsize at hmax
  rw [UInt8.toNat_ofNat', UInt8.toNat_ofNat', Nat.mod_eq_of_lt (a := 160 + n / 256) (by omega),
    Nat.mod_eq_of_lt (a := n % 256) (by omega)]
  omega

theorem dropLast_append_getLastD {data : List UInt8} (h1 : 1 ≤ data.length) :
    data.dropLast ++ [data.getLastD 0] = data := by
  have hne : data ≠ [] := List.ne_nil_of_length_pos h1
  rw [List.getLastD_eq_getLast?, List.getLast?_eq_some_getLast hne, Option.getD_some]
  exact List.dropLast_concat_getLast hne

theorem decode_frame {data : List UInt8} (rest : List UInt8) (hv : validPacket data) :
    decode (frame data ++ rest) = some (data, (frame data).length) := by
  obtain ⟨h1, hmax⟩ := hv
  by_cases hs : data.length < 160
  · have hlen := length_frame_small hs h1
    have hb := toNat_small hs
    rw [hlen, frame, if_pos hs]
    simp only [List.cons_append, decode, hb]
    rw [if_neg (show ¬ 160 ≤ data.length by omega), if_neg (show ¬ data.length = 0 by omega),
      if_pos hs, if_neg (by rw [List.length_append, List.length_dropLast]; omega),
      List.take_left' (by rw [List.length_dropLast]), dropLast_append_getLastD h1]
  · have hlen := length_frame_large hs
    obtain ⟨hbig, hb⟩ := toNat_large hs (hlen ▸ hmax)
    rw [hlen, frame, if_neg hs]
    simp only [List.cons_append, decode, if_pos hbig, hb]
    rw [if_neg (show ¬ data.length = 0 by omega), if_neg hs,
      if_neg (by rw [List.length_append]; omega), List.take_left' rfl]

theorem decode_part {data part : List UInt8} (hv : validPacket data) (hp : part <+: frame data)
    (hlt : part.length < (frame data).length) : decode part = none := by
  obtain ⟨h1, hmax⟩ := hv
  match part, hp with
  | [], _ => rfl
  | [_], _ => rfl
  | len1 :: len2 :: rest, hp =>
      by_cases hs : data.length < 160
      · have hb := toNat_small hs
        rw [length_frame_small hs h1, List.length_cons, List.length_cons] at hlt
        rw [frame, if_pos hs, List.cons_prefix_cons, List.cons_prefix_cons] at hp
        obtain ⟨rfl, rfl, -⟩ := hp
        simp only [decode, hb]
        rw [if_neg (show ¬ 160 ≤ data.length by omega), if_neg (show ¬ data.length = 0 by omega),
          if_pos hs, if_pos (by omega)]
      · have hlen := length_frame_large hs
        obtain ⟨hbig, hb⟩ := toNat_large hs (hlen ▸ hmax)
        rw [hlen, List.length_cons, List.length_cons] at hlt
        rw [frame, if_neg hs, List.cons_prefix_cons, List.cons_prefix_cons] at hp
        obtain ⟨rfl, rfl, -⟩ := hp
        simp only [decode, if_pos hbig, hb]
        rw [if_neg (show ¬ data.length = 0 by omega), if_neg hs, if_pos (by omega)]

/-- The frame format, as a codec. -/
def packetCodec : Codec (List UInt8) UInt8 where
  enc := frame
  dec := decode
  valid := validPacket
  enc_pos := frame_pos
  dec_nil := rfl
  dec_whole := fun _ rest hv => decode_frame rest hv
  dec_part := fun _ _ hv hp hlt => decode_part hv hp hlt

/-! ## The parse loop is the codec's reader -/

theorem byte_drop {b : Inbuf} {i : Nat} {x : UInt8} {l : List UInt8}
    (h : b.inbuf.drop i = x :: l) : b.byte i = .ok x := by
  have hx : b.inbuf[i]? = some x := by
    rw [← List.head?_drop, h, List.head?_cons]
  rw [Inbuf.byte, hx]

theorem drop_succ_of_drop {l m : List UInt8} {x : UInt8} {i : Nat} (h : l.drop i = x :: m) :
    l.drop (i + 1) = m := by
  rw [← List.drop_drop, h, List.drop_succ_cons, List.drop_zero]

theorem nextPacket_eq (b : Inbuf) :
    nextPacket b = .ok (decode (b.inbuf.drop b.inbufProcessed)) := by
  have hlen : b.inbufLen - b.inbufProcessed = (b.inbuf.drop b.inbufProcessed).length :=
    List.length_drop.symm
  unfold nextPacket
  rw [hlen]
  match hd : b.inbuf.drop b.inbufProcessed with
  | [] => rfl
  | [x] => rfl
  | len1 :: len2 :: rest =>
      have hd1 := drop_succ_of_drop hd
      have hd2 := drop_succ_of_drop hd1
      have hrest : b.inbufLen = b.inbufProcessed + 2 + rest.length := by
        have h := congrArg List.length hd
        rw [List.length_drop, List.length_cons, List.length_cons] at h
        unfold Inbuf.inbufLen
        omega
      simp only [byte_drop hd, byte_drop hd1, decode, List.length_cons, Except.bind, bind]
      rw [if_neg (by omega)]
      generalize (if 160 ≤ len1.toNat then (len1.toNat - 160) * 256 + len2.toNat
        else len1.toNat) = len
      by_cases h0 : len = 0
      · rw [if_pos h0, if_pos h0]
      · rw [if_neg h0, if_neg h0]
        by_cases hs : len < 160
        · rw [if_pos hs]
          by_cases hl : rest.length + 1 < len
          · rw [if_pos hl, if_pos (by omega), if_pos hs, if_pos (by omega)]
          · rw [if_neg hl]
            by_cases h1 : 1 < len
            · rw [if_pos h1, if_pos hs, if_neg (by omega), Inbuf.bytes, if_neg (by omega), hd2]
            · obtain rfl : len = 1 := by omega
              rw [if_neg h1]
              rfl
        · rw [if_neg hs, if_pos (by omega), if_neg hs]
          by_cases hl : rest.length < len
          · rw [if_pos hl, if_pos (by omega)]
          · rw [if_neg hl, if_neg (by omega), Inbuf.bytes, if_neg (by omega), hd2]

/-- What the reader uses of its input it has. -/
theorem decode_used {buf data : List UInt8} {used : Nat}
    (h : decode buf = some (data, used)) : used ≤ buf.length := by
  match buf with
  | [] => cases h
  | [_] => cases h
  | len1 :: len2 :: rest =>
      simp only [decode] at h
      generalize (if 160 ≤ len1.toNat then (len1.toNat - 160) * 256 + len2.toNat
        else len1.toNat) = len at h
      rw [List.length_cons, List.length_cons]
      split at h
      · cases h
      · split at h
        · split at h
          · cases h
          · next hl =>
            injection h with h
            injection h with _ h
            omega
        · split at h
          · cases h
          · next hl =>
            injection h with h
            injection h with _ h
            omega

/-- The loop hands over what the reader reads, and moves `inbuf_processed`
past it; it never reads past the bytes received. -/
theorem parseLoop_eq (n : Nat) {b : Inbuf} (hb : b.inbufProcessed ≤ b.inbufLen) :
    ∃ used, parseLoop n b =
        .ok ((packetCodec.drain n (b.inbuf.drop b.inbufProcessed)).1,
          { b with inbufProcessed := b.inbufProcessed + used }) ∧
      b.inbufProcessed + used ≤ b.inbufLen ∧
      b.inbuf.drop (b.inbufProcessed + used) =
        (packetCodec.drain n (b.inbuf.drop b.inbufProcessed)).2 := by
  induction n generalizing b with
  | zero => exact ⟨0, rfl, hb, rfl⟩
  | succ n ih =>
      unfold parseLoop
      split
      · next hlt =>
        rw [nextPacket_eq]
        cases hd : decode (b.inbuf.drop b.inbufProcessed) with
        | none =>
            refine ⟨0, ?_, hb, ?_⟩ <;>
              simp only [Codec.drain, packetCodec, hd, Nat.add_zero]
        | some x =>
            obtain ⟨data, k⟩ := x
            have hk : b.inbufProcessed + k ≤ b.inbufLen := by
              have h := decode_used hd
              rw [List.length_drop] at h
              unfold Inbuf.inbufLen at hlt ⊢
              omega
            obtain ⟨used, hloop, hle, hdrop⟩ :=
              ih (b := { b with inbufProcessed := b.inbufProcessed + k }) hk
            refine ⟨k + used, ?_, ?_, ?_⟩
            · simp only [hloop, Codec.drain, packetCodec, hd, List.drop_drop, Nat.add_assoc]
            · rw [← Nat.add_assoc]; exact hle
            · rw [← Nat.add_assoc]
              simp only [Codec.drain, packetCodec, hd, List.drop_drop] at hdrop ⊢
              exact hdrop
      · next hge =>
        have hnil : b.inbuf.drop b.inbufProcessed = [] :=
          List.drop_eq_nil_of_le (Nat.le_of_not_lt hge)
        refine ⟨0, ?_, hb, ?_⟩ <;>
          simp only [hnil, Codec.drain, packetCodec, decode, Nat.add_zero]

/-- `player_parse_incoming` hands over what the reader reads off the
unprocessed bytes, at most `MAX_PACKETS_PER_TICK` of it, and keeps the rest. -/
theorem playerParseIncoming_eq {b : Inbuf} (hb : b.inbufProcessed ≤ b.inbufLen) :
    ∃ b', playerParseIncoming b =
        .ok ((packetCodec.drain maxPacketsPerTick (b.inbuf.drop b.inbufProcessed)).1, b') ∧
      b'.inbuf.drop b'.inbufProcessed =
        (packetCodec.drain maxPacketsPerTick (b.inbuf.drop b.inbufProcessed)).2 ∧
      ((b'.inbuf.drop b'.inbufProcessed = [] ∧ b' = {}) ∨
        (b'.inbuf = b.inbuf ∧ b'.inbufProcessed < b'.inbufLen)) := by
  obtain ⟨used, hloop, hle, hdrop⟩ := parseLoop_eq maxPacketsPerTick hb
  unfold playerParseIncoming
  rw [hloop]
  rcases Nat.lt_or_ge (b.inbufProcessed + used) b.inbufLen with hlt | hge
  · refine ⟨{ b with inbufProcessed := b.inbufProcessed + used }, ?_, hdrop, .inr ⟨rfl, hlt⟩⟩
    exact congrArg (fun b' => Except.ok (_, b')) (if_neg (Nat.not_le_of_lt hlt))
  · refine ⟨{}, congrArg (fun b' => Except.ok (_, b')) (if_pos hge), ?_, .inl ⟨rfl, rfl⟩⟩
    rw [← hdrop]
    exact (List.drop_eq_nil_of_le hge).symm

/-! ## Runs of a connection -/

/-- What a client sends on one connection: packets that frame within the
receive buffer. -/
structure Stream where
  packets : List (List UInt8)
  valid : ∀ data ∈ packets, validPacket data

namespace Stream

/-- The bytes the client sends. -/
def bytes (sent : Stream) : List UInt8 := sent.packets.flatMap frame

/-- Parsing the whole stream at once. -/
def parsed (sent : Stream) : List (List UInt8) := packetCodec.decodeAll sent.bytes

theorem parsed_eq (sent : Stream) : sent.parsed = sent.packets :=
  packetCodec.decodeAll_enc sent.valid

/-- The connection of a client about to send the stream. -/
def opened (sent : Stream) (c : Conn) : Prop := c = { pending := sent.bytes }

end Stream

/-- The packets of the stream not handed over yet. -/
def left (sent : Stream) (c : Conn) : List (List UInt8) :=
  sent.packets.drop c.handed.length

theorem left_eq {sent : Stream} {c : Conn} {l : List (List UInt8)}
    (h : sent.packets = c.handed ++ l) : left sent c = l := by
  rw [left, h, List.drop_left]

/-- The bytes received and not parsed yet. -/
def unparsed (c : Conn) : List UInt8 := c.buf.inbuf.drop c.buf.inbufProcessed

theorem length_unparsed (c : Conn) :
    (unparsed c).length = c.buf.inbufLen - c.buf.inbufProcessed := List.length_drop

/-- `inbuf_processed <= inbuf_len <= PLAYER_BUFSIZE`, an exhausted buffer is a
fresh one, and the packets not handed over yet are what the unparsed bytes and
the socket still hold. -/
structure ConnInv (sent : Stream) (c : Conn) : Prop where
  processed_le : c.buf.inbufProcessed ≤ c.buf.inbufLen
  len_le : c.buf.inbufLen ≤ playerBufsize
  fresh : c.buf.inbufLen ≤ c.buf.inbufProcessed → c.buf = {}
  handed : sent.packets = c.handed ++ left sent c
  bytes : unparsed c ++ c.pending = (left sent c).flatMap frame

theorem connInv_opened {sent : Stream} {c : Conn} (h : sent.opened c) : ConnInv sent c := by
  unfold Stream.opened at h
  subst h
  exact ⟨Nat.le_refl _, Nat.zero_le _, fun _ => rfl, rfl, rfl⟩

/-- The bytes a receive takes off the socket. -/
def received (c : Conn) (n : Nat) : List UInt8 :=
  (c.pending.take n).take (playerBufsize - c.buf.inbufLen)

theorem received_append (c : Conn) (n : Nat) :
    received c n ++ c.pending.drop (received c n).length = c.pending := by
  rw [received, List.take_take, List.length_take]
  rcases Nat.le_total (min (playerBufsize - c.buf.inbufLen) n) c.pending.length with h | h
  · rw [Nat.min_eq_left h, List.take_append_drop]
  · rw [Nat.min_eq_right h, List.drop_length, List.append_nil, List.take_of_length_le h]

theorem length_received (c : Conn) (n : Nat) :
    (received c n).length = min (min (playerBufsize - c.buf.inbufLen) n) c.pending.length := by
  rw [received, List.take_take, List.length_take]

theorem step_recv (c : Conn) (n : Nat) :
    c.step (.recv n) = .ok
      { c with
        buf := { c.buf with inbuf := c.buf.inbuf ++ received c n }
        pending := c.pending.drop (received c n).length } := by
  have hlen : (c.buf.inbuf ++ received c n).length - c.buf.inbuf.length =
      (received c n).length := by
    rw [List.length_append]
    omega
  exact congrArg (fun k => Except.ok { c with
    buf := { c.buf with inbuf := c.buf.inbuf ++ received c n }
    pending := c.pending.drop k }) hlen

theorem connInv_recv {sent : Stream} {c c' : Conn} {n : Nat} (hinv : ConnInv sent c)
    (hs : c.step (.recv n) = .ok c') : ConnInv sent c' := by
  rw [step_recv] at hs
  obtain rfl := Except.ok.inj hs
  have hlen : (c.buf.inbuf ++ received c n).length = c.buf.inbufLen + (received c n).length :=
    List.length_append
  have hroom := length_received c n
  have hle := hinv.processed_le
  have hmax := hinv.len_le
  refine ⟨?_, ?_, ?_, hinv.handed, ?_⟩
  · show c.buf.inbufProcessed ≤ (c.buf.inbuf ++ received c n).length
    omega
  · show (c.buf.inbuf ++ received c n).length ≤ playerBufsize
    omega
  · intro h
    have h' : (c.buf.inbuf ++ received c n).length ≤ c.buf.inbufProcessed := h
    have hbuf := hinv.fresh (by omega)
    have hnil : received c n = [] := List.eq_nil_of_length_eq_zero (by omega)
    show { c.buf with inbuf := c.buf.inbuf ++ received c n } = ({} : Inbuf)
    rw [hnil, List.append_nil]
    exact hbuf
  · show (c.buf.inbuf ++ received c n).drop c.buf.inbufProcessed ++ _ = _
    rw [List.drop_append_of_le_length hle, List.append_assoc, received_append]
    exact hinv.bytes

/-- What a parse does: it takes the packets `done` off the front, and leaves a
whole frame unparsed only after `MAX_PACKETS_PER_TICK` of them. -/
theorem step_parse {sent : Stream} {c : Conn} (hinv : ConnInv sent c) :
    ∃ c' done, c.step .parse = .ok c' ∧ ConnInv sent c' ∧
      left sent c = done ++ left sent c' ∧
      unparsed c = done.flatMap frame ++ unparsed c' ∧
      (c'.buf = {} ∧ unparsed c' = [] ∨ c'.buf.inbuf = c.buf.inbuf) ∧
      (done.length < maxPacketsPerTick →
        ∀ data ∈ (left sent c').head?, (unparsed c').length < (frame data).length) := by
  obtain ⟨buf, hparse, hdrop, hbuf⟩ := playerParseIncoming_eq hinv.processed_le
  have hv : ∀ data ∈ left sent c, validPacket data := fun data hd =>
    sent.valid data (List.mem_of_mem_drop hd)
  obtain ⟨l, hleft, hbytes, hrest, hstop⟩ :=
    packetCodec.drain_prefix hv hinv.bytes maxPacketsPerTick
  let done := (packetCodec.drain maxPacketsPerTick (unparsed c)).1
  let c' : Conn := { c with buf := buf, handed := c.handed ++ done }
  have hpackets : sent.packets = c'.handed ++ l := by
    show _ = (c.handed ++ done) ++ l
    rw [List.append_assoc, ← hleft]
    exact hinv.handed
  have hl : left sent c' = l := left_eq hpackets
  have hun : unparsed c' = (packetCodec.drain maxPacketsPerTick (unparsed c)).2 := hdrop
  have hstep : c.step .parse = .ok c' := by
    simp only [Conn.step, hparse]
    rfl
  refine ⟨c', done, hstep, ⟨?_, ?_, ?_, ?_, ?_⟩, ?_, ?_, ?_, ?_⟩
  · show buf.inbufProcessed ≤ buf.inbufLen
    rcases hbuf with ⟨-, rfl⟩ | ⟨-, hlt⟩
    · exact Nat.le_refl _
    · exact Nat.le_of_lt hlt
  · show buf.inbufLen ≤ playerBufsize
    rcases hbuf with ⟨-, rfl⟩ | ⟨hsame, -⟩
    · exact Nat.zero_le _
    · rw [Inbuf.inbufLen, hsame]
      exact hinv.len_le
  · intro hge
    rcases hbuf with ⟨-, hb⟩ | ⟨-, hlt⟩
    · exact hb
    · exact absurd hlt (Nat.not_lt_of_le hge)
  · rw [hl]
    exact hpackets
  · rw [hl, hun]
    exact hrest
  · rw [hl]
    exact hleft
  · rw [hun]
    exact hbytes
  · rcases hbuf with ⟨hnil, hb⟩ | ⟨hsame, -⟩
    · exact .inl ⟨hb, hnil⟩
    · exact .inr hsame
  · rw [hl, hun]
    exact hstop

/-- The invariant is kept by every event. -/
theorem connInv_step {sent : Stream} {c c' : Conn} {e : ConnEvent} (hinv : ConnInv sent c)
    (hs : c.step e = .ok c') : ConnInv sent c' := by
  cases e with
  | recv n => exact connInv_recv hinv hs
  | parse =>
      obtain ⟨c'', done, hs', hinv', -⟩ := step_parse hinv
      rw [hs'] at hs
      obtain rfl := Except.ok.inj hs
      exact hinv'

/-- No event reads past the bytes received. -/
theorem step_total {sent : Stream} {c : Conn} (hinv : ConnInv sent c) (e : ConnEvent) :
    ∃ c', c.step e = .ok c' := by
  cases e with
  | recv n => exact ⟨_, step_recv c n⟩
  | parse =>
      obtain ⟨c', done, hs, -⟩ := step_parse hinv
      exact ⟨c', hs⟩

/-! ## Where the frames end -/

/-- Where the frames of `left`, the first at offset `off`, end: within the
buffer, as far as their first byte is below `len`. -/
def Fits (len : Nat) : Nat → List (List UInt8) → Prop
  | _, [] => True
  | off, data :: left =>
    off < len → off + (frame data).length ≤ playerBufsize ∧
      Fits len (off + (frame data).length) left

instance decidableFits (len : Nat) : ∀ off left, Decidable (Fits len off left)
  | _, [] => .isTrue trivial
  | off, data :: left =>
    have := decidableFits len (off + (frame data).length) left
    inferInstanceAs (Decidable (_ → _))

theorem fits_of_le {len off : Nat} {left : List (List UInt8)} (h : len ≤ off) :
    Fits len off left := by
  cases left with
  | nil => trivial
  | cons data left => exact fun hlt => absurd hlt (Nat.not_lt_of_le h)

theorem fits_mono {len len' : Nat} (h : len ≤ len') {left : List (List UInt8)} {off : Nat}
    (hf : Fits len' off left) : Fits len off left := by
  induction left generalizing off with
  | nil => trivial
  | cons data left ih =>
      intro hlt
      obtain ⟨hend, hrest⟩ := hf (Nat.lt_of_lt_of_le hlt h)
      exact ⟨hend, ih hrest⟩

/-- Frames that have arrived whole do not matter. -/
theorem fits_append {len off : Nat} (hlen : len ≤ playerBufsize)
    {done left : List (List UInt8)} (h : off + (done.flatMap frame).length ≤ len) :
    Fits len off (done ++ left) ↔ Fits len (off + (done.flatMap frame).length) left := by
  induction done generalizing off with
  | nil => exact Iff.rfl
  | cons data done ih =>
      rw [List.flatMap_cons, List.length_append] at h ⊢
      have hpos := frame_pos data
      rw [← Nat.add_assoc, ← ih (by omega)]
      constructor
      · intro hf
        exact (hf (by omega)).2
      · intro hf _
        exact ⟨by omega, hf⟩

/-- Every frame begun in the buffer can end in it. -/
def BufFits (sent : Stream) (c : Conn) : Prop :=
  Fits c.buf.inbufLen c.buf.inbufProcessed (left sent c)

/-- The event keeps it so: the frame in which the bytes of a receive end has
room, from where it starts in the buffer, to be completed. -/
def StepFits (sent : Stream) (c : Conn) : ConnEvent → Prop
  | .recv n =>
    Fits (c.buf.inbufLen + (received c n).length) c.buf.inbufProcessed (left sent c)
  | .parse => True

instance (sent : Stream) (c : Conn) : ∀ e, Decidable (StepFits sent c e)
  | .recv _ => decidableFits _ _ _
  | .parse => .isTrue trivial

theorem bufFits_opened {sent : Stream} {c : Conn} (h : sent.opened c) : BufFits sent c := by
  unfold Stream.opened at h
  subst h
  exact fits_of_le (Nat.le_refl _)

/-- One event: what fits after it is what fitted before it and keeps fitting. -/
theorem bufFits_step {sent : Stream} {c c' : Conn} {e : ConnEvent} (hinv : ConnInv sent c)
    (hs : c.step e = .ok c') : BufFits sent c' ↔ BufFits sent c ∧ StepFits sent c e := by
  cases e with
  | recv n =>
      rw [step_recv] at hs
      obtain rfl := Except.ok.inj hs
      have hlen : (c.buf.inbuf ++ received c n).length =
          c.buf.inbufLen + (received c n).length := List.length_append
      show Fits (c.buf.inbuf ++ received c n).length c.buf.inbufProcessed (left sent c) ↔ _
      rw [hlen]
      exact ⟨fun h => ⟨fits_mono (Nat.le_add_right _ _) h, h⟩, And.right⟩
  | parse =>
      obtain ⟨c'', done, hs', hinv', hleft, hun, hbuf, -⟩ := step_parse hinv
      rw [hs'] at hs
      obtain rfl := Except.ok.inj hs
      have hlen := congrArg List.length hun
      rw [List.length_append, length_unparsed, length_unparsed] at hlen
      have hle := hinv.processed_le
      have hle' := hinv'.processed_le
      unfold BufFits StepFits
      rw [and_true, hleft, fits_append hinv.len_le (by omega)]
      rcases hbuf with ⟨hb, hnil⟩ | hsame
      · have hzero : (unparsed c'').length = 0 := by rw [hnil]; rfl
        rw [length_unparsed] at hzero
        have h1 : Fits c''.buf.inbufLen c''.buf.inbufProcessed (left sent c'') :=
          fits_of_le (by omega)
        have h2 : Fits c.buf.inbufLen
            (c.buf.inbufProcessed + (done.flatMap frame).length) (left sent c'') :=
          fits_of_le (by omega)
        exact ⟨fun _ => h2, fun _ => h1⟩
      · have hsameLen : c''.buf.inbufLen = c.buf.inbufLen := by
          rw [Inbuf.inbufLen, hsame]
          rfl
        rw [hsameLen] at hlen hle' ⊢
        rw [show c''.buf.inbufProcessed =
          c.buf.inbufProcessed + (done.flatMap frame).length by omega]

/-! ## Being served -/

/-- Some way of going on hands over the whole stream. -/
def Completes (sent : Stream) (c : Conn) : Prop :=
  ∃ tr c', Run (· = c) Conn.step tr c' ∧ c'.handed = sent.parsed

/-- What the server owes a connection: its counters in order and in bounds, no
event that reads past the bytes received, the packets handed over a prefix of
the stream parsed at once and all of it when nothing is left to receive or to
parse, and a way on to that point. -/
structure Served (sent : Stream) (c : Conn) : Prop where
  processed_le : c.buf.inbufProcessed ≤ c.buf.inbufLen
  len_le : c.buf.inbufLen ≤ playerBufsize
  noOverRead : ∀ e, ∃ c', c.step e = .ok c'
  handedPrefix : c.handed <+: sent.parsed
  handedAll : c.pending = [] → c.buf.inbuf = [] → c.handed = sent.parsed
  completes : Completes sent c

/-- Once a frame has begun where it cannot end, it never will. -/
theorem bufFits_of_completes {sent : Stream} {c : Conn} (hinv : ConnInv sent c)
    (hc : Completes sent c) : BufFits sent c := by
  obtain ⟨tr, c', hrun, hall⟩ := hc
  rcases Classical.em (BufFits sent c) with hfits | hfits
  · exact hfits
  · have hstuck : ConnInv sent c' ∧ ¬ BufFits sent c' := by
      refine hrun.always (I := fun c => ConnInv sent c ∧ ¬ BufFits sent c) ?_ ?_
      · rintro s rfl
        exact ⟨hinv, hfits⟩
      · rintro s e s' ⟨hinv, hfits⟩ hs
        exact ⟨connInv_step hinv hs, fun h => hfits ((bufFits_step hinv hs).1 h).1⟩
    have hnil : left sent c' = [] := by
      rw [left, hall, sent.parsed_eq, List.drop_length]
    refine absurd ?_ hstuck.2
    rw [BufFits, hnil]
    trivial

/-- The bytes missing of the next frame can be received, and a parse then
takes it. -/
theorem progress {sent : Stream} {c : Conn} (hinv : ConnInv sent c) (hfits : BufFits sent c)
    (hleft : left sent c ≠ []) :
    ∃ tr c', Run (· = c) Conn.step tr c' ∧ ConnInv sent c' ∧ BufFits sent c' ∧
      (left sent c').length < (left sent c).length := by
  obtain ⟨data, l, hl⟩ := List.exists_cons_of_ne_nil hleft
  have hvalid : validPacket data :=
    sent.valid data (List.mem_of_mem_drop (hl ▸ List.mem_cons_self : data ∈ left sent c))
  have hbytes := congrArg List.length hinv.bytes
  rw [hl, List.flatMap_cons, List.length_append, List.length_append, length_unparsed] at hbytes
  have hle := hinv.processed_le
  have hmax := hinv.len_le
  have hend : c.buf.inbufProcessed + (frame data).length ≤ playerBufsize := by
    rcases Nat.lt_or_ge c.buf.inbufProcessed c.buf.inbufLen with hlt | hge
    · unfold BufFits at hfits
      rw [hl] at hfits
      exact (hfits hlt).1
    · rw [hinv.fresh hge, Nat.zero_add]
      exact hvalid.2
  -- Ask for exactly what the frame at the front still lacks.
  let n := c.buf.inbufProcessed + (frame data).length - c.buf.inbufLen
  have hgot : (received c n).length = n := by
    rw [length_received]
    omega
  have hs1 := step_recv c n
  have hinv1 := connInv_recv hinv hs1
  have hfits1 := (bufFits_step hinv hs1).2 ⟨hfits, by
    show Fits (c.buf.inbufLen + (received c n).length) c.buf.inbufProcessed (left sent c)
    rw [hgot]
    rcases Nat.eq_zero_or_pos n with h0 | hpos
    · rw [h0]
      exact hfits
    · rw [hl]
      exact fun _ => ⟨hend, fits_of_le (by omega)⟩⟩
  obtain ⟨c2, done, hs2, hinv2, hleft2, hun2, -, hstop⟩ := step_parse hinv1
  have hfits2 := (bufFits_step hinv1 hs2).2 ⟨hfits1, trivial⟩
  refine ⟨_, c2, .cons hs1 (.single hs2), hinv2, hfits2, ?_⟩
  have hleft1 : left sent c = done ++ left sent c2 := hleft2
  cases done with
  | nil =>
      have hhead : data ∈ (left sent c2).head? := by
        rw [← List.nil_append (left sent c2), ← hleft1, hl]
        rfl
      have hshort := hstop (by decide) data hhead
      rw [List.flatMap_nil, List.nil_append] at hun2
      rw [← hun2, length_unparsed] at hshort
      have hlen1 : (c.buf.inbuf ++ received c n).length = c.buf.inbufLen + n := by
        rw [List.length_append, hgot]
        rfl
      have hshort' : (c.buf.inbuf ++ received c n).length - c.buf.inbufProcessed <
          (frame data).length := hshort
      omega
  | cons d done =>
      rw [hleft1, List.length_append, List.length_cons]
      omega

theorem completes_of_bufFits {sent : Stream} {c : Conn} (hinv : ConnInv sent c)
    (hfits : BufFits sent c) : Completes sent c := by
  generalize hn : (left sent c).length = n
  induction n using Nat.strongRecOn generalizing c with
  | ind n ih =>
      rcases Classical.em (left sent c = []) with hnil | hne
      · have h := hinv.handed
        rw [hnil, List.append_nil] at h
        exact ⟨[], c, .start rfl, by rw [sent.parsed_eq, h]⟩
      · obtain ⟨tr, c', hrun, hinv', hfits', hlt⟩ := progress hinv hfits hne
        obtain ⟨tr', c'', hrun', hall⟩ := ih _ (hn ▸ hlt) hinv' hfits' rfl
        exact ⟨tr ++ tr', c'', hrun.trans hrun', hall⟩

/-- With nothing on the socket and nothing in the buffer all was handed over. -/
theorem left_eq_nil {sent : Stream} {c : Conn} (hinv : ConnInv sent c)
    (hpending : c.pending = []) (hbuf : c.buf.inbuf = []) : left sent c = [] := by
  have hbytes := hinv.bytes
  rw [hpending, List.append_nil, unparsed, hbuf, List.drop_nil] at hbytes
  cases h : left sent c with
  | nil => rfl
  | cons data l =>
      rw [h, List.flatMap_cons] at hbytes
      have hpos := frame_pos data
      have hlen := congrArg List.length hbytes
      rw [List.length_append, List.length_nil] at hlen
      omega

theorem served_iff {sent : Stream} {c : Conn} (hinv : ConnInv sent c) :
    Served sent c ↔ BufFits sent c := by
  refine ⟨fun h => bufFits_of_completes hinv h.completes, fun hfits => ?_⟩
  have hpackets := hinv.handed
  refine ⟨hinv.processed_le, hinv.len_le, step_total hinv, ?_, ?_,
    completes_of_bufFits hinv hfits⟩
  · rw [sent.parsed_eq]
    exact ⟨_, hpackets.symm⟩
  · intro hpending hbuf
    rw [left_eq_nil hinv hpending hbuf, List.append_nil] at hpackets
    rw [sent.parsed_eq, hpackets]

/-- A connection that is about to send a stream is served in every state of a
run exactly when, at every receive, the frame the received bytes end in still
has room to be completed where it begins: the receive buffer is never
compacted. -/
theorem conn_served_iff_fits (sent : Stream) {tr : List (Conn × ConnEvent)} {c : Conn}
    (hrun : Run sent.opened Conn.step tr c) :
    (∀ s ∈ statesOf tr c, Served sent s) ↔ ∀ x ∈ tr, StepFits sent x.1 x.2 := by
  have hinv : ∀ s ∈ statesOf tr c, ConnInv sent s := by
    intro s hs
    obtain ⟨tr', -, hrun'⟩ := hrun.reaches hs
    exact hrun'.always (fun _ => connInv_opened) (fun _ _ _ h hs => connInv_step h hs)
  constructor
  · rintro hserved ⟨s, e⟩ hx
    have hs : s ∈ statesOf tr c := mem_statesOf.2 (.inl ⟨e, hx⟩)
    obtain ⟨s', hstep, hs'⟩ := hrun.next_mem hx
    have hfits' := (served_iff (hinv s' hs')).1 (hserved s' hs')
    exact ((bufFits_step (hinv s hs) hstep).1 hfits').2
  · intro hfits s hs
    obtain ⟨tr', hpre, hrun'⟩ := hrun.reaches hs
    refine (served_iff (hinv s hs)).2 ?_
    have h : ConnInv sent s ∧ BufFits sent s := by
      refine hrun'.invariant (I := fun c => ConnInv sent c ∧ BufFits sent c)
        (C := StepFits sent) ?_ ?_ (fun x hx => hfits x (hpre.subset hx))
      · exact fun _ h => ⟨connInv_opened h, bufFits_opened h⟩
      · rintro s e s' ⟨hinv, hf⟩ hok hs
        exact ⟨connInv_step hinv hs, (bufFits_step hinv hs).2 ⟨hf, hok⟩⟩
    exact h.2

/-- A client that sends a packet of four bytes and one of a single byte. -/
def splitStream : Stream := ⟨[[32, 1, 2, 3], [35]], by decide⟩

/-- Both frames come in two pieces, with a parse after each. -/
theorem conn_served_iff_fits_split : ∃ tr c,
    exec Conn.step { pending := splitStream.bytes }
      [.recv 3, .parse, .recv 3, .parse, .recv 1, .parse] = .ok (tr, c) ∧
      c.handed = splitStream.packets ∧ ∀ s ∈ statesOf tr c, Served splitStream s := by
  have hrun : Run splitStream.opened Conn.step _ _ :=
    Run.of_exec [.recv 3, .parse, .recv 3, .parse, .recv 1, .parse] rfl rfl
  exact ⟨_, _, rfl, rfl, (conn_served_iff_fits splitStream hrun).2 (by decide)⟩

/-- A client that sends a packet of 4000 bytes on the wire and one of 2000. -/
def longStream : Stream where
  packets := [List.replicate 3998 0, List.replicate 1998 0]
  valid := by
    intro data hdata
    rcases List.mem_cons.1 hdata with rfl | hdata
    · exact ⟨by rw [List.length_replicate]; omega,
        by rw [length_frame_replicate (by omega)]; decide⟩
    · obtain rfl := List.mem_singleton.1 hdata
      exact ⟨by rw [List.length_replicate]; omega,
        by rw [length_frame_replicate (by omega)]; decide⟩

/-- A receive that fills the buffer ends in the second packet, which has 1000
bytes of it left and needs 2000: the connection is wedged for good. -/
theorem conn_not_always_served :
    ¬ ∀ (sent : Stream) (tr : List (Conn × ConnEvent)) (c : Conn),
      Run sent.opened Conn.step tr c → Served sent c := by
  intro hall
  have hstart : Run longStream.opened Conn.step [] { pending := longStream.bytes } := .start rfl
  have hstep := step_recv { pending := longStream.bytes } 5000
  have hinv : ConnInv longStream { pending := longStream.bytes } := connInv_opened rfl
  have hfits := (served_iff (connInv_step hinv hstep)).1 (hall _ _ _ (hstart.step hstep))
  have hrecv := ((bufFits_step hinv hstep).1 hfits).2
  have hgot : (received { pending := longStream.bytes } 5000).length = 5000 := by
    have hbytes : longStream.bytes.length = 6000 := by
      simp only [Stream.bytes, longStream, List.flatMap_cons, List.flatMap_nil,
        List.length_append, List.length_nil]
      rw [length_frame_replicate (by omega), length_frame_replicate (by omega)]
    rw [length_received, hbytes]
    show min (min (5000 - 0) 5000) 6000 = 5000
    omega
  simp only [StepFits, hgot] at hrecv
  have hfirst : Fits (0 + 5000) 0 longStream.packets := hrecv
  obtain ⟨-, hrest⟩ := hfirst (by omega)
  rw [length_frame_replicate (by omega)] at hrest
  obtain ⟨hend, -⟩ := hrest (by omega)
  rw [length_frame_replicate (by omega)] at hend
  exact absurd hend (by decide)

end Sundae.Proofs
