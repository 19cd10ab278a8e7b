import Sundae.Proofs.Framing
import Sundae.Ref.Outgoing

/-!
# The output stream

A write appends a whole frame to what is queued or leaves the queue alone;
a send takes some of the queue off its front. So what the socket has taken,
followed by what is queued, is always the frames of the accepted packets.
-/

namespace Sundae.Proofs

open Sundae.Ref Sundae.Lib

/-! ## Filling the buffer -/

/-- A buffer of full size that begins with `l`. -/
structure Filled (b l : List UInt8) : Prop where
  size : b.length = playerBufsize
  begins : b.take l.length = l

theorem Filled.length_le {b l : List UInt8} (h : Filled b l) : l.length ≤ playerBufsize := by
  have hlen := congrArg List.length h.begins
  rw [List.length_take, h.size] at hlen
  omega

/-- What was written further on does not matter. -/
theorem Filled.before {b l m : List UInt8} (h : Filled b (l ++ m)) : Filled b l := by
  refine ⟨h.size, ?_⟩
  have hbegins := h.begins
  rw [List.length_append] at hbegins
  calc b.take l.length = (b.take (l.length + m.length)).take l.length := by
        rw [List.take_take, Nat.min_eq_left (by omega)]
    _ = l := by rw [hbegins, List.take_left' rfl]

theorem take_memcpy {b x : List UInt8} {off : Nat} (h : off + x.length ≤ b.length) :
    (memcpy b off x).length = b.length ∧
      (memcpy b off x).take (off + x.length) = b.take off ++ x := by
  have htake : (b.take off ++ x).length = off + x.length := by
    rw [List.length_append, List.length_take]
    omega
  unfold memcpy
  constructor
  · rw [List.length_append, htake, List.length_drop]
    omega
  · rw [List.take_left' htake]

theorem filled_memcpy {b l x : List UInt8} (h : Filled b l)
    (hroom : l.length + x.length ≤ playerBufsize) : Filled (memcpy b l.length x) (l ++ x) := by
  have hle : l.length + x.length ≤ b.length := by
    rw [h.size]
    exact hroom
  obtain ⟨hlen, htake⟩ := take_memcpy hle
  refine ⟨hlen.trans h.size, ?_⟩
  rw [List.length_append, htake, h.begins]

/-- `buf_putu8` at the end of what is there. -/
theorem filled_putu8 {b l : List UInt8} (h : Filled b l) (x : UInt8) :
    (playerBufsize < l.length + 1 ∧ bufPutu8 b l.length playerBufsize x = none) ∨
      ∃ b', bufPutu8 b l.length playerBufsize x = some b' ∧ Filled b' (l ++ [x]) := by
  unfold bufPutu8
  split
  · next hfull => exact .inl ⟨hfull, rfl⟩
  · next hroom =>
    refine .inr ⟨b.set l.length x, rfl, ?_⟩
    have hset : b.set l.length x = memcpy b l.length [x] := by
      rw [List.set_eq_take_append_cons_drop, if_pos (by rw [h.size]; omega), memcpy]
      simp
    rw [hset]
    apply filled_memcpy h
    simp only [List.length_singleton]
    omega

/-- The header: it fits and what is left to write completes the frame, or it
does not and the queue is what it was. -/
theorem filled_putHeader {b l payload : List UInt8} (h : Filled b l) (h1 : 1 ≤ payload.length) :
    (playerBufsize < l.length + (frame payload).length ∧
        ∃ b', putHeader b l.length payload = (b', none) ∧ Filled b' l) ∨
      ∃ b' head body, putHeader b l.length payload = (b', some ((l ++ head).length, body)) ∧
        Filled b' (l ++ head) ∧ head ++ body = frame payload := by
  unfold putHeader
  by_cases hbig : 160 ≤ payload.length
  · rw [if_pos hbig]
    have hframe : (frame payload).length = payload.length + 2 := length_frame_large (by omega)
    rcases filled_putu8 h (UInt8.ofNat (160 + payload.length / 256)) with
      ⟨hfull, hnone⟩ | ⟨b1, hb1, h1'⟩
    · rw [hnone]
      exact .inl ⟨by omega, b, rfl, h⟩
    · rw [hb1]
      have hlen1 : (l ++ [UInt8.ofNat (160 + payload.length / 256)]).length = l.length + 1 := by simp
      rcases filled_putu8 h1' (UInt8.ofNat (payload.length % 256)) with ⟨hfull, hnone⟩ | ⟨b2, hb2, h2'⟩
      · rw [hlen1] at hnone hfull
        simp only [hnone]
        exact .inl ⟨by omega, b1, rfl, h1'.before⟩
      · rw [hlen1] at hb2
        simp only [hb2]
        refine .inr ⟨b2, [UInt8.ofNat (160 + payload.length / 256),
          UInt8.ofNat (payload.length % 256)], payload, ?_, ?_, ?_⟩
        · simp
        · simpa using h2'
        · rw [frame, if_neg (by omega)]
          rfl
  · rw [if_neg hbig]
    have hframe : (frame payload).length = payload.length + 1 :=
      length_frame_small (by omega) h1
    rcases filled_putu8 h (UInt8.ofNat payload.length) with ⟨hfull, hnone⟩ | ⟨b1, hb1, h1'⟩
    · rw [hnone]
      exact .inl ⟨by omega, b, rfl, h⟩
    · rw [hb1]
      simp only [show 0 < payload.length from h1, if_true]
      have hlen1 : (l ++ [UInt8.ofNat payload.length]).length = l.length + 1 := by simp
      rcases filled_putu8 h1' (payload.getLastD 0) with ⟨hfull, hnone⟩ | ⟨b2, hb2, h2'⟩
      · rw [hlen1] at hnone hfull
        simp only [hnone]
        exact .inl ⟨by omega, b1, rfl, h1'.before⟩
      · rw [hlen1] at hb2
        simp only [hb2]
        refine .inr ⟨b2, [UInt8.ofNat payload.length, payload.getLastD 0], payload.dropLast,
          ?_, ?_, ?_⟩
        · simp
        · simpa using h2'
        · rw [frame, if_pos (by omega)]
          rfl

/-- The frame is queued whole if there is room, and else not at all. -/
theorem filled_putFrame {b l payload : List UInt8} (h : Filled b l) (h1 : 1 ≤ payload.length) :
    (playerBufsize < l.length + (frame payload).length ∧
        ∃ b', putFrame b l.length payload = (b', none) ∧ Filled b' l) ∨
      (l.length + (frame payload).length ≤ playerBufsize ∧
        ∃ b', putFrame b l.length payload = (b', some (l ++ frame payload).length) ∧
          Filled b' (l ++ frame payload)) := by
  unfold putFrame
  rcases filled_putHeader h h1 with ⟨hfull, b', heq, hb'⟩ | ⟨b', head, body, heq, hb', hframe⟩
  · rw [heq]
    exact .inl ⟨hfull, b', rfl, hb'⟩
  · rw [heq]
    have hlen := congrArg List.length hframe
    rw [List.length_append] at hlen
    have hhead : (l ++ head).length = l.length + head.length := List.length_append
    simp only
    split
    · next hfull => exact .inl ⟨by omega, b', rfl, hb'.before⟩
    · next hroom =>
      refine .inr ⟨by omega, memcpy b' (l ++ head).length body, ?_, ?_⟩
      · rw [← hframe, List.length_append, List.length_append, List.length_append, Nat.add_assoc]
      · have hfill : Filled (memcpy b' (l ++ head).length body) (l ++ head ++ body) :=
          filled_memcpy hb' (by omega)
        rw [List.append_assoc, hframe] at hfill
        exact hfill

/-! ## A write -/

variable {isaacOut : Nat → UInt32}

/-- The buffer a packet is written to, with what it has queued. -/
structure Queued (w : Outgoing) (l : List UInt8) : Prop where
  filled : Filled w.outbuf l
  outbufLen : w.outbufLen = l.length

theorem cipherOut_outbuf (isaacOut : Nat → UInt32) (w : Outgoing) (opcode : UInt8) :
    (cipherOut isaacOut w opcode).1.outbuf = w.outbuf ∧
      (cipherOut isaacOut w opcode).1.outbufLen = w.outbufLen ∧
      (cipherOut isaacOut w opcode).1.outbufWritten = w.outbufWritten := by
  unfold cipherOut
  split
  · exact ⟨rfl, rfl, rfl⟩
  · exact ⟨rfl, rfl, rfl⟩

/-- What a write comes to: no such packet, no room, or a frame more. -/
theorem playerWritePacket_cases (isaacOut : Nat → UInt32) {w : Outgoing} {l : List UInt8}
    (h : Queued w l) (opcode : UInt8) (body : List UInt8) :
    (outOpcode w.protocolRev opcode = none ∧
      playerWritePacket isaacOut w (opcode :: body) = (w, none)) ∨
    ∃ op, outOpcode w.protocolRev opcode = some op ∧
      ((playerBufsize < w.outbufLen + (frame ((cipherOut isaacOut w op).2 :: body)).length ∧
        ∃ b, playerWritePacket isaacOut w (opcode :: body) =
            ({ (cipherOut isaacOut w op).1 with outbuf := b }, none) ∧ Filled b l) ∨
      (w.outbufLen + (frame ((cipherOut isaacOut w op).2 :: body)).length ≤ playerBufsize ∧
        ∃ b, playerWritePacket isaacOut w (opcode :: body) =
            ({ (cipherOut isaacOut w op).1 with
                outbuf := b
                outbufLen := (l ++ frame ((cipherOut isaacOut w op).2 :: body)).length },
              some ((cipherOut isaacOut w op).2 :: body)) ∧
          Filled b (l ++ frame ((cipherOut isaacOut w op).2 :: body)))) := by
  unfold playerWritePacket
  rw [List.headD_cons]
  cases hop : outOpcode w.protocolRev opcode with
  | none => exact .inl ⟨rfl, rfl⟩
  | some op =>
      obtain ⟨hbuf, hlen, -⟩ := cipherOut_outbuf isaacOut w op
      refine .inr ⟨op, rfl, ?_⟩
      simp only [List.set_cons_zero]
      have h1 : 1 ≤ ((cipherOut isaacOut w op).2 :: body).length := by simp
      rw [h.outbufLen]
      rcases filled_putFrame h.filled h1 with ⟨hfull, b, heq, hb⟩ | ⟨hroom, b, heq, hb⟩
      · rw [heq]
        exact .inl ⟨hfull, b, rfl, hb⟩
      · rw [heq]
        exact .inr ⟨hroom, b, rfl, hb⟩

/-! ## A send -/

/-- The socket takes some of the queue off its front. -/
theorem netPlayerSend_queued {w : Outgoing} {l : List UInt8} (h : Queued w l)
    (hw : w.outbufWritten ≤ l.length) (n : Nat) :
    ∃ l', Queued (netPlayerSend w n).1 l' ∧ (netPlayerSend w n).1.outbufWritten ≤ l'.length ∧
      l.drop w.outbufWritten =
        (netPlayerSend w n).2 ++ l'.drop (netPlayerSend w n).1.outbufWritten := by
  have hlen := h.outbufLen
  have hfit := h.filled.length_le
  have hsize := h.filled.size
  -- the bytes offered are the part of the queue not yet written
  have hoffer : ((w.outbuf.drop w.outbufWritten).take (min n (w.outbufLen - w.outbufWritten))) =
      (l.drop w.outbufWritten).take (min n (w.outbufLen - w.outbufWritten)) := by
    conv_rhs => rw [← h.filled.begins, List.drop_take, List.take_take]
    congr 1
    omega
  have hrest : (l.drop w.outbufWritten).take (min n (w.outbufLen - w.outbufWritten)) ++
      l.drop (w.outbufWritten + min n (w.outbufLen - w.outbufWritten)) =
        l.drop w.outbufWritten := by
    rw [← List.drop_drop, List.take_append_drop]
  unfold netPlayerSend
  simp only [hoffer]
  split
  · next hdone =>
    have hnil : l.drop (w.outbufWritten + min n (w.outbufLen - w.outbufWritten)) = [] :=
      List.drop_eq_nil_of_le (by omega)
    rw [hnil, List.append_nil] at hrest
    refine ⟨[], ⟨⟨hsize, rfl⟩, rfl⟩, Nat.le_refl 0, ?_⟩
    simpa using hrest.symm
  · exact ⟨l, ⟨h.filled, hlen⟩, by simp only; omega, hrest.symm⟩

theorem netPlayerSend_cipher (w : Outgoing) (n : Nat) :
    (netPlayerSend w n).1.protocolRev = w.protocolRev ∧
      (netPlayerSend w n).1.isaacReady = w.isaacReady ∧
      (netPlayerSend w n).1.isaacCount = w.isaacCount := by
  unfold netPlayerSend
  simp only
  split
  · exact ⟨rfl, rfl, rfl⟩
  · exact ⟨rfl, rfl, rfl⟩

/-! ## Runs of a link -/

/-- A connection that nothing has been written to. -/
structure Opened (c : Link) : Prop where
  size : c.out.outbuf.length = playerBufsize
  outbufLen : c.out.outbufLen = 0
  outbufWritten : c.out.outbufWritten = 0
  taken : c.taken = []
  accepted : c.accepted = []

/-- What the socket has taken and what is still queued is the frames of the
accepted packets. -/
structure LinkInv (c : Link) (l : List UInt8) : Prop where
  queued : Queued c.out l
  written : c.out.outbufWritten ≤ l.length
  stream : c.taken ++ l.drop c.out.outbufWritten = c.accepted.flatMap frame
  valid : ∀ a ∈ c.accepted, validPacket a

theorem Opened.inv {c : Link} (h : Opened c) : LinkInv c [] := by
  refine ⟨⟨⟨h.size, rfl⟩, h.outbufLen⟩, ?_, ?_, ?_⟩
  · rw [h.outbufWritten]
    exact Nat.le_refl 0
  · rw [h.taken, h.accepted]
    simp
  · rw [h.accepted]
    simp

theorem linkInv_write {c : Link} {l : List UInt8} (h : LinkInv c l) (opcode : UInt8)
    (body : List UInt8) {c' : Link} (hs : c.step isaacOut (.write opcode body) = .ok c') :
    ∃ l', LinkInv c' l' := by
  unfold Link.step at hs
  simp only at hs
  rcases playerWritePacket_cases isaacOut h.queued opcode body with
    ⟨-, heq⟩ | ⟨op, -, ⟨-, b, heq, hb⟩ | ⟨hroom, b, heq, hb⟩⟩
  · rw [heq] at hs
    obtain rfl := Except.ok.inj hs
    exact ⟨l, h⟩
  · rw [heq] at hs
    obtain rfl := Except.ok.inj hs
    obtain ⟨-, hlen, hwritten⟩ := cipherOut_outbuf isaacOut c.out op
    refine ⟨l, ⟨hb, hlen.trans h.queued.outbufLen⟩, ?_, ?_, h.valid⟩
    · simp only [hwritten]
      exact h.written
    · simp only [hwritten]
      exact h.stream
  · rw [heq] at hs
    obtain rfl := Except.ok.inj hs
    obtain ⟨-, -, hwritten⟩ := cipherOut_outbuf isaacOut c.out op
    refine ⟨l ++ frame ((cipherOut isaacOut c.out op).2 :: body), ⟨hb, rfl⟩, ?_, ?_, ?_⟩
    · simp only [hwritten, List.length_append]
      exact Nat.le_trans h.written (Nat.le_add_right _ _)
    · simp only [hwritten]
      rw [List.drop_append_of_le_length h.written, ← List.append_assoc, h.stream,
        List.flatMap_append]
      simp
    · intro a ha
      rcases List.mem_append.1 ha with hold | hnew
      · exact h.valid a hold
      · obtain rfl := List.mem_singleton.1 hnew
        refine ⟨by simp, ?_⟩
        omega

theorem linkInv_send {c : Link} {l : List UInt8} (h : LinkInv c l) (n : Nat) {c' : Link}
    (hs : c.step isaacOut (.send n) = .ok c') : ∃ l', LinkInv c' l' := by
  obtain rfl := Except.ok.inj hs
  obtain ⟨l', hq, hwritten, hsent⟩ := netPlayerSend_queued h.queued h.written n
  refine ⟨l', hq, hwritten, ?_, h.valid⟩
  show c.taken ++ (netPlayerSend c.out n).2 ++ _ = _
  rw [List.append_assoc, ← hsent]
  exact h.stream

theorem linkInv_run {tr : List (Link × LinkEvent)} {c : Link}
    (hrun : Run Opened (Link.step isaacOut) tr c) : ∃ l, LinkInv c l := by
  apply hrun.always (I := fun c => ∃ l, LinkInv c l)
  · intro c hc
    exact ⟨[], hc.inv⟩
  · rintro c e c' ⟨l, h⟩ hs
    cases e with
    | write opcode body => exact linkInv_write h opcode body hs
    | send n => exact linkInv_send h n hs
    | login protocolRev isaacReady =>
        obtain rfl := Except.ok.inj hs
        exact ⟨l, ⟨h.queued.filled, h.queued.outbufLen⟩, h.written, h.stream, h.valid⟩

/-- What the stream owes its reader: the counters are in order and in bounds,
the socket has taken a prefix of the frames of the accepted packets, and the
parse loop reads these packets back off all of the frames, with no byte left. -/
structure LinkGood (c : Link) : Prop where
  bounds : c.out.outbufWritten ≤ c.out.outbufLen ∧ c.out.outbufLen ≤ playerBufsize
  taken : c.taken <+: c.accepted.flatMap frame
  parsed : ∃ b, parseLoop c.accepted.length { inbuf := c.accepted.flatMap frame } =
    .ok (c.accepted, b) ∧ b.inbuf.drop b.inbufProcessed = []

theorem LinkInv.good {c : Link} {l : List UInt8} (h : LinkInv c l) : LinkGood c := by
  refine ⟨⟨?_, ?_⟩, ⟨_, h.stream⟩, ?_⟩
  · rw [h.queued.outbufLen]
    exact h.written
  · rw [h.queued.outbufLen]
    exact h.queued.filled.length_le
  · obtain ⟨used, hloop, -, hdrop⟩ := parseLoop_eq c.accepted.length
      (b := { inbuf := c.accepted.flatMap frame }) (Nat.zero_le _)
    have hdrain : packetCodec.drain c.accepted.length (c.accepted.flatMap frame) =
        (c.accepted, []) := Codec.drain_enc (c := packetCodec) h.valid (Nat.le_refl _)
    simp only [List.drop_zero, hdrain] at hloop hdrop
    exact ⟨_, hloop, hdrop⟩

/-- Whatever is written, accepted or refused, and whatever the socket takes. -/
theorem link_good (isaacOut : Nat → UInt32) {tr : List (Link × LinkEvent)} {c : Link}
    (hrun : Run Opened (Link.step isaacOut) tr c) : LinkGood c := by
  obtain ⟨l, h⟩ := linkInv_run hrun
  exact h.good

/-- A connection with an empty buffer. -/
def freshLink : Link := { out := { outbuf := List.replicate playerBufsize 0 } }

theorem opened_freshLink : Opened freshLink :=
  ⟨List.length_replicate, rfl, rfl, rfl, rfl⟩

/-- Two packets; the socket takes three bytes first and later the rest. -/
theorem link_good_two : ∃ tr c,
    exec (Link.step fun _ => 0) freshLink
      [.write 8 [72, 105], .send 3, .write 9 [], .send 9] = .ok (tr, c) ∧
    c.taken = [3, 105, 8, 72, 1, 9] ∧ LinkGood c := by
  have hrun : Run Opened (Link.step fun _ => 0) _ _ :=
    Run.of_exec [.write 8 [72, 105], .send 3, .write 9 [], .send 9] opened_freshLink rfl
  exact ⟨_, _, rfl, by decide, link_good (fun _ => 0) hrun⟩

end Sundae.Proofs
