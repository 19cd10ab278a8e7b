import Sundae.Proofs.Outgoing

/-!
# The opcode cipher

Both ends count the words of a keystream by the packets they see. The server
uses up a word of `isaac_out` before it knows whether the packet fits the
output buffer, and it deciphers only at protocol 203 what it enciphers at any.
-/

namespace Sundae.Proofs

open Sundae.Ref Sundae.Lib

/-- The keys have just been set, for a client that announced `revision`; the
field it goes to is 8 bits wide. -/
structure Keyed (revision : Nat) (c : KeyedSession) : Prop where
  protocolRev : c.out.protocolRev = revision % 256
  isaacReady : c.out.isaacReady = true
  isaacCount : c.out.isaacCount = 0
  isaacInCount : c.isaacInCount = 0
  placed : c.placed = []
  received : c.received = []
  queued : ∃ l, Queued c.out l ∧ c.out.outbufWritten ≤ l.length

/-- Whether `player_write_packet` enciphers, and whether `process_packet`
deciphers. -/
def ciphersOut (c : KeyedSession) : Bool := c.out.isaacReady

def ciphersIn (c : KeyedSession) : Bool := c.out.protocolRev == 203 && c.out.isaacReady

/-- Each packet has the word of its place, and the two directions are ciphered
alike. -/
structure WordsMatch (isaacOut isaacIn : Nat → UInt32) (c : KeyedSession) : Prop where
  placed : ∀ (n : Nat) (x : Ciphered), c.placed[n]? = some x →
    x.wire = x.opcode + (isaacOut n).toUInt8
  received : ∀ (n : Nat) (x : Ciphered), c.received[n]? = some x →
    x.opcode = x.wire - (isaacIn n).toUInt8
  alike : ciphersIn c = ciphersOut c

/-- And the next packets will get the words that are due. -/
structure InStep (isaacOut isaacIn : Nat → UInt32) (c : KeyedSession) : Prop where
  words : WordsMatch isaacOut isaacIn c
  isaacCount : c.out.isaacCount = c.placed.length
  isaacInCount : c.isaacInCount = c.received.length

/-- A write that is not refused for lack of room. -/
def WriteFits (c : KeyedSession) : KeyedEvent → Prop
  | .write opcode body =>
    (outOpcode c.out.protocolRev opcode).isSome →
      c.out.outbufLen + (if body.length + 1 < 160 then body.length + 2 else body.length + 3) ≤
        playerBufsize
  | _ => True

/-- The session stays what the login made it. -/
structure KeyedInv (c : KeyedSession) : Prop where
  protocolRev : c.out.protocolRev = 203
  isaacReady : c.out.isaacReady = true
  queued : ∃ l, Queued c.out l ∧ c.out.outbufWritten ≤ l.length

variable {isaacOut isaacIn : Nat → UInt32} {c c' : KeyedSession}

theorem length_frame_cons (opcode : UInt8) (body : List UInt8) :
    (frame (opcode :: body)).length =
      if body.length + 1 < 160 then body.length + 2 else body.length + 3 := by
  split
  · next h => exact length_frame_small (by simpa using h) (by simp)
  · next h => exact length_frame_large (by simpa using h)

/-- One more of a list that has the word of its place everywhere. -/
theorem words_append {p : Nat → Ciphered → Prop} {l : List Ciphered} {x : Ciphered}
    (h : ∀ n y, l[n]? = some y → p n y) (hx : p l.length x) :
    ∀ n y, (l ++ [x])[n]? = some y → p n y := by
  intro n y hy
  rcases Nat.lt_trichotomy n l.length with hlt | heq | hgt
  · rw [List.getElem?_append_left hlt] at hy
    exact h n y hy
  · subst heq
    rw [List.getElem?_concat_length] at hy
    obtain rfl := Option.some.inj hy
    exact hx
  · rw [List.getElem?_eq_none (by simp; omega)] at hy
    cases hy

theorem cipherOut_ready {w : Outgoing} (h : w.isaacReady = true) (opcode : UInt8) :
    cipherOut isaacOut w opcode =
      ({ w with isaacCount := w.isaacCount + 1 }, opcode + (isaacOut w.isaacCount).toUInt8) := by
  rw [cipherOut, if_pos h]

/-- A write: the packet does not exist at this protocol and nothing happens; it
does not fit, and its word is gone; or it is placed with its word. -/
inductive Written (isaacOut : Nat → UInt32) (c : KeyedSession) (opcode : UInt8) (body : List UInt8)
    (c' : KeyedSession) : Prop where
  | unknown (hop : outOpcode c.out.protocolRev opcode = none) (hc : c' = c)
  | refused (hfits : ¬ WriteFits c (.write opcode body))
      (hcount : c'.out.isaacCount = c.out.isaacCount + 1) (hplaced : c'.placed = c.placed)
  | placed (op : UInt8) (hfits : WriteFits c (.write opcode body))
      (hcount : c'.out.isaacCount = c.out.isaacCount + 1)
      (hplaced : c'.placed = c.placed ++ [⟨op, op + (isaacOut c.out.isaacCount).toUInt8⟩])

theorem write_spec {opcode : UInt8} {body : List UInt8} (h : KeyedInv c)
    (hs : c.step isaacOut isaacIn (.write opcode body) = .ok c') :
    KeyedInv c' ∧ Written isaacOut c opcode body c' ∧ c'.received = c.received ∧
      c'.isaacInCount = c.isaacInCount := by
  obtain ⟨l, hq, hw⟩ := h.queued
  unfold KeyedSession.step at hs
  simp only at hs
  rcases playerWritePacket_cases isaacOut hq opcode body with
    ⟨hop, heq⟩ | ⟨op, hop, ⟨hfull, b, heq, hb⟩ | ⟨hroom, b, heq, hb⟩⟩
  · rw [heq] at hs
    obtain rfl := Except.ok.inj hs
    exact ⟨h, .unknown hop rfl, rfl, rfl⟩
  · rw [heq] at hs
    obtain rfl := Except.ok.inj hs
    rw [length_frame_cons] at hfull
    have hfits : ¬ WriteFits c (.write opcode body) := by
      intro hfits
      have hroom := hfits (by rw [hop]; rfl)
      omega
    simp only [cipherOut_ready h.isaacReady]
    exact ⟨⟨h.protocolRev, h.isaacReady, l, ⟨hb, hq.outbufLen⟩, hw⟩,
      .refused hfits rfl rfl, trivial, trivial⟩
  · rw [heq] at hs
    obtain rfl := Except.ok.inj hs
    rw [length_frame_cons] at hroom
    simp only [cipherOut_ready h.isaacReady] at hb ⊢
    refine ⟨⟨h.protocolRev, h.isaacReady, _, ⟨hb, rfl⟩, ?_⟩,
      .placed op (fun _ => hroom) rfl ?_, trivial, trivial⟩
    · rw [List.length_append]
      exact Nat.le_trans hw (Nat.le_add_right _ _)
    · simp [hop]

theorem keyedInv_step {e : KeyedEvent} (h : KeyedInv c)
    (hs : c.step isaacOut isaacIn e = .ok c') : KeyedInv c' := by
  obtain ⟨l, hq, hw⟩ := h.queued
  cases e with
  | write opcode body => exact (write_spec h hs).1
  | send n =>
      obtain rfl := Except.ok.inj hs
      obtain ⟨hrev, hready, -⟩ := netPlayerSend_cipher c.out n
      obtain ⟨l', hq', hw', -⟩ := netPlayerSend_queued hq hw n
      exact ⟨hrev.trans h.protocolRev, hready.trans h.isaacReady, l', hq', hw'⟩
  | receive opcode =>
      obtain rfl := Except.ok.inj hs
      exact ⟨h.protocolRev, h.isaacReady, l, hq, hw⟩

theorem KeyedInv.alike (h : KeyedInv c) : ciphersIn c = ciphersOut c := by
  simp [ciphersIn, ciphersOut, h.protocolRev]

theorem inStep_step {e : KeyedEvent} (h : KeyedInv c) (hin : InStep isaacOut isaacIn c)
    (hs : c.step isaacOut isaacIn e = .ok c') :
    InStep isaacOut isaacIn c' ↔ WriteFits c e := by
  have h' : KeyedInv c' := keyedInv_step h hs
  cases e with
  | write opcode body =>
      obtain ⟨-, hwritten, hreceived, hcountIn⟩ := write_spec h hs
      have hin' : c'.isaacInCount = c'.received.length := by
        rw [hcountIn, hreceived]
        exact hin.isaacInCount
      cases hwritten with
      | unknown hop hc =>
          subst hc
          have hfits : WriteFits c' (.write opcode body) := by
            intro hsome
            rw [hop] at hsome
            cases hsome
          exact iff_of_true hin hfits
      | refused hfits hcount hplaced =>
          refine iff_of_false ?_ hfits
          intro hin'
          have hlen := hin'.isaacCount
          rw [hcount, hplaced, hin.isaacCount] at hlen
          omega
      | placed op hfits hcount hplaced =>
          refine iff_of_true ⟨⟨?_, ?_, h'.alike⟩, ?_, hin'⟩ hfits
          · rw [hplaced]
            apply words_append hin.words.placed
            rw [hin.isaacCount]
          · rw [hreceived]
            exact hin.words.received
          · rw [hcount, hplaced, hin.isaacCount, List.length_append, List.length_singleton]
  | send n =>
      obtain rfl := Except.ok.inj hs
      obtain ⟨-, -, hcount⟩ := netPlayerSend_cipher c.out n
      exact iff_of_true ⟨⟨hin.words.placed, hin.words.received, h'.alike⟩,
        hcount.trans hin.isaacCount, hin.isaacInCount⟩ trivial
  | receive opcode =>
      obtain rfl := Except.ok.inj hs
      have hclear : cipherIn isaacIn c.out.protocolRev c.out.isaacReady c.isaacInCount opcode =
          (opcode - (isaacIn c.isaacInCount).toUInt8, c.isaacInCount + 1) := by
        rw [cipherIn, if_pos h.protocolRev, if_pos h.isaacReady]
      refine iff_of_true ⟨⟨hin.words.placed, ?_, h'.alike⟩, hin.isaacCount, ?_⟩ trivial
      · simp only [hclear]
        apply words_append hin.words.received
        rw [hin.isaacInCount]
      · simp only [hclear, List.length_append, List.length_singleton]
        rw [hin.isaacInCount]

theorem Keyed.inv {revision : Nat} (h : Keyed revision c) (hrev : revision % 256 = 203) :
    KeyedInv c ∧ InStep isaacOut isaacIn c := by
  have hinv : KeyedInv c := ⟨h.protocolRev.trans hrev, h.isaacReady, h.queued⟩
  refine ⟨hinv, ⟨?_, ?_, hinv.alike⟩, ?_, ?_⟩
  · simp [h.placed]
  · simp [h.received]
  · rw [h.isaacCount, h.placed]
    rfl
  · rw [h.isaacInCount, h.received]
    rfl

/-- A session is in step with its client throughout, its packets ciphered with
the words of their places and the next ones due for theirs, exactly when the
client announced revision 203 and no packet is refused for lack of room. -/
theorem words_match_iff {revision : Nat} {tr : List (KeyedSession × KeyedEvent)}
    (hrun : Run (Keyed revision) (KeyedSession.step isaacOut isaacIn) tr c) :
    (∀ d ∈ statesOf tr c, InStep isaacOut isaacIn d) ↔
      revision % 256 = 203 ∧ ∀ x ∈ tr, WriteFits x.1 x.2 := by
  have hsteps : revision % 256 = 203 →
      ((∀ d ∈ statesOf tr c, InStep isaacOut isaacIn d) ↔ ∀ x ∈ tr, WriteFits x.1 x.2) := by
    intro hrev
    apply hrun.all_iff (I := KeyedInv)
    · intro d hd
      exact hd.inv hrev
    · intro d e d' hd hs
      exact keyedInv_step hd hs
    · intro d e d' hd hin hs
      exact inStep_step hd hin hs
  constructor
  · intro hall
    -- the session's first state tells the revision
    obtain ⟨d, hmem, hd⟩ := hrun.first
    have halike := (hall d hmem).words.alike
    have hrev : revision % 256 = 203 := by
      simpa [ciphersIn, ciphersOut, hd.protocolRev, hd.isaacReady] using halike
    exact ⟨hrev, (hsteps hrev).1 hall⟩
  · rintro ⟨hrev, hfits⟩
    exact (hsteps hrev).2 hfits

/-- A session at revision 203 with `n` bytes queued. -/
def keyedAt (n : Nat) : KeyedSession :=
  { out := { protocolRev := 203, isaacReady := true, outbuf := List.replicate playerBufsize 0
             outbufLen := n } }

theorem keyed_keyedAt {n : Nat} (hn : n ≤ playerBufsize) : Keyed 203 (keyedAt n) := by
  refine ⟨rfl, rfl, rfl, rfl, rfl, rfl, List.replicate n 0, ⟨⟨List.length_replicate, ?_⟩, ?_⟩,
    Nat.zero_le _⟩
  · show (List.replicate playerBufsize 0).take (List.replicate n 0).length = List.replicate n 0
    rw [List.length_replicate, List.take_replicate, Nat.min_eq_left hn]
  · exact List.length_replicate.symm

/-- A message out and an opcode in. -/
theorem words_match_iff_message : ∃ tr c,
    exec (KeyedSession.step (fun n => UInt32.ofNat n) fun n => UInt32.ofNat n) (keyedAt 0)
      [.write 8 [72, 105], .receive 67] = .ok (tr, c) ∧
    ∀ d ∈ statesOf tr c, InStep (fun n => UInt32.ofNat n) (fun n => UInt32.ofNat n) d := by
  have hrun : Run (Keyed 203)
      (KeyedSession.step (fun n => UInt32.ofNat n) fun n => UInt32.ofNat n) _ _ :=
    Run.of_exec [.write 8 [72, 105], .receive 67] (keyed_keyedAt (Nat.zero_le _)) rfl
  refine ⟨_, _, rfl, (words_match_iff hrun).2 ⟨by decide, ?_⟩⟩
  intro x hx
  simp only [List.mem_cons, List.not_mem_nil, or_false] at hx
  rcases hx with rfl | rfl
  · exact fun _ => by decide
  · trivial

/-- A message is refused because the buffer is full; the next one, after the
socket has taken the buffer, is placed first and has the second word. -/
theorem refused_desyncs : ¬ ∀ (isaacOut isaacIn : Nat → UInt32) (revision : Nat)
    (tr : List (KeyedSession × KeyedEvent)) (c : KeyedSession),
    Run (Keyed revision) (KeyedSession.step isaacOut isaacIn) tr c →
      WordsMatch isaacOut isaacIn c := by
  intro hall
  have hrun : Run (Keyed 203)
      (KeyedSession.step (fun n => UInt32.ofNat n) fun n => UInt32.ofNat n) _ _ :=
    Run.of_exec [.write 8 [72, 105], .send 4999, .write 8 [72, 105]]
      (keyed_keyedAt (n := 4999) (by decide)) rfl
  have hword := (hall _ _ _ _ _ hrun).placed 0 ⟨131, 132⟩ (by decide)
  exact absurd hword (by decide)

end Sundae.Proofs
