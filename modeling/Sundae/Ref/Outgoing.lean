import Sundae.Ref.Framing

/-!
# Sending

`player_write_packet` and `net_player_send`. The output buffer is kept whole,
also what lies past `outbuf_len`: a write that is refused may have stored some
header bytes there. ISAAC is a keystream, and `isaacCount` says how many of its
words have been used.
-/

namespace Sundae.Ref

/-- `opcodes_out_203`; what `init_opcodes_203` does not set is zero. -/
def opcodesOut203 (opcode : UInt8) : UInt8 :=
  ([(8, 131), (9, 4), (10, 183), (23, 71), (24, 149), (26, 109), (27, 51), (28, 120), (211, 159),
    (212, 123), (213, 90), (217, 20), (220, 33), (221, 203), (222, 42), (226, 5), (227, 206),
    (228, 240), (229, 0), (233, 137), (234, 101), (235, 162), (236, 97), (237, 128), (238, 92),
    (239, 59), (241, 83), (242, 153), (243, 156), (244, 25), (245, 252), (246, 245), (247, 104),
    (248, 79), (249, 91), (250, 234), (252, 53), (253, 48), (254, 99), (255, 191), (206, 36),
    (204, 89)].find? fun e : UInt8 × UInt8 => e.1 == opcode).elim 0 Prod.snd

/-- The output side of `struct player`. -/
structure Outgoing where
  protocolRev : Nat := 0
  isaacReady : Bool := false
  isaacCount : Nat := 0
  outbuf : List UInt8
  outbufLen : Nat := 0
  outbufWritten : Nat := 0

/-- `buf_putu8` -/
def bufPutu8 (b : List UInt8) (offset buflen : Nat) (x : UInt8) : Option (List UInt8) :=
  if buflen < offset + 1 then none else some (b.set offset x)

/-- `memcpy(b + offset, x, n)` -/
def memcpy (b : List UInt8) (offset : Nat) (x : List UInt8) : List UInt8 :=
  b.take offset ++ x ++ b.drop (offset + x.length)

/-- The translation at protocol 203: `none` is a packet that it does not have. -/
def outOpcode (protocolRev : Nat) (opcode : UInt8) : Option UInt8 :=
  if protocolRev = 203 then
    if opcodesOut203 opcode = 0 then none else some (opcodesOut203 opcode)
  else some opcode

/-- The enciphering, which uses up a word. -/
def cipherOut (isaacOut : Nat → UInt32) (w : Outgoing) (opcode : UInt8) : Outgoing × UInt8 :=
  if w.isaacReady then
    ({ w with isaacCount := w.isaacCount + 1 }, opcode + (isaacOut w.isaacCount).toUInt8)
  else (w, opcode)

/-- The length bytes, and for smaller packets the last byte: the buffer after
them, and the offset and the bytes that are left to write. -/
def putHeader (b : List UInt8) (off : Nat) (payload : List UInt8) :
    List UInt8 × Option (Nat × List UInt8) :=
  if 160 ≤ payload.length then
    match bufPutu8 b off playerBufsize (UInt8.ofNat (160 + payload.length / 256)) with
    | none => (b, none)
    | some b =>
      match bufPutu8 b (off + 1) playerBufsize (UInt8.ofNat (payload.length % 256)) with
      | none => (b, none)
      | some b => (b, some (off + 2, payload))
  else
    match bufPutu8 b off playerBufsize (UInt8.ofNat payload.length) with
    | none => (b, none)
    | some b =>
      if 0 < payload.length then
        match bufPutu8 b (off + 1) playerBufsize (payload.getLastD 0) with
        | none => (b, none)
        | some b => (b, some (off + 2, payload.dropLast))
      else (b, some (off + 1, payload))

/-- The whole frame: the buffer after it, and the new end if there was room. -/
def putFrame (b : List UInt8) (off : Nat) (payload : List UInt8) : List UInt8 × Option Nat :=
  match putHeader b off payload with
  | (b, none) => (b, none)
  | (b, some (off, body)) =>
    if playerBufsize < off + body.length then (b, none)
    else (memcpy b off body, some (off + body.length))

/-- `player_write_packet`: `none` is the `-1` of a packet that is refused, else
the payload as it was placed. -/
def playerWritePacket (isaacOut : Nat → UInt32) (w : Outgoing) (payload : List UInt8) :
    Outgoing × Option (List UInt8) :=
  match outOpcode w.protocolRev (payload.headD 0) with
  | none => (w, none)
  | some opcode =>
    let enciphered := cipherOut isaacOut w opcode
    let payload := payload.set 0 enciphered.2
    match putFrame w.outbuf w.outbufLen payload with
    | (outbuf, none) => ({ enciphered.1 with outbuf := outbuf }, none)
    | (outbuf, some off) =>
      ({ enciphered.1 with outbuf := outbuf, outbufLen := off }, some payload)

/-- `net_player_send` when the socket takes at most `n` bytes: what it took. -/
def netPlayerSend (w : Outgoing) (n : Nat) : Outgoing × List UInt8 :=
  let toWrite := w.outbufLen - w.outbufWritten
  let len := min n toWrite
  let sent := (w.outbuf.drop w.outbufWritten).take len
  let w := { w with outbufWritten := w.outbufWritten + len }
  (if w.outbufLen ≤ w.outbufWritten then { w with outbufLen := 0, outbufWritten := 0 } else w,
    sent)

/-- A connection as the socket sees it: what it has taken, and for the record
the packets accepted so far as they were placed. -/
structure Link where
  out : Outgoing
  taken : List UInt8 := []
  accepted : List (List UInt8) := []

/-- A packet of the opcode and the bytes after it, a send of which the socket
takes at most `n` bytes, and what a login does to the cipher in between. -/
inductive LinkEvent where
  | write (opcode : UInt8) (body : List UInt8)
  | send (n : Nat)
  | login (protocolRev : Nat) (isaacReady : Bool)
  deriving DecidableEq, Repr

def Link.step (isaacOut : Nat → UInt32) (c : Link) : LinkEvent → Except OverRead Link
  | .write opcode body =>
    match playerWritePacket isaacOut c.out (opcode :: body) with
    | (out, none) => .ok { c with out := out }
    | (out, some payload) => .ok { c with out := out, accepted := c.accepted ++ [payload] }
  | .send n =>
    .ok { c with out := (netPlayerSend c.out n).1, taken := c.taken ++ (netPlayerSend c.out n).2 }
  | .login protocolRev isaacReady =>
    .ok { c with out := { c.out with
      protocolRev := protocolRev, isaacReady := isaacReady, isaacCount := 0 } }

/-- `process_packet` on the opcode of a packet, before the table of protocol
203: the opcode, and how many words of `isaac_in` have been used. -/
def cipherIn (isaacIn : Nat → UInt32) (protocolRev : Nat) (isaacReady : Bool) (count : Nat)
    (opcode : UInt8) : UInt8 × Nat :=
  if protocolRev = 203 then
    if isaacReady then (opcode - (isaacIn count).toUInt8, count + 1) else (opcode, count)
  else (opcode, count)

/-- A packet's opcode in clear, and on the wire. -/
structure Ciphered where
  opcode : UInt8
  wire : UInt8
  deriving DecidableEq, Repr

/-- A session after `process_login_isaac` has set the keys, with the packets
placed in the output buffer and those received since. -/
structure KeyedSession where
  out : Outgoing
  isaacInCount : Nat := 0
  placed : List Ciphered := []
  received : List Ciphered := []

inductive KeyedEvent where
  | write (opcode : UInt8) (body : List UInt8)
  | send (n : Nat)
  | receive (opcode : UInt8)
  deriving DecidableEq, Repr

def KeyedSession.step (isaacOut isaacIn : Nat → UInt32) (c : KeyedSession) :
    KeyedEvent → Except OverRead KeyedSession
  | .write opcode body =>
    match playerWritePacket isaacOut c.out (opcode :: body) with
    | (out, none) => .ok { c with out := out }
    | (out, some payload) => .ok { c with
        out := out
        placed := c.placed ++
          [⟨(outOpcode c.out.protocolRev opcode).getD 0, payload.headD 0⟩] }
  | .send n => .ok { c with out := (netPlayerSend c.out n).1 }
  | .receive opcode =>
    let clear := cipherIn isaacIn c.out.protocolRev c.out.isaacReady c.isaacInCount opcode
    .ok { c with isaacInCount := clear.2, received := c.received ++ [⟨clear.1, opcode⟩] }

end Sundae.Ref
