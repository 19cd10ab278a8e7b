import Sundae.Lib.Codec
import Sundae.Lib.Run

/-!
# Receiving and framing

`net_player_recv` and `player_parse_incoming`. The receive buffer of `struct
player` is `PLAYER_BUFSIZE` bytes with `inbuf_len` of them received; only those
are kept here, so a read at or past `inbuf_len` has no value to give and stops
the parse with `overRead`. The parse loop hands each packet to
`process_packet`, which never touches the buffer: what it was handed is
collected in `handed`, the opcode byte first, as `process_packet` gets it.
-/

namespace Sundae.Ref

/-- `PLAYER_BUFSIZE` -/
def playerBufsize : Nat := 5000

/-- `MAX_PACKETS_PER_TICK` -/
def maxPacketsPerTick : Nat := 32

/-- The receive buffer: the `inbuf_len` bytes received, and `inbuf_processed`. -/
structure Inbuf where
  inbuf : List UInt8 := []
  inbufProcessed : Nat := 0
  deriving DecidableEq, Repr

inductive OverRead where
  | overRead
  deriving DecidableEq, Repr

namespace Inbuf

/-- `inbuf_len` -/
def inbufLen (b : Inbuf) : Nat := b.inbuf.length

/-- `p->inbuf[i]` -/
def byte (b : Inbuf) (i : Nat) : Except OverRead UInt8 :=
  match b.inbuf[i]? with
  | none => .error .overRead
  | some x => .ok x

/-- `memcpy(…, p->inbuf + i, n)` -/
def bytes (b : Inbuf) (i n : Nat) : Except OverRead (List UInt8) :=
  if b.inbufLen < i + n then .error .overRead else .ok ((b.inbuf.drop i).take n)

end Inbuf

/-- One turn of the loop of `player_parse_incoming`, up to the call of
`process_packet`: the packet it would hand over with the bytes it used up, or
`none` where the loop breaks. -/
def nextPacket (b : Inbuf) : Except OverRead (Option (List UInt8 × Nat)) :=
  if b.inbufLen - b.inbufProcessed < 2 then .ok none
  else do
    let len1 ← b.byte b.inbufProcessed
    let len2 ← b.byte (b.inbufProcessed + 1)
    let len := if 160 ≤ len1.toNat then (len1.toNat - 160) * 256 + len2.toNat else len1.toNat
    if len = 0 then .ok none
    else if 1 < len then
      if len < 160 then
        if b.inbufLen - b.inbufProcessed - 1 < len then .ok none
        else do
          -- "for smaller packets len2 is the last byte"
          let head ← b.bytes (b.inbufProcessed + 2) (len - 1)
          .ok (some (head ++ [len2], len + 1))
      else
        if b.inbufLen - b.inbufProcessed - 2 < len then .ok none
        else do
          let body ← b.bytes (b.inbufProcessed + 2) len
          .ok (some (body, len + 2))
    else .ok (some ([len2], len + 1))

/-- The loop of `player_parse_incoming` with `n` packets left in this tick. -/
def parseLoop : Nat → Inbuf → Except OverRead (List (List UInt8) × Inbuf)
  | 0, b => .ok ([], b)
  | n + 1, b =>
    if b.inbufProcessed < b.inbufLen then
      match nextPacket b with
      | .error e => .error e
      | .ok none => .ok ([], b)
      | .ok (some (data, used)) =>
        match parseLoop n { b with inbufProcessed := b.inbufProcessed + used } with
        | .error e => .error e
        | .ok (datas, b') => .ok (data :: datas, b')
    else .ok ([], b)

/-- `player_parse_incoming`: the packets handed over and the buffer left. -/
def playerParseIncoming (b : Inbuf) : Except OverRead (List (List UInt8) × Inbuf) :=
  match parseLoop maxPacketsPerTick b with
  | .error e => .error e
  | .ok (datas, b') =>
    .ok (datas, if b'.inbufLen ≤ b'.inbufProcessed then {} else b')

/-- `net_player_recv` when the socket has `avail` to give: `recv` is asked for
the room that is left. -/
def netPlayerRecv (b : Inbuf) (avail : List UInt8) : Inbuf :=
  { b with inbuf := b.inbuf ++ avail.take (playerBufsize - b.inbufLen) }

/-- How the protocol frames a packet: below 160 bytes one length byte and the
last byte of the packet moved to the front, else two length bytes. -/
def frame (data : List UInt8) : List UInt8 :=
  if data.length < 160 then
    UInt8.ofNat data.length :: data.getLastD 0 :: data.dropLast
  else
    UInt8.ofNat (160 + data.length / 256) :: UInt8.ofNat (data.length % 256) :: data

/-- A connection as the server sees it: the bytes its client has sent and the
server has not received, the buffer, and the packets handed over so far. -/
structure Conn where
  pending : List UInt8
  buf : Inbuf := {}
  handed : List (List UInt8) := []
  deriving DecidableEq, Repr

/-- What happens on a connection, in any order and over any number of ticks: a
receive that finds `n` bytes on the socket, and a parse. -/
inductive ConnEvent where
  | recv (n : Nat)
  | parse
  deriving DecidableEq, Repr

namespace Conn

/-- One event. What `recv` does not take stays on the socket. -/
def step (c : Conn) : ConnEvent → Except OverRead Conn
  | .recv n =>
    let avail := c.pending.take n
    let buf := netPlayerRecv c.buf avail
    .ok { c with buf := buf, pending := c.pending.drop (buf.inbufLen - c.buf.inbufLen) }
  | .parse =>
    match playerParseIncoming c.buf with
    | .error e => .error e
    | .ok (datas, buf) => .ok { c with buf := buf, handed := c.handed ++ datas }

end Conn

end Sundae.Ref
