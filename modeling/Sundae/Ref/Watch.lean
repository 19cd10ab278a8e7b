import Sundae.Lib.Bits
import Sundae.Ref.Movement

/-!
# A client that watches

The other end of the movement updates. A client holds the mobs it has been told
of, in the order it was told of them, and reads each update against that list.
-/

namespace Sundae.Ref

open Sundae.Lib World

/-! ## The client -/

/-- A mob as a client has it. The kind is the config of an NPC, and the last bit
of a player's record. -/
structure SeenMob where
  id : Nat
  x : Int
  y : Int
  dir : Nat
  kind : Nat
  deriving DecidableEq, Repr

/-- Where a step leads. -/
def stepOf : Nat → Int × Int
  | 0 => (0, -1)
  | 1 => (1, -1)
  | 2 => (1, 0)
  | 3 => (1, 1)
  | 4 => (0, 1)
  | 5 => (-1, 1)
  | 6 => (-1, 0)
  | 7 => (-1, -1)
  | _ => (0, 0)

def SeenMob.step (m : SeenMob) (dir : Nat) : SeenMob :=
  { m with x := m.x + (stepOf dir).1, y := m.y + (stepOf dir).2, dir := dir }

/-- The bits of a packet from a place on. -/
def bitsFrom (b : List UInt8) (pos : Nat) : List Bool :=
  (List.range (8 * b.length - pos)).map fun k => bitAt b (pos + k)

/-- A field that may be negative. -/
def signedField (num : Nat) (l : List Bool) : Int :=
  if number l < 2 ^ (num - 1) then number l else (number l : Int) - 2 ^ num

/-- What is said of the known mobs, one after the other: nothing, a step, that
it is gone, or a turn. -/
def readKnownMobs : List SeenMob → List Bool → List SeenMob × List Bool
  | [], bits => ([], bits)
  | m :: known, false :: bits =>
    let (kept, rest) := readKnownMobs known bits
    (m :: kept, rest)
  | m :: known, true :: false :: bits =>
    let (kept, rest) := readKnownMobs known (bits.drop 3)
    (m.step (number (bits.take 3)) :: kept, rest)
  | _ :: known, true :: true :: true :: true :: bits => readKnownMobs known bits
  | m :: known, true :: true :: bits =>
    let (kept, rest) := readKnownMobs known (bits.drop 4)
    ({ m with dir := number (bits.take 4) } :: kept, rest)
  | _ :: _, bits => ([], bits)

/-- Records of new mobs, as long as there are bits for one. -/
def readNewMobs (idBits kindBits : Nat) (x y : Int) : Nat → List Bool → List SeenMob
  | 0, _ => []
  | turns + 1, bits =>
    if bits.length < idBits + 14 + kindBits then []
    else
      { id := number (bits.take idBits)
        x := x + signedField 5 ((bits.drop idBits).take 5)
        y := y + signedField 5 ((bits.drop (idBits + 5)).take 5)
        dir := number ((bits.drop (idBits + 10)).take 4)
        kind := number ((bits.drop (idBits + 14)).take kindBits) } ::
        readNewMobs idBits kindBits x y turns (bits.drop (idBits + 14 + kindBits))

/-- The mobs after an update that is for this many known ones. -/
def readMobs (idBits kindBits : Nat) (x y : Int) (count : Nat) (known : List SeenMob)
    (bits : List Bool) : List SeenMob :=
  let (kept, rest) := readKnownMobs (known.take count) bits
  kept ++ readNewMobs idBits kindBits x y rest.length rest

/-- An `OP_SRV_PLAYER_MOVEMENT` packet, which begins with the player's own place. -/
def readPlayers (rev : Nat) (known : List SeenMob) (payload : List UInt8) : List SeenMob :=
  let xBits := if rev < 149 then 10 else 11
  let yBits := if rev < 149 then 12 else 13
  let bits := bitsFrom payload 8
  readMobs 11 1 (number (bits.take xBits)) (number ((bits.drop xBits).take yBits))
    (number ((bits.drop (xBits + yBits + 4)).take 8)) known (bits.drop (xBits + yBits + 12))

/-- An `OP_SRV_NPC_MOVEMENT` packet, for a client at `x`, `y`. -/
def readNpcs (rev : Nat) (x y : Nat) (known : List SeenMob) (payload : List UInt8) :
    List SeenMob :=
  readMobs (if rev < 155 then 11 else 12) (if rev < 159 then 8 else 10) x y
    (number ((bitsFrom payload 8).take 8)) known (bitsFrom payload 16)

/-! ## What happens -/

/-- The world, the player and what its client holds. `toldPlayers` and `toldNpcs`
are not of the source: they have the mobs as they were at the last update. -/
structure Watch where
  world : World
  viewer : Viewer
  toldPlayers : Nat → Option World.Mob := fun _ => none
  toldNpcs : Nat → Option World.Mob := fun _ => none
  players : List SeenMob := []
  npcs : List SeenMob := []

/-- Whatever happens to the world, to the player's place and to its side of the
connection; and the two updates. -/
inductive WatchEvent where
  | world (w : World)
  | move (x y : Nat) (dir : World.Dir)
  | output (out : Outgoing)
  | sendPlayers (tmpbuf : Vector UInt8 playerBufsize)
  | sendNpcs (tmpbuf : Vector UInt8 playerBufsize)

/-- A packet that is not sent changes nothing at the client. -/
def watchStep (isaacOut : Nat → UInt32) (c : Watch) : WatchEvent → Except Sent Watch
  | .world w => .ok { c with world := w }
  | .move x y dir => .ok { c with viewer := { c.viewer with x := x, y := y, dir := dir } }
  | .output out => .ok { c with viewer := { c.viewer with out := out } }
  | .sendPlayers tmpbuf =>
    match playerSendMovement isaacOut c.world tmpbuf.toList c.viewer with
    | (w, v, .packet payload) => .ok { c with
        world := w
        viewer := v
        toldPlayers := fun i => w.mob? (.player i)
        players := readPlayers c.viewer.out.protocolRev c.players payload }
    | (w, v, .failed) => .ok { c with world := w, viewer := v }
    | (w, v, .nothing) => .ok { c with world := w, viewer := v }
    | (_, _, stop) => .error stop
  | .sendNpcs tmpbuf =>
    match playerSendNpcMovement isaacOut c.world tmpbuf.toList c.viewer with
    | (w, v, .packet payload) => .ok { c with
        world := w
        viewer := v
        toldNpcs := fun j => w.mob? (.npc j)
        npcs := readNpcs c.viewer.out.protocolRev c.viewer.x c.viewer.y c.npcs payload }
    | (w, v, .failed) => .ok { c with world := w, viewer := v }
    | (w, v, .nothing) => .ok { c with world := w, viewer := v }
    | (_, _, stop) => .error stop

end Sundae.Ref
