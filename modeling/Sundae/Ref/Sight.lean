import Sundae.Ref.Action
import Sundae.Ref.View

/-!
# A player's sight of the ground

The ground items of the server, a player who moves about and is sent updates of
them, and what its client holds. `script_delobject` is the one other way an item
goes. A client applies the records of a packet one after the other: an item more
on a tile, or one fewer.
-/

namespace Sundae.Ref

/-! ## The client -/

/-- An item lying on a tile. -/
structure ItemKey where
  id : Nat
  x : Nat
  y : Nat
  deriving DecidableEq, Repr

def GroundItem.key (item : GroundItem) : ItemKey := ⟨item.id, item.x, item.y⟩

/-- A byte as a signed one. -/
def signed (b : UInt8) : Int := b.toBitVec.toInt

/-- A client at `x`, `y` reads the records of an `OP_SRV_GROUND_ITEMS` packet. -/
def readItems (x y : Nat) : List UInt8 → List ItemKey → List ItemKey
  | high :: low :: dx :: dy :: rest, held =>
    let id := high.toNat * 256 + low.toNat
    let itemX := (x + signed dx).toNat
    let itemY := (y + signed dy).toNat
    if 0x8000 ≤ id then readItems x y rest (held.erase ⟨id - 0x8000, itemX, itemY⟩)
    else readItems x y rest (⟨id, itemX, itemY⟩ :: held)
  | _, held => held

/-! ## What happens -/

/-- `script_delobject`, for a player that is there. -/
def scriptDelobject (t : ItemTable) (s : Server) (i : Nat) (name : List Char) (x y : Nat) :
    Server :=
  match t.byName name with
  | none => s
  | some config =>
    match serverFindGroundItem s i x y config.id with
    | none => s
    | some ref =>
      match s.groundAt ref with
      | none => s
      | some item =>
        if item.respawn then
          s.modifyGround
            (fun item => { item with respawnTime := s.tickCounter + config.respawnRate / 5 }) ref
        else serverRemoveTempItem s item.uniqueId

/-- The server, the player and what its client holds. -/
structure Sight where
  server : Server
  viewer : Viewer
  held : List ItemKey := []

/-- An event on the ground; an item that an NPC or a script leaves; one a script
takes away; whatever happens to the players, to the player's place and to its side
of the connection; and an update of the ground items. -/
inductive SightEvent where
  | ground (e : GroundEvent)
  | spawn (owner : Option Nat) (x y id stack : Nat)
  | delobject (i : Nat) (name : List Char) (x y : Nat)
  | others (players : Nat → Option Player)
  | move (x y : Nat)
  | output (out : Outgoing)
  | send (tmpbuf : Vector UInt8 playerBufsize)

def sightStep (isaacOut : Nat → UInt32) (t : ItemTable) (c : Sight) :
    SightEvent → Except Assert Sight
  | .ground e =>
    match groundStep t c.server e with
    | .error a => .error a
    | .ok s => .ok { c with server := s }
  | .spawn owner x y id stack =>
    .ok { c with server := serverAddTempItem c.server owner x y id stack }
  | .delobject i name x y =>
    .ok { c with server := if c.server.live i then scriptDelobject t c.server i name x y else c.server }
  | .others players => .ok { c with server := { c.server with players := players } }
  | .move x y => .ok { c with viewer := { c.viewer with x := x, y := y } }
  | .output out => .ok { c with viewer := { c.viewer with out := out } }
  | .send tmpbuf =>
    match playerSendGroundItems isaacOut c.server tmpbuf.toList c.viewer with
    | (v, .packet payload) =>
      .ok { c with viewer := v, held := readItems v.x v.y payload.tail c.held }
    | (v, _) => .ok { c with viewer := v }

/-! ## Locations -/

/-- What a client at `x`, `y` reads of the records of an `OP_SRV_LOCS` packet: an id,
60000 for nothing there, and a tile. -/
def readLocs (x y : Nat) : List UInt8 → List (Nat × Nat × Nat)
  | high :: low :: dx :: dy :: rest =>
    (high.toNat * 256 + low.toNat, (x + signed dx).toNat, (y + signed dy).toNat) ::
      readLocs x y rest
  | _ => []

/-- The map and the player. -/
structure LocSight where
  grid : Grid
  viewer : Viewer

/-- Whatever happens to the map, to the player's place and to its side of the
connection, and an update of the locations. -/
inductive LocEvent where
  | grid (e : GridEvent)
  | move (x y : Nat)
  | output (out : Outgoing)
  | send (tmpbuf : Vector UInt8 playerBufsize)

def locStep (isaacOut : Nat → UInt32) (t : MapTable) (c : LocSight) :
    LocEvent → Except Assert LocSight
  | .grid e =>
    match gridStep t c.grid e with
    | .error a => .error a
    | .ok g => .ok { c with grid := g }
  | .move x y => .ok { c with viewer := { c.viewer with x := x, y := y } }
  | .output out => .ok { c with viewer := { c.viewer with out := out } }
  | .send tmpbuf =>
    .ok { c with viewer := (playerSendLocs isaacOut c.grid tmpbuf.toList c.viewer).1 }

end Sundae.Ref
