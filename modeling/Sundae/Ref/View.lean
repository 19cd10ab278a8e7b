import Sundae.Ref.Mob
import Sundae.Ref.Outgoing

/-!
# What a client knows

`player_send_locs`, `player_send_bounds` and `player_send_ground_items`: what a
client is told of its surroundings is what has changed since it was told last,
and for that the player keeps lists of what its client knows. A packet is built
in `tmpbuf`, which still has in it what the packets before it left there.
Growing a list is taken to succeed.
-/

namespace Sundae.Ref

open Sundae.Lib

/-- The player a packet is for: its mob, its side of the connection and what its
client knows. The `-1` of `known_players` and `known_npcs` is `none`. -/
structure Viewer where
  id : Nat
  x : Nat
  y : Nat
  dir : World.Dir := .north
  out : Outgoing
  knownLocs : List Loc := []
  knownBounds : List Bound := []
  knownItems : List GroundItem := []
  knownPlayers : List (Option Nat) := []
  knownNpcs : List (Option Nat) := []

/-- What an encoder gives: `-1`, `0` without a packet, or `0` with the packet it
has built; or the assertion on moved mobs stops it, or it writes past the end of
`new_known`. -/
inductive Sent where
  | stopped
  | overrun
  | failed
  | nothing
  | packet (payload : List UInt8)
  deriving DecidableEq, Repr

/-! ## tmpbuf -/

/-- A packet under construction: `tmpbuf`, the `offset` it has been written up to,
and `update_count`. -/
structure Draft where
  tmpbuf : List UInt8
  offset : Nat := 0
  updateCount : Nat := 0

/-- `buf_putu16` -/
def bufPutu16 (b : List UInt8) (offset buflen : Nat) (x : Nat) : Option (List UInt8) :=
  if buflen < offset + 2 then none
  else some ((b.set offset (UInt8.ofNat (x / 256))).set (offset + 1) (UInt8.ofNat x))

namespace Draft

def putu8 (d : Draft) (x : UInt8) : Option Draft :=
  (bufPutu8 d.tmpbuf d.offset playerBufsize x).map fun b =>
    { d with tmpbuf := b, offset := d.offset + 1 }

def putu16 (d : Draft) (x : Nat) : Option Draft :=
  (bufPutu16 d.tmpbuf d.offset playerBufsize x).map fun b =>
    { d with tmpbuf := b, offset := d.offset + 2 }

/-- Only the opcode, for which there is always room. -/
def opened (tmpbuf : List UInt8) (opcode : UInt8) : Draft :=
  { tmpbuf := tmpbuf.set 0 opcode, offset := 1 }

def payload (d : Draft) : List UInt8 := d.tmpbuf.take d.offset

/-- `update_count++` -/
def counted (d : Draft) : Draft := { d with updateCount := d.updateCount + 1 }

end Draft

/-- `(uint8_t)(x - (int)p->mob.x)` -/
def relative (x origin : Nat) : UInt8 := UInt8.ofInt ((x : Int) - origin)

/-- A record of an id and a tile. -/
def Draft.putRecord (d : Draft) (v : Viewer) (id x y : Nat) : Option Draft := do
  let d ← d.putu16 id
  let d ← d.putu8 (relative x v.x)
  let d ← d.putu8 (relative y v.y)
  return d.counted

/-- A record of a boundary, which has a direction too. -/
def Draft.putBound (d : Draft) (v : Viewer) (bound : Bound) : Option Draft := do
  let d ← d.putu16 bound.id
  let d ← d.putu8 (relative bound.x v.x)
  let d ← d.putu8 (relative bound.y v.y)
  let d ← d.putu8 (UInt8.ofNat bound.dir)
  return d.counted

/-- `player_write_packet(p, p->tmpbuf, offset)` -/
def Viewer.write (isaacOut : Nat → UInt32) (v : Viewer) (d : Draft) : Viewer × Sent :=
  match playerWritePacket isaacOut v.out d.payload with
  | (out, none) => ({ v with out := out }, .failed)
  | (out, some _) => ({ v with out := out }, .packet d.payload)

/-- The packet is written if there is anything to inform the client of. -/
def Viewer.writeUpdates (isaacOut : Nat → UInt32) (v : Viewer) (d : Draft) : Viewer × Sent :=
  if d.updateCount = 0 then (v, .nothing) else v.write isaacOut d

/-! ## Surroundings -/

def zoneTotalX : Nat := 1 + zoneMaxX / zoneWidth
def zoneTotalY : Nat := 1 + zoneMaxY / zoneWidth

/-- `server_get_zone` -/
def serverGetZone (x y : Int) (plane : Nat) : Option Zone :=
  if x < 1 ∨ y < 1 ∨ (zoneTotalX : Int) ≤ x ∨ (zoneTotalY : Int) ≤ y then none
  else if zoneMaxPlane ≤ plane then none
  else some ⟨x.toNat, y.toNat, plane⟩

/-- `for (int x = -2; x < 3; ++x)` -/
def zoneOffsets : List Int := [-2, -1, 0, 1, 2]

/-- The zones the loops over `x` and `y` come to. -/
def zonesAround (orig : Zone) : List Zone :=
  zoneOffsets.flatMap fun x => zoneOffsets.filterMap fun y =>
    if x = 0 ∧ y = 0 then none else serverGetZone (orig.x + x) (orig.y + y) orig.plane

/-- The zone of a tile, and those around it. -/
def zonesNear (x y : Nat) : List Zone :=
  match serverFindZone x y with
  | none => []
  | some orig => orig :: zonesAround orig

/-- `mob_distance` -/
def Viewer.distance (v : Viewer) (x y : Nat) : Nat :=
  Nat.sqrt (((x : Int) - v.x).natAbs ^ 2 + ((y : Int) - v.y).natAbs ^ 2)

/-- `abs(a - (int)b)` -/
def absDiff (a b : Nat) : Nat := ((a : Int) - b).natAbs

def withinUpdateRadius (v : Viewer) (x y range : Nat) : Bool :=
  match serverFindZone v.x v.y, serverFindZone x y with
  | some origin, some zone =>
    origin.plane == zone.plane && absDiff zone.x origin.x ≤ range && absDiff zone.y origin.y ≤ range
  | _, _ => false

/-! ## Locations -/

def opSrvLocs : UInt8 := 253
def maxNearbyLocs : Nat := 256

/-- `LOC_PLAINROCK1` -/
def locPlainrock1 : Nat := 98

/-- The mined rocks, which client versions before 159 are shown as plain ones. -/
def minedRocks : List Nat :=
  [99, 164, 101, 165, 105, 167, 103, 166, 107, 168, 109, 169, 211, 212, 111, 170, 115, 172, 196,
    197, 113, 171]

def encodeLocId (v : Viewer) (id : Nat) : Nat :=
  if v.out.protocolRev < 159 ∧ id ∈ minedRocks then locPlainrock1 else id

def mobGetNearbyLocs (g : Grid) (v : Viewer) : List Loc :=
  ((zonesNear v.x v.y).flatMap g.locs).take maxNearbyLocs

/-- Whether a known location is so far off that the client need not keep it. -/
def locFarOff (v : Viewer) (known : Loc) : Bool :=
  match serverFindZone known.x known.y, serverFindZone v.x v.y with
  | some zone, some playerZone => 8 ≤ absDiff zone.x playerZone.x || 8 ≤ absDiff zone.y playerZone.y
  | _, _ => true

def putLoc (v : Viewer) (d : Draft) (loc : Loc) : Option Draft :=
  d.putRecord v (encodeLocId v loc.id) loc.x loc.y

/-- The loop over `known_locs`: the list as it is left, and the packet unless a
record did not fit. Taking an entry out moves the next one into its place, and
that one is not looked at. -/
def sendKnownLocs (g : Grid) (v : Viewer) : List Loc → Draft → List Loc × Option Draft
  | [], d => ([], some d)
  | known :: rest, d =>
    if 128 ≤ v.distance known.x known.y then
      let (rest, d) := sendKnownLocs g v rest d
      (known :: rest, d)
    else
      let found := serverFindLoc g known.x known.y
      match found.filter fun loc => loc.id != known.id with
      | some loc =>
        match putLoc v d loc with
        | none => (known :: rest, none)
        | some d =>
          let (rest, d) := sendKnownLocs g v rest d
          ({ known with id := loc.id } :: rest, d)
      | none =>
        if found.isSome ∧ !locFarOff v known then
          let (rest, d) := sendKnownLocs g v rest d
          (known :: rest, d)
        else
          match d.putRecord v 60000 known.x known.y with
          | none => (known :: rest, none)
          | some d =>
            match rest with
            | [] => ([], some d)
            | next :: rest =>
              let (rest, d) := sendKnownLocs g v rest d
              (next :: rest, d)

/-- The loop over the nearby locations or boundaries: `known` says whether one is
on a list, and `put` writes its record. -/
def sendNearby (known : α → List α → Bool) (put : Draft → α → Option Draft) :
    List α → List α → Draft → List α × Option Draft
  | [], list, d => (list, some d)
  | a :: nearby, list, d =>
    if known a list then sendNearby known put nearby list d
    else
      match put d a with
      | none => (list, none)
      | some d => sendNearby known put nearby (list ++ [a]) d

/-- `player_has_known_loc` -/
def hasKnownLoc (loc : Loc) (knownLocs : List Loc) : Bool :=
  knownLocs.any (Loc.onTile loc.x loc.y)

def sendNearbyLocs (v : Viewer) : List Loc → List Loc → Draft → List Loc × Option Draft :=
  sendNearby hasKnownLoc (putLoc v)

def playerSendLocs (isaacOut : Nat → UInt32) (g : Grid) (tmpbuf : List UInt8) (v : Viewer) :
    Viewer × Sent :=
  match sendKnownLocs g v v.knownLocs (.opened tmpbuf opSrvLocs) with
  | (knownLocs, none) => ({ v with knownLocs := knownLocs }, .failed)
  | (knownLocs, some d) =>
    match sendNearbyLocs v (mobGetNearbyLocs g v) knownLocs d with
    | (knownLocs, none) => ({ v with knownLocs := knownLocs }, .failed)
    | (knownLocs, some d) => { v with knownLocs := knownLocs }.writeUpdates isaacOut d

/-! ## Boundaries -/

def opSrvBoundaries : UInt8 := 249
def maxNearbyBounds : Nat := 256

def mobGetNearbyBounds (g : Grid) (v : Viewer) : List Bound :=
  ((zonesNear v.x v.y).flatMap g.bounds).take maxNearbyBounds

/-- The boundary a known one has become, if there is room for it in the payload.
There is no way for the client to remove one. -/
def boundChanged (g : Grid) (v : Viewer) (known : Bound) : Option Bound :=
  (serverFindBound g known.x known.y known.dir).filter fun bound =>
    bound.id != known.id && v.distance bound.x bound.y < 128

def sendKnownBounds (g : Grid) (v : Viewer) : List Bound → Draft → List Bound × Option Draft
  | [], d => ([], some d)
  | known :: rest, d =>
    match boundChanged g v known with
    | none =>
      let (rest, d) := sendKnownBounds g v rest d
      (known :: rest, d)
    | some bound =>
      match d.putBound v bound with
      | none => (known :: rest, none)
      | some d =>
        let (rest, d) := sendKnownBounds g v rest d
        ({ known with id := bound.id } :: rest, d)

/-- `player_has_known_bound` -/
def hasKnownBound (bound : Bound) (knownBounds : List Bound) : Bool :=
  knownBounds.any (Bound.onEdge bound.x bound.y bound.dir)

def sendNearbyBounds (v : Viewer) : List Bound → List Bound → Draft → List Bound × Option Draft :=
  sendNearby hasKnownBound fun d bound => d.putBound v bound

def playerSendBounds (isaacOut : Nat → UInt32) (g : Grid) (tmpbuf : List UInt8) (v : Viewer) :
    Viewer × Sent :=
  match sendKnownBounds g v v.knownBounds (.opened tmpbuf opSrvBoundaries) with
  | (knownBounds, none) => ({ v with knownBounds := knownBounds }, .failed)
  | (knownBounds, some d) =>
    match sendNearbyBounds v (mobGetNearbyBounds g v) knownBounds d with
    | (knownBounds, none) => ({ v with knownBounds := knownBounds }, .failed)
    | (knownBounds, some d) => { v with knownBounds := knownBounds }.writeUpdates isaacOut d

/-! ## Ground items -/

def opSrvGroundItems : UInt8 := 254
def maxNearbyItems : Nat := 512

/-- `zone->items` -/
def Server.itemsOf (s : Server) (zone : Zone) : List GroundItem :=
  s.zoneItems.filter fun item => serverFindZone item.x item.y == some zone

/-- The items around that the player can see: the spawns of the zones around, and
the temporary items within three zones. -/
def itemsAround (s : Server) (v : Viewer) : List GroundItem :=
  match serverFindZone v.x v.y with
  | none => []
  | some orig =>
    let spawned := (orig :: zonesAround orig).flatMap s.itemsOf
    let dropped := s.tempItems.filter fun item =>
      match serverFindZone item.x item.y with
      | none => false
      | some zone =>
        zone.plane == orig.plane && absDiff zone.x orig.x ≤ 3 && absDiff zone.y orig.y ≤ 3
    (spawned ++ dropped).filter (playerCanSeeItem s v.id)

def playerGetNearbyItems (s : Server) (v : Viewer) : List GroundItem :=
  (itemsAround s v).take maxNearbyItems

/-- Whether a known item is to go from the player's view. -/
def itemGone (s : Server) (v : Viewer) (item : GroundItem) : Bool :=
  ((serverFindGroundItem s v.id item.x item.y item.id).isNone ||
    !withinUpdateRadius v item.x item.y 3 || !playerCanSeeItem s v.id item) &&
    v.distance item.x item.y < 128

/-- The loop over `known_items`, with `new_known` so far. -/
def sendKnownItems (s : Server) (v : Viewer) :
    List GroundItem → List GroundItem → Draft → Option (List GroundItem × Draft)
  | [], newKnown, d => some (newKnown, d)
  | item :: rest, newKnown, d =>
    if maxNearbyItems ≤ newKnown.length then some (newKnown, d)
    else if itemGone s v item then
      match d.putRecord v (item.id ||| 0x8000) item.x item.y with
      | none => none
      | some d => sendKnownItems s v rest newKnown d
    else sendKnownItems s v rest (newKnown ++ [item]) d

def sendNearbyItems (v : Viewer) :
    List GroundItem → List GroundItem → Draft → Option (List GroundItem × Draft)
  | [], newKnown, d => some (newKnown, d)
  | item :: nearby, newKnown, d =>
    if maxNearbyItems ≤ newKnown.length then some (newKnown, d)
    else if v.knownItems.any fun known => known.uniqueId == item.uniqueId then
      sendNearbyItems v nearby newKnown d
    else
      match d.putRecord v item.id item.x item.y with
      | none => none
      | some d => sendNearbyItems v nearby (newKnown ++ [item]) d

def playerSendGroundItems (isaacOut : Nat → UInt32) (s : Server) (tmpbuf : List UInt8)
    (v : Viewer) : Viewer × Sent :=
  match sendKnownItems s v v.knownItems [] (.opened tmpbuf opSrvGroundItems) with
  | none => (v, .failed)
  | some (newKnown, d) =>
    match sendNearbyItems v (playerGetNearbyItems s v) newKnown d with
    | none => (v, .failed)
    | some (newKnown, d) => { v with knownItems := newKnown }.writeUpdates isaacOut d

end Sundae.Ref
