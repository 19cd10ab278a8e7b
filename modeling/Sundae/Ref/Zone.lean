import Sundae.Lib.Flags
import Sundae.Lib.Shelf
import Sundae.Ref.Ground

/-!
# Zones, locations and boundaries

`server_find_zone`, and the functions of `zone.c` and `script.c` that put
locations and boundaries into zones and their flags into the adjacency grid.
A zone is created when it is first asked for, so here each is there from the
start. The grid is memory: `adjacency[plane][x][y]` is a byte at a distance from
the first, so an index out of bounds lands in a cell of another column or plane,
or outside the array.
-/

namespace Sundae.Ref

open Sundae.Lib

def zoneWidth : Nat := 8
def zoneArea : Nat := 64
def zoneMaxBounds : Nat := 16
def zoneMaxX : Nat := 450
def zoneMaxY : Nat := 750
def zoneMaxPlane : Nat := 4

/-- `zone->x`, `zone->y` and `zone->plane`. -/
structure Zone where
  x : Nat
  y : Nat
  plane : Nat
  deriving DecidableEq, Repr

/-- `server_find_zone` -/
def serverFindZone (x y : Nat) : Option Zone :=
  let plane := if planeLevelInc < y then y / planeLevelInc else 0
  let row := y - plane * planeLevelInc
  if zoneMaxX ≤ x ∨ zoneMaxY ≤ row then none
  else if zoneMaxPlane ≤ plane then none
  else some ⟨x / zoneWidth, row / zoneWidth, plane⟩

structure Loc where
  id : Nat
  origId : Nat
  x : Nat
  y : Nat
  dir : Nat
  deriving DecidableEq, Repr

structure Bound where
  id : Nat
  x : Nat
  y : Nat
  dir : Nat
  deriving DecidableEq, Repr

inductive LocType where
  | passthru
  | blocking
  | gateClosed
  | gateOpen
  deriving DecidableEq, Repr

/-- `struct loc_config`: the fields the grid depends on. -/
structure LocConfig where
  width : Nat
  height : Nat
  type : LocType
  blockProjectile : Bool
  deriving DecidableEq, Repr

structure BoundConfig where
  block : Bool
  blockProjectile : Bool
  deriving DecidableEq, Repr

/-- `server_loc_config_by_id` and `server_bound_config_by_id`. -/
structure MapTable where
  loc : Nat → Option LocConfig
  bound : Nat → Option BoundConfig

/-! ## Flags -/

/-- An element of `adjacency`. -/
structure Cell where
  plane : Nat
  x : Int
  y : Int
  deriving DecidableEq, Repr

/-- How far the byte `adjacency[plane][x][y]` is from the first. -/
def Cell.place (c : Cell) : Int := ((c.plane : Int) * zoneMaxX + c.x) * zoneMaxY + c.y

/-- The masks by the bytes they land in. -/
def laid (masks : List (Cell × BitVec 8)) : List (Int × BitVec 8) :=
  masks.map fun m => (m.1.place, m.2)

def adjBlockVert : BitVec 8 := 1
def adjBlockHoriz : BitVec 8 := 2
def adjBlockSightVert : BitVec 8 := 4
def adjBlockSightHoriz : BitVec 8 := 8
def adjBlockFull : BitVec 8 := 16
def adjBlockSight : BitVec 8 := 32

/-- What `= 0` clears. -/
def adjAll : BitVec 8 := 255

/-- The cells the loops over `x` and `y` visit. -/
def footprint (loc : Loc) (config : LocConfig) : List Cell :=
  let upright := loc.dir = 0 ∨ loc.dir = 4
  let w := if upright then config.width else config.height
  let h := if upright then config.height else config.width
  let (plane, row) := planeRow loc.y 0 loc.y
  (List.range w).flatMap fun dx => (List.range h).map fun dy => ⟨plane, loc.x + dx, row + dy⟩

/-- `switch (loc->dir)`: north, south, west, east. -/
def gateFlags (dir : Nat) (c : Cell) : List (Cell × BitVec 8) :=
  if dir = 0 then [({ c with x := c.x - 1 }, adjBlockHoriz)]
  else if dir = 4 then [(c, adjBlockHoriz)]
  else if dir = 2 then [(c, adjBlockVert)]
  else if dir = 6 then [({ c with y := c.y - 1 }, adjBlockVert)]
  else []

/-- What `server_add_loc` sets. -/
def locFlags (loc : Loc) (config : LocConfig) : List (Cell × BitVec 8) :=
  (footprint loc config).flatMap fun c =>
    (match config.type with
      | .blocking => [(c, adjBlockFull)]
      | .gateClosed => gateFlags loc.dir c
      | .passthru | .gateOpen => []) ++
    if config.blockProjectile then [(c, adjBlockSight)] else []

/-- What `remove_loc_collision` clears. -/
def locClears (loc : Loc) (config : LocConfig) : List (Cell × BitVec 8) :=
  match config.type with
  | .passthru | .gateOpen => []
  | .blocking => (footprint loc config).map fun c => (c, adjAll)
  | .gateClosed => (footprint loc config).flatMap fun c =>
    (if config.blockProjectile then [(c, adjBlockSight)] else []) ++ gateFlags loc.dir c

/-- The cell a boundary is on, by `switch (bound->dir)`. -/
def boundCell (bound : Bound) : Cell :=
  let (plane, row) := planeRow bound.y 0 bound.y
  if bound.dir = 0 then ⟨plane, bound.x, (row : Int) - 1⟩
  else if bound.dir = 1 then ⟨plane, (bound.x : Int) - 1, row⟩
  else ⟨plane, bound.x, row⟩

/-- What `server_add_bound` sets. -/
def boundFlags (bound : Bound) (config : BoundConfig) : List (Cell × BitVec 8) :=
  let masks : Option (BitVec 8 × BitVec 8) :=
    if bound.dir = 0 then some (adjBlockVert, adjBlockSightVert)
    else if bound.dir = 1 then some (adjBlockHoriz, adjBlockSightHoriz)
    else if bound.dir = 2 ∨ bound.dir = 3 then some (adjBlockFull, adjBlockSight)
    else none
  match masks with
  | none => []
  | some (block, sight) =>
    (if config.block then [(boundCell bound, block)] else []) ++
    if config.blockProjectile then [(boundCell bound, sight)] else []

/-- What `server_add_bound` clears of the boundary it replaces. -/
def boundClears (bound : Bound) : List (Cell × BitVec 8) :=
  if bound.dir = 0 then
    [(boundCell bound, adjBlockVert), (boundCell bound, adjBlockSightVert)]
  else if bound.dir = 1 then
    [(boundCell bound, adjBlockHoriz), (boundCell bound, adjBlockSightHoriz)]
  else if bound.dir = 2 ∨ bound.dir = 3 then [(boundCell bound, adjAll)]
  else []

/-! ## The map -/

/-- The zones' lists and the grid, with the floor and wall flags the loader
has set apart for the record. -/
structure Grid where
  memory : Int → BitVec 8 := fun _ => 0
  locs : Zone → List Loc := fun _ => []
  bounds : Zone → List Bound := fun _ => []
  static : Cell → BitVec 8 := fun _ => 0

namespace Grid

/-- What is read at an index of `adjacency`. -/
def adjacency (g : Grid) (c : Cell) : BitVec 8 := g.memory c.place

/-- Replace the list of one zone. -/
def setLocs (g : Grid) (zone : Zone) (locs : List Loc) : Grid :=
  { g with locs := setBin g.locs zone locs }

def setBounds (g : Grid) (zone : Zone) (bounds : List Bound) : Grid :=
  { g with bounds := setBin g.bounds zone bounds }

end Grid

def Loc.onTile (x y : Nat) (l : Loc) : Bool := l.x == x && l.y == y

def Bound.onEdge (x y dir : Nat) (b : Bound) : Bool := b.x == x && b.y == y && b.dir == dir

def serverFindLoc (g : Grid) (x y : Nat) : Option Loc :=
  match serverFindZone x y with
  | none => none
  | some zone => (g.locs zone).find? (Loc.onTile x y)

/-- `loc->id = id` through the pointer `server_find_loc` gives. -/
def setLocId (g : Grid) (x y id : Nat) : Grid :=
  match serverFindZone x y with
  | none => g
  | some zone =>
    g.setLocs zone (modifyFirst (Loc.onTile x y) (fun l => { l with id := id }) (g.locs zone))

def serverDelLoc (g : Grid) (x y : Nat) : Grid :=
  match serverFindZone x y with
  | none => g
  | some zone => g.setLocs zone (sweepMatches (Loc.onTile x y) (g.locs zone))

def removeLocCollision (t : MapTable) (g : Grid) (loc : Loc) : Except Assert Grid :=
  match t.loc loc.id with
  | none => .error .locConfig
  | some config => .ok { g with memory := clearAll (laid (locClears loc config)) g.memory }

/-- The end of `server_add_loc`, where there was none: into the zone's list, if
there is a zone and it has room. -/
def recordLoc (g : Grid) (loc : Loc) : Grid :=
  match serverFindZone loc.x loc.y with
  | none => g
  | some zone =>
    if (g.locs zone).length < zoneArea then g.setLocs zone (g.locs zone ++ [loc]) else g

/-- The collision part of `server_add_loc`, from the look-up of the config. -/
def addLocCollision (t : MapTable) (g : Grid) (loc : Loc) : Except Assert Grid :=
  match t.loc loc.id with
  | none => .error .locConfig
  | some config => .ok { g with memory := orAll (laid (locFlags loc config)) g.memory }

def serverAddLoc (t : MapTable) (g : Grid) (loc : Loc) : Except Assert Grid :=
  match serverFindLoc g loc.x loc.y with
  | some old =>
    match removeLocCollision t g old with
    | .error a => .error a
    | .ok g => addLocCollision t (setLocId g loc.x loc.y loc.id) loc
  | none =>
    match addLocCollision t g loc with
    | .error a => .error a
    | .ok g => .ok (recordLoc g loc)

def serverFindBound (g : Grid) (x y dir : Nat) : Option Bound :=
  match serverFindZone x y with
  | none => none
  | some zone => (g.bounds zone).find? (Bound.onEdge x y dir)

/-- `bound->id = id` through the pointer `server_find_bound` gives. -/
def setBoundId (g : Grid) (x y dir id : Nat) : Grid :=
  match serverFindZone x y with
  | none => g
  | some zone => g.setBounds zone
    (modifyFirst (Bound.onEdge x y dir) (fun b => { b with id := id }) (g.bounds zone))

def recordBound (g : Grid) (bound : Bound) : Grid :=
  match serverFindZone bound.x bound.y with
  | none => g
  | some zone =>
    if (g.bounds zone).length < zoneMaxBounds then g.setBounds zone (g.bounds zone ++ [bound])
    else g

def serverAddBound (t : MapTable) (g : Grid) (bound : Bound) : Except Assert Grid :=
  match t.bound bound.id with
  | none => .error .boundConfig
  | some config =>
    match serverFindBound g bound.x bound.y bound.dir with
    | some old =>
      .ok (setBoundId { g with
        memory := orAll (laid (boundFlags bound config))
          (clearAll (laid (boundClears old)) g.memory) }
          bound.x bound.y bound.dir bound.id)
    | none =>
      .ok (recordBound
        { g with memory := orAll (laid (boundFlags bound config)) g.memory } bound)

/-! ## Scripts -/

/-- `script_changeloc`, once the name has been looked up. -/
def scriptChangeloc (t : MapTable) (g : Grid) (x y id : Nat) : Except Assert Grid :=
  match serverFindLoc g x y with
  | none => .ok g
  | some loc => serverAddLoc t g { loc with id := id }

/-- `script_restoreloc`, which writes the id before it adds the location. -/
def scriptRestoreloc (t : MapTable) (g : Grid) (x y : Nat) : Except Assert Grid :=
  match serverFindLoc g x y with
  | none => .ok g
  | some loc => serverAddLoc t (setLocId g x y loc.origId) { loc with id := loc.origId }

/-- `script_changebound`, once the name has been looked up. -/
def scriptChangebound (t : MapTable) (g : Grid) (x y dir id : Nat) : Except Assert Grid :=
  match serverFindBound g x y dir with
  | none => .ok g
  | some bound => serverAddBound t (setBoundId g x y dir id) { bound with id := id }

/-- What happens to the map, while it is loaded and after. -/
inductive GridEvent where
  /-- A floor or a wall that is not interactive. -/
  | wall (c : Cell) (flags : BitVec 8)
  | addLoc (loc : Loc)
  | delLoc (x y : Nat)
  | changeLoc (x y id : Nat)
  | restoreLoc (x y : Nat)
  | addBound (bound : Bound)
  | changeBound (x y dir id : Nat)

def gridStep (t : MapTable) (g : Grid) : GridEvent → Except Assert Grid
  | .wall c flags => .ok { g with
      memory := orAll (laid [(c, flags)]) g.memory
      static := orAll [(c, flags)] g.static }
  | .addLoc loc => serverAddLoc t g loc
  | .delLoc x y => .ok (serverDelLoc g x y)
  | .changeLoc x y id => scriptChangeloc t g x y id
  | .restoreLoc x y => scriptRestoreloc t g x y
  | .addBound bound => serverAddBound t g bound
  | .changeBound x y dir id => scriptChangebound t g x y dir id

end Sundae.Ref
