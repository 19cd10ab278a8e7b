import Sundae.Ref.Archive
import Sundae.Ref.Zone

/-!
# Loading the map

`load_maps_jag`, `load_map_chunk`, `load_map_tile` and `fill_map_chunk`. A tile
of a map file may stand for a floor, walls, and a location, an item or an NPC.
Of `server_add_npc` the arguments are kept.
-/

namespace Sundae.Ref

open Sundae.Lib

/-- The configs the loader looks up. -/
structure MapData extends MapTable where
  /-- `server_floor_config_by_id`: whether the floor is `blocked`. -/
  floor : Nat → Option Bool
  interactive : Nat → Bool
  surfaceHeight : Nat → Nat

/-- What the loader fills. The items of all zones are one list. -/
structure MapWorld where
  grid : Grid := {}
  roofs : Nat → Nat → Nat := fun _ _ => 0
  items : List GroundItem := []
  groundItemCounter : Nat := 0
  npcs : List (Nat × Nat × Nat) := []

def jagMapDiagInverse : Nat := 12000
def jagMapDiagNpc : Nat := 24000
def jagMapDiagItem : Nat := 36000
def jagMapDiagLoc : Nat := 48000

/-- `|=` on elements of `adjacency`. -/
def Grid.setWalls (g : Grid) (walls : List (Cell × BitVec 8)) : Grid :=
  { g with memory := orAll (laid walls) g.memory, static := orAll walls g.static }

/-- A boundary of a tile: to be added if it is interactive, else a wall on the
cell. -/
def placeBound (d : MapData) (g : Grid) (bound : Bound) (c : Cell) (block sight : BitVec 8) :
    Except Assert Grid :=
  match d.bound bound.id with
  | none => .ok g
  | some config =>
    if d.interactive bound.id then serverAddBound d.toMapTable g bound
    else .ok (g.setWalls ((if config.block then [(c, block)] else []) ++
      if config.blockProjectile then [(c, sight)] else []))

def placeFloor (d : MapData) (g : Grid) (tile : JagTile) (c : Cell) : Except Assert Grid :=
  if tile.overlay = 0 then .ok g
  else
    match d.floor (tile.overlay - 1) with
    | none => .error .locConfig
    | some blocked => .ok (if blocked then g.setWalls [(c, adjBlockFull)] else g)

def placeVert (d : MapData) (g : Grid) (tile : JagTile) (x y : Nat) (c : Cell) :
    Except Assert Grid :=
  if tile.boundVert = 0 then .ok g
  else placeBound d g ⟨tile.boundVert - 1, x, y, 0⟩ { c with y := c.y - 1 } adjBlockVert
    adjBlockSightVert

def placeHoriz (d : MapData) (g : Grid) (tile : JagTile) (x y : Nat) (c : Cell) :
    Except Assert Grid :=
  if tile.boundHoriz = 0 then .ok g
  else placeBound d g ⟨tile.boundHoriz - 1, x, y, 1⟩ { c with x := c.x - 1 } adjBlockHoriz
    adjBlockSightHoriz

/-- The switch that makes the rocks of two versions one. -/
def rockOf (id : Nat) : Nat :=
  match id with
  | 167 => 104
  | 165 => 100
  | 166 => 102
  | 171 => 112
  | 172 => 114
  | 197 => 195
  | 170 => 110
  | 168 => 106
  | 169 => 108
  | 212 => 210
  | _ => id

/-- "have to clear up adjacent tiles": one of them. -/
def clearCopy (objectType ind : Nat) (tiles : Nat → JagTile) : Nat → JagTile :=
  if (tiles ind).boundDiag = objectType then
    fun i => if i = ind then { tiles ind with boundDiag := 0 } else tiles i
  else tiles

/-- The loops over the tiles that a location of the size takes. -/
def clearCopies (objectType width height tileX tileY : Nat) (tiles : Nat → JagTile) :
    Nat → JagTile :=
  let maxX := min (tileX + width) jagMapChunkSize
  let maxY := min (tileY + height) jagMapChunkSize
  (List.range' tileX (maxX - tileX)).foldl (fun tiles x =>
    (List.range' tileY (maxY - tileY)).foldl (fun tiles y =>
      if x = tileX ∧ y = tileY then tiles
      else clearCopy objectType (x * jagMapChunkSize + y) tiles) tiles) tiles

/-- `server_add_item_respawn` -/
def serverAddItemRespawn (w : MapWorld) (item : GroundItem) : MapWorld :=
  match serverFindZone item.x item.y with
  | none => w
  | some _ => { w with items := w.items ++ [item] }

/-- An item on the tile, or on what stands one tile before it. -/
def placeItem (d : MapData) (w : MapWorld) (id x y : Nat) : Except Assert MapWorld :=
  let item : GroundItem :=
    { id := id, x := x, y := y, owner := none, stack := 1, respawn := true, onSurface := false
      creationTime := 0, respawnTime := 0, uniqueId := w.groundItemCounter }
  let w := { w with groundItemCounter := w.groundItemCounter + 1 }
  match serverFindLoc w.grid x (y - 1) with
  | none => .ok (serverAddItemRespawn w item)
  | some l =>
    match d.loc l.id with
    | none => .error .locConfig
    | some _ =>
      if 0 < d.surfaceHeight l.id then
        .ok (serverAddItemRespawn w { item with y := y - 1, onSurface := true })
      else .ok (serverAddItemRespawn w item)

/-- What the number in `bound_diag` stands for. -/
def placeObject (d : MapData) (tiles : Nat → JagTile) (w : MapWorld) (tileX tileY x y : Nat)
    (c : Cell) (tile : JagTile) : Except Assert ((Nat → JagTile) × MapWorld) :=
  let objectType := tile.boundDiag
  let diag (id dir : Nat) : Except Assert ((Nat → JagTile) × MapWorld) :=
    (placeBound d w.grid ⟨id, x, y, dir⟩ c adjBlockFull adjBlockSight).map fun grid =>
      (tiles, { w with grid := grid })
  if jagMapDiagLoc < objectType then
    let id := rockOf (objectType - jagMapDiagLoc - 1)
    match d.loc id with
    | none => .ok (tiles, w)
    | some config =>
      let loc : Loc := ⟨id, id, x, y, tile.locDirection⟩
      let upright := tile.locDirection = 0 ∨ tile.locDirection = 4
      let width := if upright then config.width else config.height
      let height := if upright then config.height else config.width
      (serverAddLoc d.toMapTable w.grid loc).map fun grid =>
        (clearCopies objectType width height tileX tileY tiles, { w with grid := grid })
  else if jagMapDiagItem < objectType then
    (placeItem d w (objectType - jagMapDiagItem - 1) x y).map fun w => (tiles, w)
  else if jagMapDiagNpc < objectType then
    .ok (tiles, { w with npcs := w.npcs ++ [(objectType - jagMapDiagNpc - 1, x, y)] })
  else if jagMapDiagInverse < objectType then diag (objectType - 1 - jagMapDiagInverse) 2
  -- an empty tile asks for the boundary 65535
  else diag ((objectType + 65535) % 65536) 3

def loadMapTile (d : MapData) (tiles : Nat → JagTile) (w : MapWorld) (tileX tileY x y plane : Nat) :
    Except Assert ((Nat → JagTile) × MapWorld) :=
  let c : Cell := ⟨plane, x, (y : Int) - plane * planeLevelInc⟩
  let tile := tiles (tileX * jagMapChunkSize + tileY)
  match placeFloor d w.grid tile c with
  | .error a => .error a
  | .ok grid =>
    let roofs := if tile.roof = 0 then w.roofs else
      fun a b => if a = x ∧ b = y - plane * planeLevelInc then tile.roof else w.roofs a b
    match placeVert d grid tile x y c with
    | .error a => .error a
    | .ok grid =>
      match placeHoriz d grid tile x y c with
      | .error a => .error a
      | .ok grid =>
        placeObject d tiles { w with grid := grid, roofs := roofs } tileX tileY x y c tile

/-- `global_x` and `global_y` of a tile. -/
def globalX (chunkX x : Nat) : Nat := (chunkX - jagMapChunkSize) * jagMapChunkSize + x

def globalY (chunkY plane y : Nat) : Nat :=
  plane * planeLevelInc + (chunkY - 37) * jagMapChunkSize + y

/-- The tiles of a chunk in the order of the loops. -/
def chunkTiles : List (Nat × Nat) :=
  (List.range jagMapChunkSize).flatMap fun x => (List.range jagMapChunkSize).map fun y => (x, y)

/-- The two loops of `load_map_chunk`, over the tiles listed. -/
def loadTiles (d : MapData) (chunkX chunkY plane : Nat) :
    List (Nat × Nat) → (Nat → JagTile) → MapWorld → Except Assert MapWorld
  | [], _, w => .ok w
  | (x, y) :: rest, tiles, w =>
    match loadMapTile d tiles w x y (globalX chunkX x) (globalY chunkY plane y) plane with
    | .error a => .error a
    | .ok (tiles, w) => loadTiles d chunkX chunkY plane rest tiles w

def loadMapChunk (d : MapData) (tiles : Nat → JagTile) (w : MapWorld) (chunkX chunkY plane : Nat) :
    Except Assert MapWorld :=
  loadTiles d chunkX chunkY plane chunkTiles tiles w

/-- `fill_map_chunk` -/
def fillMapChunk (w : MapWorld) (chunkX chunkY plane : Nat) : MapWorld :=
  { w with grid := w.grid.setWalls ((chunkTiles.filter fun (x, y) =>
      globalX chunkX x < zoneMaxX && globalY chunkY 0 y < zoneMaxY).map fun (x, y) =>
        (⟨plane, globalX chunkX x, globalY chunkY 0 y⟩, adjBlockFull)) }

/-- The name of a map file: `m%d%d%d%d%d.jm`. -/
def mapName (plane x y : Nat) : List Char :=
  ['m', Nat.digitChar plane, Nat.digitChar (x / 10), Nat.digitChar (x % 10),
    Nat.digitChar (y / 10), Nat.digitChar (y % 10), '.', 'j', 'm']

/-- One turn of the loops of `load_maps_jag`. -/
def loadMapFile (bzip2 : Bzip2) (d : MapData) (archive : List Nat) (w : MapWorld)
    (plane x y : Nat) : Except Assert MapWorld :=
  match jagFindEntry archive (mapName plane x y) with
  | none => .ok (fillMapChunk w x y plane)
  | some entry =>
    match jagUnpackEntry bzip2 entry with
    | none => .ok (fillMapChunk w x y plane)
    | some data =>
      match jagMapReadJm data entry.unpackedLen with
      | none => .ok w
      | some tiles => loadMapChunk d tiles w x y plane

/-- The chunks of the map, in the order of the loops. -/
def mapChunks : List (Nat × Nat × Nat) :=
  (List.range 4).flatMap fun plane => (List.range' 49 15).flatMap fun x =>
    (List.range' 40 24).map fun y => (plane, x, y)

/-- The loops, over the chunks listed. -/
def loadMapFiles (bzip2 : Bzip2) (d : MapData) (archive : List Nat) :
    List (Nat × Nat × Nat) → MapWorld → Except Assert MapWorld
  | [], w => .ok w
  | (plane, x, y) :: rest, w =>
    match loadMapFile bzip2 d archive w plane x y with
    | .error a => .error a
    | .ok w => loadMapFiles bzip2 d archive rest w

/-- `load_maps_jag`, from the bytes of the file. -/
def loadMapsJag (bzip2 : Bzip2) (d : MapData) (f : List Nat) (w : MapWorld) :
    Option (Except Assert MapWorld) :=
  (jagUnpackFile bzip2 f).map fun archive => loadMapFiles bzip2 d archive mapChunks w

end Sundae.Ref
