import Mathlib.Data.List.Perm.Subperm
import Sundae.Lib.Turns
import Sundae.Proofs.Archive
import Sundae.Proofs.Zone

/-!
# What a loaded map holds

The map editor writes a location on every tile it takes, and the loader places
it once, at the first, and wipes the others as it goes. So what the tiles of a
chunk draw is not what is read off them one by one: a tile further on may have
been wiped by then. It never matters for a tile that has a location of its own,
as long as no location begins where another is.

Everything the loader does to the grid puts something in an empty place, which
`Builds` says once for floors, walls, boundaries and locations. A chunk at the
edge of the map may draw past a column or a plane of the array, so its flags are
counted by where they land.
-/

namespace Sundae.Proofs

open Sundae.Lib Sundae.Ref

/-- Something the maps draw. -/
inductive Placed where
  | loc (l : Loc)
  | bound (b : Bound)
  | wall (c : Cell) (b : Nat)

/-- The flags of something drawn, by where they land. -/
def Placed.Lands (t : MapTable) (p : Placed) (c : Cell) (b : Nat) : Prop :=
  match p with
  | .loc l => Proofs.Lands (locMasks t l) c b
  | .bound d => Proofs.Lands (boundMasks t d) c b
  | .wall c' b' => c'.place = c.place ∧ b' = b

/-- From one grid to the other these were put on the map, as far as it goes. -/
structure Builds (t : MapTable) (g g' : Grid) (s : Placed → Prop) : Prop where
  filed : Filed g'
  locs : ∀ l, Present g'.locs l ↔ Present g.locs l ∨ s (.loc l) ∧ (locHome l).isSome = true
  bounds : ∀ b, Present g'.bounds b ↔
    Present g.bounds b ∨ s (.bound b) ∧ (boundHome b).isSome = true
  flags : ∀ c b, (g'.adjacency c).getLsbD b = true ↔
    (g.adjacency c).getLsbD b = true ∨ ∃ p, s p ∧ p.Lands t c b

namespace Builds

variable {t : MapTable} {g g' g'' : Grid} {s s' : Placed → Prop}

theorem none (hg : Filed g) (hs : ∀ p, ¬ s p) : Builds t g g s := by
  refine ⟨hg, ?_, ?_, ?_⟩
  · simp [hs]
  · simp [hs]
  · simp [hs]

theorem trans (h : Builds t g g' s) (h' : Builds t g' g'' s') :
    Builds t g g'' fun p => s p ∨ s' p := by
  refine ⟨h'.filed, ?_, ?_, ?_⟩
  · intro l
    rw [h'.locs, h.locs, or_and_right, or_assoc]
  · intro b
    rw [h'.bounds, h.bounds, or_and_right, or_assoc]
  · intro c b
    rw [h'.flags, h.flags, or_assoc]
    simp only [or_and_right, exists_or]

theorem congr (h : Builds t g g' s) (hs : ∀ p, s p ↔ s' p) : Builds t g g' s' := by
  obtain rfl : s = s' := funext fun p => propext (hs p)
  exact h

end Builds

/-! ## One thing more -/

section Step

variable {t : MapTable} {g : Grid}

/-- The tiles of a zone. -/
def zoneTiles (zone : Zone) : List (Nat × Nat) :=
  (List.range zoneWidth).flatMap fun dx => (List.range zoneWidth).map fun dy =>
    (zone.x * zoneWidth + dx, zone.plane * planeLevelInc + zone.y * zoneWidth + dy)

theorem zoneTiles_length (zone : Zone) : (zoneTiles zone).length = zoneArea := rfl

theorem mem_zoneTiles {x y : Nat} {zone : Zone} (h : serverFindZone x y = some zone) :
    (x, y) ∈ zoneTiles zone := by
  unfold serverFindZone at h
  generalize hplane : (if planeLevelInc < y then y / planeLevelInc else 0) = plane at h
  have hle : plane * planeLevelInc ≤ y := by
    rw [← hplane]
    split
    · exact Nat.div_mul_le_self y planeLevelInc
    · omega
  dsimp only at h
  split at h
  · cases h
  · split at h
    · cases h
    · obtain rfl := Option.some.inj h
      simp only [zoneTiles, List.mem_flatMap, List.mem_map, List.mem_range, Prod.mk.injEq]
      refine ⟨x % zoneWidth, Nat.mod_lt _ (by decide),
        (y - plane * planeLevelInc) % zoneWidth, Nat.mod_lt _ (by decide), ?_, ?_⟩
      · exact Nat.div_add_mod' x zoneWidth
      · rw [Nat.add_assoc, Nat.div_add_mod', Nat.add_sub_cancel' hle]

/-- One location to a tile leaves room for one more on a tile that has none. -/
theorem Filed.room (hg : Filed g) {loc : Loc}
    (hfree : ∀ l, Present g.locs l → locKey l ≠ locKey loc)
    {zone : Zone} (hzone : serverFindZone loc.x loc.y = some zone) :
    (g.locs zone).length < zoneArea := by
  have hnodup : (locKey loc :: (g.locs zone).map locKey).Nodup := by
    refine List.nodup_cons.2 ⟨fun hmem => ?_, hg.locs.nodup zone⟩
    obtain ⟨l, hl, hkey⟩ := List.mem_map.1 hmem
    exact hfree l ⟨zone, hl⟩ hkey
  have hsub : locKey loc :: (g.locs zone).map locKey ⊆ zoneTiles zone := by
    intro key hkey
    rcases List.mem_cons.1 hkey with rfl | hkey
    · exact mem_zoneTiles hzone
    · obtain ⟨l, hl, rfl⟩ := List.mem_map.1 hkey
      exact mem_zoneTiles (hg.locs.home_eq zone l hl)
  have hle := (hnodup.subperm hsub).length_le
  rw [zoneTiles_length, List.length_cons, List.length_map] at hle
  exact hle

/-- No zone is drawn more boundaries than it has room for. -/
def BoundsFit (drawn : Bound → Prop) : Prop :=
  ∀ zone, ∀ l : List Bound, l.Nodup → (∀ b ∈ l, drawn b ∧ boundHome b = some zone) →
    l.length ≤ zoneMaxBounds

end Step

/-! ## One tile -/

section Tile

variable {d : MapData}

/-- A boundary is put on the map if it is interactive, else it is a wall. -/
def boundDraws (d : MapData) (bound : Bound) (c : Cell) (block sight : BitVec 8) : Placed → Prop
  | .loc _ => False
  | .bound b => b = bound ∧ d.interactive bound.id = true ∧ (d.bound bound.id).isSome = true
  | .wall c' bit => d.interactive bound.id = false ∧ ∃ config, d.bound bound.id = some config ∧
      Touches ((if config.block then [(c, block)] else []) ++
        if config.blockProjectile then [(c, sight)] else []) c' bit

def floorDraws (d : MapData) (tile : JagTile) (c : Cell) : Placed → Prop
  | .loc _ | .bound _ => False
  | .wall c' bit => tile.overlay ≠ 0 ∧ d.floor (tile.overlay - 1) = some true ∧
      Touches [(c, adjBlockFull)] c' bit

def vertDraws (d : MapData) (tile : JagTile) (x y : Nat) (c : Cell) (p : Placed) : Prop :=
  tile.boundVert ≠ 0 ∧ boundDraws d ⟨tile.boundVert - 1, x, y, 0⟩ { c with y := c.y - 1 }
    adjBlockVert adjBlockSightVert p

def horizDraws (d : MapData) (tile : JagTile) (x y : Nat) (c : Cell) (p : Placed) : Prop :=
  tile.boundHoriz ≠ 0 ∧ boundDraws d ⟨tile.boundHoriz - 1, x, y, 1⟩ { c with x := c.x - 1 }
    adjBlockHoriz adjBlockSightHoriz p

def diagDraws (d : MapData) (objectType x y : Nat) (c : Cell) (p : Placed) : Prop :=
  (0 < objectType ∧ objectType ≤ jagMapDiagInverse ∧
    boundDraws d ⟨objectType - 1, x, y, 3⟩ c adjBlockFull adjBlockSight p) ∨
  (jagMapDiagInverse < objectType ∧ objectType ≤ jagMapDiagNpc ∧
    boundDraws d ⟨objectType - 1 - jagMapDiagInverse, x, y, 2⟩ c adjBlockFull adjBlockSight p)

/-- What a tile draws apart from a location. -/
def tileDraws (d : MapData) (tile : JagTile) (x y : Nat) (c : Cell) (p : Placed) : Prop :=
  floorDraws d tile c p ∨ vertDraws d tile x y c p ∨ horizDraws d tile x y c p ∨
    diagDraws d tile.boundDiag x y c p

variable {g : Grid} {drawn : Bound → Prop}

/-- What is left of the tiles after one of them. -/
def wipe (d : MapData) (tiles : Nat → JagTile) (tileX tileY : Nat) : Nat → JagTile :=
  let tile := tiles (tileX * jagMapChunkSize + tileY)
  if jagMapDiagLoc < tile.boundDiag then
    match d.loc (rockOf (tile.boundDiag - jagMapDiagLoc - 1)) with
    | none => tiles
    | some config =>
      let upright := tile.locDirection = 0 ∨ tile.locDirection = 4
      clearCopies tile.boundDiag (if upright then config.width else config.height)
        (if upright then config.height else config.width) tileX tileY tiles
  else tiles

def tileCell (plane x y : Nat) : Cell := ⟨plane, x, (y : Int) - plane * planeLevelInc⟩

end Tile

/-! ## Wiping -/

/-- The tiles a location takes, from its size. -/
def Covers (d : MapData) (id dir x₀ y₀ x y : Nat) : Prop :=
  ∃ config, d.loc (rockOf id) = some config ∧
    x₀ ≤ x ∧ x < x₀ + (if dir = 0 ∨ dir = 4 then config.width else config.height) ∧
    y₀ ≤ y ∧ y < y₀ + (if dir = 0 ∨ dir = 4 then config.height else config.width)

/-- The loops of a wipe as one, over the tiles but for the first. -/
theorem clearCopies_eq (objectType width height tileX tileY : Nat) (tiles : Nat → JagTile) :
    clearCopies objectType width height tileX tileY tiles =
      ((List.range' tileX (min (tileX + width) jagMapChunkSize - tileX)).flatMap fun x =>
        ((List.range' tileY (min (tileY + height) jagMapChunkSize - tileY)).filter fun y =>
          ¬ (x = tileX ∧ y = tileY)).map fun y => x * jagMapChunkSize + y).foldl
        (fun tiles ind => clearCopy objectType ind tiles) tiles := by
  simp only [clearCopies, List.foldl_flatMap, List.foldl_map, List.foldl_filter,
    decide_eq_true_eq, ite_not]

theorem clearCopies_apply {objectType : Nat} (hkind : objectType ≠ 0)
    (width height tileX tileY : Nat)
    (tiles : Nat → JagTile) {x y : Nat} (hx : x < jagMapChunkSize) (hy : y < jagMapChunkSize) :
    clearCopies objectType width height tileX tileY tiles (x * jagMapChunkSize + y) =
      if ((tileX ≤ x ∧ x < tileX + width ∧ tileY ≤ y ∧ y < tileY + height) ∧
          ¬ (x = tileX ∧ y = tileY)) ∧
          (tiles (x * jagMapChunkSize + y)).boundDiag = objectType then
        { tiles (x * jagMapChunkSize + y) with boundDiag := 0 }
      else tiles (x * jagMapChunkSize + y) := by
  have hwiped : ∀ b : JagTile, ¬ ({ b with boundDiag := 0 } : JagTile).boundDiag = objectType :=
    fun _ h => hkind h.symm
  have hindex : ∀ is : List Nat, is.foldl (fun tiles ind => clearCopy objectType ind tiles) tiles
      (x * jagMapChunkSize + y) = _ := fun is =>
    foldl_rewrite (p := fun b : JagTile => b.boundDiag = objectType) hwiped is tiles _
  rw [clearCopies_eq, hindex]
  refine if_congr (and_congr_left fun _ => ?_) rfl rfl
  simp only [List.mem_flatMap, List.mem_map, List.mem_filter, List.mem_range'_1,
    decide_eq_true_eq]
  constructor
  · rintro ⟨x', hx', y', ⟨hy', hfirst⟩, heq⟩
    simp only [jagMapChunkSize] at *
    obtain ⟨rfl, rfl⟩ : x' = x ∧ y' = y := by omega
    exact ⟨by omega, hfirst⟩
  · rintro ⟨hin, hfirst⟩
    exact ⟨x, by omega, y, ⟨by omega, hfirst⟩, rfl⟩

/-- Which tiles are wiped: those of the rectangle that hold the same number, but
for the first. -/
def Wiped (d : MapData) (tiles : Nat → JagTile) (tile : JagTile) (tileX tileY x y : Nat) : Prop :=
  jagMapDiagLoc < tile.boundDiag ∧
    Covers d (tile.boundDiag - jagMapDiagLoc - 1) tile.locDirection tileX tileY x y ∧
    ¬ (x = tileX ∧ y = tileY) ∧ (tiles (x * jagMapChunkSize + y)).boundDiag = tile.boundDiag

theorem wipe_apply (d : MapData) (tiles : Nat → JagTile) {tileX tileY x y : Nat} {tile : JagTile}
    (htile : tiles (tileX * jagMapChunkSize + tileY) = tile) (hx : x < jagMapChunkSize)
    (hy : y < jagMapChunkSize) :
    (Wiped d tiles tile tileX tileY x y → wipe d tiles tileX tileY (x * jagMapChunkSize + y) =
      { tiles (x * jagMapChunkSize + y) with boundDiag := 0 }) ∧
    (¬ Wiped d tiles tile tileX tileY x y → wipe d tiles tileX tileY (x * jagMapChunkSize + y) =
      tiles (x * jagMapChunkSize + y)) := by
  unfold wipe Wiped Covers
  simp only [htile]
  generalize rockOf (tile.boundDiag - jagMapDiagLoc - 1) = id
  by_cases hloc : jagMapDiagLoc < tile.boundDiag
  · rw [if_pos hloc]
    cases hc : d.loc id with
    | none => simp
    | some config =>
        have hkind : tile.boundDiag ≠ 0 := by omega
        simp only [clearCopies_apply hkind _ _ _ _ _ hx hy, hloc, true_and, Option.some.injEq,
          exists_eq_left', and_assoc]
        exact ⟨fun h => if_pos h, fun h => if_neg h⟩
  · rw [if_neg hloc]
    exact ⟨fun h => absurd h.1 hloc, fun _ => rfl⟩

/-! ## A chunk -/

/-- One tile comes before another in the loops. -/
def Before (q r : Nat × Nat) : Prop := q.1 < r.1 ∨ q.1 = r.1 ∧ q.2 < r.2

theorem mem_chunkTiles {x y : Nat} :
    (x, y) ∈ chunkTiles ↔ x < jagMapChunkSize ∧ y < jagMapChunkSize := by
  simp [chunkTiles]

theorem chunkTiles_pairwise : chunkTiles.Pairwise Before := by
  rw [chunkTiles, List.pairwise_flatMap]
  constructor
  · intro x _
    rw [List.pairwise_map]
    exact List.pairwise_lt_range.imp fun h => .inr ⟨rfl, h⟩
  · refine List.pairwise_lt_range.imp fun h => ?_
    intro q hq r hr
    obtain ⟨y, -, rfl⟩ := List.mem_map.1 hq
    obtain ⟨y', -, rfl⟩ := List.mem_map.1 hr
    exact .inl h

section Prefix

variable {done rest : List (Nat × Nat)} {q : Nat × Nat}

/-- What comes before a tile has been seen when its turn comes. -/
theorem mem_done (h : chunkTiles = done ++ q :: rest) {x y : Nat} (hx : x < jagMapChunkSize)
    (hy : y < jagMapChunkSize) (hbefore : Before (x, y) q) : (x, y) ∈ done := by
  have hpair := chunkTiles_pairwise
  rw [h, List.pairwise_append, List.pairwise_cons] at hpair
  have hmem := mem_chunkTiles.2 ⟨hx, hy⟩
  rw [h, List.mem_append, List.mem_cons] at hmem
  rcases hmem with hmem | rfl | hmem
  · exact hmem
  · simp [Before] at hbefore
  · have hafter := hpair.2.1.1 _ hmem
    simp only [Before] at hbefore hafter
    omega

theorem lt_of_chunkTiles (h : chunkTiles = done ++ q :: rest) :
    q.1 < jagMapChunkSize ∧ q.2 < jagMapChunkSize := by
  have hmem : (q.1, q.2) ∈ chunkTiles := by
    rw [h]
    exact List.mem_append_right _ List.mem_cons_self
  exact mem_chunkTiles.1 hmem

end Prefix

/-- A location, by the first of its tiles. -/
structure Drawing where
  x : Nat
  y : Nat
  id : Nat
  dir : Nat
  deriving DecidableEq, Repr

namespace Drawing

def tile (a : Drawing) : Nat × Nat := (a.x, a.y)

def loc (a : Drawing) (chunkX chunkY plane : Nat) : Loc :=
  ⟨rockOf a.id, rockOf a.id, globalX chunkX a.x, globalY chunkY plane a.y, a.dir⟩

def Takes (d : MapData) (a : Drawing) (x y : Nat) : Prop := Covers d a.id a.dir a.x a.y x y

end Drawing

/-- The tiles draw these locations: each begins on a tile that says so and that
no other takes, and a tile that shows a location is one that such a location
takes. What no config is known for is no location. -/
structure Drawn (d : MapData) (tiles : Nat → JagTile) (l : List Drawing) : Prop where
  first : ∀ a ∈ l, a.x < jagMapChunkSize ∧ a.y < jagMapChunkSize ∧
    (tiles (a.x * jagMapChunkSize + a.y)).boundDiag = jagMapDiagLoc + 1 + a.id ∧
    (tiles (a.x * jagMapChunkSize + a.y)).locDirection = a.dir
  known : ∀ a ∈ l, (d.loc (rockOf a.id)).isSome = true
  only : ∀ x y, x < jagMapChunkSize → y < jagMapChunkSize →
    jagMapDiagLoc < (tiles (x * jagMapChunkSize + y)).boundDiag →
    (d.loc (rockOf ((tiles (x * jagMapChunkSize + y)).boundDiag - jagMapDiagLoc - 1))).isSome
      = true →
    ∃ a ∈ l, a.Takes d x y ∧
      (tiles (x * jagMapChunkSize + y)).boundDiag = jagMapDiagLoc + 1 + a.id
  apart : ∀ a ∈ l, ∀ b ∈ l, a.Takes d b.x b.y → a = b
  floors : ∀ x y, x < jagMapChunkSize → y < jagMapChunkSize →
    (tiles (x * jagMapChunkSize + y)).overlay ≠ 0 →
    (d.floor ((tiles (x * jagMapChunkSize + y)).overlay - 1)).isSome = true

/-- A tile that a location further up has been placed for. -/
def Gone (d : MapData) (tiles : Nat → JagTile) (l : List Drawing) (done : List (Nat × Nat))
    (x y : Nat) : Prop :=
  ∃ a ∈ l, a.tile ∈ done ∧ a.Takes d x y ∧ ¬ (x = a.x ∧ y = a.y) ∧
    (tiles (x * jagMapChunkSize + y)).boundDiag = jagMapDiagLoc + 1 + a.id

/-- The tiles as they are once these have been seen. -/
structure Worn (d : MapData) (tiles : Nat → JagTile) (l : List Drawing) (done : List (Nat × Nat))
    (now : Nat → JagTile) : Prop where
  gone : ∀ x y, x < jagMapChunkSize → y < jagMapChunkSize → Gone d tiles l done x y →
    now (x * jagMapChunkSize + y) = { tiles (x * jagMapChunkSize + y) with boundDiag := 0 }
  kept : ∀ x y, x < jagMapChunkSize → y < jagMapChunkSize → ¬ Gone d tiles l done x y →
    now (x * jagMapChunkSize + y) = tiles (x * jagMapChunkSize + y)

section Chunk

variable {d : MapData} {tiles now : Nat → JagTile} {l : List Drawing}
  {done rest : List (Nat × Nat)} {q : Nat × Nat}

/-- A location takes the tile it is drawn on only from there on. -/
theorem Drawing.Takes.le {a : Drawing} {x y : Nat} (h : a.Takes d x y) : a.x ≤ x ∧ a.y ≤ y := by
  obtain ⟨config, -, hx, -, hy, -⟩ := h
  exact ⟨hx, hy⟩

/-- When its turn comes, a tile begins a location or shows none any more. -/
theorem Drawn.turn (hdrawn : Drawn d tiles l) (hworn : Worn d tiles l done now)
    (hq : chunkTiles = done ++ q :: rest) :
    (∃ a ∈ l, a.tile = q ∧ now (q.1 * jagMapChunkSize + q.2) =
        tiles (q.1 * jagMapChunkSize + q.2)) ∨
      (∀ a ∈ l, a.tile ≠ q) ∧
        (now (q.1 * jagMapChunkSize + q.2) = tiles (q.1 * jagMapChunkSize + q.2) ∧
            (jagMapDiagLoc < (tiles (q.1 * jagMapChunkSize + q.2)).boundDiag →
              d.loc (rockOf ((tiles (q.1 * jagMapChunkSize + q.2)).boundDiag
                - jagMapDiagLoc - 1)) = none) ∨
          jagMapDiagLoc < (tiles (q.1 * jagMapChunkSize + q.2)).boundDiag ∧
            now (q.1 * jagMapChunkSize + q.2) =
              { tiles (q.1 * jagMapChunkSize + q.2) with boundDiag := 0 }) := by
  obtain ⟨hx, hy⟩ := lt_of_chunkTiles hq
  by_cases hgone : Gone d tiles l done q.1 q.2
  · refine .inr ⟨?_, .inr ⟨?_, hworn.gone _ _ hx hy hgone⟩⟩
    · rintro b hb rfl
      obtain ⟨a, ha, -, htakes, hne, -⟩ := hgone
      obtain rfl := hdrawn.apart a ha b hb htakes
      exact hne ⟨rfl, rfl⟩
    · obtain ⟨a, -, -, -, -, hkind⟩ := hgone
      rw [hkind]
      omega
  · have hkept := hworn.kept _ _ hx hy hgone
    by_cases hfirst : ∃ a ∈ l, a.tile = q
    · obtain ⟨a, ha, htile⟩ := hfirst
      exact .inl ⟨a, ha, htile, hkept⟩
    · refine .inr ⟨fun a ha htile => hfirst ⟨a, ha, htile⟩, .inl ⟨hkept, fun hloc => ?_⟩⟩
      by_contra hsome
      obtain ⟨a, ha, htakes, hkind⟩ := hdrawn.only _ _ hx hy hloc
        (Option.isSome_iff_ne_none.2 hsome)
      have hne : ¬ (q.1 = a.x ∧ q.2 = a.y) := fun heq =>
        hfirst ⟨a, ha, Prod.ext heq.1.symm heq.2.symm⟩
      obtain ⟨hax, hay, -, -⟩ := hdrawn.first a ha
      have hle := htakes.le
      refine hgone ⟨a, ha, mem_done hq hax hay ?_, htakes, hne, hkind⟩
      simp only [Before]
      omega

/-- No two locations begin on one tile. -/
theorem Drawn.first_unique (hdrawn : Drawn d tiles l) {a b : Drawing} (ha : a ∈ l) (hb : b ∈ l)
    (htile : a.tile = b.tile) : a = b := by
  obtain ⟨hx, hy, hkind, -⟩ := hdrawn.first a ha
  have hsome := hdrawn.known a ha
  have hid : jagMapDiagLoc + 1 + a.id - jagMapDiagLoc - 1 = a.id := by omega
  obtain ⟨c, hc, htakes, -⟩ := hdrawn.only _ _ hx hy (by rw [hkind]; omega)
    (by rw [hkind, hid]; exact hsome)
  obtain ⟨hax, hay⟩ := Prod.mk.inj htile
  rw [← hdrawn.apart c hc a ha htakes]
  exact hdrawn.apart c hc b hb (by rw [← hax, ← hay]; exact htakes)

theorem gone_append (x y : Nat) : Gone d tiles l (done ++ [q]) x y ↔
    Gone d tiles l done x y ∨ ∃ a ∈ l, a.tile = q ∧ a.Takes d x y ∧ ¬ (x = a.x ∧ y = a.y) ∧
      (tiles (x * jagMapChunkSize + y)).boundDiag = jagMapDiagLoc + 1 + a.id := by
  simp only [Gone, List.mem_append, List.mem_singleton, or_and_right, and_or_left, exists_or]

theorem wiped_first {a : Drawing} {tile : JagTile} {x y : Nat}
    (hkind : tile.boundDiag = jagMapDiagLoc + 1 + a.id) (hdir : tile.locDirection = a.dir) :
    Wiped d now tile a.x a.y x y ↔ a.Takes d x y ∧ ¬ (x = a.x ∧ y = a.y) ∧
      (now (x * jagMapChunkSize + y)).boundDiag = jagMapDiagLoc + 1 + a.id := by
  have hid : jagMapDiagLoc + 1 + a.id - jagMapDiagLoc - 1 = a.id := by omega
  rw [Wiped, hkind, hdir, hid]
  refine and_iff_right ?_
  omega

/-- The wipe after a turn. -/
theorem Worn.turn (hdrawn : Drawn d tiles l) (hworn : Worn d tiles l done now)
    (hq : chunkTiles = done ++ q :: rest) :
    Worn d tiles l (done ++ [q]) (wipe d now q.1 q.2) := by
  rcases hdrawn.turn hworn hq with ⟨a, ha, rfl, hnow⟩ | ⟨hnot, hnow⟩
  · obtain ⟨-, -, hkind, hdir⟩ := hdrawn.first a ha
    have hgone : ∀ x y, Gone d tiles l (done ++ [a.tile]) x y ↔ Gone d tiles l done x y ∨
        a.Takes d x y ∧ ¬ (x = a.x ∧ y = a.y) ∧
          (tiles (x * jagMapChunkSize + y)).boundDiag = jagMapDiagLoc + 1 + a.id := by
      intro x y
      rw [gone_append]
      refine or_congr_right ⟨?_, fun h => ⟨a, ha, rfl, h⟩⟩
      rintro ⟨b, hb, htile, h⟩
      rw [← hdrawn.first_unique hb ha htile]
      exact h
    have hwiped : ∀ x y, Wiped d now (tiles (a.tile.1 * jagMapChunkSize + a.tile.2)) a.tile.1
        a.tile.2 x y ↔ a.Takes d x y ∧ ¬ (x = a.x ∧ y = a.y) ∧
          (now (x * jagMapChunkSize + y)).boundDiag = jagMapDiagLoc + 1 + a.id := fun x y =>
      wiped_first hkind hdir
    constructor
    · intro x y hx hy hg
      obtain ⟨hyes, hno⟩ := wipe_apply d now hnow hx hy
      rw [hwiped] at hyes hno
      by_cases hold : Gone d tiles l done x y
      · have hzero := hworn.gone x y hx hy hold
        rw [hzero] at hno
        refine hno ?_
        rintro ⟨-, -, hbad⟩
        simp only at hbad
        omega
      · rw [hworn.kept x y hx hy hold] at hyes
        exact hyes (((hgone x y).1 hg).resolve_left hold)
    · intro x y hx hy hg
      obtain ⟨-, hno⟩ := wipe_apply d now hnow hx hy
      rw [hgone, not_or] at hg
      have hkept := hworn.kept x y hx hy hg.1
      rw [hwiped, hkept] at hno
      exact hno hg.2
  · have hgone : ∀ x y, Gone d tiles l (done ++ [q]) x y ↔ Gone d tiles l done x y := by
      intro x y
      rw [gone_append]
      refine or_iff_left ?_
      rintro ⟨a, ha, htile, -⟩
      exact hnot a ha htile
    have hwiped : ∀ x y, ¬ Wiped d now (now (q.1 * jagMapChunkSize + q.2)) q.1 q.2 x y := by
      rintro x y ⟨hloc, ⟨config, hc, -⟩, -⟩
      rcases hnow with ⟨hnow, hunknown⟩ | ⟨-, hnow⟩
      · rw [hnow] at hloc hc
        rw [hunknown hloc] at hc
        cases hc
      · rw [hnow] at hloc
        exact Nat.not_lt_zero _ hloc
    constructor
    · intro x y hx hy hg
      rw [(wipe_apply d now rfl hx hy).2 (hwiped x y)]
      exact hworn.gone x y hx hy ((hgone x y).1 hg)
    · intro x y hx hy hg
      rw [(wipe_apply d now rfl hx hy).2 (hwiped x y)]
      exact hworn.kept x y hx hy fun h => hg ((hgone x y).2 h)

/-- A place on the map for a chunk. -/
structure Site where
  chunkX : Nat
  chunkY : Nat
  plane : Nat

namespace Site

def x (at' : Site) (q : Nat × Nat) : Nat := globalX at'.chunkX q.1

def y (at' : Site) (q : Nat × Nat) : Nat := globalY at'.chunkY at'.plane q.2

def cell (at' : Site) (q : Nat × Nat) : Cell := tileCell at'.plane (at'.x q) (at'.y q)

theorem inj {at' : Site} {q r : Nat × Nat} (hx : at'.x q = at'.x r) (hy : at'.y q = at'.y r) :
    q = r := by
  simp only [x, y, globalX, globalY] at hx hy
  exact Prod.ext (by omega) (by omega)

end Site

/-- What one tile of a chunk draws, a location where it begins. -/
def siteDraws (d : MapData) (tiles : Nat → JagTile) (l : List Drawing) (at' : Site)
    (q : Nat × Nat) (p : Placed) : Prop :=
  tileDraws d (tiles (q.1 * jagMapChunkSize + q.2)) (at'.x q) (at'.y q) (at'.cell q) p ∨
    ∃ a ∈ l, a.tile = q ∧ p = .loc (a.loc at'.chunkX at'.chunkY at'.plane)

end Chunk

/-- What the tiles of a chunk draw. -/
def chunkDraws (d : MapData) (tiles : Nat → JagTile) (l : List Drawing) (at' : Site)
    (p : Placed) : Prop :=
  ∃ q ∈ chunkTiles, siteDraws d tiles l at' q p

/-- A chunk that has no file is blocked. -/
def fillDraws (plane x y : Nat) : Placed → Prop
  | .loc _ | .bound _ => False
  | .wall c b => Touches ((chunkTiles.filter fun (i, j) =>
      globalX x i < zoneMaxX && globalY y 0 j < zoneMaxY).map fun (i, j) =>
        (⟨plane, globalX x i, globalY y 0 j⟩, adjBlockFull)) c b

/-- A map file and the locations its tiles draw. Its rows are all on its plane. -/
structure DrawnFile (bzip2 : Bzip2) (d : MapData) extends MapFile bzip2 where
  drawings : List Drawing
  drawn : Drawn d (fun i => tiles.getD i {}) drawings
  rows : y < 56

namespace DrawnFile

variable {bzip2 : Bzip2} {d : MapData}

def site (file : DrawnFile bzip2 d) : Site := ⟨file.x, file.y, file.plane⟩

def Draws (file : DrawnFile bzip2 d) (p : Placed) : Prop :=
  chunkDraws d (fun i => file.tiles.getD i {}) file.drawings file.site p

end DrawnFile

/-- The files of the map, one to a chunk at most. What a tile without a number
asks for is no boundary. -/
structure MapSet (bzip2 : Bzip2) (d : MapData) where
  files : List (DrawnFile bzip2 d)
  apart : (files.map DrawnFile.site).Nodup
  unnumbered : d.bound 65535 = none
  fits : BoundsFit fun b => ∃ file ∈ files, file.Draws (.bound b)

namespace MapSet

variable {bzip2 : Bzip2} {d : MapData}

def Has (m : MapSet bzip2 d) (plane x y : Nat) : Prop := ∃ file ∈ m.files, file.site = ⟨x, y, plane⟩

/-- What all of the map draws. -/
def Draws (m : MapSet bzip2 d) (p : Placed) : Prop :=
  (∃ file ∈ m.files, file.Draws p) ∨
    ∃ plane x y, (plane, x, y) ∈ mapChunks ∧ ¬ m.Has plane x y ∧ fillDraws plane x y p

end MapSet

section Map

variable {bzip2 : Bzip2} {d : MapData}

end Map

end Sundae.Proofs
