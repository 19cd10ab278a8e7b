import Sundae.Lib.Run
import Sundae.Ref.Zone

/-!
# The adjacency grid and what stands on the map

The grid is kept up to date by setting and clearing masks, so it is right only
as long as each operation clears what the object it takes away had set, and no
more. Which objects are on the map is settled first: a location is found by its
tile and a boundary by its edge, and no two share one. After that every
operation takes away at most one object and puts at most one in its place, and
what the grid needs from it is a matter of four sets of flags. What an object
owes is counted by the cells it covers, what an operation writes by the bytes it
lands in: the two are the same as long as no index leaves the array.
-/

namespace Sundae.Proofs

open Sundae.Lib Sundae.Ref

/-! ## The cells of the array -/

/-- An element of the array. -/
def InGrid (c : Cell) : Prop :=
  c.plane < zoneMaxPlane ∧ 0 ≤ c.x ∧ c.x < zoneMaxX ∧ 0 ≤ c.y ∧ c.y < zoneMaxY

instance (c : Cell) : Decidable (InGrid c) := inferInstanceAs (Decidable (_ ∧ _))

/-- No two cells of the array are the same byte. -/
theorem InGrid.place_inj {c d : Cell} (hc : InGrid c) (hd : InGrid d) (h : c.place = d.place) :
    c = d := by
  obtain ⟨plane, x, y⟩ := c
  obtain ⟨plane', x', y'⟩ := d
  obtain ⟨-, hx, hx₁, hy, hy₁⟩ := hc
  obtain ⟨-, hx', hx₁', hy', hy₁'⟩ := hd
  simp only [Cell.place, zoneMaxX, zoneMaxY] at *
  have hrow : (plane : Int) * 450 + x = plane' * 450 + x' := by omega
  simp only [Cell.mk.injEq]
  omega

/-- Some mask of the list lands in this cell with this bit. -/
def Lands (masks : List (Cell × BitVec 8)) (c : Cell) (b : Nat) : Prop :=
  Touches (laid masks) c.place b

theorem lands_iff {masks : List (Cell × BitVec 8)} {c : Cell} {b : Nat} :
    Lands masks c b ↔ ∃ m ∈ masks, m.1.place = c.place ∧ m.2.getLsbD b = true := by
  constructor
  · rintro ⟨_, hx, h⟩
    obtain ⟨m, hm, rfl⟩ := List.mem_map.1 hx
    exact ⟨m, hm, h⟩
  · rintro ⟨m, hm, h⟩
    exact ⟨_, List.mem_map_of_mem hm, h⟩

theorem lands_nil (c : Cell) (b : Nat) : ¬ Lands [] c b := touches_nil c.place b

theorem lands_of_touches {masks : List (Cell × BitVec 8)} {c : Cell} {b : Nat}
    (h : Touches masks c b) : Lands masks c b := by
  obtain ⟨m, hm, rfl, hbit⟩ := h
  exact lands_iff.2 ⟨m, hm, rfl, hbit⟩

/-- Masks inside the array land where they say. -/
theorem touches_of_lands {masks : List (Cell × BitVec 8)} {c : Cell} {b : Nat} (hc : InGrid c)
    (hmasks : ∀ m ∈ masks, InGrid m.1) (h : Lands masks c b) : Touches masks c b := by
  obtain ⟨m, hm, hplace, hbit⟩ := lands_iff.1 h
  exact ⟨m, hm, (hmasks m hm).place_inj hc hplace, hbit⟩

/-! ## What is on the map -/

def locHome (l : Loc) : Option Zone := serverFindZone l.x l.y

def locKey (l : Loc) : Nat × Nat := (l.x, l.y)

def boundHome (b : Bound) : Option Zone := serverFindZone b.x b.y

def boundKey (b : Bound) : Nat × Nat × Nat := (b.x, b.y, b.dir)

/-- One location to a tile and one boundary to an edge, each in its zone. -/
structure Filed (g : Grid) : Prop where
  locs : Shelved locHome locKey g.locs
  bounds : Shelved boundHome boundKey g.bounds

theorem onTile_iff {x y : Nat} (l : Loc) : Loc.onTile x y l = true ↔ locKey l = (x, y) := by
  simp [Loc.onTile, locKey]

theorem onEdge_iff {x y dir : Nat} (b : Bound) :
    Bound.onEdge x y dir b = true ↔ boundKey b = (x, y, dir) := by
  simp [Bound.onEdge, boundKey, and_assoc]

theorem locHome_of_key {x y : Nat} {l : Loc} (h : locKey l = (x, y)) :
    locHome l = serverFindZone x y := by
  obtain ⟨rfl, rfl⟩ := Prod.mk.inj h
  rfl

theorem boundHome_of_key {x y dir : Nat} {b : Bound} (h : boundKey b = (x, y, dir)) :
    boundHome b = serverFindZone x y := by
  obtain ⟨hx, h⟩ := Prod.mk.inj h
  obtain ⟨hy, -⟩ := Prod.mk.inj h
  rw [boundHome, hx, hy]

/-- What a location owes the grid. -/
def locMasks (t : MapTable) (l : Loc) : List (Cell × BitVec 8) :=
  match t.loc l.id with
  | none => []
  | some config => locFlags l config

/-- What is cleared for it when it goes. -/
def locCleared (t : MapTable) (l : Loc) : List (Cell × BitVec 8) :=
  match t.loc l.id with
  | none => []
  | some config => locClears l config

def boundMasks (t : MapTable) (b : Bound) : List (Cell × BitVec 8) :=
  match t.bound b.id with
  | none => []
  | some config => boundFlags b config

/-- A floor or wall flag, or a flag of one of these locations or boundaries. -/
def Owed (t : MapTable) (static : Cell → BitVec 8) (locs : Loc → Prop) (bounds : Bound → Prop)
    (c : Cell) (b : Nat) : Prop :=
  (static c).getLsbD b = true ∨ (∃ l, locs l ∧ Touches (locMasks t l) c b) ∨
    ∃ d, bounds d ∧ Touches (boundMasks t d) c b

/-- The grid has the flags of what is on the map, and no others. -/
def Coherent (t : MapTable) (g : Grid) : Prop :=
  ∀ c b, InGrid c → ((g.adjacency c).getLsbD b = true ↔
    Owed t g.static (Present g.locs) (Present g.bounds) c b)

/-- What is owed apart from the location on a tile. -/
def OwedOffTile (t : MapTable) (g : Grid) (x y : Nat) : Cell → Nat → Prop :=
  Owed t g.static (fun l => Present g.locs l ∧ ¬ Loc.onTile x y l = true) (Present g.bounds)

/-- What is owed apart from the boundary on an edge. -/
def OwedOffEdge (t : MapTable) (g : Grid) (x y dir : Nat) : Cell → Nat → Prop :=
  Owed t g.static (Present g.locs) fun d => Present g.bounds d ∧ ¬ Bound.onEdge x y dir d = true

theorem owed_loc {t : MapTable} {static : Cell → BitVec 8} {locs locs' : Loc → Prop}
    {bounds : Bound → Prop} {a : Loc} (h : ∀ l, locs l ↔ locs' l ∨ l = a) (c : Cell) (b : Nat) :
    Owed t static locs bounds c b ↔ Owed t static locs' bounds c b ∨ Touches (locMasks t a) c b := by
  constructor
  · rintro (hs | ⟨l, hl, ht⟩ | hd)
    · exact .inl (.inl hs)
    · rcases (h l).1 hl with hl | rfl
      · exact .inl (.inr (.inl ⟨l, hl, ht⟩))
      · exact .inr ht
    · exact .inl (.inr (.inr hd))
  · rintro ((hs | ⟨l, hl, ht⟩ | hd) | ht)
    · exact .inl hs
    · exact .inr (.inl ⟨l, (h l).2 (.inl hl), ht⟩)
    · exact .inr (.inr hd)
    · exact .inr (.inl ⟨a, (h a).2 (.inr rfl), ht⟩)

theorem owed_bound {t : MapTable} {static : Cell → BitVec 8} {locs : Loc → Prop}
    {bounds bounds' : Bound → Prop} {a : Bound} (h : ∀ d, bounds d ↔ bounds' d ∨ d = a)
    (c : Cell) (b : Nat) :
    Owed t static locs bounds c b ↔
      Owed t static locs bounds' c b ∨ Touches (boundMasks t a) c b := by
  constructor
  · rintro (hs | hl | ⟨d, hd, ht⟩)
    · exact .inl (.inl hs)
    · exact .inl (.inr (.inl hl))
    · rcases (h d).1 hd with hd | rfl
      · exact .inl (.inr (.inr ⟨d, hd, ht⟩))
      · exact .inr ht
  · rintro ((hs | hl | ⟨d, hd, ht⟩) | ht)
    · exact .inl hs
    · exact .inr (.inl hl)
    · exact .inr (.inr ⟨d, (h d).2 (.inl hd), ht⟩)
    · exact .inr (.inr ⟨a, (h a).2 (.inr rfl), ht⟩)

theorem owed_congr {t : MapTable} {static : Cell → BitVec 8} {locs locs' : Loc → Prop}
    {bounds bounds' : Bound → Prop} (hl : ∀ l, locs l ↔ locs' l) (hb : ∀ d, bounds d ↔ bounds' d)
    (c : Cell) (b : Nat) :
    Owed t static locs bounds c b ↔ Owed t static locs' bounds' c b := by
  simp only [Owed, hl, hb]

/-! ## One object for another -/

/-- What the masks of an operation must be for the grid to stay right: `old` is
what the object taken away owed and `new` what the one put in its place owes,
`others` is owed by the rest, and the operation clears `cleared` and then sets
`set`, each in the cells of the array. -/
structure Exact (others old cleared set new : Cell → Nat → Prop) : Prop where
  spared : ∀ c b, InGrid c → others c b → cleared c b → set c b
  gone : ∀ c b, InGrid c → old c b → ¬ cleared c b → others c b ∨ new c b
  owed : ∀ c b, InGrid c → set c b → others c b ∨ new c b
  given : ∀ c b, InGrid c → new c b → set c b ∨ ((others c b ∨ old c b) ∧ ¬ cleared c b)

/-- An operation with these sets of flags. -/
structure Replaces (t : MapTable) (g g' : Grid) (others old cleared set new : Cell → Nat → Prop) :
    Prop where
  before : ∀ c b, Owed t g.static (Present g.locs) (Present g.bounds) c b ↔ others c b ∨ old c b
  after : ∀ c b, Owed t g'.static (Present g'.locs) (Present g'.bounds) c b ↔
    others c b ∨ new c b
  bits : ∀ c b, (g'.adjacency c).getLsbD b = true ↔
    ((g.adjacency c).getLsbD b = true ∧ ¬ cleared c b) ∨ set c b

def Nothing : Cell → Nat → Prop := fun _ _ => False

theorem Replaces.coherent_iff {t : MapTable} {g g' : Grid}
    {others old cleared set new : Cell → Nat → Prop}
    (h : Replaces t g g' others old cleared set new) (hg : Coherent t g) :
    Coherent t g' ↔ Exact others old cleared set new := by
  have key : ∀ c b, InGrid c → (((g'.adjacency c).getLsbD b = true ↔
      Owed t g'.static (Present g'.locs) (Present g'.bounds) c b) ↔
      (((others c b ∨ old c b) ∧ ¬ cleared c b) ∨ set c b ↔ others c b ∨ new c b)) := by
    intro c b hin
    rw [h.bits, h.after, hg c b hin, h.before]
  constructor
  · intro hg'
    have hcb := fun c b hin => (key c b hin).1 (hg' c b hin)
    refine ⟨fun c b hin ho hc => ?_,
      fun c b hin ho hc => (hcb c b hin).1 (.inl ⟨.inr ho, hc⟩),
      fun c b hin hs => (hcb c b hin).1 (.inr hs),
      fun c b hin hn => ((hcb c b hin).2 (.inr hn)).symm⟩
    rcases (hcb c b hin).2 (.inl ho) with ⟨-, hnc⟩ | hs
    · exact absurd hc hnc
    · exact hs
  · intro hex c b hin
    refine (key c b hin).2 ⟨?_, ?_⟩
    · rintro (⟨ho | ho, hc⟩ | hs)
      · exact .inl ho
      · exact hex.gone c b hin ho hc
      · exact hex.owed c b hin hs
    · rintro (ho | hn)
      · by_cases hc : cleared c b
        · exact .inr (hex.spared c b hin ho hc)
        · exact .inl ⟨.inl ho, hc⟩
      · exact (hex.given c b hin hn).symm

/-! ## Locations -/

section Locations

variable {t : MapTable} {g g' : Grid} {x y : Nat}

theorem serverFindLoc_some {old : Loc} (hold : serverFindLoc g x y = some old) :
    ∃ zone, serverFindZone x y = some zone ∧ (g.locs zone).find? (Loc.onTile x y) = some old := by
  unfold serverFindLoc at hold
  split at hold
  · cases hold
  · next zone hz => exact ⟨zone, hz, hold⟩

theorem Filed.loc_split (hg : Filed g) {old : Loc} (hold : serverFindLoc g x y = some old)
    (l : Loc) : Present g.locs l ↔
      (Present g.locs l ∧ ¬ Loc.onTile x y l = true) ∨ l = old := by
  obtain ⟨zone, hz, hfind⟩ := serverFindLoc_some hold
  exact hg.locs.split onTile_iff (fun c hc => (locHome_of_key hc).trans hz) hfind l

/-- With no location there, the others are all of them. -/
theorem Filed.loc_none (hg : Filed g) (hnone : serverFindLoc g x y = none) {l : Loc}
    (hl : Present g.locs l) : ¬ Loc.onTile x y l = true := by
  unfold serverFindLoc at hnone
  split at hnone
  · next hz =>
    intro htile
    obtain ⟨z, hmem⟩ := hl
    have hhome := (locHome_of_key ((onTile_iff l).1 htile)).symm.trans (hg.locs.home_eq z l hmem)
    rw [hz] at hhome
    cases hhome
  · next zone hz =>
    exact hg.locs.none_present onTile_iff (fun c hc => (locHome_of_key hc).trans hz) hnone hl

theorem serverFindLoc_onTile {old : Loc} (hold : serverFindLoc g x y = some old) :
    Loc.onTile x y old = true := by
  obtain ⟨zone, -, hfind⟩ := serverFindLoc_some hold
  exact List.find?_some hfind

/-- Everything but the locations is as it was. -/
theorem setLocId_frame (g : Grid) (x y id : Nat) :
    ∃ locs, setLocId g x y id = { g with locs } := by
  unfold setLocId
  split
  · exact ⟨g.locs, rfl⟩
  · exact ⟨_, rfl⟩

theorem setLocId_memory (g : Grid) (x y id : Nat) :
    (setLocId g x y id).memory = g.memory := by
  obtain ⟨locs, h⟩ := setLocId_frame g x y id
  rw [h]

theorem setLocId_static (g : Grid) (x y id : Nat) : (setLocId g x y id).static = g.static := by
  obtain ⟨locs, h⟩ := setLocId_frame g x y id
  rw [h]

theorem setLocId_bounds (g : Grid) (x y id : Nat) : (setLocId g x y id).bounds = g.bounds := by
  obtain ⟨locs, h⟩ := setLocId_frame g x y id
  rw [h]

/-- Writing an id through the pointer: the location found goes by the new id,
and the rest are as they were. -/
theorem Filed.setLocId (hg : Filed g) {old : Loc} (hold : serverFindLoc g x y = some old)
    (id : Nat) : Filed (Ref.setLocId g x y id) ∧
      serverFindLoc (Ref.setLocId g x y id) x y = some { old with id := id } ∧
      ∀ l, Present (Ref.setLocId g x y id).locs l ↔
        (Present g.locs l ∧ ¬ Loc.onTile x y l = true) ∨ l = { old with id := id } := by
  obtain ⟨zone, hz, hfind⟩ := serverFindLoc_some hold
  obtain ⟨hlocs, hmem⟩ := hg.locs.modify onTile_iff
    (fun c hc => (locHome_of_key hc).trans hz) (f := fun l => { l with id := id })
    (fun _ => rfl) (fun _ => rfl) hfind
  refine ⟨?_, ?_, ?_⟩
  · simp only [Ref.setLocId, hz]
    exact ⟨hlocs, hg.bounds⟩
  · simp only [Ref.setLocId, serverFindLoc, hz, Grid.setLocs, setBin, if_true]
    exact find?_modifyFirst (fun _ => rfl) hfind
  · simp only [Ref.setLocId, hz]
    exact hmem

/-- The other locations do not notice. -/
theorem owedOffTile_setLocId (hg : Filed g) {old : Loc} (hold : serverFindLoc g x y = some old)
    (t : MapTable) (id : Nat) (c : Cell) (b : Nat) :
    OwedOffTile t (setLocId g x y id) x y c b ↔ OwedOffTile t g x y c b := by
  unfold OwedOffTile
  rw [setLocId_static, setLocId_bounds]
  refine owed_congr (fun l => ?_) (fun _ => Iff.rfl) c b
  rw [(hg.setLocId hold id).2.2 l]
  have htile := serverFindLoc_onTile hold
  constructor
  · rintro ⟨h | rfl, hnot⟩
    · exact h
    · exact absurd htile hnot
  · exact fun h => ⟨.inl h, h.2⟩

theorem addLocCollision_ok {loc : Loc} (h : addLocCollision t g loc = .ok g') :
    g' = { g with memory := orAll (laid (locMasks t loc)) g.memory } := by
  unfold addLocCollision at h
  split at h
  · cases h
  · next config hc =>
    rw [locMasks, hc]
    exact (Except.ok.inj h).symm

theorem removeLocCollision_ok {loc : Loc} (h : removeLocCollision t g loc = .ok g') :
    g' = { g with memory := clearAll (laid (locCleared t loc)) g.memory } := by
  unfold removeLocCollision at h
  split at h
  · cases h
  · next config hc =>
    rw [locCleared, hc]
    exact (Except.ok.inj h).symm

/-- Adding a location where there is one. -/
theorem serverAddLoc_old (hg : Filed g) (loc : Loc) {old : Loc}
    (hold : serverFindLoc g loc.x loc.y = some old) (h : serverAddLoc t g loc = .ok g') :
    Filed g' ∧ Replaces t g g' (OwedOffTile t g loc.x loc.y) (Touches (locMasks t old))
      (Lands (locCleared t old)) (Lands (locMasks t loc))
      (Touches (locMasks t { old with id := loc.id })) := by
  unfold serverAddLoc at h
  rw [hold] at h
  simp only at h
  split at h
  · cases h
  · next g₁ hremove =>
    obtain rfl := removeLocCollision_ok hremove
    obtain rfl := addLocCollision_ok h
    have hg₁ : Filed { g with memory := clearAll (laid (locCleared t old)) g.memory } :=
      ⟨hg.locs, hg.bounds⟩
    have hold₁ : serverFindLoc { g with memory := clearAll (laid (locCleared t old)) g.memory }
        loc.x loc.y = some old := hold
    obtain ⟨hfiled, -, hmem⟩ := hg₁.setLocId hold₁ loc.id
    refine ⟨⟨hfiled.locs, hfiled.bounds⟩, ?_, ?_, ?_⟩
    · exact owed_loc (hg.loc_split hold)
    · simp only [setLocId_static, setLocId_bounds]
      exact owed_loc hmem
    · intro c b
      simp only [Grid.adjacency, setLocId_memory]
      rw [orAll_bit, clearAll_bit]
      exact Iff.rfl

/-- There is a zone for the location, with room in its list. -/
def ZoneHasRoom (g : Grid) (loc : Loc) : Prop :=
  ∃ zone, serverFindZone loc.x loc.y = some zone ∧ (g.locs zone).length < zoneArea

/-- Adding a location where there is none. -/
theorem serverAddLoc_new (hg : Filed g) {loc : Loc}
    (hnone : serverFindLoc g loc.x loc.y = none) (h : serverAddLoc t g loc = .ok g') :
    Filed g' ∧ Replaces t g g' (OwedOffTile t g loc.x loc.y) Nothing Nothing
      (Lands (locMasks t loc)) (fun c b => ZoneHasRoom g loc ∧ Touches (locMasks t loc) c b) := by
  unfold serverAddLoc at h
  rw [hnone] at h
  simp only at h
  split at h
  · cases h
  · next g₁ hadd =>
    obtain rfl := addLocCollision_ok hadd
    obtain rfl := Except.ok.inj h
    have hbefore : ∀ c b, Owed t g.static (Present g.locs) (Present g.bounds) c b ↔
        OwedOffTile t g loc.x loc.y c b := owed_congr
      (fun l => ⟨fun hl => ⟨hl, hg.loc_none hnone hl⟩, fun hl => hl.1⟩) fun _ => Iff.rfl
    have hbits : ∀ c b, (orAll (laid (locMasks t loc)) g.memory c.place).getLsbD b = true ↔
        ((g.adjacency c).getLsbD b = true ∧ ¬ Nothing c b) ∨ Lands (locMasks t loc) c b := by
      intro c b
      rw [orAll_bit]
      simp [Nothing, Grid.adjacency, Lands]
    unfold recordLoc
    split
    · next hz =>
      have hroom : ¬ ZoneHasRoom g loc := by
        rintro ⟨zone, hz', -⟩
        rw [hz] at hz'
        cases hz'
      refine ⟨⟨hg.locs, hg.bounds⟩, fun c b => ?_, fun c b => ?_, hbits⟩
      · simp [hbefore, Nothing]
      · simp [hbefore, hroom]
    · next zone hz =>
      split
      · next hlen =>
        have hroom : ZoneHasRoom g loc := ⟨zone, hz, hlen⟩
        unfold serverFindLoc at hnone
        rw [hz] at hnone
        obtain ⟨hlocs, hmem⟩ := hg.locs.append (a := loc) onTile_iff hz hnone
        refine ⟨⟨hlocs, hg.bounds⟩, fun c b => ?_, fun c b => ?_, hbits⟩
        · simp [hbefore, Nothing]
        · simp only [hroom, true_and, ← hbefore]
          exact owed_loc hmem c b
      · next hlen =>
        have hroom : ¬ ZoneHasRoom g loc := by
          rintro ⟨zone', hz', hlen'⟩
          rw [hz] at hz'
          exact hlen (Option.some.inj hz' ▸ hlen')
        refine ⟨⟨hg.locs, hg.bounds⟩, fun c b => ?_, fun c b => ?_, hbits⟩
        · simp [hbefore, Nothing]
        · simp [hbefore, hroom]

/-- Deleting a location takes it off the map and leaves the grid alone. -/
theorem serverDelLoc_old (hg : Filed g) {old : Loc} (hold : serverFindLoc g x y = some old) :
    Filed (serverDelLoc g x y) ∧ Replaces t g (serverDelLoc g x y) (OwedOffTile t g x y)
      (Touches (locMasks t old)) Nothing Nothing Nothing := by
  have hsplit := hg.loc_split hold
  obtain ⟨zone, hz, -⟩ := serverFindLoc_some hold
  obtain ⟨hlocs, hmem⟩ := hg.locs.sweep onTile_iff fun c hc => (locHome_of_key hc).trans hz
  simp only [serverDelLoc, hz]
  have hothers : ∀ c b, Owed t g.static
      (Present (setBin g.locs zone (sweepMatches (Loc.onTile x y) (g.locs zone))))
      (Present g.bounds) c b ↔ OwedOffTile t g x y c b := owed_congr hmem fun _ => Iff.rfl
  refine ⟨⟨hlocs, hg.bounds⟩, owed_loc hsplit, fun c b => ?_, fun c b => ?_⟩
  · exact (hothers c b).trans (by simp [Nothing])
  · simp [Grid.setLocs, Grid.adjacency, Nothing]

theorem serverDelLoc_none (hg : Filed g) (hnone : serverFindLoc g x y = none) :
    Filed (serverDelLoc g x y) ∧ (Coherent t g → Coherent t (serverDelLoc g x y)) := by
  have hall : ∀ l, Present g.locs l → ¬ Loc.onTile x y l = true := fun l => hg.loc_none hnone
  unfold serverDelLoc
  split
  · exact ⟨hg, id⟩
  · next zone hz =>
    obtain ⟨hlocs, hmem⟩ := hg.locs.sweep onTile_iff fun c hc => (locHome_of_key hc).trans hz
    refine ⟨⟨hlocs, hg.bounds⟩, fun hc c b hin => ?_⟩
    rw [show ((g.setLocs zone (sweepMatches (Loc.onTile x y) (g.locs zone))).adjacency c)
      = g.adjacency c from rfl, hc c b hin]
    refine owed_congr (fun l => ?_) (fun _ => Iff.rfl) c b
    exact ⟨fun hl => (hmem l).2 ⟨hl, hall l hl⟩, fun hl => ((hmem l).1 hl).1⟩

end Locations

/-! ## Boundaries -/

section Boundaries

variable {t : MapTable} {g g' : Grid} {x y dir : Nat}

theorem serverFindBound_some {old : Bound} (hold : serverFindBound g x y dir = some old) :
    ∃ zone, serverFindZone x y = some zone ∧
      (g.bounds zone).find? (Bound.onEdge x y dir) = some old := by
  unfold serverFindBound at hold
  split at hold
  · cases hold
  · next zone hz => exact ⟨zone, hz, hold⟩

theorem Filed.bound_split (hg : Filed g) {old : Bound}
    (hold : serverFindBound g x y dir = some old) (d : Bound) : Present g.bounds d ↔
      (Present g.bounds d ∧ ¬ Bound.onEdge x y dir d = true) ∨ d = old := by
  obtain ⟨zone, hz, hfind⟩ := serverFindBound_some hold
  exact hg.bounds.split onEdge_iff (fun c hc => (boundHome_of_key hc).trans hz) hfind d

theorem Filed.bound_none (hg : Filed g) (hnone : serverFindBound g x y dir = none) {d : Bound}
    (hd : Present g.bounds d) : ¬ Bound.onEdge x y dir d = true := by
  unfold serverFindBound at hnone
  split at hnone
  · next hz =>
    intro hedge
    obtain ⟨z, hmem⟩ := hd
    have hhome := (boundHome_of_key ((onEdge_iff d).1 hedge)).symm.trans
      (hg.bounds.home_eq z d hmem)
    rw [hz] at hhome
    cases hhome
  · next zone hz =>
    exact hg.bounds.none_present onEdge_iff (fun c hc => (boundHome_of_key hc).trans hz) hnone hd

theorem serverFindBound_onEdge {old : Bound} (hold : serverFindBound g x y dir = some old) :
    Bound.onEdge x y dir old = true := by
  obtain ⟨zone, -, hfind⟩ := serverFindBound_some hold
  exact List.find?_some hfind

theorem setBoundId_frame (g : Grid) (x y dir id : Nat) :
    ∃ bounds, setBoundId g x y dir id = { g with bounds } := by
  unfold setBoundId
  split
  · exact ⟨g.bounds, rfl⟩
  · exact ⟨_, rfl⟩

theorem setBoundId_memory (g : Grid) (x y dir id : Nat) :
    (setBoundId g x y dir id).memory = g.memory := by
  obtain ⟨bounds, h⟩ := setBoundId_frame g x y dir id
  rw [h]

theorem setBoundId_static (g : Grid) (x y dir id : Nat) :
    (setBoundId g x y dir id).static = g.static := by
  obtain ⟨bounds, h⟩ := setBoundId_frame g x y dir id
  rw [h]

theorem setBoundId_locs (g : Grid) (x y dir id : Nat) :
    (setBoundId g x y dir id).locs = g.locs := by
  obtain ⟨bounds, h⟩ := setBoundId_frame g x y dir id
  rw [h]

theorem Filed.setBoundId (hg : Filed g) {old : Bound}
    (hold : serverFindBound g x y dir = some old) (id : Nat) :
    Filed (Ref.setBoundId g x y dir id) ∧
      serverFindBound (Ref.setBoundId g x y dir id) x y dir = some { old with id := id } ∧
      ∀ d, Present (Ref.setBoundId g x y dir id).bounds d ↔
        (Present g.bounds d ∧ ¬ Bound.onEdge x y dir d = true) ∨ d = { old with id := id } := by
  obtain ⟨zone, hz, hfind⟩ := serverFindBound_some hold
  obtain ⟨hbounds, hmem⟩ := hg.bounds.modify onEdge_iff
    (fun c hc => (boundHome_of_key hc).trans hz) (f := fun d => { d with id := id })
    (fun _ => rfl) (fun _ => rfl) hfind
  refine ⟨?_, ?_, ?_⟩
  · simp only [Ref.setBoundId, hz]
    exact ⟨hg.locs, hbounds⟩
  · simp only [Ref.setBoundId, serverFindBound, hz, Grid.setBounds, setBin, if_true]
    exact find?_modifyFirst (fun _ => rfl) hfind
  · simp only [Ref.setBoundId, hz]
    exact hmem

theorem owedOffEdge_setBoundId (hg : Filed g) {old : Bound}
    (hold : serverFindBound g x y dir = some old) (t : MapTable) (id : Nat) (c : Cell) (b : Nat) :
    OwedOffEdge t (setBoundId g x y dir id) x y dir c b ↔ OwedOffEdge t g x y dir c b := by
  unfold OwedOffEdge
  rw [setBoundId_static, setBoundId_locs]
  refine owed_congr (fun _ => Iff.rfl) (fun d => ?_) c b
  rw [(hg.setBoundId hold id).2.2 d]
  have hedge := serverFindBound_onEdge hold
  constructor
  · rintro ⟨h | rfl, hnot⟩
    · exact h
    · exact absurd hedge hnot
  · exact fun h => ⟨.inl h, h.2⟩

/-- Adding a boundary where there is one: the two are on the same edge, so the
one found becomes the one added. -/
theorem serverAddBound_old (hg : Filed g) (bound : Bound) {old : Bound}
    (hold : serverFindBound g bound.x bound.y bound.dir = some old)
    (h : serverAddBound t g bound = .ok g') :
    Filed g' ∧ Replaces t g g' (OwedOffEdge t g bound.x bound.y bound.dir)
      (Touches (boundMasks t old)) (Lands (boundClears bound)) (Lands (boundMasks t bound))
      (Touches (boundMasks t bound)) := by
  have hedge := (onEdge_iff old).1 (serverFindBound_onEdge hold)
  obtain ⟨hx, hrest⟩ := Prod.mk.inj hedge
  obtain ⟨hy, hdir⟩ := Prod.mk.inj hrest
  have hsame : { old with id := bound.id } = bound := by
    rw [hx, hy, hdir]
  have hclears : boundClears old = boundClears bound := by
    simp only [boundClears, boundCell, hx, hy, hdir]
  unfold serverAddBound at h
  split at h
  · cases h
  · next config hc =>
    rw [hold] at h
    obtain rfl := Except.ok.inj h
    have hmasks : boundMasks t bound = boundFlags bound config := by
      rw [boundMasks, hc]
    have hg₁ : Filed { g with
        memory := orAll (laid (boundFlags bound config))
          (clearAll (laid (boundClears old)) g.memory) } := ⟨hg.locs, hg.bounds⟩
    have hold₁ : serverFindBound { g with
        memory := orAll (laid (boundFlags bound config))
          (clearAll (laid (boundClears old)) g.memory) }
        bound.x bound.y bound.dir = some old := hold
    obtain ⟨hfiled, -, hmem⟩ := hg₁.setBoundId hold₁ bound.id
    refine ⟨hfiled, ?_, ?_, ?_⟩
    · exact owed_bound (hg.bound_split hold)
    · simp only [setBoundId_static, setBoundId_locs]
      rw [hsame] at hmem
      exact owed_bound hmem
    · intro c b
      simp only [Grid.adjacency, setBoundId_memory]
      rw [orAll_bit, clearAll_bit, hmasks, hclears]
      exact Iff.rfl

/-- There is a zone for the boundary, with room in its list. -/
def ZoneHasRoomForBound (g : Grid) (bound : Bound) : Prop :=
  ∃ zone, serverFindZone bound.x bound.y = some zone ∧ (g.bounds zone).length < zoneMaxBounds

theorem serverAddBound_new (hg : Filed g) {bound : Bound}
    (hnone : serverFindBound g bound.x bound.y bound.dir = none)
    (h : serverAddBound t g bound = .ok g') :
    Filed g' ∧ Replaces t g g' (OwedOffEdge t g bound.x bound.y bound.dir) Nothing Nothing
      (Lands (boundMasks t bound))
      (fun c b => ZoneHasRoomForBound g bound ∧ Touches (boundMasks t bound) c b) := by
  unfold serverAddBound at h
  split at h
  · cases h
  · next config hc =>
    rw [hnone] at h
    obtain rfl := Except.ok.inj h
    have hmasks : boundFlags bound config = boundMasks t bound := by
      rw [boundMasks, hc]
    have hbefore : ∀ c b, Owed t g.static (Present g.locs) (Present g.bounds) c b ↔
        OwedOffEdge t g bound.x bound.y bound.dir c b := owed_congr
      (fun _ => Iff.rfl) fun d => ⟨fun hd => ⟨hd, hg.bound_none hnone hd⟩, fun hd => hd.1⟩
    have hbits : ∀ c b,
        (orAll (laid (boundFlags bound config)) g.memory c.place).getLsbD b = true ↔
        ((g.adjacency c).getLsbD b = true ∧ ¬ Nothing c b) ∨ Lands (boundMasks t bound) c b := by
      intro c b
      rw [orAll_bit, hmasks]
      simp [Nothing, Grid.adjacency, Lands]
    unfold recordBound
    split
    · next hz =>
      have hroom : ¬ ZoneHasRoomForBound g bound := by
        rintro ⟨zone, hz', -⟩
        rw [hz] at hz'
        cases hz'
      refine ⟨⟨hg.locs, hg.bounds⟩, fun c b => ?_, fun c b => ?_, hbits⟩
      · simp [hbefore, Nothing]
      · simp [hbefore, hroom]
    · next zone hz =>
      split
      · next hlen =>
        have hroom : ZoneHasRoomForBound g bound := ⟨zone, hz, hlen⟩
        unfold serverFindBound at hnone
        rw [hz] at hnone
        obtain ⟨hbounds, hmem⟩ := hg.bounds.append (a := bound) onEdge_iff hz hnone
        refine ⟨⟨hg.locs, hbounds⟩, fun c b => ?_, fun c b => ?_, hbits⟩
        · simp [hbefore, Nothing]
        · simp only [hroom, true_and, ← hbefore]
          exact owed_bound hmem c b
      · next hlen =>
        have hroom : ¬ ZoneHasRoomForBound g bound := by
          rintro ⟨zone', hz', hlen'⟩
          rw [hz] at hz'
          exact hlen (Option.some.inj hz' ▸ hlen')
        refine ⟨⟨hg.locs, hg.bounds⟩, fun c b => ?_, fun c b => ?_, hbits⟩
        · simp [hbefore, Nothing]
        · simp [hbefore, hroom]

end Boundaries

/-! ## Every sequence of changes -/

/-- When an event on the map leaves the grid right. Where there was nothing, a
flag set must be owed by the rest already, or be one of the wall or the object
recorded, in a cell it covers: an object that finds no room, and a mask outside
the array, must set nothing new. Where an object goes, what it owed must be
cleared unless something else owes it, and nothing else may be cleared with it. -/
def StepExact (t : MapTable) (g : Grid) : GridEvent → Prop
  | .wall d flags => ∀ c b, InGrid c → Lands [(d, flags)] c b →
      Owed t g.static (Present g.locs) (Present g.bounds) c b ∨ Touches [(d, flags)] c b
  | .addLoc loc =>
    match serverFindLoc g loc.x loc.y with
    | none => ∀ c b, InGrid c → Lands (locMasks t loc) c b → OwedOffTile t g loc.x loc.y c b ∨
        (ZoneHasRoom g loc ∧ Touches (locMasks t loc) c b)
    | some old => Exact (OwedOffTile t g loc.x loc.y) (Touches (locMasks t old))
      (Lands (locCleared t old)) (Lands (locMasks t loc))
      (Touches (locMasks t { old with id := loc.id }))
  | .delLoc x y =>
    match serverFindLoc g x y with
    | none => True
    | some old => ∀ c b, InGrid c → Touches (locMasks t old) c b → OwedOffTile t g x y c b
  | .changeLoc x y id =>
    match serverFindLoc g x y with
    | none => True
    | some old => Exact (OwedOffTile t g x y) (Touches (locMasks t old))
      (Lands (locCleared t old)) (Lands (locMasks t { old with id := id }))
      (Touches (locMasks t { old with id := id }))
  | .restoreLoc x y =>
    match serverFindLoc g x y with
    | none => True
    | some old => Exact (OwedOffTile t g x y) (Touches (locMasks t old))
      (Lands (locCleared t { old with id := old.origId }))
      (Lands (locMasks t { old with id := old.origId }))
      (Touches (locMasks t { old with id := old.origId }))
  | .addBound bound =>
    match serverFindBound g bound.x bound.y bound.dir with
    | none => ∀ c b, InGrid c → Lands (boundMasks t bound) c b →
        OwedOffEdge t g bound.x bound.y bound.dir c b ∨
          (ZoneHasRoomForBound g bound ∧ Touches (boundMasks t bound) c b)
    | some old => Exact (OwedOffEdge t g bound.x bound.y bound.dir) (Touches (boundMasks t old))
      (Lands (boundClears bound)) (Lands (boundMasks t bound)) (Touches (boundMasks t bound))
  | .changeBound x y dir id =>
    match serverFindBound g x y dir with
    | none => True
    | some old => Exact (OwedOffEdge t g x y dir) (Touches (boundMasks t old))
      (Lands (boundClears old)) (Lands (boundMasks t { old with id := id }))
      (Touches (boundMasks t { old with id := id }))

attribute [simp] StepExact

/-- With nothing taken away, only what is set and not owed can be wrong. -/
theorem exact_new {others set new : Cell → Nat → Prop} (hset : ∀ c b, new c b → set c b) :
    Exact others Nothing Nothing set new ↔ ∀ c b, InGrid c → set c b → others c b ∨ new c b := by
  constructor
  · exact fun h => h.owed
  · exact fun h => ⟨fun c b _ _ hc => hc.elim, fun c b _ ho _ => ho.elim, h,
      fun c b _ hn => .inl (hset c b hn)⟩

/-- With nothing cleared and nothing put in its place, what goes must be owed
by the rest. -/
theorem exact_del {others old : Cell → Nat → Prop} :
    Exact others old Nothing Nothing Nothing ↔ ∀ c b, InGrid c → old c b → others c b := by
  constructor
  · intro h c b hin ho
    rcases h.gone c b hin ho id with ho | hn
    · exact ho
    · exact hn.elim
  · intro h
    exact ⟨fun c b _ _ hc => hc.elim, fun c b hin ho _ => .inl (h c b hin ho),
      fun c b _ hs => hs.elim, fun c b _ hn => hn.elim⟩

section Step

variable {t : MapTable} {g g' : Grid}

/-- A floor or a wall is a replacement of nothing by its flags. -/
theorem wall_step (hg : Filed g) {d : Cell} {flags : BitVec 8}
    (h : gridStep t g (.wall d flags) = .ok g') :
    Filed g' ∧ (Coherent t g → (Coherent t g' ↔ StepExact t g (.wall d flags))) := by
  obtain rfl := Except.ok.inj h
  have hrep : Replaces t g { g with
      memory := orAll (laid [(d, flags)]) g.memory, static := orAll [(d, flags)] g.static }
      (Owed t g.static (Present g.locs) (Present g.bounds)) Nothing Nothing (Lands [(d, flags)])
      (Touches [(d, flags)]) := by
    refine ⟨fun c b => ?_, fun c b => ?_, fun c b => ?_⟩
    · simp [Nothing]
    · simp only [Owed]
      rw [orAll_bit, or_assoc, or_assoc, or_comm (a := Touches _ _ _), or_assoc]
    · simp only [Grid.adjacency]
      rw [orAll_bit]
      simp [Nothing, Lands]
  refine ⟨⟨hg.locs, hg.bounds⟩, fun hc => ?_⟩
  simp only [StepExact]
  rw [hrep.coherent_iff hc, exact_new fun c b => lands_of_touches]

theorem addLoc_step (hg : Filed g) {loc : Loc} (h : serverAddLoc t g loc = .ok g') :
    Filed g' ∧ (Coherent t g → (Coherent t g' ↔ StepExact t g (.addLoc loc))) := by
  cases hold : serverFindLoc g loc.x loc.y with
  | none =>
      obtain ⟨hfiled, hrep⟩ := serverAddLoc_new hg hold h
      refine ⟨hfiled, fun hc => ?_⟩
      simp only [StepExact, hold]
      rw [hrep.coherent_iff hc, exact_new fun c b hn => lands_of_touches hn.2]
  | some old =>
      obtain ⟨hfiled, hrep⟩ := serverAddLoc_old hg loc hold h
      refine ⟨hfiled, fun hc => ?_⟩
      simp only [StepExact, hold]
      exact hrep.coherent_iff hc

theorem delLoc_step (hg : Filed g) (x y : Nat) :
    Filed (serverDelLoc g x y) ∧
      (Coherent t g → (Coherent t (serverDelLoc g x y) ↔ StepExact t g (.delLoc x y))) := by
  cases hold : serverFindLoc g x y with
  | none =>
      obtain ⟨hfiled, hkeep⟩ := serverDelLoc_none (t := t) hg hold
      refine ⟨hfiled, fun hc => ?_⟩
      simp only [StepExact, hold]
      exact iff_true_intro (hkeep hc)
  | some old =>
      obtain ⟨hfiled, hrep⟩ := serverDelLoc_old (t := t) hg hold
      refine ⟨hfiled, fun hc => ?_⟩
      simp only [StepExact, hold]
      rw [hrep.coherent_iff hc, exact_del]

theorem changeLoc_step (hg : Filed g) {x y id : Nat} (h : scriptChangeloc t g x y id = .ok g') :
    Filed g' ∧ (Coherent t g → (Coherent t g' ↔ StepExact t g (.changeLoc x y id))) := by
  unfold scriptChangeloc at h
  cases hold : serverFindLoc g x y with
  | none =>
      rw [hold] at h
      obtain rfl := Except.ok.inj h
      refine ⟨hg, fun hc => ?_⟩
      simp only [StepExact, hold]
      exact iff_true_intro hc
  | some old =>
      rw [hold] at h
      obtain ⟨rfl, rfl⟩ := Prod.mk.inj ((onTile_iff old).1 (serverFindLoc_onTile hold))
      obtain ⟨hfiled, hrep⟩ := serverAddLoc_old hg { old with id := id } hold h
      refine ⟨hfiled, fun hc => ?_⟩
      simp only [StepExact, hold]
      exact hrep.coherent_iff hc

/-- Restoring writes the id first, so what is cleared is what the restored
location would have, and what the location had until then stays. -/
theorem restoreLoc_step (hg : Filed g) {x y : Nat} (h : scriptRestoreloc t g x y = .ok g') :
    Filed g' ∧ (Coherent t g → (Coherent t g' ↔ StepExact t g (.restoreLoc x y))) := by
  unfold scriptRestoreloc at h
  cases hold : serverFindLoc g x y with
  | none =>
      rw [hold] at h
      obtain rfl := Except.ok.inj h
      refine ⟨hg, fun hc => ?_⟩
      simp only [StepExact, hold]
      exact iff_true_intro hc
  | some old =>
      rw [hold] at h
      obtain ⟨rfl, rfl⟩ := Prod.mk.inj ((onTile_iff old).1 (serverFindLoc_onTile hold))
      obtain ⟨hfiled₁, hold₁, -⟩ := hg.setLocId hold old.origId
      obtain ⟨hfiled, hrep⟩ := serverAddLoc_old hfiled₁ { old with id := old.origId } hold₁ h
      refine ⟨hfiled, fun hc => ?_⟩
      simp only [StepExact, hold]
      have hothers := owedOffTile_setLocId hg hold t old.origId
      have hwhole : Replaces t g g' (OwedOffTile t g old.x old.y) (Touches (locMasks t old))
          (Lands (locCleared t { old with id := old.origId }))
          (Lands (locMasks t { old with id := old.origId }))
          (Touches (locMasks t { old with id := old.origId })) := by
        refine ⟨owed_loc (hg.loc_split hold), fun c b => ?_, fun c b => ?_⟩
        · rw [hrep.after c b, hothers]
        · rw [hrep.bits c b, Grid.adjacency, setLocId_memory]
          rfl
      exact hwhole.coherent_iff hc

theorem addBound_step (hg : Filed g) {bound : Bound} (h : serverAddBound t g bound = .ok g') :
    Filed g' ∧ (Coherent t g → (Coherent t g' ↔ StepExact t g (.addBound bound))) := by
  cases hold : serverFindBound g bound.x bound.y bound.dir with
  | none =>
      obtain ⟨hfiled, hrep⟩ := serverAddBound_new hg hold h
      refine ⟨hfiled, fun hc => ?_⟩
      simp only [StepExact, hold]
      rw [hrep.coherent_iff hc, exact_new fun c b hn => lands_of_touches hn.2]
  | some old =>
      obtain ⟨hfiled, hrep⟩ := serverAddBound_old hg bound hold h
      refine ⟨hfiled, fun hc => ?_⟩
      simp only [StepExact, hold]
      exact hrep.coherent_iff hc

/-- Here too the id is written first, but what is cleared of a boundary does
not depend on it. -/
theorem changeBound_step (hg : Filed g) {x y dir id : Nat}
    (h : scriptChangebound t g x y dir id = .ok g') :
    Filed g' ∧ (Coherent t g → (Coherent t g' ↔ StepExact t g (.changeBound x y dir id))) := by
  unfold scriptChangebound at h
  cases hold : serverFindBound g x y dir with
  | none =>
      rw [hold] at h
      obtain rfl := Except.ok.inj h
      refine ⟨hg, fun hc => ?_⟩
      simp only [StepExact, hold]
      exact iff_true_intro hc
  | some old =>
      rw [hold] at h
      have hedge := (onEdge_iff old).1 (serverFindBound_onEdge hold)
      obtain ⟨rfl, hrest⟩ := Prod.mk.inj hedge
      obtain ⟨rfl, rfl⟩ := Prod.mk.inj hrest
      obtain ⟨hfiled₁, hold₁, -⟩ := hg.setBoundId hold id
      obtain ⟨hfiled, hrep⟩ := serverAddBound_old hfiled₁ { old with id := id } hold₁ h
      refine ⟨hfiled, fun hc => ?_⟩
      simp only [StepExact, hold]
      have hothers := owedOffEdge_setBoundId hg hold t id
      have hwhole : Replaces t g g' (OwedOffEdge t g old.x old.y old.dir)
          (Touches (boundMasks t old)) (Lands (boundClears old))
          (Lands (boundMasks t { old with id := id }))
          (Touches (boundMasks t { old with id := id })) := by
        refine ⟨owed_bound (hg.bound_split hold), fun c b => ?_, fun c b => ?_⟩
        · rw [hrep.after c b, hothers]
        · rw [hrep.bits c b, Grid.adjacency, setBoundId_memory]
          rfl
      exact hwhole.coherent_iff hc

theorem gridStep_spec (hg : Filed g) {e : GridEvent} (h : gridStep t g e = .ok g') :
    Filed g' ∧ (Coherent t g → (Coherent t g' ↔ StepExact t g e)) := by
  cases e with
  | wall c flags => exact wall_step hg h
  | addLoc loc => exact addLoc_step hg h
  | delLoc x y =>
      obtain rfl := Except.ok.inj h
      exact delLoc_step hg x y
  | changeLoc x y id => exact changeLoc_step hg h
  | restoreLoc x y => exact restoreLoc_step hg h
  | addBound bound => exact addBound_step hg h
  | changeBound x y dir id => exact changeBound_step hg h

end Step

theorem filed_empty : Filed {} := ⟨.empty, .empty⟩

theorem coherent_empty (t : MapTable) : Coherent t {} := by
  intro c b _
  simp [Owed, Present, Grid.adjacency]

/-- From the empty map on, the grid is right after every change exactly when
every change was one that its flags allow. -/
theorem grid_coherent_iff (t : MapTable) {tr : List (Grid × GridEvent)} {g : Grid}
    (hrun : Run (· = ({} : Grid)) (gridStep t) tr g) :
    (∀ c ∈ statesOf tr g, Coherent t c) ↔ ∀ x ∈ tr, StepExact t x.1 x.2 := by
  refine hrun.all_iff (I := Filed) ?_ ?_ ?_
  · rintro _ rfl
    exact ⟨filed_empty, coherent_empty t⟩
  · exact fun s e s' hs h => (gridStep_spec hs h).1
  · exact fun s e s' hs hc h => (gridStep_spec hs h).2 hc

/-- Location 0 blocks its tile and location 1 does not. -/
def boulderTable : MapTable where
  loc
    | 0 => some ⟨1, 1, .blocking, false⟩
    | 1 => some ⟨1, 1, .passthru, false⟩
    | _ => none
  bound _ := none

def boulder : Loc := ⟨0, 0, 10, 10, 0⟩

/-- With one location on the map and nothing else, there is nothing beside it
to owe a flag. -/
theorem owedOffTile_alone {t : MapTable} {zone : Zone} {loc : Loc} {c : Cell} {b : Nat}
    {memory : Int → BitVec 8} :
    ¬ OwedOffTile t { memory := memory, locs := setBin (fun _ => []) zone [loc] }
      loc.x loc.y c b := by
  rintro (hs | ⟨l, ⟨hl, htile⟩, -⟩ | ⟨d, ⟨z, hd⟩, -⟩)
  · simp at hs
  · rcases present_setBin.1 hl with h | ⟨z, -, h⟩
    · rw [List.mem_singleton.1 h] at htile
      exact htile ((onTile_iff loc).2 rfl)
    · cases h
  · cases hd

/-- A boulder alone on its tile is changed into something that does not block. -/
theorem grid_coherent_iff_boulder : ∃ tr g,
    exec (gridStep boulderTable) {} [.addLoc boulder, .changeLoc 10 10 1] =
      .ok (tr, g) ∧ ∀ c ∈ statesOf tr g, Coherent boulderTable c := by
  have hrun : Run (· = ({} : Grid)) (gridStep boulderTable) _ _ :=
    Run.of_exec [.addLoc boulder, .changeLoc 10 10 1] rfl rfl
  refine ⟨_, _, rfl, (grid_coherent_iff boulderTable hrun).2 ?_⟩
  intro x hx
  simp only [List.mem_cons, List.not_mem_nil, or_false] at hx
  rcases hx with rfl | rfl
  · have hplaced : ∀ m ∈ locMasks boulderTable boulder, InGrid m.1 := by
      simp only [show locMasks boulderTable boulder = [(⟨0, 10, 10⟩, adjBlockFull)] by decide,
        List.mem_singleton]
      rintro m rfl
      decide
    exact fun c b hin hl => .inr ⟨⟨⟨1, 1, 0⟩, rfl, by decide⟩, touches_of_lands hin hplaced hl⟩
  · refine Exact.mk ?_ ?_ ?_ ?_
    · exact fun c b _ ho => absurd ho owedOffTile_alone
    · rintro c b - ⟨m, hm, rfl, hbit⟩ hnot
      refine absurd (lands_of_touches ⟨(m.1, adjAll), ?_, rfl, ?_⟩) hnot
      · rw [List.mem_singleton.1 hm]
        decide
      · rw [show adjAll = BitVec.allOnes 8 from rfl, BitVec.getLsbD_allOnes]
        exact decide_eq_true (BitVec.lt_of_getLsbD hbit)
    · exact fun c b _ hs => absurd hs (lands_nil c b)
    · exact fun c b _ hs => absurd hs (touches_nil c b)

/-- A boulder is put down and deleted, and its tile stays blocked. -/
theorem deleted_boulder_blocks : ¬ ∀ (t : MapTable) (tr : List (Grid × GridEvent)) (g : Grid),
    Run (· = ({} : Grid)) (gridStep t) tr g → ∀ c ∈ statesOf tr g, Coherent t c := by
  intro hall
  have hrun : Run (· = ({} : Grid)) (gridStep boulderTable) _ _ :=
    Run.of_exec [.addLoc boulder, .delLoc 10 10] rfl rfl
  have hlast := hall _ _ _ hrun _ (mem_statesOf.2 (.inr rfl)) ⟨0, 10, 10⟩ 4
    (by decide)
  rcases hlast.1 (by decide) with hs | ⟨l, hl, -⟩ | ⟨d, ⟨zone, hd⟩, -⟩
  · exact absurd hs (by decide)
  · have hl' : Present (setBin (setBin (fun _ => []) (⟨1, 1, 0⟩ : Zone) [boulder])
        ⟨1, 1, 0⟩ []) l := hl
    rcases present_setBin.1 hl' with h | ⟨zone, hz, h⟩
    · cases h
    · rw [setBin, if_neg hz] at h
      cases h
  · cases hd

end Sundae.Proofs
