import Sundae.Proofs.Zone
import Sundae.Ref.Collision

/-!
# The cells a step looks at

`mob_check_collision` holds a step against the upper bounds of the grid before
it looks at a cell. Nothing holds it against the lower ones, and a tile that is
its own target goes by the direction the mob has. `cells_in_grid_iff` says which
steps stay inside.
-/

namespace Sundae.Proofs

open Sundae.Ref Sundae.Ref.World

variable {adjacency : Cell → BitVec 8} {c : Cell}

/-- A tile of the map, on one of its planes. -/
def OnMap (x y : Nat) : Prop :=
  x < zoneMaxX ∧ tilePlane y < zoneMaxPlane ∧ tileRow y < zoneMaxY

/-! ## What is seen -/

theorem mem_of_seen_testAll {tests : List (Cell × BitVec 8)} (h : c ∈ (testAll adjacency tests).2) :
    ∃ flag, (c, flag) ∈ tests := by
  induction tests with
  | nil => cases h
  | cons test tests ih =>
      rw [testAll] at h
      split at h
      · rcases List.mem_cons.1 h with rfl | h
        · exact ⟨test.2, List.mem_cons_self⟩
        · obtain ⟨flag, hflag⟩ := ih h
          exact ⟨flag, List.mem_cons_of_mem _ hflag⟩
      · obtain rfl := List.mem_singleton.1 h
        exact ⟨test.2, List.mem_cons_self⟩

/-- Only cells that are tested are looked at. -/
theorem mem_of_seen_testAny {tests : List (List (Cell × BitVec 8))}
    (h : c ∈ (testAny adjacency tests).2) : ∃ flag, (c, flag) ∈ tests.flatten := by
  induction tests with
  | nil => cases h
  | cons test tests ih =>
      have hfirst : c ∈ (testAll adjacency test).2 →
          ∃ flag, (c, flag) ∈ (test :: tests).flatten := by
        intro h
        obtain ⟨flag, hflag⟩ := mem_of_seen_testAll h
        exact ⟨flag, List.mem_append_left _ hflag⟩
      rw [testAny] at h
      dsimp only at h
      split at h
      · exact hfirst h
      · rcases List.mem_append.1 h with h | h
        · exact hfirst h
        · obtain ⟨flag, hflag⟩ := ih h
          exact ⟨flag, List.mem_append_right _ hflag⟩

/-- With nothing on the map the first cell of each test is looked at. -/
theorem testAny_empty {tests : List (List (Cell × BitVec 8))} (h : ∀ test ∈ tests, test ≠ []) :
    testAny (fun _ => 0) tests = (false, tests.filterMap fun test => test.head?.map Prod.fst) := by
  induction tests with
  | nil => rfl
  | cons test tests ih =>
      have hrest := ih fun test htest => h test (List.mem_cons_of_mem _ htest)
      cases test with
      | nil => exact absurd rfl (h [] List.mem_cons_self)
      | cons first test =>
          rw [testAny, hrest, testAll, if_neg (by simp)]
          rfl

theorem stepTests_ne_nil (f : BlockFlags) (plane curX x : Nat) (cy ty : Int) (dir : Dir) :
    ∀ test ∈ stepTests f plane curX x cy ty dir, test ≠ [] := by
  cases dir <;> simp [stepTests]

/-! ## One step -/

/-- The tile a step in this direction leads to. -/
def Leads (x y x' y' : Nat) : Dir → Prop
  | .north => x' = x ∧ y' + 1 = y
  | .northwest => x' = x + 1 ∧ y' + 1 = y
  | .west => x' = x + 1 ∧ y' = y
  | .southwest => x' = x + 1 ∧ y' = y + 1
  | .south => x' = x ∧ y' = y + 1
  | .southeast => x' + 1 = x ∧ y' = y + 1
  | .east => x' + 1 = x ∧ y' = y
  | .northeast => x' + 1 = x ∧ y' + 1 = y
  | .combatLeft | .combatRight => False

theorem mobNextStep_self (x y : Nat) (dir : Dir) : mobNextStep x y dir x y = (x, y, dir) := by
  simp [mobNextStep]

/-- `mob_next_step` gives a direction and the tile it leads to. -/
theorem mobNextStep_leads {x y targetX targetY : Nat} (dir : Dir)
    (h : ¬ (targetX = x ∧ targetY = y)) :
    Leads x y (mobNextStep x y dir targetX targetY).1 (mobNextStep x y dir targetX targetY).2.1
        (mobNextStep x y dir targetX targetY).2.2 ∧
      ((mobNextStep x y dir targetX targetY).2.1 < y ↔ targetY < y) ∧
      (x < (mobNextStep x y dir targetX targetY).1 ↔ x < targetX) := by
  unfold mobNextStep
  split
  · split
    · exact ⟨⟨rfl, by dsimp only; omega⟩, by dsimp only; omega⟩
    · split
      · exact ⟨⟨rfl, rfl⟩, by dsimp only; omega⟩
      · omega
  · split
    · split
      · exact ⟨⟨rfl, rfl⟩, by dsimp only; omega⟩
      · split
        · exact ⟨⟨rfl, rfl⟩, by dsimp only; omega⟩
        · exact ⟨⟨rfl, by dsimp only; omega⟩, by dsimp only; omega⟩
    · split
      · exact ⟨⟨by dsimp only; omega, rfl⟩, by dsimp only; omega⟩
      · split
        · exact ⟨⟨by dsimp only; omega, rfl⟩, by dsimp only; omega⟩
        · exact ⟨⟨by dsimp only; omega, by dsimp only; omega⟩, by dsimp only; omega⟩

/-- Where a check looks that is not over before it looks anywhere: at the target,
and at cells of its tests. -/
theorem seen_cases {on : OnTile} {isNpc actionWalk sight : Bool} {curX curY x y : Nat} {dir : Dir}
    (h : c ∈ (mobCheckCollision adjacency on isNpc actionWalk curX curY x y dir sight).2) :
    (x < zoneMaxX ∧ (y : Int) - tilePlane curY * planeLevelInc < zoneMaxY) ∧
      (c = ⟨tilePlane curY, x, (y : Int) - tilePlane curY * planeLevelInc⟩ ∨
        ∃ flag, (c, flag) ∈ (stepTests (blockFlags sight) (tilePlane curY) curX x (tileRow curY)
          ((y : Int) - tilePlane curY * planeLevelInc) dir).flatten) := by
  unfold mobCheckCollision at h
  dsimp only at h
  split at h
  · cases h
  · next hin =>
    refine ⟨by omega, ?_⟩
    split at h
    · exact .inl (List.mem_singleton.1 h)
    · split at h
      · exact .inl (List.mem_singleton.1 h)
      · split at h
        · exact .inl (List.mem_singleton.1 h)
        · rcases List.mem_cons.1 h with rfl | h
          · exact .inl rfl
          · exact .inr (mem_of_seen_testAny h)

/-- All that a check looks at where nothing is in the way. -/
theorem seen_of_empty {curX curY x y : Nat} {dir : Dir} (hx : x < zoneMaxX)
    (hy : (y : Int) - tilePlane curY * planeLevelInc < zoneMaxY)
    (hplane : tilePlane curY < zoneMaxPlane) :
    (mobCheckCollision (fun _ => 0) {} false false curX curY x y dir false).2 =
      ⟨tilePlane curY, x, (y : Int) - tilePlane curY * planeLevelInc⟩ ::
        (stepTests (blockFlags false) (tilePlane curY) curX x (tileRow curY)
          ((y : Int) - tilePlane curY * planeLevelInc) dir).filterMap
            fun test => test.head?.map Prod.fst := by
  unfold mobCheckCollision
  rw [if_neg (by omega)]
  dsimp only
  rw [testAny_empty (stepTests_ne_nil _ _ _ _ _ _ _)]
  simp

/-- A mob on the tile that faces this way does not face out of a corner of the
grid or over an edge of it. -/
def FacesIn (x y : Nat) : Dir → Prop
  | .northwest => x + 1 < zoneMaxX ∧ 0 < tileRow y
  | .northeast => 0 < x ∧ 0 < tileRow y
  | .southwest => x + 1 < zoneMaxX ∧ tileRow y + 1 < zoneMaxY
  | .southeast => 0 < x ∧ tileRow y + 1 < zoneMaxY
  | .north | .south | .west | .east | .combatLeft | .combatRight => True

/-- What a mob on the tile may be told to go to: not north off the first row of its
plane, unless it is stopped at the edge it goes over with the same step, and the
tile itself only if it faces into the grid. -/
def StepStaysIn (x y : Nat) (dir : Dir) (targetX targetY : Nat) : Prop :=
  if targetX = x ∧ targetY = y then FacesIn x y dir
  else targetY < y → 0 < tileRow y ∨ zoneMaxX ≤ x + 1 ∧ x < targetX

/-- Every cell that `mob_check_collision` looks at for the step that
`mob_next_step` gives, whatever is on the map, is in the array. -/
def CellsInGrid (x y : Nat) (dir : Dir) (targetX targetY : Nat) : Prop :=
  ∀ (adjacency : Cell → BitVec 8) (on : OnTile) (isNpc actionWalk sight : Bool),
    ∀ c ∈ (mobCheckCollision adjacency on isNpc actionWalk x y
      (mobNextStep x y dir targetX targetY).1 (mobNextStep x y dir targetX targetY).2.1
      (mobNextStep x y dir targetX targetY).2.2 sight).2, InGrid c

theorem tileRow_nonneg (y : Nat) : 0 ≤ tileRow y := by
  unfold tileRow tilePlane planeLevelInc
  omega

/-- The row of another tile, counted on the plane of this one. -/
theorem row_sub (y y' : Nat) : (y' : Int) - tilePlane y * planeLevelInc = tileRow y + (y' - y) := by
  unfold tileRow
  omega

/-- A step off which no cell of its tests lies stays inside. -/
theorem inGrid_of_seen {on : OnTile} {isNpc actionWalk sight : Bool} {x y x' y' : Nat} {dir : Dir}
    (hplane : tilePlane y < zoneMaxPlane)
    (hlow : x' < zoneMaxX → 0 ≤ tileRow y + (y' - y))
    (htests : x' < zoneMaxX → tileRow y + (y' - y) < zoneMaxY →
      ∀ c ∈ (stepTests (blockFlags sight) (tilePlane y) x x' (tileRow y)
        (tileRow y + (y' - y)) dir).flatten, InGrid c.1)
    (h : c ∈ (mobCheckCollision adjacency on isNpc actionWalk x y x' y' dir sight).2) :
    InGrid c := by
  obtain ⟨⟨hx, hy⟩, hseen⟩ := seen_cases h
  rw [row_sub] at hy hseen
  rcases hseen with rfl | ⟨flag, hflag⟩
  · exact ⟨hplane, Int.natCast_nonneg _, by show (x' : Int) < zoneMaxX; omega, hlow hx, hy⟩
  · exact htests hx hy _ hflag

theorem cells_in_grid_of {x y : Nat} (hmap : OnMap x y) {dir : Dir} {targetX targetY : Nat}
    (h : StepStaysIn x y dir targetX targetY) : CellsInGrid x y dir targetX targetY := by
  obtain ⟨hx, hplane, hy⟩ := hmap
  have hrow := tileRow_nonneg y
  intro adjacency on isNpc actionWalk sight c hc
  have hplane' := hplane
  simp only [zoneMaxX, zoneMaxY, zoneMaxPlane] at hx hy hplane'
  by_cases hown : targetX = x ∧ targetY = y
  · obtain ⟨rfl, rfl⟩ := hown
    rw [StepStaysIn, if_pos ⟨rfl, rfl⟩] at h
    rw [mobNextStep_self] at hc
    dsimp only at hc
    refine inGrid_of_seen hplane (fun _ => by omega) (fun _ _ => ?_) hc
    cases dir <;> simp [stepTests, InGrid, FacesIn, zoneMaxX, zoneMaxY, zoneMaxPlane] at h ⊢ <;>
      omega
  · rw [StepStaysIn, if_neg hown] at h
    obtain ⟨hleads, hnorth, heast⟩ := mobNextStep_leads dir hown
    generalize mobNextStep x y dir targetX targetY = next at hc hleads hnorth heast
    obtain ⟨x', y', d⟩ := next
    dsimp only at hc hleads hnorth heast
    have hlow : x' < zoneMaxX → 0 ≤ tileRow y + (y' - y) := by
      intro hx'
      cases d <;> simp [Leads] at hleads <;> omega
    refine inGrid_of_seen hplane hlow (fun hx' hy' => ?_) hc
    have hlow' := hlow hx'
    simp only [zoneMaxX, zoneMaxY] at hx' hy'
    cases d <;> simp [Leads] at hleads <;>
      simp [stepTests, InGrid, zoneMaxX, zoneMaxY, zoneMaxPlane] <;> omega

/-- With nothing on the map a step looks at its target, and at the first cells of
the tests of its direction. -/
theorem StepStaysIn.of_cells {x y : Nat} (hmap : OnMap x y) {dir : Dir} {targetX targetY : Nat}
    (h : CellsInGrid x y dir targetX targetY) : StepStaysIn x y dir targetX targetY := by
  obtain ⟨hx, hplane, hy⟩ := hmap
  have hrow := tileRow_nonneg y
  have hempty := h (fun _ => 0) {} false false false
  by_cases hown : targetX = x ∧ targetY = y
  · obtain ⟨rfl, rfl⟩ := hown
    rw [StepStaysIn, if_pos ⟨rfl, rfl⟩]
    rw [mobNextStep_self] at hempty
    dsimp only at hempty
    rw [seen_of_empty hx (by rw [row_sub]; omega) hplane] at hempty
    cases dir <;> simp [stepTests, InGrid, FacesIn] at hempty ⊢ <;> omega
  · rw [StepStaysIn, if_neg hown]
    intro hnorth
    obtain ⟨hleads, hiff, heast⟩ := mobNextStep_leads dir hown
    generalize mobNextStep x y dir targetX targetY = next at hempty hleads hiff heast
    obtain ⟨x', y', d⟩ := next
    dsimp only at hempty hleads hiff heast
    have hup : y' + 1 = y := by
      have hlt := hiff.2 hnorth
      cases d <;> simp [Leads] at hleads <;> omega
    by_cases hwide : x' < zoneMaxX
    · rw [seen_of_empty hwide (by rw [row_sub]; omega) hplane, row_sub] at hempty
      have hcell := (hempty _ List.mem_cons_self).2.2.2.1
      dsimp only at hcell
      exact .inl (by omega)
    · refine .inr ?_
      cases d <;> simp [Leads] at hleads <;> omega

/-- Whatever is on the map, a step looks only at cells of the array if and only
if it does not go north off the first row of a plane, or is stopped before at the
edge of the map, and, where the mob is told to go where it is, it does not face
over an edge. -/
theorem cells_in_grid_iff {x y : Nat} (hmap : OnMap x y) (dir : Dir) (targetX targetY : Nat) :
    CellsInGrid x y dir targetX targetY ↔ StepStaysIn x y dir targetX targetY :=
  ⟨StepStaysIn.of_cells hmap, cells_in_grid_of hmap⟩

/-- On the ground floor a step north off the second row. -/
theorem cells_in_grid_iff_second_row : OnMap 100 1 ∧ CellsInGrid 100 1 .north 100 0 :=
  have hmap : OnMap 100 1 := ⟨by decide, by decide, by decide⟩
  ⟨hmap, (cells_in_grid_iff hmap .north 100 0).2 fun _ => .inl (by decide)⟩

/-- A floor up, a step north off the first row looks at row -1. -/
theorem cell_before_row : ¬ ∀ x y, OnMap x y → ∀ dir targetX targetY,
    CellsInGrid x y dir targetX targetY := by
  intro hall
  have hmap : OnMap 100 944 := ⟨by decide, by decide, by decide⟩
  have hempty := hall 100 944 hmap .north 100 900 (fun _ => 0) {} false false false
  have hstep : mobNextStep 100 944 .north 100 900 = (100, 943, .north) := by decide
  rw [hstep] at hempty
  dsimp only at hempty
  rw [seen_of_empty (by decide) (by decide) (by decide)] at hempty
  have hrow : (0 : Int) ≤ (943 : Nat) - tilePlane 944 * planeLevelInc :=
    (hempty _ List.mem_cons_self).2.2.2.1
  exact absurd hrow (by decide)

end Sundae.Proofs
