import Sundae.Proofs.Collision
import Sundae.Proofs.Tamed

/-!
# One tile, one cell

A coordinate is taken apart into a plane and a row of it in many places: by
division, by division where it is larger than a plane is high, by repeated
subtraction while it is larger, and by stairs that go up and down. `planes_agree_iff`
says where they all come to the same: on every row but the first of a plane.
-/

namespace Sundae.Proofs

open Sundae.Lib Sundae.Ref Sundae.Ref.World

/-- The element of the grid under a mob on the tile, as `mob_check_collision`
has it. -/
def mobCell (x y : Nat) : Cell := ⟨tilePlane y, x, tileRow y⟩

/-- The zone an element of the grid lies in. -/
def zoneOfCell (c : Cell) : Option Zone :=
  if c.x < zoneMaxX ∧ c.y < zoneMaxY ∧ c.plane < zoneMaxPlane then
    some ⟨c.x.toNat / zoneWidth, c.y.toNat / zoneWidth, c.plane⟩
  else none

/-- How many tiles a location takes, along `x` and along `y`. -/
def locSize (loc : Loc) (config : LocConfig) : Nat × Nat :=
  if loc.dir = 0 ∨ loc.dir = 4 then (config.width, config.height)
  else (config.height, config.width)

/-- The tiles of a location of which the first is `c`. -/
def rectangle (c : Cell) (width height : Nat) : List Cell :=
  (List.range width).flatMap fun (dx : Nat) =>
    (List.range height).map fun (dy : Nat) => ⟨c.plane, c.x + dx, c.y + dy⟩

/-- The coordinate of player `i`. -/
def playerY (w : World) (i : Nat) : Option Nat := (w.players i).map fun p => p.mob.y

/-- Everything that takes the coordinate apart puts it on the same plane and the
same row: the zones, locations put down and taken up, boundaries, items that are
dropped and the script that asks. And going up and down the stairs, either way,
leads back. -/
structure PlanesAgree (y : Nat) : Prop where
  zone : ∀ x, serverFindZone x y = zoneOfCell (mobCell x y)
  loc : ∀ (loc : Loc) (config : LocConfig), loc.y = y → footprint loc config =
    rectangle (mobCell loc.x y) (locSize loc config).1 (locSize loc config).2
  bound : ∀ bound : Bound, bound.y = y → boundCell bound =
    ⟨(mobCell bound.x y).plane, (mobCell bound.x y).x - (if bound.dir = 1 then 1 else 0),
      (mobCell bound.x y).y - if bound.dir = 0 then 1 else 0⟩
  item : ∀ (s : Server) (owner : Option Nat) (x id stack : Nat), ∃ item,
    (serverAddTempItem s owner x y id stack).tempItems = s.tempItems ++ [item] ∧
      item.onSurface =
        (s.adjacency (mobCell x y).plane x (mobCell x y).y.toNat / adjBlock % 2 == 1)
  blocked : ∀ (g : Grid) (x : Nat), scriptBlocked g x y =
    ((serverFindLoc g x y).isSome || g.adjacency (mobCell x y) != 0)
  downUp : ∀ (w : World) (i : Nat), playerY w i = some y →
    playerY (scriptChangeleveldown (scriptChangelevelup w i) i) i = some y
  upDown : ∀ (w : World) (i : Nat), playerY w i = some y →
    playerY (scriptChangelevelup (scriptChangeleveldown w i) i) i = some y

/-! ## Planes and rows -/

/-- Subtracting while the rest is larger than a plane is high. -/
theorem planeRow_eq {y : Nat} (hy : y % planeLevelInc ≠ 0) :
    planeRow y 0 y = (y / planeLevelInc, y % planeLevelInc) := by
  have hrun : ∀ n plane wY, wY % planeLevelInc ≠ 0 → wY ≤ n →
      planeRow n plane wY = (plane + wY / planeLevelInc, wY % planeLevelInc) := by
    intro n
    induction n with
    | zero =>
        intro plane wY hne hle
        obtain rfl := Nat.le_zero.1 hle
        exact absurd rfl hne
    | succ n ih =>
        intro plane wY hne hle
        rw [planeRow]
        unfold planeLevelInc at hne ih ⊢
        split
        · rw [ih _ _ (by omega) (by omega)]
          refine Prod.ext ?_ ?_ <;> dsimp only <;> omega
        · refine Prod.ext ?_ ?_ <;> dsimp only <;> omega
  rw [hrun y 0 y hy (Nat.le_refl y), Nat.zero_add]

theorem footprint_eq (loc : Loc) (config : LocConfig) : footprint loc config =
    rectangle ⟨(planeRow loc.y 0 loc.y).1, loc.x, (planeRow loc.y 0 loc.y).2⟩
      (locSize loc config).1 (locSize loc config).2 := by
  unfold footprint rectangle locSize
  by_cases hdir : loc.dir = 0 ∨ loc.dir = 4
  · simp only [hdir, if_true, List.bind_eq_flatMap, List.pure_def, ← List.map_eq_flatMap,
      List.flatMap_map, List.map_map, Function.comp_def]
  · simp only [hdir, if_false, List.bind_eq_flatMap, List.pure_def, ← List.map_eq_flatMap,
      List.flatMap_map, List.map_map, Function.comp_def]

theorem tileRow_eq (y : Nat) : tileRow y = (y % planeLevelInc : Nat) := by
  unfold tileRow tilePlane planeLevelInc
  omega

theorem serverFindZone_eq {y : Nat} (hy : y % planeLevelInc ≠ 0) (x : Nat) :
    serverFindZone x y = zoneOfCell (mobCell x y) := by
  have hplane : (if planeLevelInc < y then y / planeLevelInc else 0) = y / planeLevelInc := by
    unfold planeLevelInc at hy ⊢
    split <;> omega
  have hrow : y - y / planeLevelInc * planeLevelInc = y % planeLevelInc := by
    unfold planeLevelInc
    omega
  unfold serverFindZone zoneOfCell mobCell
  rw [hplane, tileRow_eq]
  dsimp only
  rw [hrow]
  unfold tilePlane
  by_cases hin : zoneMaxX ≤ x ∨ zoneMaxY ≤ y % planeLevelInc
  · rw [if_pos hin, if_neg (by omega)]
  · rw [if_neg hin]
    by_cases hhigh : zoneMaxPlane ≤ y / planeLevelInc
    · rw [if_pos hhigh, if_neg (by omega)]
    · rw [if_neg hhigh, if_pos (by omega)]
      rfl

/-! ## Stairs -/

variable {w : World} {i : Nat}

theorem playerY_changelevelup : playerY (scriptChangelevelup w i) i =
    (playerY w i).map fun y => if y < planeInc * 3 then y + planeInc else y - planeInc * 3 := by
  unfold playerY scriptChangelevelup
  rw [players_modifyPlayer, if_pos rfl, Option.map_map, Option.map_map]
  rfl

/-- A teleport leaves the player where it was sent. -/
theorem playerY_teleport (hlive : (w.players i).isSome) (x y : Nat) :
    playerY (playerTeleport w i x y) i = some (y % 65536) := by
  obtain ⟨p, hp⟩ := Option.isSome_iff_exists.1 hlive
  have hkeep : ∀ {w : World} (r : MobRef) {f : World.Mob → World.Mob}, (∀ m, (f m).y = m.y) →
      playerY w i = some (y % 65536) → playerY (w.modify r f) i = some (y % 65536) := by
    intro w r f hf h
    have hmap := map_mob?_modify w r (.player i) hf
    simp only [mob?_player, Option.map_map] at hmap
    exact hmap.trans h
  have hkeep' : ∀ {w : World} (k : Nat) {f : World.Player → World.Player},
      (∀ p, (f p).mob.y = p.mob.y) → playerY w i = some (y % 65536) →
        playerY (w.modifyPlayer k f) i = some (y % 65536) := by
    intro w k f hf h
    have hmap := map_mob?_modifyPlayer w k (.player i) hf
    simp only [mob?_player, Option.map_map] at hmap
    exact hmap.trans h
  have hsent : playerY (w.modify (.player i) fun m => { m with x := x % 65536, y := y % 65536 }) i =
      some (y % 65536) := by
    simp [playerY, World.modify, World.modifyPlayer, hp]
  unfold playerTeleport
  rw [hp]
  dsimp only
  refine hkeep' i (fun _ => rfl) ?_
  have hreset : playerY (((w.modify (.player i) fun m =>
      { m with x := x % 65536, y := y % 65536 }).resetTargets (.player i)
        World.Mob.clearQueue).modify (.player i) World.Mob.combatReset) i = some (y % 65536) :=
    hkeep _ (fun _ => rfl) (resetTargets_of (I := fun w => playerY w i = some (y % 65536))
      (f := World.Mob.clearQueue) (fun r h => hkeep r (fun _ => rfl) h) hsent _)
  unfold playerMoved
  split
  · exact hreset
  · have hzones : ∀ {w : World}, playerY w i = some (y % 65536) → ∀ old new,
        playerY (changeZone (fun w zone => w.zoneRemovePlayer zone i)
          (fun w zone => w.zoneAddPlayer zone i) w old new) i = some (y % 65536) := by
      intro w h old new
      refine changeZone_of (I := fun w => playerY w i = some (y % 65536)) (fun w zone hw => ?_)
        (fun w zone hw => ?_) h old new
      · exact hw
      · exact hw
    dsimp only
    split
    · exact hzones hreset _ _
    · split
      · exact hzones hreset _ _
      · split
        · exact hzones hreset _ _
        · exact hkeep' i (fun _ => rfl) (hzones hreset _ _)

theorem playerY_changeleveldown {y : Nat} (h : playerY w i = some y) :
    playerY (scriptChangeleveldown w i) i =
      some ((if planeInc < y then y - planeInc else y + planeInc * 3) % 65536) := by
  unfold scriptChangeleveldown
  cases hp : w.players i with
  | none => simp [playerY, hp] at h
  | some p =>
      have hy : p.mob.y = y := by simpa [playerY, hp] using h
      dsimp only
      rw [playerY_teleport (by rw [hp]; rfl), hy]

/-! ## Where they agree -/

theorem playerY_up_down {y : Nat} (hy : y < planeLevelInc * 4) (hne : y % planeLevelInc ≠ 0)
    (h : playerY w i = some y) :
    playerY (scriptChangeleveldown (scriptChangelevelup w i) i) i = some y := by
  have hup : playerY (scriptChangelevelup w i) i =
      some (if y < planeInc * 3 then y + planeInc else y - planeInc * 3) := by
    rw [playerY_changelevelup, h, Option.map_some]
  rw [playerY_changeleveldown hup]
  have hinc : planeInc = 944 := rfl
  unfold planeLevelInc at hy hne
  rw [Option.some.injEq]
  by_cases hlow : y < planeInc * 3
  · rw [if_pos hlow, if_pos (by omega)]
    omega
  · rw [if_neg hlow, if_neg (by omega)]
    omega

theorem playerY_down_up {y : Nat} (hy : y < planeLevelInc * 4) (h : playerY w i = some y) :
    playerY (scriptChangelevelup (scriptChangeleveldown w i) i) i = some y := by
  rw [playerY_changelevelup, playerY_changeleveldown h, Option.map_some]
  have hinc : planeInc = 944 := rfl
  unfold planeLevelInc at hy
  rw [Option.some.injEq]
  by_cases hhigh : planeInc < y
  · rw [if_pos hhigh, if_pos (by omega)]
    omega
  · rw [if_neg hhigh, if_neg (by omega)]
    omega

theorem planes_agree {y : Nat} (hy : y < planeLevelInc * 4) (hne : y % planeLevelInc ≠ 0) :
    PlanesAgree y where
  zone := serverFindZone_eq hne
  loc := by
    rintro loc config rfl
    rw [footprint_eq, planeRow_eq hne, mobCell, tileRow_eq]
    rfl
  bound := by
    rintro bound rfl
    unfold boundCell mobCell
    rw [planeRow_eq hne, tileRow_eq]
    dsimp only
    by_cases hnorth : bound.dir = 0
    · simp [hnorth, tilePlane]
    · by_cases heast : bound.dir = 1
      · simp [heast, tilePlane]
      · simp [hnorth, heast, tilePlane]
  item := by
    intro s owner x id stack
    unfold serverAddTempItem mobCell
    rw [planeRow_eq hne, tileRow_eq]
    exact ⟨_, rfl, rfl⟩
  blocked := by
    intro g x
    unfold scriptBlocked mobCell
    rw [planeRow_eq hne, tileRow_eq]
    dsimp only
    cases (serverFindLoc g x y).isSome <;> rfl
  downUp := fun _ _ h => playerY_up_down hy hne h
  upDown := fun _ _ h => playerY_down_up hy h

/-- Below the stairs of the first row there is no way back up. -/
theorem not_planesAgree_zero : ¬ PlanesAgree 0 := by
  intro hagree
  have h := hagree.downUp ⟨fun _ => some { mob := { x := 0, y := 0 } }, fun _ => none, 0, 0, 0,
    fun _ => [], fun _ => [], [], []⟩ 0 rfl
  rw [playerY_changeleveldown (y := planeLevelInc) rfl] at h
  exact absurd h (by decide)

/-- The first row of a plane above is the row past the last of the one below for
what subtracts, and not for what divides. -/
theorem not_planesAgree_first {k : Nat} (hk : 0 < k) (hhigh : k < 4) :
    ¬ PlanesAgree (planeLevelInc * k) := by
  intro hagree
  have h := hagree.bound ⟨0, 0, planeLevelInc * k, 2⟩ rfl
  obtain rfl | rfl | rfl : k = 1 ∨ k = 2 ∨ k = 3 := by omega
  · exact absurd h (by decide)
  · exact absurd h (by decide)
  · exact absurd h (by decide)

theorem planes_agree_iff (y : Nat) (hy : y < planeLevelInc * 4) :
    PlanesAgree y ↔ y % planeLevelInc ≠ 0 := by
  refine ⟨fun hagree hfirst => ?_, planes_agree hy⟩
  obtain ⟨k, rfl⟩ := Nat.dvd_of_mod_eq_zero hfirst
  have hhigh : k < 4 := Nat.lt_of_mul_lt_mul_left hy
  by_cases hk : k = 0
  · subst hk
    exact not_planesAgree_zero hagree
  · exact not_planesAgree_first (Nat.pos_of_ne_zero hk) hhigh hagree

theorem planes_agree_iff_second_row : 945 < planeLevelInc * 4 ∧ PlanesAgree 945 :=
  ⟨by decide, (planes_agree_iff 945 (by decide)).2 (by decide)⟩

/-- The first row above the ground is in no zone, though a mob on it looks at the
first row of the plane above. -/
theorem plane_below_first_row : serverFindZone 0 944 = none ∧
    zoneOfCell (mobCell 0 944) = some ⟨0, 0, 1⟩ ∧ ¬ PlanesAgree 944 := by
  refine ⟨by decide, by decide, fun hagree => ?_⟩
  have h := hagree.zone 0
  exact absurd h (by decide)

end Sundae.Proofs
