import Sundae.Ref.Mob

/-!
# What the map says of a step

`mob_check_collision` and `mob_check_reachable`, and the script function
`blocked`. The collision check is given with the cells of the grid it looks at,
in order: an index outside the array is a cell too, so that it can be seen.
-/

namespace Sundae.Ref

/-- `block`, `block_v` and `block_h` -/
structure BlockFlags where
  block : BitVec 8
  blockV : BitVec 8
  blockH : BitVec 8

def blockFlags (sight : Bool) : BlockFlags :=
  if sight then ⟨adjBlockSight, adjBlockSightVert, adjBlockSightHoriz⟩
  else ⟨adjBlockFull, adjBlockVert, adjBlockHoriz⟩

/-- The conditions of one `if`, joined by `&&`: whether all hold, and the cells
looked at until one does not. -/
def testAll (adjacency : Cell → BitVec 8) : List (Cell × BitVec 8) → Bool × List Cell
  | [] => (true, [])
  | (c, flag) :: rest =>
    if adjacency c &&& flag ≠ 0 then
      let (hit, seen) := testAll adjacency rest
      (hit, c :: seen)
    else (false, [c])

/-- One `if` after another, until one returns true. -/
def testAny (adjacency : Cell → BitVec 8) : List (List (Cell × BitVec 8)) → Bool × List Cell
  | [] => (false, [])
  | test :: tests =>
    let (hit, seen) := testAll adjacency test
    if hit then (true, seen)
    else
      let (hit, later) := testAny adjacency tests
      (hit, seen ++ later)

namespace World

/-- `switch (dir)` of `mob_check_collision`. -/
def stepTests (f : BlockFlags) (plane curX x : Nat) (cy ty : Int) :
    Dir → List (List (Cell × BitVec 8))
  | .north => [[(⟨plane, x, ty⟩, f.blockV)]]
  | .south => [[(⟨plane, x, cy⟩, f.blockV)]]
  | .east => [[(⟨plane, x, ty⟩, f.blockH)]]
  | .west => [[(⟨plane, curX, ty⟩, f.blockH)]]
  | .northwest => [
      [(⟨plane, curX + 1, cy⟩, f.block)],
      [(⟨plane, curX, cy - 1⟩, f.block)],
      [(⟨plane, curX, cy⟩, f.blockH), (⟨plane, curX, cy - 1⟩, f.blockV)],
      [(⟨plane, curX, cy⟩, f.blockH), (⟨plane, curX, cy - 1⟩, f.blockH)],
      [(⟨plane, curX + 1, cy - 1⟩, f.blockV), (⟨plane, curX, cy - 1⟩, f.blockH)],
      [(⟨plane, curX + 1, cy - 1⟩, f.blockV), (⟨plane, curX, cy - 1⟩, f.blockV)]]
  | .northeast => [
      [(⟨plane, (curX : Int) - 1, cy⟩, f.block)],
      [(⟨plane, curX, cy - 1⟩, f.block)],
      [(⟨plane, (curX : Int) - 1, cy - 1⟩, f.blockH), (⟨plane, (curX : Int) - 1, cy - 1⟩, f.blockV)],
      [(⟨plane, (curX : Int) - 1, cy⟩, f.blockH), (⟨plane, (curX : Int) - 1, cy - 1⟩, f.blockH)],
      [(⟨plane, (curX : Int) - 1, cy - 1⟩, f.blockV), (⟨plane, curX, cy - 1⟩, f.blockV)],
      [(⟨plane, curX, cy - 1⟩, f.blockV), (⟨plane, (curX : Int) - 1, cy⟩, f.blockH)]]
  | .southwest => [
      [(⟨plane, curX + 1, cy⟩, f.block)],
      [(⟨plane, curX, cy + 1⟩, f.block)],
      [(⟨plane, curX, cy⟩, f.blockH), (⟨plane, curX, cy⟩, f.blockV)],
      [(⟨plane, curX, cy⟩, f.blockV), (⟨plane, curX + 1, cy⟩, f.blockV)],
      [(⟨plane, curX, cy⟩, f.blockH), (⟨plane, curX, cy + 1⟩, f.blockH)],
      [(⟨plane, curX + 1, cy⟩, f.blockV), (⟨plane, curX, cy + 1⟩, f.blockH)]]
  | .southeast => [
      [(⟨plane, (curX : Int) - 1, cy⟩, f.block)],
      [(⟨plane, curX, cy + 1⟩, f.block)],
      [(⟨plane, (curX : Int) - 1, cy + 1⟩, f.blockH), (⟨plane, (curX : Int) - 1, cy⟩, f.blockV)],
      [(⟨plane, curX, cy⟩, f.blockV), (⟨plane, (curX : Int) - 1, cy⟩, f.blockV)],
      [(⟨plane, (curX : Int) - 1, cy⟩, f.blockH), (⟨plane, (curX : Int) - 1, cy + 1⟩, f.blockH)],
      [(⟨plane, curX, cy⟩, f.blockV), (⟨plane, (curX : Int) - 1, cy⟩, f.blockH)]]
  | .combatLeft | .combatRight => []

/-- What `server_npc_on_tile`, with `hard` and without, and
`server_player_on_tile` say of a tile. -/
structure OnTile where
  hardNpc : Nat → Nat → Bool := fun _ _ => false
  npc : Nat → Nat → Bool := fun _ _ => false
  player : Nat → Nat → Bool := fun _ _ => false

/-- `plane` and `cy` of `mob_check_collision`. -/
def tilePlane (curY : Nat) : Nat := curY / planeLevelInc

def tileRow (curY : Nat) : Int := (curY : Int) - tilePlane curY * planeLevelInc

/-- `mob_check_collision`, with what it reads of the mob: whether it is an NPC,
and `action_walk`. -/
def mobCheckCollision (adjacency : Cell → BitVec 8) (on : OnTile) (isNpc actionWalk : Bool)
    (curX curY x y : Nat) (dir : Dir) (sight : Bool) : Bool × List Cell :=
  let plane := tilePlane curY
  let cy := tileRow curY
  let ty : Int := y - plane * planeLevelInc
  let f := blockFlags sight
  if zoneMaxX ≤ x ∨ (zoneMaxY : Int) ≤ ty ∨ zoneMaxPlane ≤ plane then (true, [])
  else
    let c : Cell := ⟨plane, x, ty⟩
    if adjacency c &&& f.block ≠ 0 then (true, [c])
    -- players are prevented from walking through other players
    else if !sight && !actionWalk && on.hardNpc x y then (true, [c])
    else if isNpc && !sight && !actionWalk && (on.npc x y || on.player x y) then (true, [c])
    else
      let (hit, seen) := testAny adjacency (stepTests f plane curX x cy ty dir)
      (hit, c :: seen)

/-- The loop of `mob_check_reachable`, with `turns` turns left; `none` is a loop
that goes on. The steps that are not to be taken are those of `collision`. -/
def reachableLoop (collision : Nat → Nat → Nat → Nat → Dir → Bool) (x y : Nat) :
    Nat → Nat → Nat → Dir → Option Bool
  | turns, curX, curY, curDir =>
    if curX = x ∧ curY = y then some true
    else
      match turns with
      | 0 => none
      | turns + 1 =>
        let (nextX, nextY, dir) := mobNextStep curX curY curDir x y
        if collision curX curY nextX nextY dir then some false
        else reachableLoop collision x y turns nextX nextY dir

/-- `mob_check_reachable` -/
def mobCheckReachable (collision : Nat → Nat → Nat → Nat → Dir → Bool) (m : Mob) (x y turns : Nat) :
    Option Bool :=
  reachableLoop collision x y turns m.x m.y m.dir

end World

/-- `script_blocked` -/
def scriptBlocked (g : Grid) (x y : Nat) : Bool :=
  if (serverFindLoc g x y).isSome then true
  else
    let (plane, row) := planeRow y 0 y
    g.adjacency ⟨plane, x, row⟩ != 0

end Sundae.Ref
