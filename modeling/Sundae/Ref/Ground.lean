import Sundae.Ref.Entity

/-!
# Items on the ground

`server_add_temp_item`, `server_remove_temp_item`, `server_find_ground_item`,
`player_can_see_item` and the expiry at the head of `server_tick`. Growing the
array is taken to succeed and to leave the items where a pointer finds them.
-/

namespace Sundae.Ref

/-- The plane of a tile and its row on that plane: `while (w_y >
PLANE_LEVEL_INC)`, with `n` turns left. -/
def planeRow : Nat → Nat → Nat → Nat × Nat
  | 0, plane, wY => (plane, wY)
  | n + 1, plane, wY =>
    if planeLevelInc < wY then planeRow n (plane + 1) (wY - planeLevelInc) else (plane, wY)

def serverAddTempItem (s : Server) (owner : Option Nat) (x y id stack : Nat) : Server :=
  let (plane, wY) := planeRow y 0 y
  let item : GroundItem :=
    { id := id, x := x, y := y, owner := owner, stack := stack, respawn := false
      onSurface := s.adjacency plane x wY / adjBlock % 2 == 1
      creationTime := s.tickCounter, respawnTime := 0, uniqueId := s.groundItemCounter }
  { s with tempItems := s.tempItems ++ [item], groundItemCounter := s.groundItemCounter + 1 }

/-- `server_add_temp_item` for one stack after another. -/
def addTempItems (owner : Option Nat) (x y id : Nat) : List Nat → Server → Server
  | [], s => s
  | stack :: rest, s =>
    addTempItems owner x y id rest (serverAddTempItem s owner x y id stack)

/-- A loop over an array that takes entries out by moving the rest down while
its index goes on: the entry that moves into a freed place is not looked at. -/
def sweep (gone : GroundItem → Bool) : List GroundItem → List GroundItem
  | [] => []
  | [a] => if gone a then [] else [a]
  | a :: b :: l => if gone a then b :: sweep gone l else a :: sweep gone (b :: l)

def serverRemoveTempItem (s : Server) (uniqueId : Nat) : Server :=
  { s with tempItems := sweep (·.uniqueId == uniqueId) s.tempItems }

/-- "remove stale temporary ground items", after the tick counter went up. -/
def serverExpireItems (s : Server) : Server :=
  let s := { s with tickCounter := s.tickCounter + 1 }
  { s with tempItems := sweep (fun a => a.creationTime + 200 ≤ s.tickCounter) s.tempItems }

def playerCanSeeItem (s : Server) (i : Nat) (item : GroundItem) : Bool :=
  if s.tickCounter < item.respawnTime then false
  -- "items appear to other players after 1 minute"
  else if item.creationTime + 100 < s.tickCounter then true
  else item.owner == some i || item.owner == none

/-- Which of the two item stores, and where in it. -/
inductive GroundRef where
  | zone (k : Nat)
  | temp (k : Nat)
  deriving DecidableEq, Repr

/-- `server_find_ground_item`: the first match in the zone's spawns, then the
first among the temporary items. -/
def serverFindGroundItem (s : Server) (i x y id : Nat) : Option GroundRef :=
  let wanted (item : GroundItem) :=
    playerCanSeeItem s i item && item.id == id && item.x == x && item.y == y
  match s.zoneItems.findIdx? wanted with
  | some k => some (.zone k)
  | none => (s.tempItems.findIdx? wanted).map .temp

namespace Server

/-- Read through the pointer to a ground item. -/
def groundAt (s : Server) : GroundRef → Option GroundItem
  | .zone k => s.zoneItems[k]?
  | .temp k => s.tempItems[k]?

/-- Write through the pointer to a ground item. -/
def modifyGround (s : Server) (f : GroundItem → GroundItem) : GroundRef → Server
  | .zone k => { s with zoneItems := s.zoneItems.modify k f }
  | .temp k => { s with tempItems := s.tempItems.modify k f }

end Server

end Sundae.Ref
