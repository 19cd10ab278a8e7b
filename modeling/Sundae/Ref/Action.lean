import Sundae.Ref.Inventory

/-!
# Dropping, taking and shooting

The cases `ACTION_INV_DROP` and `ACTION_ITEM_TAKE` of `player_process_action`,
`player_takeobject` and `player_consume_ammo`. An action waits, with nothing
changed, while its player still walks; what is below is the turn on which it
is carried out. A take that a script intercepts is not one.
-/

namespace Sundae.Ref

/-- `ACTION_INV_DROP` of slot `slot`. -/
def playerActionInvDrop (t : ItemTable) (s : Server) (i slot : Nat) : Except Assert Server :=
  let p := s.get i
  match p.inventory[slot]? with
  | none => .ok s
  | some x =>
    if p.uiTradeOpen then .ok s
    else
      match t.byId x.id with
      | none => .error .itemConfig
      | some _ =>
        match playerInvRemoveId t s i x.id x.stack with
        | .error a => .error a
        | .ok s => .ok (serverAddTempItem s (some i) p.mob.x p.mob.y x.id x.stack)

/-- `player_takeobject` -/
def playerTakeobject (t : ItemTable) (s : Server) (i : Nat) (ref : GroundRef)
    (item : GroundItem) : Except Assert Server :=
  match t.byId item.id with
  | none => .error .itemConfig
  | some config =>
    let s := playerInvGive s i config item.stack
    if item.respawn then
      .ok (s.modifyGround
        (fun item => { item with respawnTime := s.tickCounter + config.respawnRate / 5 }) ref)
    else .ok (serverRemoveTempItem s item.uniqueId)

/-- `ACTION_ITEM_TAKE` of `action_item`. -/
def playerActionItemTake (t : ItemTable) (s : Server) (i x y id : Nat) : Except Assert Server :=
  match serverFindGroundItem s i x y id with
  | none => .ok s
  | some ref =>
    match s.groundAt ref, t.byId id with
    | some item, some config =>
      if !playerCanSeeItem s i item then .ok s
      else if maxInvSize ≤ (s.get i).inventory.length ∧
          (0 < config.weight ∨ !invHeldId config id 1 (s.get i).inventory) then .ok s
      else playerTakeobject t s i ref item
    | _, _ => .ok s

/-- `player_consume_ammo` for a projectile whose ammunition is `name`, shot at
the tile `x`, `y`. `kept` says that `server_random()` was at least a half, so
that the ammunition did not break. -/
def playerConsumeAmmo (t : ItemTable) (s : Server) (i : Nat) (name : List Char) (x y : Nat)
    (kept : Bool) : Except Assert (Server × Bool) :=
  match t.byName name with
  | none => .ok (s, true)
  | some ammoConfig =>
    match playerInvHeld t s i name 1 with
    | .error a => .error a
    | .ok false => .ok (s, false)
    | .ok true =>
      match playerInvRemove t s i name 1 with
      | .error a => .error a
      | .ok s =>
        if kept then
          match serverFindGroundItem s i x y ammoConfig.id with
          | some ref => .ok (s.modifyGround
              (fun item => { item with stack := (item.stack + 1) % u32Size }) ref, true)
          | none => .ok (serverAddTempItem s (some i) x y ammoConfig.id 1, true)
        else .ok (s, true)

/-- What happens to items on the ground. -/
inductive GroundEvent where
  | drop (i slot : Nat)
  | take (i x y id : Nat)
  | shoot (i : Nat) (name : List Char) (x y : Nat) (kept : Bool)
  | expire

/-- One of them, if the player is there. -/
def groundStep (t : ItemTable) (s : Server) : GroundEvent → Except Assert Server
  | .drop i slot => if s.live i then playerActionInvDrop t s i slot else .ok s
  | .take i x y id => if s.live i then playerActionItemTake t s i x y id else .ok s
  | .shoot i name x y kept =>
    if s.live i then
      match playerConsumeAmmo t s i name x y kept with
      | .error a => .error a
      | .ok (s, _) => .ok s
    else .ok s
  | .expire => .ok (serverExpireItems s)

end Sundae.Ref
