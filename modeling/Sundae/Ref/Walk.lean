import Sundae.Ref.Buffer
import Sundae.Ref.Tick

/-!
# Walk packets, and one movement update after another

What `OP_CLI_WALK_TILE` and `OP_CLI_WALK_ENTITY` read from their packet, and the
events of the world in the order `server_tick` has them in: every NPC moves once
in a tick, before the players have their turns, and the tick ends after the
movement updates.
-/

namespace Sundae.Ref.World

/-- `WALK_QUEUE_LEN` -/
def walkQueueLen : Nat := 16

/-- `(uint16_t)(start + (int8_t)off)` -/
def shifted (start off : Nat) : Nat := (((start : Int) + (off : Int).bmod 256) % 65536).toNat

/-- The loop over the steps, which returns from the handler if the packet is over. -/
def readSteps (b : List Nat) (startX startY : Nat) : Nat → Nat → Option (List (Nat × Nat))
  | 0, _ => some []
  | n + 1, offset =>
    match bufGetu8 b offset, bufGetu8 b (offset + 1) with
    | some offX, some offY =>
      (readSteps b startX startY n (offset + 2)).map
        ((shifted startX offX, shifted startY offY) :: ·)
    | _, _ => none

/-- What a walk packet puts into the queue, from the first slot on. -/
def readWalk (data : List UInt8) : Option (List (Nat × Nat)) :=
  let b := data.map UInt8.toNat
  if b.length < 5 then none
  else
    match bufGetu16 b 1, bufGetu16 b 3 with
    | some startX, some startY =>
      let steps := min ((b.length - 5) / 2) (walkQueueLen - 1)
      (readSteps b startX startY steps 5).map ((startX, startY) :: ·)
    | _, _ => none

/-- The walk packets, as they come in. -/
def opWalk (w : World) (i : Nat) (entity : Bool) (data : List UInt8) : World :=
  match readWalk data with
  | none => w
  | some queue => if entity then opWalkEntity w i queue else opWalkTile w i queue

/-- The walk that an event processes: whose it is, and what the map says of the
step. -/
def Event.walk (w : World) : Event → Option (MobRef × Path)
  | .playerMovement i path => some (.player i, path)
  | .npcMovement j t => some (.npc j, t.path)
  | .hookReturn _ c =>
    match w.frames with
    | .npcTalk _ j _ _ :: _ => some (.npc j, c.path)
    | _ => none
  | _ => none

/-- Part of a player's turn in `server_tick`. -/
def Event.playerTurn (w : World) : Event → Bool
  | .playerCombat _ _ | .playerAction _ _ | .playerMovement _ _ => true
  | .hookReturn _ _ =>
    match w.frames with
    | .npcTalk _ _ _ _ :: _ => true
    | _ => false
  | _ => false

/-- A tick as far as it is: the mobs whose movement has been processed, and whether
the players have their turns. `stepped` is not of the source: it has the mobs that
have walked since the last movement updates. -/
structure Clock where
  world : World
  processed : List MobRef := []
  playersTurn : Bool := false
  stepped : List MobRef := []

inductive ClockEvent where
  | walk (i : Nat) (entity : Bool) (data : List UInt8)
  /-- Anything but a walk packet. -/
  | other (e : Event)

/-- The event has had its turn in this tick, or is a walk packet that was not read. -/
def Event.late (k : Clock) : Event → Bool
  | .playerMovement i _ => k.processed.contains (.player i)
  | .npcMovement j _ => k.playersTurn || k.processed.contains (.npc j)
  | .npcCombat _ _ => k.playersTurn
  | .walkTile _ _ | .walkEntity _ _ => true
  | _ => false

def tileOf (w : World) (r : MobRef) : Option (Nat × Nat) := (w.mob? r).map fun m => (m.x, m.y)

def clockStep (k : Clock) : ClockEvent → Except Fault Clock
  | .walk i entity data =>
    if k.world.frames.isEmpty then .ok { k with world := opWalk k.world i entity data }
    else .error .turn
  | .other e =>
    if e.late k then .error .turn
    else
      match step k.world e with
      | .error f => .error f
      | .ok w =>
        match e with
        | .endTick _ => .ok { world := w }
        | _ => .ok {
            world := w
            processed := match e with
              | .playerMovement i _ => .player i :: k.processed
              | .npcMovement j _ => .npc j :: k.processed
              | _ => k.processed
            playersTurn := k.playersTurn || e.playerTurn k.world
            stepped := match e.walk k.world with
              | some (r, _) =>
                if tileOf k.world r = tileOf w r then k.stepped else r :: k.stepped
              | none => k.stepped }

end Sundae.Ref.World
