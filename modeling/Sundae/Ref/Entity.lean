import Sundae.Ref.Config

/-!
# Players, ground items and the server

The parts of `struct player`, `struct ground_item` and `struct server` that
the modelled functions read or write, under the source's names. A slot number
stands for the `struct player *` it indexes: C passes a pointer and reads
through it at every use, so a function here takes the slot and goes through
`Server.get` and `Server.modify` at every use. That keeps C's aliasing: when
two of a function's pointers are the same player, so are its two slots.

The sentinel `-1` of `trading_player` and `UINT16_MAX` of `owner` are `none`.
Arrays with a count beside them (`inventory` and `inv_count`) are lists.
-/

namespace Sundae.Ref

/-- What `assert` stops the server for. -/
inductive Assert where
  /-- `assert(item != NULL)` or `assert(config != NULL)` -/
  | itemConfig
  /-- `assert(p->trading_player != -1)` -/
  | tradingPlayer
  /-- `assert(partner != NULL)` -/
  | partner
  /-- `assert(config != NULL)` for a location -/
  | locConfig
  /-- `assert(config != NULL)` for a boundary -/
  | boundConfig
  deriving DecidableEq, Repr

inductive LoginStage where
  | zero
  | session
  | gotLogin
  deriving DecidableEq, Repr

inductive TradeState where
  | none
  | accepted
  | confirmed
  deriving DecidableEq, Repr

structure Mob where
  x : Nat
  y : Nat
  deriving DecidableEq, Repr

structure InvItem where
  id : Nat
  stack : Nat
  worn : Bool := false
  deriving DecidableEq, Repr

namespace InvItem

def setStack (x : InvItem) (stack : Nat) : InvItem := { x with stack := stack }

variable (x : InvItem) (stack : Nat)

@[simp] theorem setStack_id : (x.setStack stack).id = x.id := rfl
@[simp] theorem setStack_stack : (x.setStack stack).stack = stack := rfl
@[simp] theorem setStack_worn : (x.setStack stack).worn = x.worn := rfl

end InvItem

structure BankItem where
  id : Nat
  amount : Nat
  deriving DecidableEq, Repr

namespace BankItem

def setAmount (b : BankItem) (amount : Nat) : BankItem := { b with amount := amount }

variable (b : BankItem) (amount : Nat)

@[simp] theorem setAmount_id : (b.setAmount amount).id = b.id := rfl
@[simp] theorem setAmount_amount : (b.setAmount amount).amount = amount := rfl

end BankItem

structure GroundItem where
  id : Nat
  x : Nat
  y : Nat
  owner : Option Nat
  stack : Nat
  respawn : Bool
  onSurface : Bool
  creationTime : Nat
  respawnTime : Nat
  uniqueId : Nat
  deriving DecidableEq, Repr

/-- `struct player`, as `player_create` fills it. `isaacSeed` and `isaacCount`
stand for the state of `isaac_in`: its key, and how much it has given.
`loginOk` is not a field of the source: it records that `RESP_LOGIN_OK` was
sent on this connection. -/
structure Player where
  mob : Mob := ⟨0, 0⟩
  name : Int := -1
  tradingPlayer : Option Nat := none
  protocolRev : Nat := 0
  loginStage : LoginStage := .zero
  password : List Nat := []
  isaacSeed : List Nat := []
  isaacCount : Nat := 0
  isaacReady : Bool := false
  uiBankOpen : Bool := false
  uiTradeOpen : Bool := false
  blockPrivate : Bool := false
  blockTrade : Bool := false
  logoutConfirmed : Bool := false
  friendList : List Int := []
  ignoreList : List Int := []
  inventory : List InvItem := []
  tradeOffer : List InvItem := []
  partnerOfferChanged : Bool := false
  tradeState : TradeState := .none
  bank : List BankItem := []
  loginOk : Bool := false
  deriving DecidableEq, Repr

/-- What the database keeps of a player's items between two sessions. -/
structure Stored where
  inventory : List InvItem
  bank : List BankItem
  deriving DecidableEq, Repr

/-- An `OP_SRV_FRIEND_UPDATE` sent to the player in slot `slot`. -/
structure Notice where
  slot : Nat
  name : Int
  online : Bool
  deriving DecidableEq, Repr

/-- `struct server`. The item arrays of all zones are one list, `zoneItems`,
in zone order: `server_add_item_respawn` puts a spawn into the zone of its own
tile and `server_find_ground_item` looks a tile's items up in that same zone,
so which zone a spawn sits in never decides anything. `stored` is every
inventory and bank a save has written, `notices` the friend updates sent. -/
structure Server where
  players : Nat → Option Player := fun _ => none
  maxPlayerId : Nat := 0
  tickCounter : Nat := 0
  adjacency : Nat → Nat → Nat → Nat := fun _ _ _ => 0
  tempItems : List GroundItem := []
  zoneItems : List GroundItem := []
  groundItemCounter : Nat := 0
  stored : List Stored := []
  notices : List Notice := []

namespace Server

/-- `s.players[i] != NULL`. -/
def live (s : Server) (i : Nat) : Prop := (s.players i).isSome = true

instance (s : Server) (i : Nat) : Decidable (s.live i) :=
  inferInstanceAs (Decidable (_ = true))

/-- Read through the pointer of slot `i`. -/
def get (s : Server) (i : Nat) : Player := (s.players i).getD {}

/-- Write through the pointer of slot `i`. -/
def modify (s : Server) (i : Nat) (f : Player → Player) : Server :=
  { s with players := fun j => if j = i then (s.players i).map f else s.players j }

variable {s : Server} {i j : Nat} {f : Player → Player}

@[simp] theorem modify_maxPlayerId : (s.modify i f).maxPlayerId = s.maxPlayerId := rfl
@[simp] theorem modify_tickCounter : (s.modify i f).tickCounter = s.tickCounter := rfl
@[simp] theorem modify_adjacency : (s.modify i f).adjacency = s.adjacency := rfl
@[simp] theorem modify_tempItems : (s.modify i f).tempItems = s.tempItems := rfl
@[simp] theorem modify_zoneItems : (s.modify i f).zoneItems = s.zoneItems := rfl
@[simp] theorem modify_groundItemCounter :
    (s.modify i f).groundItemCounter = s.groundItemCounter := rfl
@[simp] theorem modify_stored : (s.modify i f).stored = s.stored := rfl
@[simp] theorem modify_notices : (s.modify i f).notices = s.notices := rfl

@[simp] theorem live_modify : (s.modify i f).live j ↔ s.live j := by
  unfold live modify
  by_cases h : j = i
  · subst h; simp
  · simp [h]

theorem get_modify :
    (s.modify i f).get j = if j = i ∧ s.live i then f (s.get i) else s.get j := by
  by_cases h : j = i
  · subst h
    simp only [get, modify, live, if_true, true_and]
    cases s.players j <;> rfl
  · simp only [get, modify, h, false_and, if_false]

theorem get_modify_self (hi : s.live i) : (s.modify i f).get i = f (s.get i) := by
  rw [get_modify, if_pos ⟨rfl, hi⟩]

theorem get_modify_ne (h : j ≠ i) : (s.modify i f).get j = s.get j := by
  rw [get_modify, if_neg (fun hc => h hc.1)]

theorem modify_modify {g : Player → Player} :
    (s.modify i f).modify i g = s.modify i fun p => g (f p) := by
  unfold modify
  congr 1
  funext j
  by_cases h : j = i
  · simp [h, Function.comp_def]
  · simp [h]

/-- A write is what it does to the player that is there. -/
theorem modify_congr {g : Player → Player} (h : f (s.get i) = g (s.get i)) :
    s.modify i f = s.modify i g := by
  unfold modify
  congr 1
  funext j
  unfold get at h
  cases hp : s.players i with
  | none => rfl
  | some p =>
      rw [hp] at h
      simp only [Option.map_some]
      rw [show f p = g p from h]

/-- Writing what is there changes nothing. -/
theorem modify_eq_self (h : f (s.get i) = s.get i) : s.modify i f = s := by
  have hplayers : (s.modify i f).players = s.players := by
    funext j
    unfold get at h
    by_cases hj : j = i
    · subst hj
      cases hp : s.players j with
      | none => simp [modify, hp]
      | some p =>
          rw [hp] at h
          simpa [modify, hp] using h
    · simp [modify, hj]
  show { s with players := (s.modify i f).players } = s
  rw [hplayers]

/-- A write that a field does not see leaves every player's field alone. -/
theorem get_modify_field {β : Type} (π : Player → β) (h : ∀ p, π (f p) = π p) :
    π ((s.modify i f).get j) = π (s.get j) := by
  rw [get_modify]
  split
  · next hc => rw [h, hc.1]
  · rfl

theorem get_of_not_live (h : ¬ s.live i) : s.get i = {} := by
  unfold live at h
  unfold get
  cases hp : s.players i with
  | none => rfl
  | some p => rw [hp] at h; exact absurd rfl h

end Server

end Sundae.Ref
