import Sundae.Ref.Incoming
import Sundae.Ref.Inventory

/-!
# Trading

`trade.c`, the cases of the switch that call it, the packets of `outgoing.c`
it sends, `player_close_ui`, `player_clear_actions`, and the messages about a
changed offer at the end of `server_tick`. Of the packets only the assertions
are kept: what they say nobody reads back.
-/

namespace Sundae.Ref

/-! ## Closing -/

/-- `player_close_ui`; `player_send_close_bank` clears `ui_bank_open`. -/
def Player.closeUi (p : Player) : Player :=
  { p with
    uiBankOpen := false, tradeState := .none, tradingPlayer := none, tradeOffer := []
    uiTradeOpen := false }

/-- `player_clear_actions`: the window stays open. -/
def Player.clearActions (p : Player) : Player := { p with tradingPlayer := none }

def playerCloseUi (s : Server) (i : Nat) : Server := s.modify i Player.closeUi

def playerClearActions (s : Server) (i : Nat) : Server := s.modify i Player.clearActions

/-! ## Packets -/

/-- The assertions of `player_send_partner_trade_offer`,
`player_send_trade_state_remote` and `player_send_trade_confirm`. -/
def partnerAsserted (s : Server) (i : Nat) : Except Assert Unit :=
  match (s.get i).tradingPlayer with
  | none => .error .tradingPlayer
  | some j => if s.live j then .ok () else .error .partner

def playerSendPartnerTradeOffer (s : Server) (i : Nat) : Except Assert Unit := partnerAsserted s i

def playerSendTradeStateRemote (s : Server) (i : Nat) : Except Assert Unit := partnerAsserted s i

def playerSendTradeConfirm (s : Server) (i : Nat) : Except Assert Unit := partnerAsserted s i

def playerSendTradeOpen (s : Server) (i : Nat) : Except Assert Server :=
  if (s.get i).tradingPlayer = none then .error .tradingPlayer
  else .ok (s.modify i fun p => { p with uiTradeOpen := true })

/-! ## Requests -/

/-- `abs(a - (int)b) >= 4` -/
def tooFar (a b : Nat) : Bool := 4 ≤ ((a : Int) - b).natAbs

def playerTradeRequest (s : Server) (i target : Nat) : Except Assert Server :=
  if playerIsBlocked (s.get target) (s.get i).name (s.get target).blockTrade then .ok s
  else if tooFar (s.get i).mob.x (s.get target).mob.x ||
      tooFar (s.get i).mob.y (s.get target).mob.y then .ok s
  else
    let s := s.modify i fun p => { p with tradingPlayer := some target }
    if (s.get target).tradingPlayer ≠ some i then .ok s
    else
      match playerSendTradeOpen s i with
      | .error a => .error a
      | .ok s => playerSendTradeOpen s target

def opCliTradePlayer (s : Server) (i : Nat) (data : List Nat) : Except Assert Server :=
  match bufGetu16 data 1 with
  | none => .ok s
  | some id =>
    if s.maxPlayerId ≤ id then .ok s
    else if s.live id then playerTradeRequest s i id
    else .ok s

/-! ## Offers -/

/-- What a second offer of a stackable item makes of the first:
`(MAX_STACK_SIZE - stack) < amount` is in `uint32_t`. -/
def offerSum (stack amount : Nat) : Nat :=
  if (maxStackSize + u32Size - stack) % u32Size < amount then maxStackSize
  else (stack + amount) % u32Size

/-- One entry for every unit until the offer is full. -/
def offerUnits (id : Nat) : Nat → List InvItem → List InvItem
  | 0, offer => offer
  | n + 1, offer =>
    if maxOfferSize ≤ offer.length then offer
    else offerUnits id n (offer ++ [{ id := id, stack := 1 }])

/-- The second half of `player_trade_offer`: the new entries. -/
def offerAppend (config : ItemConfig) (inv : List InvItem) (id amount : Nat)
    (offer : List InvItem) : List InvItem :=
  if !invHeldId config id amount inv then offer
  else if config.weight ≠ 0 then offerUnits id amount offer
  else if maxOfferSize ≤ offer.length then offer
  else offer ++ [{ id := id, stack := amount }]

/-- `player_trade_offer` on the entries. The loop that finds the item already
offered ends with `break`, and what follows appends it once more. -/
def offerItem (config : ItemConfig) (inv : List InvItem) (id amount : Nat)
    (offer : List InvItem) : List InvItem :=
  if config.weight = 0 then
    match offer.findIdx? (·.id == id) with
    | none => offerAppend config inv id amount offer
    | some k =>
      let stack := offerSum (offer[k]?.elim 0 InvItem.stack) amount
      if invHeldId config id stack inv then
        offerAppend config inv id amount (offer.modify k (·.setStack stack))
      else offer
  else offerAppend config inv id amount offer

/-- "offer is about to change so unaccept the trade" -/
def unaccept (s : Server) (i partner : Nat) : Except Assert Server :=
  if (s.get i).tradeState = .none then .ok s
  else
    let s := s.modify i fun p => { p with tradeState := .none }
    match playerSendTradeStateRemote s partner with
    | .error a => .error a
    | .ok () => .ok s

def playerTradeOffer (t : ItemTable) (s : Server) (i id amount : Nat) : Except Assert Server :=
  match (s.get i).tradingPlayer, (s.get i).uiTradeOpen with
  | some partner, true =>
    if ¬ s.live partner then .ok s
    else
      match t.byId id with
      | none => .ok s
      | some config =>
        if (s.get i).tradeState = .confirmed ∨ (s.get partner).tradeState = .confirmed then .ok s
        else
          match unaccept s i partner with
          | .error a => .error a
          | .ok s =>
            match unaccept s partner i with
            | .error a => .error a
            | .ok s => .ok (s.modify i fun p =>
                { p with tradeOffer := offerItem config p.inventory id amount p.tradeOffer })
  | _, _ => .ok s

/-- The loop of `OP_CLI_TRADE_UPDATE` with `n` entries to go; whether it got
through them. -/
def tradeUpdateLoop (t : ItemTable) (i : Nat) (data : List Nat) :
    Nat → Nat → Server → Except Assert (Server × Bool)
  | 0, _, s => .ok (s, true)
  | n + 1, offset, s =>
    match bufGetu16 data offset, bufGetu32 data (offset + 2) with
    | some id, some amount =>
      match playerTradeOffer t s i id amount with
      | .error a => .error a
      | .ok s => tradeUpdateLoop t i data n (offset + 6) s
    | _, _ => .ok (s, false)

def opCliTradeUpdate (t : ItemTable) (s : Server) (i : Nat) (data : List Nat) :
    Except Assert Server :=
  match (s.get i).tradingPlayer, (s.get i).uiTradeOpen with
  | some partner, true =>
    if ¬ s.live partner then .ok s
    else
      let s := s.modify i fun p => { p with tradeOffer := [] }
      match bufGetu8 data 1 with
      | none => .ok s
      | some count =>
        match tradeUpdateLoop t i data count 2 s with
        | .error a => .error a
        | .ok (s, false) => .ok s
        | .ok (s, true) => .ok (s.modify partner fun p => { p with partnerOfferChanged := true })
  | _, _ => .ok s

/-! ## Consent -/

def playerTradeAccept (s : Server) (i : Nat) : Except Assert Server :=
  match (s.get i).tradingPlayer, (s.get i).uiTradeOpen with
  | some partner, true =>
    if ¬ s.live partner then .ok s
    else if (s.get i).tradeState ≠ .none then .ok s
    else
      let s := s.modify i fun p => { p with tradeState := .accepted }
      if (s.get partner).tradeState = .accepted then
        match playerSendPartnerTradeOffer s i, playerSendPartnerTradeOffer s partner,
          playerSendTradeConfirm s i, playerSendTradeConfirm s partner with
        | .ok (), .ok (), .ok (), .ok () => .ok s
        | .error a, _, _, _ | _, .error a, _, _ | _, _, .error a, _ | _, _, _, .error a => .error a
      else
        match playerSendTradeStateRemote s partner with
        | .error a => .error a
        | .ok () => .ok s
  | _, _ => .ok s

/-- The loops of `player_trade_finalize` that take an offer out of the
inventory of who made it. -/
def removeOffer (t : ItemTable) (i : Nat) : List InvItem → Server → Except Assert Server
  | [], s => .ok s
  | x :: offer, s =>
    match playerInvRemoveId t s i x.id x.stack with
    | .error a => .error a
    | .ok s => removeOffer t i offer s

/-- Its loops that give an offer to the other. -/
def giveOffer (t : ItemTable) (i : Nat) : List InvItem → Server → Except Assert Server
  | [], s => .ok s
  | x :: offer, s =>
    match t.byId x.id with
    | none => .error .itemConfig
    | some config => giveOffer t i offer (playerInvGive s i config x.stack)

/-- The four loops. Nothing in them touches an offer. -/
def tradeItems (t : ItemTable) (s : Server) (i partner : Nat) : Except Assert Server :=
  let offer := (s.get i).tradeOffer
  let partnerOffer := (s.get partner).tradeOffer
  match removeOffer t i offer s with
  | .error a => .error a
  | .ok s =>
    match removeOffer t partner partnerOffer s with
    | .error a => .error a
    | .ok s =>
      match giveOffer t partner offer s with
      | .error a => .error a
      | .ok s => giveOffer t i partnerOffer s

def playerTradeFinalize (t : ItemTable) (s : Server) (i : Nat) : Except Assert Server :=
  match (s.get i).tradingPlayer, (s.get i).uiTradeOpen with
  | some partner, true =>
    if ¬ s.live partner then .ok (playerCloseUi s i)
    else
      match tradeItems t s i partner with
      | .error a => .error a
      | .ok s => .ok (playerCloseUi (playerCloseUi s i) partner)
  | _, _ => .ok s

def playerTradeConfirm (t : ItemTable) (s : Server) (i : Nat) : Except Assert Server :=
  match (s.get i).tradingPlayer, (s.get i).uiTradeOpen with
  | some partner, true =>
    if ¬ s.live partner then .ok s
    else if (s.get i).tradeState ≠ .accepted then .ok s
    else
      let s := s.modify i fun p => { p with tradeState := .confirmed }
      if (s.get partner).tradeState = .confirmed then playerTradeFinalize t s i else .ok s
  | _, _ => .ok s

def playerTradeDecline (s : Server) (i : Nat) : Server :=
  match (s.get i).tradingPlayer, (s.get i).uiTradeOpen with
  | some partner, true =>
    if ¬ s.live partner then playerCloseUi s i
    else playerCloseUi (playerCloseUi s partner) i
  | _, _ => s

/-! ## The end of a tick -/

/-- The messages to those whose partner changed an offer, over the slots
listed. -/
def sendPartnerOffers (s : Server) : List Nat → Except Assert Unit
  | [] => .ok ()
  | i :: slots =>
    if s.live i ∧ (s.get i).loginStage = .gotLogin ∧ (s.get i).partnerOfferChanged then
      match playerSendPartnerTradeOffer s i with
      | .error a => .error a
      | .ok () => sendPartnerOffers s slots
    else sendPartnerOffers s slots

/-- The two loops at the end of `server_tick`, as far as trades go. -/
def serverFlushOffers (s : Server) : Except Assert Server :=
  match sendPartnerOffers s (List.range s.maxPlayerId) with
  | .error a => .error a
  | .ok () => .ok ((List.range s.maxPlayerId).foldl
      (fun s i => s.modify i fun p => { p with partnerOfferChanged := false }) s)

/-! ## What happens to trades -/

/-- The packets that have to do with trades. -/
inductive TradePacket where
  | player (data : List Nat)
  | update (data : List Nat)
  | accept
  | confirm
  | decline

def tradePacket (t : ItemTable) (s : Server) (i : Nat) : TradePacket → Except Assert Server
  | .player data => opCliTradePlayer s i data
  | .update data => opCliTradeUpdate t s i data
  | .accept => playerTradeAccept s i
  | .confirm => playerTradeConfirm t s i
  | .decline => .ok (playerTradeDecline s i)

/-- A player's side of a trade: the fields that only `trade.c`, `player_close_ui`,
`player_clear_actions`, the update packet and the end of a tick write, and
`login_stage`. -/
structure TradeSide where
  tradingPlayer : Option Nat := none
  uiTradeOpen : Bool := false
  tradeState : TradeState := .none
  tradeOffer : List InvItem := []
  partnerOfferChanged : Bool := false
  loginStage : LoginStage := .zero
  deriving DecidableEq, Repr

def Player.side (p : Player) : TradeSide :=
  ⟨p.tradingPlayer, p.uiTradeOpen, p.tradeState, p.tradeOffer, p.partnerOfferChanged, p.loginStage⟩

/-- A change of the server that leaves every side and the slots what they are:
what the rest of the source can do to it. -/
structure Unrelated where
  run : Server → Server
  sides : ∀ s i, ((run s).players i).map Player.side = (s.players i).map Player.side
  slots : ∀ s, (run s).maxPlayerId = s.maxPlayerId

/-- What happens to trades. A walk, a catch in combat and the closing of a shop
close the windows of one player, and a death clears the player's actions. -/
inductive TradeEvent where
  | connect
  | stage (i : Nat) (stage : LoginStage)
  | packet (i : Nat) (packet : TradePacket)
  | closeUi (i : Nat)
  | clearActions (i : Nat)
  | remove (i : Nat)
  | flush
  | world (change : Unrelated)

def tradeStep (t : ItemTable) (s : Server) : TradeEvent → Except Assert Server
  | .connect => .ok (playerCreate s)
  | .stage i stage => .ok (s.modify i fun p => { p with loginStage := stage })
  | .packet i packet => if s.live i then tradePacket t s i packet else .ok s
  | .closeUi i => .ok (playerCloseUi s i)
  | .clearActions i => .ok (playerClearActions s i)
  | .remove i => .ok (serverRemovePlayer s i)
  | .flush => serverFlushOffers s
  | .world change => .ok (change.run s)

end Sundae.Ref
