import Mathlib.Logic.Function.Basic
import Sundae.Proofs.Login
import Sundae.Proofs.Offer

/-!
# The two sides of a trade

What a trade is made of: a side for each slot that is taken, and the moves
that the events of a server come to for them. Everything else the handlers read
only decides which move is made, so what follows from a run of moves follows
for the server.
-/

namespace Sundae.Proofs

open Sundae.Ref Sundae.Lib

/-! ## Sides -/

/-- The sides of the slots that are taken. -/
abbrev Sides := Nat → Option TradeSide

def sides (s : Server) : Sides := fun i => (s.players i).map Player.side

namespace TradeSide

def naming (j : Nat) (a : TradeSide) : TradeSide := { a with tradingPlayer := some j }
def opened (a : TradeSide) : TradeSide := { a with uiTradeOpen := true }
def unaccepted (a : TradeSide) : TradeSide := { a with tradeState := .none }
def standing (state : TradeState) (a : TradeSide) : TradeSide := { a with tradeState := state }
def offering (offer : List InvItem) (a : TradeSide) : TradeSide := { a with tradeOffer := offer }
def told (changed : Bool) (a : TradeSide) : TradeSide := { a with partnerOfferChanged := changed }
def staged (stage : LoginStage) (a : TradeSide) : TradeSide := { a with loginStage := stage }
def cleared (a : TradeSide) : TradeSide := { a with tradingPlayer := none }

def closed (a : TradeSide) : TradeSide :=
  { a with tradingPlayer := none, uiTradeOpen := false, tradeState := .none, tradeOffer := [] }

end TradeSide

namespace Sides

variable {S : Sides} {i j k : Nat} {f g : TradeSide → TradeSide}

def modify (S : Sides) (i : Nat) (f : TradeSide → TradeSide) : Sides :=
  Function.update S i ((S i).map f)

theorem modify_self : S.modify i f i = (S i).map f := Function.update_self i _ S

theorem modify_ne (h : k ≠ i) : S.modify i f k = S k := Function.update_of_ne h _ S

theorem modify_apply : S.modify i f k = if k = i then (S k).map f else S k := by
  by_cases h : k = i
  · rw [if_pos h, h, modify_self]
  · rw [if_neg h, modify_ne h]

theorem modify_modify : (S.modify i f).modify i g = S.modify i fun a => g (f a) := by
  funext k
  rw [modify_apply, modify_apply, modify_apply]
  split
  · rw [Option.map_map]
    rfl
  · rfl

theorem modify_comm (h : ∀ a, g (f a) = f (g a)) :
    (S.modify i f).modify j g = (S.modify j g).modify i f := by
  funext k
  simp only [modify_apply]
  split
  · split
    · simp only [Option.map_map, Function.comp_def, h]
    · rfl
  · rfl

theorem modify_eq_self (h : ∀ a, S i = some a → f a = a) : S.modify i f = S := by
  funext k
  rw [modify_apply]
  split
  · next hk =>
    subst hk
    cases ha : S k with
    | none => rfl
    | some a => rw [Option.map_some, h a ha]
  · rfl

/-- What `trading_player` names. -/
def partner (S : Sides) (i : Nat) : Option Nat := (S i).bind TradeSide.tradingPlayer

def state (S : Sides) (i : Nat) : TradeState := ((S i).map TradeSide.tradeState).getD .none

def isTaken (S : Sides) (i : Nat) : Prop := (S i).isSome = true

instance (S : Sides) (i : Nat) : Decidable (S.isTaken i) := inferInstanceAs (Decidable (_ = true))

@[simp] theorem isTaken_modify : (S.modify i f).isTaken k ↔ S.isTaken k := by
  unfold isTaken
  rw [modify_apply]
  split
  · rw [Option.isSome_map]
  · rfl

/-- The trade window is open, with the other one in it. -/
def Window (S : Sides) (i j : Nat) : Prop :=
  ∃ a, S i = some a ∧ a.uiTradeOpen = true ∧ a.tradingPlayer = some j

end Sides

/-! ## Moves -/

/-- What an event comes to for the sides. -/
inductive Move where
  | idle
  | join (i : Nat)
  | leave (i : Nat)
  | stage (i : Nat) (stage : LoginStage)
  | request (i j : Nat)
  | offer (i j : Nat) (heard : Bool) (offer : List InvItem) (told : Bool)
  | accept (i j : Nat)
  | confirm (i j : Nat)
  | exchange (i j : Nat)
  | decline (i j : Nat)
  | close (i : Nat)
  | clear (i : Nat)
  | flush (n : Nat)
  deriving DecidableEq, Repr

/-- Both take back their consent. -/
def Sides.unaccept (S : Sides) (i j : Nat) : Sides :=
  (S.modify i TradeSide.unaccepted).modify j TradeSide.unaccepted

def Sides.closeBoth (S : Sides) (i j : Nat) : Sides :=
  (S.modify i TradeSide.closed).modify j TradeSide.closed

def Sides.move (S : Sides) : Move → Sides
  | .idle => S
  | .join i => Function.update S i (some {})
  | .leave i => Function.update S i none
  | .stage i stage => S.modify i (TradeSide.staged stage)
  | .request i j =>
    let S := S.modify i (TradeSide.naming j)
    if S.partner j = some i then (S.modify i TradeSide.opened).modify j TradeSide.opened else S
  | .offer i j heard offer told =>
    let S := (if heard then S.unaccept i j else S).modify i (TradeSide.offering offer)
    if told then S.modify j (TradeSide.told true) else S
  | .accept i _ => S.modify i (TradeSide.standing .accepted)
  | .confirm i _ => S.modify i (TradeSide.standing .confirmed)
  | .exchange i j => S.closeBoth i j
  | .decline i j => S.closeBoth j i
  | .close i => S.modify i TradeSide.closed
  | .clear i => S.modify i TradeSide.cleared
  | .flush n => fun k => if k < n then (S k).map (TradeSide.told false) else S k

/-! ## The move an event makes -/

section MoveOf

variable (t : ItemTable) (s : Server)

/-- One of the entries is for an item there is, and offers are not refused. -/
def entriesHeard (i j : Nat) (data : List Nat) : Bool :=
  !decide (Sealed s i j) && (packetEntries data).any fun e => (t.byId e.1).isSome

/-- What the packet makes of the offer. -/
def offerOf (i j : Nat) (data : List Nat) : List InvItem :=
  if Sealed s i j then [] else offerAll t (s.get i).inventory (packetEntries data)

/-- The packet has as many entries as it says. -/
def entriesWhole (data : List Nat) : Bool :=
  match bufGetu8 data 1 with
  | none => false
  | some count => (entriesFrom data count 2).length == count

def requestMove (i : Nat) (data : List Nat) : Move :=
  match bufGetu16 data 1 with
  | none => .idle
  | some j =>
    if s.maxPlayerId ≤ j ∨ ¬ s.live j then .idle
    else if playerIsBlocked (s.get j) (s.get i).name (s.get j).blockTrade then .idle
    else if tooFar (s.get i).mob.x (s.get j).mob.x || tooFar (s.get i).mob.y (s.get j).mob.y then
      .idle
    else .request i j

/-- A move of someone whose window is open: with the one in it, or without. -/
def windowMove (i : Nat) (deal : Nat → Move) (alone : Move) : Move :=
  match (s.get i).tradingPlayer, (s.get i).uiTradeOpen with
  | some j, true => if s.live j then deal j else alone
  | _, _ => .idle

def acceptMove (i j : Nat) : Move :=
  if (s.get i).tradeState = .none then .accept i j else .idle

def confirmMove (i j : Nat) : Move :=
  if (s.get i).tradeState ≠ .accepted then .idle
  else if j = i ∨ (s.get j).tradeState = .confirmed then .exchange i j
  else .confirm i j

def packetMove (i : Nat) : TradePacket → Move
  | .player data => requestMove s i data
  | .update data => windowMove s i (fun j =>
    .offer i j (entriesHeard t s i j data) (offerOf t s i j data) (entriesWhole data)) .idle
  | .accept => windowMove s i (acceptMove s i) .idle
  | .confirm => windowMove s i (confirmMove s i) .idle
  | .decline => windowMove s i (.decline i) (.close i)

def moveOf : TradeEvent → Move
  | .connect => (freeSlot s maxPlayers 0).elim .idle .join
  | .stage i stage => .stage i stage
  | .packet i packet => if s.live i then packetMove t s i packet else .idle
  | .closeUi i => .close i
  | .clearActions i => .clear i
  | .remove i => if s.live i ∧ (s.get i).logoutConfirmed then .leave i else .idle
  | .flush => .flush s.maxPlayerId
  | .world _ => .idle

end MoveOf

/-! ## Players and their sides -/

section Refine

variable {t : ItemTable} {s s' : Server} {i j : Nat}

theorem sides_get (h : s.live i) : sides s i = some (s.get i).side := by
  unfold Server.live at h
  unfold sides Server.get
  cases hp : s.players i with
  | none => rw [hp] at h; cases h
  | some p => rfl

theorem sides_none (h : ¬ s.live i) : sides s i = none := by
  unfold Server.live at h
  unfold sides
  cases hp : s.players i with
  | none => rfl
  | some p => rw [hp] at h; exact absurd rfl h

theorem sides_isTaken : (sides s).isTaken i ↔ s.live i := by
  unfold Sides.isTaken sides Server.live
  rw [Option.isSome_map]

theorem sides_partner (s : Server) (i : Nat) :
    (sides s).partner i = (s.get i).tradingPlayer := by
  unfold Sides.partner
  by_cases h : s.live i
  · rw [sides_get h]
    rfl
  · rw [sides_none h, Server.get_of_not_live h]
    rfl

theorem sides_state (s : Server) (i : Nat) : (sides s).state i = (s.get i).tradeState := by
  unfold Sides.state
  by_cases h : s.live i
  · rw [sides_get h]
    rfl
  · rw [sides_none h, Server.get_of_not_live h]
    rfl

theorem sides_window : (sides s).Window i j ↔
    (s.get i).tradingPlayer = some j ∧ (s.get i).uiTradeOpen = true := by
  unfold Sides.Window
  by_cases h : s.live i
  · rw [sides_get h]
    constructor
    · rintro ⟨a, ha, hopen, hname⟩
      obtain rfl := Option.some.inj ha
      exact ⟨hname, hopen⟩
    · exact fun ⟨hname, hopen⟩ => ⟨_, rfl, hopen, hname⟩
  · rw [sides_none h, Server.get_of_not_live h]
    exact iff_of_false (fun ⟨a, ha, _⟩ => by cases ha) fun ⟨hname, _⟩ => by cases hname

theorem live_of_window (h : (sides s).Window i j) : s.live i := by
  obtain ⟨a, ha, -⟩ := h
  by_contra hno
  rw [sides_none hno] at ha
  cases ha

/-- A write, by what it does to the side of the player. -/
theorem sides_modify {f : Player → Player} {g : TradeSide → TradeSide}
    (h : ∀ p, (f p).side = g p.side) : sides (s.modify i f) = (sides s).modify i g := by
  funext k
  rw [Sides.modify_apply]
  unfold sides Server.modify
  by_cases hk : k = i
  · simp only [hk, if_true, Option.map_map, Function.comp_def, h]
  · simp only [hk, if_false]

theorem sides_modify_same {f : Player → Player} (h : ∀ p, (f p).side = p.side) :
    sides (s.modify i f) = sides s :=
  (sides_modify (g := id) h).trans (Sides.modify_eq_self fun _ _ => rfl)

/-! ### The end of a tick -/

theorem sides_foldl_told (l : List Nat) (s : Server) :
    sides (l.foldl (fun s i => s.modify i fun p => { p with partnerOfferChanged := false }) s) =
      fun k => if k ∈ l then (sides s k).map (TradeSide.told false) else sides s k := by
  induction l generalizing s with
  | nil => funext k; rw [List.foldl_nil, if_neg List.not_mem_nil]
  | cons i l ih =>
      have hfirst : sides (s.modify i fun p => { p with partnerOfferChanged := false }) =
          (sides s).modify i (TradeSide.told false) := sides_modify fun _ => rfl
      funext k
      rw [List.foldl_cons, ih, hfirst]
      dsimp only
      rw [Sides.modify_apply]
      by_cases hk : k = i
      · rw [if_pos hk, if_pos (List.mem_cons.2 (.inl hk)), Option.map_map]
        exact ite_self _
      · simp only [hk, if_false, List.mem_cons, false_or]

theorem sides_flush (h : serverFlushOffers s = .ok s') :
    sides s' = (sides s).move (.flush s.maxPlayerId) := by
  unfold serverFlushOffers at h
  split at h
  · cases h
  · rw [← Except.ok.inj h, sides_foldl_told]
    simp only [List.mem_range]
    rfl

/-! ### Connections -/

theorem sides_create (s : Server) :
    sides (playerCreate s) = (sides s).move (moveOf t s .connect) := by
  unfold playerCreate
  rw [moveOf]
  cases freeSlot s maxPlayers 0 with
  | none => rfl
  | some slot =>
      funext k
      show ((if k = slot then some {} else s.players k).map Player.side) = _
      rw [Option.elim_some, Sides.move, Function.update_apply]
      split
      · rfl
      · rfl

theorem sides_remove (s : Server) (i : Nat) :
    sides (serverRemovePlayer s i) = (sides s).move (moveOf t s (.remove i)) := by
  unfold serverRemovePlayer
  rw [moveOf]
  split
  · obtain ⟨l, hl⟩ := serverRegister_notices false (s.get i).name s
    rw [hl]
    funext k
    show ((if k = i then none else s.players k).map Player.side) = _
    rw [Sides.move, Function.update_apply]
    split
    · rfl
    · rfl
  · rfl

/-! ### Requests -/

theorem sides_open (h : playerSendTradeOpen s i = .ok s') :
    sides s' = (sides s).modify i TradeSide.opened := by
  unfold playerSendTradeOpen at h
  split at h
  · cases h
  · rw [← Except.ok.inj h]
    exact sides_modify fun _ => rfl

theorem sides_request (h : playerTradeRequest s i j = .ok s') :
    sides s' = (sides s).move
      (if playerIsBlocked (s.get j) (s.get i).name (s.get j).blockTrade then .idle
      else if tooFar (s.get i).mob.x (s.get j).mob.x || tooFar (s.get i).mob.y (s.get j).mob.y then
        .idle
      else .request i j) := by
  unfold playerTradeRequest at h
  split at h
  · next hblocked => rw [if_pos hblocked, ← Except.ok.inj h]; rfl
  · next hblocked =>
    rw [if_neg hblocked]
    split at h
    · next hfar => rw [if_pos hfar, ← Except.ok.inj h]; rfl
    · next hfar =>
      rw [if_neg hfar]
      have hnaming : sides (s.modify i fun p => { p with tradingPlayer := some j }) =
          (sides s).modify i (TradeSide.naming j) := sides_modify fun _ => rfl
      unfold Sides.move
      dsimp only at h ⊢
      rw [← hnaming, sides_partner]
      split at h
      · next hnames => rw [if_neg hnames, ← Except.ok.inj h]
      · next hnames =>
        rw [if_pos (not_not.1 hnames)]
        split at h
        · cases h
        · next s₁ hs₁ => rw [sides_open h, sides_open hs₁]

theorem sides_tradePlayer {data : List Nat} (h : opCliTradePlayer s i data = .ok s') :
    sides s' = (sides s).move (requestMove s i data) := by
  unfold opCliTradePlayer at h
  unfold requestMove
  cases hdata : bufGetu16 data 1 with
  | none =>
      rw [hdata] at h
      rw [← Except.ok.inj h]
      rfl
  | some j =>
      rw [hdata] at h
      dsimp only at h ⊢
      split at h
      · next hout => rw [if_pos (.inl hout), ← Except.ok.inj h]; rfl
      · next hin =>
        split at h
        · next hlive =>
          rw [if_neg (by simp [hin, hlive])]
          exact sides_request h
        · next hlive => rw [if_pos (.inr hlive), ← Except.ok.inj h]; rfl

/-! ### Updates -/

theorem Sides.unaccept_offering (S : Sides) (i j : Nat) (offer : List InvItem) :
    (S.modify i (TradeSide.offering offer)).unaccept i j =
      (S.unaccept i j).modify i (TradeSide.offering offer) := by
  have hcomm : ∀ (S : Sides) (k : Nat),
      (S.modify i (TradeSide.offering offer)).modify k TradeSide.unaccepted =
        (S.modify k TradeSide.unaccepted).modify i (TradeSide.offering offer) :=
    fun S k => Sides.modify_comm fun _ => rfl
  rw [Sides.unaccept, Sides.unaccept, hcomm, hcomm]

theorem Sides.unaccept_unaccept (S : Sides) (i j : Nat) :
    (S.unaccept i j).unaccept i j = S.unaccept i j := by
  have hcomm : (S.modify i TradeSide.unaccepted).modify j TradeSide.unaccepted =
      (S.modify j TradeSide.unaccepted).modify i TradeSide.unaccepted :=
    Sides.modify_comm fun _ => rfl
  have hidem : ∀ (S : Sides) (k : Nat),
      (S.modify k TradeSide.unaccepted).modify k TradeSide.unaccepted =
        S.modify k TradeSide.unaccepted := fun S k => Sides.modify_modify
  rw [Sides.unaccept, Sides.unaccept, hcomm, hidem, ← hcomm, hidem]

theorem sides_offering (s : Server) (i : Nat) (offer : Player → List InvItem) :
    sides (s.modify i fun p => { p with tradeOffer := offer p }) =
      (sides s).modify i (TradeSide.offering (offer (s.get i))) := by
  have hmod : sides (s.modify i fun p => { p with tradeOffer := offer (s.get i) }) =
      (sides s).modify i (TradeSide.offering (offer (s.get i))) := sides_modify fun _ => rfl
  rw [← hmod]
  exact congrArg sides (Server.modify_congr rfl)

theorem sides_same_offer (h : s.live i) :
    (sides s).modify i (TradeSide.offering (s.get i).tradeOffer) = sides s := by
  refine Sides.modify_eq_self fun a ha => ?_
  rw [sides_get h] at ha
  rw [← Option.some.inj ha]
  rfl

/-- An entry, by what it does to the sides. -/
theorem Dealing.sides_offer (h : Dealing s i j) {id amount : Nat}
    (hs : playerTradeOffer t s i id amount = .ok s') :
    ∃ offer, sides s' =
      (if ¬ Sealed s i j ∧ (t.byId id).isSome = true then (sides s).unaccept i j
        else sides s).modify i (TradeSide.offering offer) := by
  unfold playerTradeOffer at hs
  simp only [h.trading, h.uiOpen, h.partner, not_true_eq_false, if_false] at hs
  cases hc : t.byId id with
  | none =>
      rw [hc] at hs
      obtain rfl := Except.ok.inj hs
      refine ⟨(s.get i).tradeOffer, ?_⟩
      rw [if_neg fun hno => nomatch hno.2]
      exact (sides_same_offer h.live).symm
  | some config =>
      rw [hc] at hs
      dsimp only at hs
      split at hs
      · next hsealed =>
        obtain rfl := Except.ok.inj hs
        refine ⟨(s.get i).tradeOffer, ?_⟩
        rw [if_neg fun hno => hno.1 hsealed]
        exact (sides_same_offer h.live).symm
      · next hsealed =>
        split at hs
        · cases hs
        · next s₁ hs₁ =>
          split at hs
          · cases hs
          · next s₂ hs₂ =>
            obtain rfl := unaccept_eq hs₁
            obtain rfl := unaccept_eq hs₂
            obtain rfl := Except.ok.inj hs
            have htwo : sides ((s.modify i Player.unaccepted).modify j Player.unaccepted) =
                (sides s).unaccept i j := by
              rw [sides_modify (g := TradeSide.unaccepted) fun _ => rfl,
                sides_modify (g := TradeSide.unaccepted) fun _ => rfl, Sides.unaccept]
            rw [if_pos ⟨hsealed, rfl⟩, ← htwo]
            exact ⟨_, sides_offering _ i fun p =>
              offerItem config p.inventory id amount p.tradeOffer⟩

/-- The loop over the entries. -/
theorem Dealing.sides_loop (data : List Nat) {n offset : Nat} {b : Bool} (h : Dealing s i j)
    (hs : tradeUpdateLoop t i data n offset s = .ok (s', b)) :
    b = ((entriesFrom data n offset).length == n) ∧ ∃ offer, sides s' =
      (if ¬ Sealed s i j ∧ ∃ e ∈ entriesFrom data n offset, (t.byId e.1).isSome = true
        then (sides s).unaccept i j else sides s).modify i (TradeSide.offering offer) := by
  induction n generalizing s offset with
  | zero =>
      obtain ⟨rfl, rfl⟩ := Prod.mk.inj (Except.ok.inj hs)
      refine ⟨rfl, (s.get i).tradeOffer, ?_⟩
      rw [if_neg fun ⟨_, e, he, _⟩ => absurd he List.not_mem_nil]
      exact (sides_same_offer h.live).symm
  | succ n ih =>
      have hstop : s' = s → b = false →
          (b = (List.length ([] : List (Nat × Nat)) == n + 1) ∧ ∃ offer, sides s' =
            (if ¬ Sealed s i j ∧ ∃ e ∈ ([] : List (Nat × Nat)), (t.byId e.1).isSome = true
              then (sides s).unaccept i j else sides s).modify i (TradeSide.offering offer)) := by
        rintro rfl rfl
        refine ⟨rfl, (s'.get i).tradeOffer, ?_⟩
        rw [if_neg fun ⟨_, e, he, _⟩ => absurd he List.not_mem_nil]
        exact (sides_same_offer h.live).symm
      rw [tradeUpdateLoop] at hs
      rw [entriesFrom]
      cases hid : bufGetu16 data offset with
      | none =>
          rw [hid] at hs
          obtain ⟨rfl, rfl⟩ := Prod.mk.inj (Except.ok.inj hs)
          exact hstop rfl rfl
      | some id =>
          cases hamount : bufGetu32 data (offset + 2) with
          | none =>
              rw [hid, hamount] at hs
              obtain ⟨rfl, rfl⟩ := Prod.mk.inj (Except.ok.inj hs)
              exact hstop rfl rfl
          | some amount =>
              rw [hid, hamount] at hs
              dsimp only at hs ⊢
              split at hs
              · cases hs
              · next s₁ hs₁ =>
                obtain ⟨hdealing, -, hsealed, -⟩ := h.offers hs₁
                obtain ⟨offer₁, hfirst⟩ := h.sides_offer hs₁
                obtain ⟨hb, offer, hrest⟩ := ih hdealing hs
                refine ⟨?_, offer, ?_⟩
                · rw [hb, List.length_cons, Bool.eq_iff_iff, beq_iff_eq, beq_iff_eq]
                  omega
                · rw [hrest, hfirst]
                  by_cases hc : Sealed s i j
                  · rw [if_neg fun hno => hno.1 (hsealed.2 hc), if_neg fun hno => hno.1 hc,
                      if_neg fun hno => hno.1 hc, Sides.modify_modify]
                    rfl
                  · have hc₁ : ¬ Sealed s₁ i j := fun hno => hc (hsealed.1 hno)
                    simp only [hc, hc₁, not_false_eq_true, true_and, List.exists_mem_cons_iff]
                    by_cases hknown : (t.byId id).isSome = true
                    · simp only [hknown, true_or, if_true, Sides.unaccept_offering,
                        Sides.unaccept_unaccept, ite_self, Sides.modify_modify]
                      rfl
                    · simp only [hknown, Bool.false_eq_true, false_or, if_false,
                        Sides.unaccept_offering]
                      split
                      · rw [Sides.modify_modify]
                        rfl
                      · rw [Sides.modify_modify]
                        rfl

theorem entriesHeard_iff {data : List Nat} : entriesHeard t s i j data = true ↔
    ¬ Sealed s i j ∧ ∃ e ∈ packetEntries data, (t.byId e.1).isSome = true := by
  rw [entriesHeard, Bool.and_eq_true, Bool.not_eq_true', decide_eq_false_iff_not, List.any_eq_true]

/-- Of the offers that the sides may have, it is the one the player has. -/
theorem offer_of_sides {S : Sides} {offer : List InvItem} {b : Bool} (hi : S.isTaken i)
    (h : sides s' = if b then (S.modify i (TradeSide.offering offer)).modify j (TradeSide.told true)
      else S.modify i (TradeSide.offering offer)) : (s'.get i).tradeOffer = offer := by
  have hlive : s'.live i := by
    rw [← sides_isTaken, h]
    cases b <;> simp [hi]
  have hi := sides_get hlive
  rw [h] at hi
  have hoffer : ∀ a, S.modify i (TradeSide.offering offer) i = some a → a.tradeOffer = offer := by
    intro a ha
    rw [Sides.modify_self] at ha
    obtain ⟨c, -, rfl⟩ := Option.map_eq_some_iff.1 ha
    rfl
  cases b with
  | false => exact hoffer _ hi
  | true =>
      rw [if_pos rfl, Sides.modify_apply] at hi
      split at hi
      · obtain ⟨a, ha, hside⟩ := Option.map_eq_some_iff.1 hi
        have hsame : (TradeSide.told true a).tradeOffer = (s'.get i).tradeOffer :=
          congrArg TradeSide.tradeOffer hside
        exact hsame.symm.trans (hoffer a ha)
      · exact hoffer _ hi

/-- An update packet. -/
theorem Dealing.sides_update {data : List Nat} (h : Dealing s i j)
    (hs : opCliTradeUpdate t s i data = .ok s') :
    sides s' = (sides s).move
      (.offer i j (entriesHeard t s i j data) (offerOf t s i j data) (entriesWhole data)) := by
  have hupdated := (h.updated data hs).2
  have hclear : sides (s.modify i fun p => { p with tradeOffer := [] }) =
      (sides s).modify i (TradeSide.offering []) := sides_modify fun _ => rfl
  have hstate : ∀ k, ((s.modify i fun p => { p with tradeOffer := [] }).get k).tradeState =
      (s.get k).tradeState := fun k => Server.get_modify_field Player.tradeState fun _ => rfl
  have hself := Server.get_modify_self (f := fun p => { p with tradeOffer := [] }) h.live
  have hdealing : Dealing (s.modify i fun p => { p with tradeOffer := [] }) i j :=
    ⟨Server.live_modify.2 h.live, by rw [hself]; exact h.trading, by rw [hself]; exact h.uiOpen,
      Server.live_modify.2 h.partner⟩
  have hsealed : Sealed (s.modify i fun p => { p with tradeOffer := [] }) i j ↔ Sealed s i j := by
    rw [Sealed, Sealed, hstate, hstate]
  have hoffer : (s'.get i).tradeOffer = offerOf t s i j data := hupdated
  unfold opCliTradeUpdate at hs
  simp only [h.trading, h.uiOpen, h.partner, not_true_eq_false, if_false] at hs
  cases hcount : bufGetu8 data 1 with
  | none =>
      rw [hcount] at hs
      obtain rfl := Except.ok.inj hs
      have hentries : packetEntries data = [] := by rw [packetEntries, hcount]
      have hheard : ¬ entriesHeard t s i j data = true := fun hno => by
        obtain ⟨e, he, -⟩ := (entriesHeard_iff.1 hno).2
        rw [hentries] at he
        cases he
      have hempty : offerOf t s i j data = [] := by
        rw [← hoffer, hself]
      have hwhole : entriesWhole data = false := by rw [entriesWhole, hcount]
      rw [hclear, Sides.move, hempty, hwhole, if_neg hheard]
      rfl
  | some count =>
      rw [hcount] at hs
      dsimp only at hs
      have hentries : packetEntries data = entriesFrom data count 2 := by
        rw [packetEntries, hcount]
      have hrun : ∀ {s₁ b}, tradeUpdateLoop t i data count 2
          (s.modify i fun p => { p with tradeOffer := [] }) = .ok (s₁, b) →
          b = entriesWhole data ∧ ∃ offer, sides s₁ =
            (if entriesHeard t s i j data = true then (sides s).unaccept i j
              else sides s).modify i (TradeSide.offering offer) := by
        intro s₁ b hloop
        obtain ⟨hb, offer, hsides⟩ := hdealing.sides_loop data hloop
        have hheard : (¬ Sealed (s.modify i fun p => { p with tradeOffer := [] }) i j ∧
            ∃ e ∈ entriesFrom data count 2, (t.byId e.1).isSome = true) ↔
              entriesHeard t s i j data = true := by
          rw [hsealed, ← hentries, entriesHeard_iff]
        refine ⟨by rw [hb, entriesWhole, hcount], offer, ?_⟩
        rw [hsides, hclear]
        by_cases hc : entriesHeard t s i j data = true
        · rw [if_pos (hheard.2 hc), if_pos hc, Sides.unaccept_offering, Sides.modify_modify]
          rfl
        · rw [if_neg fun hno => hc (hheard.1 hno), if_neg hc, Sides.modify_modify]
          rfl
      have htaken : (if entriesHeard t s i j data = true then (sides s).unaccept i j
          else sides s).isTaken i := by
        have hi : (sides s).isTaken i := sides_isTaken.2 h.live
        split
        · simpa [Sides.unaccept] using hi
        · exact hi
      split at hs
      · cases hs
      · next s₁ hloop =>
        obtain rfl := Except.ok.inj hs
        obtain ⟨hwhole, offer, hsides⟩ := hrun hloop
        have hnone := offer_of_sides (j := j) (b := false) htaken hsides
        rw [Sides.move, ← hwhole, ← hoffer, hnone]
        exact hsides
      · next s₁ hloop =>
        obtain rfl := Except.ok.inj hs
        obtain ⟨hwhole, offer, hsides⟩ := hrun hloop
        have htold : sides (s₁.modify j fun p => { p with partnerOfferChanged := true }) =
            (sides s₁).modify j (TradeSide.told true) := sides_modify fun _ => rfl
        rw [hsides] at htold
        have hsome := offer_of_sides (b := true) htaken htold
        rw [Sides.move, ← hwhole, ← hoffer, hsome]
        exact htold

/-! ### Consent -/

theorem sides_standing (s : Server) (i : Nat) (state : TradeState) :
    sides (s.modify i fun p => { p with tradeState := state }) =
      (sides s).modify i (TradeSide.standing state) := sides_modify fun _ => rfl

theorem sides_close (s : Server) (i : Nat) :
    sides (playerCloseUi s i) = (sides s).modify i TradeSide.closed := sides_modify fun _ => rfl

theorem Dealing.sides_accept (h : Dealing s i j) (hs : playerTradeAccept s i = .ok s') :
    sides s' = (sides s).move (acceptMove s i j) := by
  unfold playerTradeAccept at hs
  simp only [h.trading, h.uiOpen, h.partner, not_true_eq_false, if_false] at hs
  unfold acceptMove
  split at hs
  · next hstate => rw [if_neg hstate, ← Except.ok.inj hs]; rfl
  · next hstate =>
    rw [if_pos (not_not.1 hstate), Sides.move, ← sides_standing]
    split at hs
    · split at hs
      · rw [← Except.ok.inj hs]
      all_goals cases hs
    · split at hs
      · cases hs
      · rw [← Except.ok.inj hs]

theorem sides_removeOffer {offer : List InvItem} (h : removeOffer t i offer s = .ok s') :
    sides s' = sides s := by
  induction offer generalizing s with
  | nil => rw [← Except.ok.inj h]
  | cons x offer ih =>
      rw [removeOffer] at h
      split at h
      · cases h
      · next s₁ hs₁ =>
        unfold playerInvRemoveId at hs₁
        split at hs₁
        · cases hs₁
        · split at hs₁
          · cases hs₁
          · rw [ih h, ← Except.ok.inj hs₁]
            exact sides_modify_same fun _ => rfl

theorem sides_give (s : Server) (i : Nat) (config : ItemConfig) (count : Nat) :
    sides (playerInvGive s i config count) = sides s := by
  obtain ⟨new, n, hgive, -⟩ := playerInvGive_eq s i config count
  rw [hgive]
  exact sides_modify_same (s := s) (i := i)
    (f := fun p => { p with inventory := (invGive config count (s.get i).inventory).1 })
    fun _ => rfl

theorem sides_giveOffer {offer : List InvItem} (h : giveOffer t i offer s = .ok s') :
    sides s' = sides s := by
  induction offer generalizing s with
  | nil => rw [← Except.ok.inj h]
  | cons x offer ih =>
      rw [giveOffer] at h
      split at h
      · cases h
      · rw [ih h, sides_give]

/-- The items change hands, and the sides stay. -/
theorem sides_tradeItems (h : tradeItems t s i j = .ok s') : sides s' = sides s := by
  unfold tradeItems at h
  dsimp only at h
  split at h
  · cases h
  · next s₁ h₁ =>
    split at h
    · cases h
    · next s₂ h₂ =>
      split at h
      · cases h
      · next s₃ h₃ =>
        rw [sides_giveOffer h, sides_giveOffer h₃, sides_removeOffer h₂, sides_removeOffer h₁]

theorem Dealing.sides_finalize (h : Dealing s i j) (hs : playerTradeFinalize t s i = .ok s') :
    sides s' = (sides s).closeBoth i j := by
  unfold playerTradeFinalize at hs
  simp only [h.trading, h.uiOpen, h.partner, not_true_eq_false, if_false] at hs
  split at hs
  · cases hs
  · next s₁ hitems =>
    rw [← Except.ok.inj hs, sides_close, sides_close, sides_tradeItems hitems, Sides.closeBoth]

theorem Dealing.sides_confirm (h : Dealing s i j) (hs : playerTradeConfirm t s i = .ok s') :
    sides s' = (sides s).move (confirmMove s i j) := by
  unfold playerTradeConfirm at hs
  simp only [h.trading, h.uiOpen, h.partner, not_true_eq_false, if_false] at hs
  unfold confirmMove
  split at hs
  · next hstate => rw [if_pos hstate, ← Except.ok.inj hs]; rfl
  · next hstate =>
    rw [if_neg hstate]
    have hget := Server.get_modify_self (f := fun p => { p with tradeState := .confirmed }) h.live
    have hboth : ((s.modify i fun p => { p with tradeState := .confirmed }).get j).tradeState =
        .confirmed ↔ j = i ∨ (s.get j).tradeState = .confirmed := by
      rw [Server.get_modify]
      split
      · next hc => exact iff_of_true rfl (.inl hc.1)
      · next hc => exact ⟨.inr, fun h' => h'.resolve_left fun heq => hc ⟨heq, h.live⟩⟩
    split at hs
    · next hconf =>
      have hdealing : Dealing (s.modify i fun p => { p with tradeState := .confirmed }) i j :=
        ⟨Server.live_modify.2 h.live, by rw [hget]; exact h.trading, by rw [hget]; exact h.uiOpen,
          Server.live_modify.2 h.partner⟩
      rw [if_pos (hboth.1 hconf), hdealing.sides_finalize hs, sides_standing, Sides.move,
        Sides.closeBoth, Sides.closeBoth, Sides.modify_modify]
      rfl
    · next hconf =>
      rw [if_neg fun hno => hconf (hboth.2 hno), ← Except.ok.inj hs, sides_standing]
      rfl

section Window

variable {deal : Nat → Move} {alone : Move}

theorem Dealing.windowMove_eq (h : Dealing s i j) : windowMove s i deal alone = deal j := by
  simp only [windowMove, h.trading, h.uiOpen, h.partner, if_true]

theorem windowMove_alone (hname : (s.get i).tradingPlayer = some j)
    (hopen : (s.get i).uiTradeOpen = true) (hj : ¬ s.live j) :
    windowMove s i deal alone = alone := by
  simp only [windowMove, hname, hopen, hj, if_false]

theorem windowMove_closed (hno : ∀ j, (s.get i).tradingPlayer = some j →
    (s.get i).uiTradeOpen = true → False) : windowMove s i deal alone = .idle := by
  unfold windowMove
  split
  · next j hname hopen => exact (hno j hname hopen).elim
  · rfl

end Window

theorem Dealing.of_open (hlive : s.live i) (hname : (s.get i).tradingPlayer = some j)
    (hopen : (s.get i).uiTradeOpen = true) (hj : ¬ ¬ s.live j) : Dealing s i j :=
  ⟨hlive, hname, hopen, not_not.1 hj⟩

theorem sides_update {data : List Nat} (hlive : s.live i)
    (hs : opCliTradeUpdate t s i data = .ok s') :
    sides s' = (sides s).move (packetMove t s i (.update data)) := by
  rw [packetMove]
  have hrun := hs
  unfold opCliTradeUpdate at hs
  split at hs
  · next j hname hopen =>
    split at hs
    · next hj => rw [windowMove_alone hname hopen hj, ← Except.ok.inj hs]; rfl
    · next hj =>
      have hdeal := Dealing.of_open hlive hname hopen hj
      rw [hdeal.windowMove_eq]
      exact hdeal.sides_update hrun
  · next hno => rw [windowMove_closed hno, ← Except.ok.inj hs]; rfl

theorem sides_accept (hlive : s.live i) (hs : playerTradeAccept s i = .ok s') :
    sides s' = (sides s).move (packetMove t s i .accept) := by
  rw [packetMove]
  have hrun := hs
  unfold playerTradeAccept at hs
  split at hs
  · next j hname hopen =>
    split at hs
    · next hj => rw [windowMove_alone hname hopen hj, ← Except.ok.inj hs]; rfl
    · next hj =>
      have hdeal := Dealing.of_open hlive hname hopen hj
      rw [hdeal.windowMove_eq]
      exact hdeal.sides_accept hrun
  · next hno => rw [windowMove_closed hno, ← Except.ok.inj hs]; rfl

theorem sides_confirm (hlive : s.live i) (hs : playerTradeConfirm t s i = .ok s') :
    sides s' = (sides s).move (packetMove t s i .confirm) := by
  rw [packetMove]
  have hrun := hs
  unfold playerTradeConfirm at hs
  split at hs
  · next j hname hopen =>
    split at hs
    · next hj => rw [windowMove_alone hname hopen hj, ← Except.ok.inj hs]; rfl
    · next hj =>
      have hdeal := Dealing.of_open hlive hname hopen hj
      rw [hdeal.windowMove_eq]
      exact hdeal.sides_confirm hrun
  · next hno => rw [windowMove_closed hno, ← Except.ok.inj hs]; rfl

theorem sides_decline (s : Server) (i : Nat) :
    sides (playerTradeDecline s i) = (sides s).move (packetMove t s i .decline) := by
  rw [packetMove]
  unfold playerTradeDecline
  split
  · next j hname hopen =>
    split
    · next hj =>
      rw [windowMove_alone hname hopen hj]
      exact sides_close s i
    · next hj =>
      have hmove : windowMove s i (Move.decline i) (.close i) = .decline i j := by
        simp only [windowMove, hname, hopen, not_not.1 hj, if_true]
      rw [hmove, sides_close, sides_close, Sides.move, Sides.closeBoth]
  · next hno => rw [windowMove_closed hno]; rfl

/-- A packet makes its move. -/
theorem sides_packet {packet : TradePacket} (hlive : s.live i)
    (hs : tradePacket t s i packet = .ok s') :
    sides s' = (sides s).move (packetMove t s i packet) := by
  cases packet with
  | player data => exact sides_tradePlayer hs
  | update data => exact sides_update hlive hs
  | accept => exact sides_accept hlive hs
  | confirm => exact sides_confirm hlive hs
  | decline =>
      rw [← Except.ok.inj hs]
      exact sides_decline s i

/-- An event makes its move. -/
theorem sides_step {e : TradeEvent} (h : tradeStep t s e = .ok s') :
    sides s' = (sides s).move (moveOf t s e) := by
  cases e with
  | connect =>
      rw [← Except.ok.inj h]
      exact sides_create s
  | stage i stage =>
      rw [← Except.ok.inj h]
      exact sides_modify fun _ => rfl
  | packet i packet =>
      rw [tradeStep] at h
      rw [moveOf]
      split at h
      · next hlive =>
        rw [if_pos hlive]
        exact sides_packet hlive h
      · next hlive =>
        rw [if_neg hlive, ← Except.ok.inj h]
        rfl
  | closeUi i =>
      rw [← Except.ok.inj h]
      exact sides_close s i
  | clearActions i =>
      rw [← Except.ok.inj h]
      exact sides_modify fun _ => rfl
  | remove i =>
      rw [← Except.ok.inj h]
      exact sides_remove s i
  | flush => exact sides_flush h
  | world change =>
      rw [← Except.ok.inj h]
      exact funext (change.sides s)

end Refine

end Sundae.Proofs
