import Sundae.Lib.Run
import Sundae.Proofs.Partner

/-!
# Lookups of a partner

Every packet about a trade goes to the partner, and asserts that there is one.
Along a run of the server the assertions hold, and whoever trades is traded
with, as long as no step leaves somebody behind.
-/

namespace Sundae.Proofs

open Sundae.Ref Sundae.Lib

/-! ## The server -/

/-- Who trades with someone is the one whom that one trades with. -/
def Mutual (s : Server) : Prop :=
  ∀ i j, (s.get i).uiTradeOpen = true → (s.get i).tradingPlayer = some j →
    s.live j ∧ (s.get j).uiTradeOpen = true ∧ (s.get j).tradingPlayer = some i

/-- None of the lookups of a partner fails, whatever happens next. -/
def LookupsHold (t : ItemTable) (s : Server) : Prop :=
  ∀ e, tradeStep t s e ≠ .error .tradingPlayer ∧ tradeStep t s e ≠ .error .partner

/-- Every player has one of the slots that a tick goes through. -/
def Seated (s : Server) : Prop := ∀ i, s.live i → i < s.maxPlayerId

/-- Nobody has connected yet. -/
def Vacant (s : Server) : Prop := ∀ i, ¬ s.live i

section Server

variable {t : ItemTable} {s s' : Server} {i j : Nat}

theorem windowMove_valid {deal : Nat → Move} {alone : Move} (halone : alone.Valid (sides s))
    (hdeal : ∀ j, Dealing s i j → (deal j).Valid (sides s)) (hlive : s.live i) :
    (windowMove s i deal alone).Valid (sides s) := by
  unfold windowMove
  split
  · next j hname hopen =>
    split
    · next hj => exact hdeal j ⟨hlive, hname, hopen, hj⟩
    · exact halone
  · trivial

theorem Dealing.valid (h : Dealing s i j) : (sides s).Window i j ∧ (sides s).isTaken j :=
  ⟨sides_window.2 ⟨h.trading, h.uiOpen⟩, sides_isTaken.2 h.partner⟩

theorem packetMove_valid (hlive : s.live i) (packet : TradePacket) :
    (packetMove t s i packet).Valid (sides s) := by
  cases packet with
  | player data =>
      rw [packetMove, requestMove]
      split
      · trivial
      · next j =>
        split
        · trivial
        · next hin =>
          split
          · trivial
          · split
            · trivial
            · exact ⟨sides_isTaken.2 hlive, sides_isTaken.2 (not_not.1 (not_or.1 hin).2)⟩
  | update data => exact windowMove_valid trivial (fun j h => h.valid) hlive
  | accept =>
      refine windowMove_valid trivial (fun j h => ?_) hlive
      unfold acceptMove
      split
      · exact h.valid
      · trivial
  | confirm =>
      refine windowMove_valid trivial (fun j h => ?_) hlive
      unfold confirmMove
      split
      · trivial
      · split
        · exact h.valid
        · exact h.valid
  | decline => exact windowMove_valid trivial (fun j h => h.valid) hlive

theorem moveOf_valid (t : ItemTable) (s : Server) (e : TradeEvent) :
    (moveOf t s e).Valid (sides s) := by
  cases e with
  | connect =>
      rw [moveOf]
      cases hslot : freeSlot s maxPlayers 0 with
      | none => trivial
      | some slot => exact fun h => freeSlot_dead hslot (sides_isTaken.1 h)
  | stage i stage => trivial
  | packet i packet =>
      rw [moveOf]
      split
      · next hlive => exact packetMove_valid hlive packet
      · trivial
  | closeUi i => trivial
  | clearActions i => trivial
  | remove i =>
      rw [moveOf]
      split
      · next h => exact sides_isTaken.2 h.1
      · trivial
  | flush => trivial
  | world change => trivial

/-- A step of the server leaves nobody behind exactly when its move is fair. -/
theorem partnered_step {e : TradeEvent} (hS : Partnered (sides s))
    (h : tradeStep t s e = .ok s') : Partnered (sides s') ↔ (moveOf t s e).Fair (sides s) := by
  rw [sides_step h]
  exact partnered_move hS (moveOf_valid t s e)

/-! ## Lookups -/

/-- Both are in the window of the other. -/
structure Facing (s : Server) (i j : Nat) : Prop where
  near : Dealing s i j
  far : Dealing s j i

theorem Dealing.asserted (h : Dealing s i j) : partnerAsserted s i = .ok () := by
  unfold partnerAsserted
  rw [h.trading]
  exact if_pos h.partner

theorem Dealing.modify {f : Player → Player} {k : Nat} (h : Dealing s i j)
    (hf : ∀ p, (f p).tradingPlayer = p.tradingPlayer ∧ (f p).uiTradeOpen = p.uiTradeOpen) :
    Dealing (s.modify k f) i j where
  live := Server.live_modify.2 h.live
  trading := (Server.get_modify_field Player.tradingPlayer fun p => (hf p).1).trans h.trading
  uiOpen := (Server.get_modify_field Player.uiTradeOpen fun p => (hf p).2).trans h.uiOpen
  partner := Server.live_modify.2 h.partner

theorem Facing.modify {f : Player → Player} {k : Nat} (h : Facing s i j)
    (hf : ∀ p, (f p).tradingPlayer = p.tradingPlayer ∧ (f p).uiTradeOpen = p.uiTradeOpen) :
    Facing (s.modify k f) i j := ⟨h.near.modify hf, h.far.modify hf⟩

theorem Facing.unaccept (h : Facing s i j) : ∃ s', unaccept s i j = .ok s' ∧ Facing s' i j := by
  unfold Ref.unaccept
  split
  · exact ⟨s, rfl, h⟩
  · have hs := h.modify (f := fun p => { p with tradeState := .none }) (k := i) fun _ => ⟨rfl, rfl⟩
    refine ⟨_, ?_, hs⟩
    dsimp only
    rw [playerSendTradeStateRemote, hs.far.asserted]

theorem Facing.offer (h : Facing s i j) (t : ItemTable) (id amount : Nat) :
    ∃ s', playerTradeOffer t s i id amount = .ok s' ∧ Facing s' i j := by
  unfold playerTradeOffer
  simp only [h.near.trading, h.near.uiOpen, h.near.partner, not_true_eq_false, if_false]
  cases t.byId id with
  | none => exact ⟨s, rfl, h⟩
  | some config =>
      dsimp only
      split
      · exact ⟨s, rfl, h⟩
      · obtain ⟨s₁, hs₁, hfacing₁⟩ := h.unaccept
        obtain ⟨s₂, hs₂, hfacing₂⟩ := Facing.unaccept ⟨hfacing₁.far, hfacing₁.near⟩
        rw [hs₁]
        dsimp only
        rw [hs₂]
        exact ⟨_, rfl, Facing.modify ⟨hfacing₂.far, hfacing₂.near⟩ fun _ => ⟨rfl, rfl⟩⟩

theorem Facing.loop (h : Facing s i j) (t : ItemTable) (data : List Nat) (n offset : Nat) :
    ∃ r, tradeUpdateLoop t i data n offset s = .ok r := by
  induction n generalizing s offset with
  | zero => exact ⟨_, rfl⟩
  | succ n ih =>
      rw [tradeUpdateLoop]
      split
      · next id amount _ _ =>
        obtain ⟨s₁, hs₁, hfacing⟩ := h.offer t id amount
        rw [hs₁]
        exact ih hfacing (offset + 6)
      · exact ⟨_, rfl⟩

theorem Facing.update (h : Facing s i j) (t : ItemTable) (data : List Nat) :
    ∃ s', opCliTradeUpdate t s i data = .ok s' := by
  unfold opCliTradeUpdate
  simp only [h.near.trading, h.near.uiOpen, h.near.partner, not_true_eq_false, if_false]
  cases bufGetu8 data 1 with
  | none => exact ⟨_, rfl⟩
  | some count =>
      have hs := h.modify (f := fun p => { p with tradeOffer := [] }) (k := i) fun _ => ⟨rfl, rfl⟩
      obtain ⟨⟨s₁, b⟩, hr⟩ := hs.loop t data count 2
      dsimp only
      rw [hr]
      cases b with
      | false => exact ⟨_, rfl⟩
      | true => exact ⟨_, rfl⟩

theorem Facing.accept (h : Facing s i j) : ∃ s', playerTradeAccept s i = .ok s' := by
  unfold playerTradeAccept
  simp only [h.near.trading, h.near.uiOpen, h.near.partner, not_true_eq_false, if_false]
  split
  · exact ⟨_, rfl⟩
  · have hs := h.modify (f := fun p => { p with tradeState := .accepted }) (k := i)
      fun _ => ⟨rfl, rfl⟩
    simp only [playerSendPartnerTradeOffer, playerSendTradeConfirm, playerSendTradeStateRemote,
      hs.near.asserted, hs.far.asserted]
    split
    · exact ⟨_, rfl⟩
    · exact ⟨_, rfl⟩

/-! ### The exchange -/

theorem findSlot_id (id : Nat) (inv : List InvItem) :
    ∃ found, findSlot (fun x => .ok (x.id == id)) inv = .ok found := by
  induction inv with
  | nil => exact ⟨none, rfl⟩
  | cons x inv ih =>
      rw [findSlot]
      cases x.id == id with
      | true => exact ⟨some 0, rfl⟩
      | false =>
          obtain ⟨found, hfound⟩ := ih
          exact ⟨found.map (· + 1), by rw [hfound]⟩

theorem removeSlots_error {a : Assert} {id n k : Nat} {inv : List InvItem}
    (h : removeSlots t (fun x => .ok (x.id == id)) n k inv = .error a) : a = .itemConfig := by
  induction n generalizing k inv with
  | zero => cases h
  | succ n ih =>
      obtain ⟨found, hfound⟩ := findSlot_id id (inv.drop k)
      rw [removeSlots, hfound] at h
      cases found with
      | none => cases h
      | some m =>
          dsimp only at h
          split at h
          · exact (Except.error.inj h).symm
          · exact ih h

/-- Taking an item by its id stops at an item without a configuration only. -/
theorem playerInvRemoveId_error {a : Assert} {id count : Nat}
    (h : playerInvRemoveId t s i id count = .error a) : a = .itemConfig := by
  unfold playerInvRemoveId at h
  split at h
  · exact (Except.error.inj h).symm
  · split at h
    · next hremove =>
      unfold invRemove at hremove
      obtain ⟨found, hfound⟩ := findSlot_id id (s.get i).inventory
      rw [hfound] at hremove
      obtain rfl := Except.error.inj h
      split at hremove
      · cases found with
        | none => exact removeSlots_error hremove
        | some k =>
            dsimp only at hremove
            split at hremove
            · cases hremove
            · exact removeSlots_error hremove
      · exact removeSlots_error hremove
    · cases h

theorem removeOffer_error {a : Assert} {offer : List InvItem}
    (h : removeOffer t i offer s = .error a) : a = .itemConfig := by
  induction offer generalizing s with
  | nil => cases h
  | cons x offer ih =>
      rw [removeOffer] at h
      split at h
      · next hremove => exact Except.error.inj h ▸ playerInvRemoveId_error hremove
      · exact ih h

theorem giveOffer_error {a : Assert} {offer : List InvItem}
    (h : giveOffer t i offer s = .error a) : a = .itemConfig := by
  induction offer generalizing s with
  | nil => cases h
  | cons x offer ih =>
      rw [giveOffer] at h
      split at h
      · exact (Except.error.inj h).symm
      · exact ih h

theorem tradeItems_error {a : Assert} (h : tradeItems t s i j = .error a) : a = .itemConfig := by
  unfold tradeItems at h
  dsimp only at h
  split at h
  · next hfirst => exact Except.error.inj h ▸ removeOffer_error hfirst
  · split at h
    · next hsecond => exact Except.error.inj h ▸ removeOffer_error hsecond
    · split at h
      · next hthird => exact Except.error.inj h ▸ giveOffer_error hthird
      · exact giveOffer_error h

/-- A confirmation looks nobody up. -/
theorem playerTradeConfirm_error {a : Assert} (h : playerTradeConfirm t s i = .error a) :
    a = .itemConfig := by
  unfold playerTradeConfirm at h
  split at h
  · split at h
    · cases h
    · split at h
      · cases h
      · dsimp only at h
        split at h
        · unfold playerTradeFinalize at h
          split at h
          · split at h
            · cases h
            · split at h
              · next hitems => exact Except.error.inj h ▸ tradeItems_error hitems
              · cases h
          · cases h
        · cases h
  · cases h

/-! ### The handlers -/

theorem playerTradeRequest_ok (hi : s.live i) (j : Nat) :
    ∃ s', playerTradeRequest s i j = .ok s' := by
  unfold playerTradeRequest
  split
  · exact ⟨_, rfl⟩
  · split
    · exact ⟨_, rfl⟩
    · dsimp only
      split
      · exact ⟨_, rfl⟩
      · next hnames =>
        have hname : ((s.modify i fun p => { p with tradingPlayer := some j }).get
            i).tradingPlayer = some j := by rw [Server.get_modify_self hi]
        have hopen : ∀ {c k m}, (c.get k).tradingPlayer = some m → playerSendTradeOpen c k =
            .ok (c.modify k fun p => { p with uiTradeOpen := true }) := fun hk =>
          if_neg fun hno => by rw [hk] at hno; cases hno
        have hkeep : ∀ c : Server, ((c.modify i fun p => { p with uiTradeOpen := true }).get
            j).tradingPlayer = (c.get j).tradingPlayer :=
          fun c => Server.get_modify_field Player.tradingPlayer fun _ => rfl
        rw [hopen hname]
        exact ⟨_, hopen ((hkeep _).trans (not_not.1 hnames))⟩

theorem opCliTradePlayer_ok (hi : s.live i) (data : List Nat) :
    ∃ s', opCliTradePlayer s i data = .ok s' := by
  unfold opCliTradePlayer
  split
  · exact ⟨_, rfl⟩
  · split
    · exact ⟨_, rfl⟩
    · split
      · exact playerTradeRequest_ok hi _
      · exact ⟨_, rfl⟩

/-- The messages at the end of a tick go out when everyone who expects one has
a partner. -/
theorem sendPartnerOffers_ok_iff (s : Server) (slots : List Nat) :
    sendPartnerOffers s slots = .ok () ↔
      ∀ i ∈ slots, Expecting (sides s) i → Accompanied (sides s) i := by
  have hexpect : ∀ i, Expecting (sides s) i ↔
      s.live i ∧ (s.get i).loginStage = .gotLogin ∧ (s.get i).partnerOfferChanged = true := by
    intro i
    unfold Expecting
    by_cases hi : s.live i
    · rw [sides_get hi]
      simp [hi, Player.side]
    · rw [sides_none hi]
      simp [hi]
  have hwith : ∀ i, Accompanied (sides s) i ↔ playerSendPartnerTradeOffer s i = .ok () := by
    intro i
    unfold Accompanied playerSendPartnerTradeOffer partnerAsserted
    rw [sides_partner]
    cases (s.get i).tradingPlayer with
    | none => simp
    | some j => simp [sides_isTaken]
  induction slots with
  | nil => exact iff_of_true rfl fun i hi => absurd hi List.not_mem_nil
  | cons i slots ih =>
      rw [sendPartnerOffers, List.forall_mem_cons, hexpect, hwith]
      split
      · next h =>
        cases playerSendPartnerTradeOffer s i with
        | error a => simp [h]
        | ok u => simpa using ih
      · next h => simpa [h] using ih

theorem Partnered.facing (hS : Partnered (sides s)) (h : Dealing s i j) : Facing s i j := by
  have hback := sides_window.1 (hS.paired i j h.valid.1)
  exact ⟨h, h.partner, hback.1, hback.2, h.live⟩

theorem Partnered.update_ok (hS : Partnered (sides s)) (hi : s.live i) (data : List Nat) :
    ∃ s', opCliTradeUpdate t s i data = .ok s' := by
  by_cases hdeal : ∃ j, Dealing s i j
  · obtain ⟨j, h⟩ := hdeal
    exact (hS.facing h).update t data
  · unfold opCliTradeUpdate
    split
    · next j hname hopen =>
      split
      · exact ⟨_, rfl⟩
      · next hj => exact (hdeal ⟨j, .of_open hi hname hopen hj⟩).elim
    · exact ⟨_, rfl⟩

theorem Partnered.accept_ok (hS : Partnered (sides s)) (hi : s.live i) :
    ∃ s', playerTradeAccept s i = .ok s' := by
  by_cases hdeal : ∃ j, Dealing s i j
  · obtain ⟨j, h⟩ := hdeal
    exact (hS.facing h).accept
  · unfold playerTradeAccept
    split
    · next j hname hopen =>
      split
      · exact ⟨_, rfl⟩
      · next hj => exact (hdeal ⟨j, .of_open hi hname hopen hj⟩).elim
    · exact ⟨_, rfl⟩

/-- With everyone's partner at hand, nothing but an unknown item stops the server. -/
theorem Partnered.step_error {e : TradeEvent} {a : Assert} (hS : Partnered (sides s))
    (h : tradeStep t s e = .error a) : a = .itemConfig := by
  have hok : ¬ ∃ s', tradeStep t s e = .ok s' := fun ⟨s', hs'⟩ => by rw [h] at hs'; cases hs'
  cases e with
  | packet i packet =>
      by_cases hi : s.live i
      · rw [tradeStep, if_pos hi] at h hok
        cases packet with
        | player data => exact (hok (opCliTradePlayer_ok hi data)).elim
        | update data => exact (hok (hS.update_ok hi data)).elim
        | accept => exact (hok (hS.accept_ok hi)).elim
        | confirm => exact playerTradeConfirm_error h
        | decline => exact (hok ⟨_, rfl⟩).elim
      · exact (hok ⟨_, if_neg hi⟩).elim
  | flush =>
      have hsent := (sendPartnerOffers_ok_iff s (List.range s.maxPlayerId)).2 fun i _ => hS.told i
      refine (hok ?_).elim
      rw [tradeStep, serverFlushOffers, hsent]
      exact ⟨_, rfl⟩
  | connect => exact (hok ⟨_, rfl⟩).elim
  | stage i stage => exact (hok ⟨_, rfl⟩).elim
  | closeUi i => exact (hok ⟨_, rfl⟩).elim
  | clearActions i => exact (hok ⟨_, rfl⟩).elim
  | remove i => exact (hok ⟨_, rfl⟩).elim
  | world change => exact (hok ⟨_, rfl⟩).elim

theorem sendPartnerOffers_error {a : Assert} {slots : List Nat}
    (h : sendPartnerOffers s slots = .error a) : a = .tradingPlayer ∨ a = .partner := by
  induction slots with
  | nil => cases h
  | cons i slots ih =>
      rw [sendPartnerOffers] at h
      split at h
      · split at h
        · next hlookup =>
          obtain rfl := Except.error.inj h
          unfold playerSendPartnerTradeOffer partnerAsserted at hlookup
          split at hlookup
          · exact .inl (Except.error.inj hlookup).symm
          · split at hlookup
            · cases hlookup
            · exact .inr (Except.error.inj hlookup).symm
        · exact ih h
      · exact ih h

theorem mutual_iff : Mutual s ↔ ∀ i j, (sides s).Window i j → (sides s).Window j i := by
  simp only [sides_window]
  constructor
  · exact fun h i j hw => ((h i j hw.2 hw.1).2).symm
  · intro h i j hopen hname
    have hback := h i j ⟨hname, hopen⟩
    exact ⟨live_of_window (sides_window.2 hback), hback.2, hback.1⟩

/-- Who trades is traded with and no lookup fails exactly when nobody is left behind. -/
theorem partnered_iff (hseated : Seated s) :
    (Mutual s ∧ LookupsHold t s) ↔ Partnered (sides s) := by
  constructor
  · rintro ⟨hmutual, hlookups⟩
    refine ⟨mutual_iff.1 hmutual, fun i he => ?_⟩
    have hflush := hlookups .flush
    rw [tradeStep, serverFlushOffers] at hflush
    cases hsent : sendPartnerOffers s (List.range s.maxPlayerId) with
    | error a =>
        rw [hsent] at hflush
        rcases sendPartnerOffers_error hsent with rfl | rfl
        · exact (hflush.1 rfl).elim
        · exact (hflush.2 rfl).elim
    | ok u =>
        obtain ⟨a, ha, -⟩ := id he
        have hi : s.live i := sides_isTaken.1 (by rw [Sides.isTaken, ha]; rfl)
        exact (sendPartnerOffers_ok_iff s _).1 hsent i (List.mem_range.2 (hseated i hi)) he
  · intro hS
    refine ⟨mutual_iff.2 hS.paired, fun e => ⟨fun h => ?_, fun h => ?_⟩⟩
    · cases hS.step_error h
    · cases hS.step_error h

/-! ### Runs -/

theorem partnered_vacant (h : Vacant s) : Partnered (sides s) :=
  ⟨fun i _ hw => (h i (live_of_window hw)).elim, fun i ⟨a, ha, _⟩ => by
    rw [sides_none (h i)] at ha
    cases ha⟩

theorem unaccept_slots (h : unaccept s i j = .ok s') : s'.maxPlayerId = s.maxPlayerId := by
  rw [unaccept_eq h, Server.modify_maxPlayerId]

theorem playerSendTradeOpen_slots (h : playerSendTradeOpen s i = .ok s') :
    s'.maxPlayerId = s.maxPlayerId := by
  unfold playerSendTradeOpen at h
  split at h
  · cases h
  · rw [← Except.ok.inj h, Server.modify_maxPlayerId]

theorem opCliTradePlayer_slots {data : List Nat} (h : opCliTradePlayer s i data = .ok s') :
    s'.maxPlayerId = s.maxPlayerId := by
  have hrequest : ∀ {j}, playerTradeRequest s i j = .ok s' → s'.maxPlayerId = s.maxPlayerId := by
    intro j h
    unfold playerTradeRequest at h
    split at h
    · rw [← Except.ok.inj h]
    · split at h
      · rw [← Except.ok.inj h]
      · dsimp only at h
        split at h
        · rw [← Except.ok.inj h, Server.modify_maxPlayerId]
        · split at h
          · cases h
          · next s₁ hs₁ =>
            rw [playerSendTradeOpen_slots h, playerSendTradeOpen_slots hs₁,
              Server.modify_maxPlayerId]
  unfold opCliTradePlayer at h
  split at h
  · rw [← Except.ok.inj h]
  · split at h
    · rw [← Except.ok.inj h]
    · split at h
      · exact hrequest h
      · rw [← Except.ok.inj h]

theorem playerTradeOffer_slots {id amount : Nat} (h : playerTradeOffer t s i id amount = .ok s') :
    s'.maxPlayerId = s.maxPlayerId := by
  unfold playerTradeOffer at h
  split at h
  · split at h
    · rw [← Except.ok.inj h]
    · split at h
      · rw [← Except.ok.inj h]
      · split at h
        · rw [← Except.ok.inj h]
        · split at h
          · cases h
          · next s₁ hs₁ =>
            split at h
            · cases h
            · next s₂ hs₂ =>
              rw [← Except.ok.inj h, Server.modify_maxPlayerId, unaccept_slots hs₂,
                unaccept_slots hs₁]
  · rw [← Except.ok.inj h]

theorem tradeUpdateLoop_slots {data : List Nat} {n offset : Nat} {b : Bool}
    (h : tradeUpdateLoop t i data n offset s = .ok (s', b)) : s'.maxPlayerId = s.maxPlayerId := by
  induction n generalizing s offset with
  | zero => rw [(Prod.mk.inj (Except.ok.inj h)).1]
  | succ n ih =>
      rw [tradeUpdateLoop] at h
      split at h
      · split at h
        · cases h
        · next s₁ hs₁ => rw [ih h, playerTradeOffer_slots hs₁]
      · rw [(Prod.mk.inj (Except.ok.inj h)).1]

theorem opCliTradeUpdate_slots {data : List Nat} (h : opCliTradeUpdate t s i data = .ok s') :
    s'.maxPlayerId = s.maxPlayerId := by
  unfold opCliTradeUpdate at h
  split at h
  · split at h
    · rw [← Except.ok.inj h]
    · dsimp only at h
      split at h
      · rw [← Except.ok.inj h, Server.modify_maxPlayerId]
      · split at h
        · cases h
        · next hloop =>
          rw [← Except.ok.inj h, tradeUpdateLoop_slots hloop, Server.modify_maxPlayerId]
        · next hloop =>
          rw [← Except.ok.inj h, Server.modify_maxPlayerId, tradeUpdateLoop_slots hloop,
            Server.modify_maxPlayerId]
  · rw [← Except.ok.inj h]

theorem playerTradeAccept_slots (h : playerTradeAccept s i = .ok s') :
    s'.maxPlayerId = s.maxPlayerId := by
  unfold playerTradeAccept at h
  split at h
  · split at h
    · rw [← Except.ok.inj h]
    · split at h
      · rw [← Except.ok.inj h]
      · dsimp only at h
        split at h
        · split at h
          · rw [← Except.ok.inj h, Server.modify_maxPlayerId]
          all_goals cases h
        · split at h
          · cases h
          · rw [← Except.ok.inj h, Server.modify_maxPlayerId]
  · rw [← Except.ok.inj h]

theorem removeOffer_slots {offer : List InvItem} (h : removeOffer t i offer s = .ok s') :
    s'.maxPlayerId = s.maxPlayerId := by
  induction offer generalizing s with
  | nil => rw [← Except.ok.inj h]
  | cons x offer ih =>
      rw [removeOffer] at h
      split at h
      · cases h
      · next s₁ hs₁ =>
        unfold playerInvRemoveId at hs₁
        split at hs₁
        · cases hs₁
        · split at hs₁
          · cases hs₁
          · rw [ih h, ← Except.ok.inj hs₁, Server.modify_maxPlayerId]

theorem giveOffer_slots {offer : List InvItem} (h : giveOffer t i offer s = .ok s') :
    s'.maxPlayerId = s.maxPlayerId := by
  induction offer generalizing s with
  | nil => rw [← Except.ok.inj h]
  | cons x offer ih =>
      rw [giveOffer] at h
      split at h
      · cases h
      · next config _ =>
        obtain ⟨new, n, hgive, -⟩ := playerInvGive_eq s i config x.stack
        rw [ih h, hgive]
        rfl

theorem tradeItems_slots (h : tradeItems t s i j = .ok s') : s'.maxPlayerId = s.maxPlayerId := by
  unfold tradeItems at h
  dsimp only at h
  split at h
  · cases h
  · next s₁ h₁ =>
    split at h
    · cases h
    · next s₂ h₂ =>
      split at h
      · cases h
      · next s₃ h₃ =>
        rw [giveOffer_slots h, giveOffer_slots h₃, removeOffer_slots h₂, removeOffer_slots h₁]

theorem playerTradeConfirm_slots (h : playerTradeConfirm t s i = .ok s') :
    s'.maxPlayerId = s.maxPlayerId := by
  have hfinal : ∀ {s}, playerTradeFinalize t s i = .ok s' → s'.maxPlayerId = s.maxPlayerId := by
    intro s h
    unfold playerTradeFinalize at h
    split at h
    · split at h
      · rw [← Except.ok.inj h]
        rfl
      · split at h
        · cases h
        · next s₁ h₁ =>
          rw [← Except.ok.inj h, ← tradeItems_slots h₁]
          rfl
    · rw [← Except.ok.inj h]
  unfold playerTradeConfirm at h
  split at h
  · split at h
    · rw [← Except.ok.inj h]
    · split at h
      · rw [← Except.ok.inj h]
      · dsimp only at h
        split at h
        · rw [hfinal h, Server.modify_maxPlayerId]
        · rw [← Except.ok.inj h, Server.modify_maxPlayerId]
  · rw [← Except.ok.inj h]

theorem windowMove_ne_join {deal : Nat → Move} {alone : Move} {k : Nat}
    (hdeal : ∀ j, deal j ≠ .join k) (halone : alone ≠ .join k) :
    windowMove s i deal alone ≠ .join k := by
  unfold windowMove
  split
  · split
    · exact hdeal _
    · exact halone
  · exact Move.noConfusion

theorem packetMove_ne_join (packet : TradePacket) {k : Nat} :
    packetMove t s i packet ≠ .join k := by
  cases packet with
  | player data =>
      rw [packetMove, requestMove]
      split
      · exact Move.noConfusion
      · split
        · exact Move.noConfusion
        · split
          · exact Move.noConfusion
          · split
            · exact Move.noConfusion
            · exact Move.noConfusion
  | update data => exact windowMove_ne_join (fun _ => Move.noConfusion) Move.noConfusion
  | accept =>
      refine windowMove_ne_join (fun j => ?_) Move.noConfusion
      unfold acceptMove
      split
      · exact Move.noConfusion
      · exact Move.noConfusion
  | confirm =>
      refine windowMove_ne_join (fun j => ?_) Move.noConfusion
      unfold confirmMove
      split
      · exact Move.noConfusion
      · split
        · exact Move.noConfusion
        · exact Move.noConfusion
  | decline => exact windowMove_ne_join (fun _ => Move.noConfusion) Move.noConfusion

/-- Only a new player takes a slot. -/
theorem Sides.taken_of_move {S : Sides} {m : Move} {k : Nat} (h : (S.move m).isTaken k) :
    S.isTaken k ∨ m = .join k := by
  cases m with
  | join i =>
      by_cases hk : k = i
      · exact .inr (hk ▸ rfl)
      · rw [Sides.isTaken, Sides.move, Function.update_of_ne hk] at h
        exact .inl h
  | leave i =>
      by_cases hk : k = i
      · rw [Sides.isTaken, Sides.move, hk, Function.update_self] at h
        cases h
      · rw [Sides.isTaken, Sides.move, Function.update_of_ne hk] at h
        exact .inl h
  | request i j => exact .inl ((isTaken_request S i j k).1 h)
  | offer i j heard offer told =>
      have hheard : ∀ k, (if heard then S.unaccept i j else S).isTaken k ↔ S.isTaken k := by
        intro k
        cases heard with
        | false => exact Iff.rfl
        | true => exact Sides.isTaken_modify.trans Sides.isTaken_modify
      rw [Sides.move] at h
      cases told with
      | false => exact .inl ((hheard k).1 (Sides.isTaken_modify.1 h))
      | true => exact .inl ((hheard k).1 (Sides.isTaken_modify.1 (Sides.isTaken_modify.1 h)))
  | flush n =>
      rw [Sides.isTaken, Sides.move] at h
      dsimp only at h
      split at h
      · exact .inl (by rwa [Option.isSome_map] at h)
      · exact .inl h
  | idle => exact .inl h
  | stage i next => exact .inl (Sides.isTaken_modify.1 h)
  | accept i j => exact .inl (Sides.isTaken_modify.1 h)
  | confirm i j => exact .inl (Sides.isTaken_modify.1 h)
  | exchange i j => exact .inl (Sides.isTaken_modify.1 (Sides.isTaken_modify.1 h))
  | decline i j => exact .inl (Sides.isTaken_modify.1 (Sides.isTaken_modify.1 h))
  | close i => exact .inl (Sides.isTaken_modify.1 h)
  | clear i => exact .inl (Sides.isTaken_modify.1 h)

theorem serverFlushOffers_slots (h : serverFlushOffers s = .ok s') :
    s'.maxPlayerId = s.maxPlayerId := by
  have hfold : ∀ (l : List Nat) (s : Server),
      (l.foldl (fun s i => s.modify i fun p => { p with partnerOfferChanged := false })
        s).maxPlayerId = s.maxPlayerId := by
    intro l
    induction l with
    | nil => exact fun _ => rfl
    | cons i l ih => exact fun s => (ih _).trans Server.modify_maxPlayerId
  unfold serverFlushOffers at h
  split at h
  · cases h
  · rw [← Except.ok.inj h, hfold]

theorem tradeStep_slots {e : TradeEvent} (h : tradeStep t s e = .ok s') :
    s.maxPlayerId ≤ s'.maxPlayerId := by
  cases e with
  | connect =>
      rw [← Except.ok.inj h, playerCreate]
      split
      · exact Nat.le_refl _
      · exact Nat.le_max_left _ _
  | packet i packet =>
      rw [tradeStep] at h
      split at h
      · refine Nat.le_of_eq (Eq.symm ?_)
        cases packet with
        | player data => exact opCliTradePlayer_slots h
        | update data => exact opCliTradeUpdate_slots h
        | accept => exact playerTradeAccept_slots h
        | confirm => exact playerTradeConfirm_slots h
        | decline =>
            rw [← Except.ok.inj h, playerTradeDecline]
            split
            · split
              · rfl
              · rfl
            · rfl
      · exact Nat.le_of_eq (congrArg Server.maxPlayerId (Except.ok.inj h))
  | remove i =>
      rw [← Except.ok.inj h, serverRemovePlayer]
      split
      · obtain ⟨l, hl⟩ := serverRegister_notices false (s.get i).name s
        rw [hl]
      · exact Nat.le_refl _
  | flush => exact Nat.le_of_eq (serverFlushOffers_slots h).symm
  | world change =>
      rw [← Except.ok.inj h]
      exact Nat.le_of_eq (change.slots s).symm
  | stage i stage =>
      rw [← Except.ok.inj h]
      exact Nat.le_refl _
  | closeUi i =>
      rw [← Except.ok.inj h]
      exact Nat.le_refl _
  | clearActions i =>
      rw [← Except.ok.inj h]
      exact Nat.le_refl _

/-- The slots grow with the players. -/
theorem Seated.step {e : TradeEvent} (hseated : Seated s) (h : tradeStep t s e = .ok s') :
    Seated s' := by
  intro k hk
  have hslots := tradeStep_slots h
  rw [← sides_isTaken, sides_step h] at hk
  rcases Sides.taken_of_move hk with hold | hjoin
  · exact Nat.lt_of_lt_of_le (hseated k (sides_isTaken.1 hold)) hslots
  · cases e with
    | connect =>
        rw [moveOf] at hjoin
        rw [← Except.ok.inj h, playerCreate]
        cases hslot : freeSlot s maxPlayers 0 with
        | none => rw [hslot] at hjoin; cases hjoin
        | some slot =>
            rw [hslot] at hjoin
            obtain rfl := Move.join.inj hjoin
            exact Nat.lt_of_lt_of_le (Nat.lt_succ_self slot) (Nat.le_max_right _ _)
    | packet i packet =>
        rw [moveOf] at hjoin
        split at hjoin
        · exact (packetMove_ne_join packet hjoin).elim
        · cases hjoin
    | remove i =>
        rw [moveOf] at hjoin
        split at hjoin
        · cases hjoin
        · cases hjoin
    | stage i stage => cases hjoin
    | closeUi i => cases hjoin
    | clearActions i => cases hjoin
    | flush => cases hjoin
    | world change => cases hjoin

/-- In every state of a run, who trades is traded with and no lookup of a
partner fails, exactly when no step of the run leaves anybody behind. -/
theorem trades_mutual_iff {tr : List (Server × TradeEvent)}
    (hrun : Run Vacant (tradeStep t) tr s) :
    (∀ c ∈ statesOf tr s, Mutual c ∧ LookupsHold t c) ↔
      ∀ x ∈ tr, (moveOf t x.1 x.2).Fair (sides x.1) := by
  refine hrun.all_iff (I := Seated) (C := fun s e => (moveOf t s e).Fair (sides s)) ?_ ?_ ?_
  · intro s hs
    have hseated : Seated s := fun i hi => (hs i hi).elim
    exact ⟨hseated, (partnered_iff hseated).2 (partnered_vacant hs)⟩
  · exact fun s e s' hseated h => hseated.step h
  · intro s e s' hseated hs h
    rw [partnered_iff (hseated.step h)]
    exact partnered_step ((partnered_iff hseated).1 hs) h

/-- Two players ask each other to trade. -/
def twoTrade : List TradeEvent :=
  [.connect, .connect, .packet 0 (.player [235, 0, 1]), .packet 1 (.player [235, 0, 0])]

theorem vacant_start : Vacant {} := fun _ h => Bool.false_ne_true h

/-- They trade, and the second declines. -/
theorem trades_mutual_iff_decline : ∃ tr s,
    exec (tradeStep smallTable) {} (twoTrade ++ [.packet 1 .decline]) = .ok (tr, s) ∧
      ∀ c ∈ statesOf tr s, Mutual c ∧ LookupsHold smallTable c := by
  have hrun : Run Vacant (tradeStep smallTable) _ _ :=
    Run.of_exec (twoTrade ++ [.packet 1 .decline]) vacant_start rfl
  refine ⟨_, _, rfl, (trades_mutual_iff hrun).2 ?_⟩
  have hquiet : ∀ {S : Sides} {i : Nat}, (S i).any TradeSide.partnerOfferChanged = false →
      ¬ Expecting S i := by
    rintro S i h ⟨a, ha, -, hchanged⟩
    rw [ha, Option.any_some, hchanged] at h
    cases h
  simp only [List.forall_mem_cons]
  refine ⟨trivial, trivial, ?_, ?_, ?_, fun x hx => (List.not_mem_nil hx).elim⟩
  · exact fun hopen => absurd hopen Bool.false_ne_true
  · exact fun hopen => absurd hopen Bool.false_ne_true
  · exact ⟨hquiet rfl, hquiet rfl⟩

/-- They trade, and the first walks off: the window of the second stays, and its
acceptance stops the server. -/
theorem walk_leaves_partner : ¬ ∀ (t : ItemTable) (tr : List (Server × TradeEvent)) (s : Server),
    Run Vacant (tradeStep t) tr s → ∀ c ∈ statesOf tr s, Mutual c ∧ LookupsHold t c := by
  intro h
  have hrun : Run Vacant (tradeStep smallTable) _ _ :=
    Run.of_exec (twoTrade ++ [.closeUi 0]) vacant_start rfl
  have hlast := h smallTable _ _ hrun _ (mem_statesOf.2 (.inr rfl))
  exact (hlast.2 (.packet 1 .accept)).1 rfl

end Server

end Sundae.Proofs
