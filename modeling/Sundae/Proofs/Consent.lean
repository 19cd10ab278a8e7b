import Sundae.Lib.Run
import Sundae.Proofs.Lookup
import Sundae.Proofs.Reset

/-!
# Consent

`player_trade_offer` takes the consent of both back when an offer grows, but an
update packet has cleared the offer before that, and a walk, a death, a logout
or a request to a third player changes partners without a word. Along a run in
which no move does such a thing to a trade that has been accepted, whatever is
exchanged is what both have accepted and confirmed.
-/

namespace Sundae.Proofs

open Sundae.Ref Sundae.Lib

/-! ## Acceptance and confirmation -/

section Server

variable (t : ItemTable) (s s' : Server) (i j : Nat)

/-- An accept packet of the player counts. -/
def Accepts : Prop := Dealing s i j ∧ (s.get i).tradeState = .none

/-- A confirm packet of the player counts, and the partner's is still to come. -/
def Confirms : Prop :=
  Dealing s i j ∧ (s.get i).tradeState = .accepted ∧ ¬ (j = i ∨ (s.get j).tradeState = .confirmed)

/-- A confirm packet of the player makes `player_trade_finalize` exchange the
offers of the two. -/
def Exchanges : Prop :=
  Dealing s i j ∧ (s.get i).tradeState = .accepted ∧ (j = i ∨ (s.get j).tradeState = .confirmed)

/-- The partner and the offer are what they were. -/
def SameDeal : Prop :=
  (s'.get i).tradingPlayer = (s.get i).tradingPlayer ∧
    (s'.get i).tradeOffer = (s.get i).tradeOffer

/-- Whoever has accepted a trade has it with the same partner and the same two
offers after the step, or neither of the two has accepted any more. -/
def Resets : Prop :=
  ∀ i j, (s.get i).tradingPlayer = some j → (s.get i).tradeState ≠ .none →
    (SameDeal s s' i ∧ SameDeal s s' j) ∨
      ((s'.get i).tradeState = .none ∧ (s'.get j).tradeState = .none)

end Server

/-- The last time the player accepted it was the trade with the other one, and
the two offers were what they are now; and the player has confirmed it since. -/
def Consented (tr : List (Server × TradeEvent)) (s : Server) (confirmed : Prop) (i j : Nat) :
    Prop :=
  ∃ pre c post, tr = pre ++ (c, .packet i .accept) :: post ∧ Accepts c i j ∧
    (∀ x ∈ post, ¬ (x.2 = .packet i .accept ∧ ∃ k, Accepts x.1 i k)) ∧
    (c.get i).tradeOffer = (s.get i).tradeOffer ∧ (c.get j).tradeOffer = (s.get j).tradeOffer ∧
    (confirmed → ∃ d, (d, .packet i .confirm) ∈ post ∧ Confirms d i j)

/-- Both have accepted what is exchanged, and the one who does not confirm it
now has confirmed it before. -/
def Agreed (tr : List (Server × TradeEvent)) (s : Server) (i j : Nat) : Prop :=
  Consented tr s False i j ∧ Consented tr s (j ≠ i) j i

/-! ## The server -/

section Server

variable {t : ItemTable} {s s' : Server} {e : TradeEvent} {i j : Nat}
variable {tr : List (Server × TradeEvent)}

theorem sides_deal (s : Server) (i : Nat) :
    (sides s).deal i = ((s.get i).tradingPlayer, (s.get i).tradeOffer) := by
  rw [Sides.deal, sides_partner]
  congr 1
  unfold Sides.offer
  by_cases h : s.live i
  · rw [sides_get h]
    rfl
  · rw [sides_none h, Server.get_of_not_live h]
    rfl

theorem sameDeal_iff : SameDeal s s' i ↔ (sides s').deal i = (sides s).deal i := by
  rw [sides_deal, sides_deal, Prod.mk.injEq, SameDeal]

theorem resets_iff : Resets s s' ↔ SidesReset (sides s) (sides s') := by
  simp only [Resets, SidesReset, Stands, sides_partner, sides_state, sameDeal_iff, and_imp]

/-! ### Packets that consent -/

def Move.consents : Move → Bool
  | .accept _ _ | .confirm _ _ | .exchange _ _ => true
  | _ => false

theorem windowMove_alone_or (deal : Nat → Move) (alone : Move) (hlive : s.live i)
    (hno : ¬ ∃ j, Dealing s i j) :
    windowMove s i deal alone = alone ∨ windowMove s i deal alone = .idle := by
  unfold windowMove
  split
  · next j hname hopen =>
    split
    · next hj => exact (hno ⟨j, hlive, hname, hopen, hj⟩).elim
    · exact .inl rfl
  · exact .inr rfl

theorem requestMove_consents (s : Server) (i : Nat) (data : List Nat) :
    (requestMove s i data).consents = false := by
  unfold requestMove
  split
  · rfl
  · split
    · rfl
    · split
      · rfl
      · split
        · rfl
        · rfl

/-- Consent is given by a packet, and to the one in the window. -/
theorem moveOf_consents (h : (moveOf t s e).consents = true) :
    ∃ i j, Dealing s i j ∧ ((e = .packet i .accept ∧ moveOf t s e = acceptMove s i j) ∨
      (e = .packet i .confirm ∧ moveOf t s e = confirmMove s i j)) := by
  cases e with
  | packet i packet =>
      rw [moveOf] at h ⊢
      split at h
      · next hlive =>
        rw [if_pos hlive]
        by_cases hdeal : ∃ j, Dealing s i j
        · obtain ⟨j, hj⟩ := hdeal
          refine ⟨i, j, hj, ?_⟩
          cases packet with
          | player data => rw [packetMove, requestMove_consents] at h; cases h
          | update data => rw [packetMove, hj.windowMove_eq] at h; cases h
          | accept => exact .inl ⟨rfl, by rw [packetMove, hj.windowMove_eq]⟩
          | confirm => exact .inr ⟨rfl, by rw [packetMove, hj.windowMove_eq]⟩
          | decline => rw [packetMove, hj.windowMove_eq] at h; cases h
        · have halone : ∀ {deal alone}, alone.consents = false →
              (windowMove s i deal alone).consents = false := by
            intro deal alone ha
            rcases windowMove_alone_or deal alone hlive hdeal with hw | hw
            · rw [hw, ha]
            · rw [hw]
              rfl
          cases packet with
          | player data => rw [packetMove, requestMove_consents] at h; cases h
          | update data => rw [packetMove, halone rfl] at h; cases h
          | accept => rw [packetMove, halone rfl] at h; cases h
          | confirm => rw [packetMove, halone rfl] at h; cases h
          | decline => rw [packetMove, halone rfl] at h; cases h
      · cases h
  | connect =>
      rw [moveOf] at h
      cases hslot : freeSlot s maxPlayers 0 with
      | none => rw [hslot] at h; cases h
      | some slot => rw [hslot] at h; cases h
  | remove i =>
      rw [moveOf] at h
      split at h
      · cases h
      · cases h
  | stage i stage => cases h
  | closeUi i => cases h
  | clearActions i => cases h
  | flush => cases h
  | world change => cases h

theorem accepts_of_move (h : moveOf t s e = .accept i j) :
    e = .packet i .accept ∧ Accepts s i j := by
  obtain ⟨k, m, hdeal, ⟨he, hmove⟩ | ⟨-, hmove⟩⟩ :=
    moveOf_consents (t := t) (e := e) (by rw [h]; rfl)
  · rw [h, acceptMove] at hmove
    split at hmove
    · next hstate =>
      obtain ⟨rfl, rfl⟩ := Move.accept.inj hmove
      exact ⟨he, hdeal, hstate⟩
    · cases hmove
  · rw [h, confirmMove] at hmove
    split at hmove
    · cases hmove
    · split at hmove
      · cases hmove
      · cases hmove

theorem confirms_of_move (h : moveOf t s e = .confirm i j) :
    e = .packet i .confirm ∧ Confirms s i j := by
  obtain ⟨k, m, hdeal, ⟨-, hmove⟩ | ⟨he, hmove⟩⟩ :=
    moveOf_consents (t := t) (e := e) (by rw [h]; rfl)
  · rw [h, acceptMove] at hmove
    split at hmove
    · cases hmove
    · cases hmove
  · rw [h, confirmMove] at hmove
    split at hmove
    · cases hmove
    · next hstate =>
      split at hmove
      · cases hmove
      · next hwait =>
        obtain ⟨rfl, rfl⟩ := Move.confirm.inj hmove
        exact ⟨he, hdeal, not_not.1 hstate, hwait⟩

theorem exchanges_of_move (h : moveOf t s e = .exchange i j) :
    e = .packet i .confirm ∧ Exchanges s i j := by
  obtain ⟨k, m, hdeal, ⟨-, hmove⟩ | ⟨he, hmove⟩⟩ :=
    moveOf_consents (t := t) (e := e) (by rw [h]; rfl)
  · rw [h, acceptMove] at hmove
    split at hmove
    · cases hmove
    · cases hmove
  · rw [h, confirmMove] at hmove
    split at hmove
    · cases hmove
    · next hstate =>
      split at hmove
      · next hboth =>
        obtain ⟨rfl, rfl⟩ := Move.exchange.inj hmove
        exact ⟨he, hdeal, not_not.1 hstate, hboth⟩
      · cases hmove

theorem Exchanges.move (h : Exchanges s i j) : moveOf t s (.packet i .confirm) = .exchange i j := by
  obtain ⟨hdeal, hstate, hboth⟩ := h
  rw [moveOf, if_pos hdeal.live, packetMove, hdeal.windowMove_eq, confirmMove,
    if_neg (not_not.2 hstate), if_pos hboth]

/-! ### What has been consented to -/

/-- Who has accepted a trade has done it with the partner, and for the offers,
that there are now. -/
def OnRecord (tr : List (Server × TradeEvent)) (s : Server) : Prop :=
  ∀ i, (s.get i).tradeState ≠ .none → ∃ j, (s.get i).tradingPlayer = some j ∧
    Consented tr s ((s.get i).tradeState = .confirmed) i j

theorem Consented.weaken {p q : Prop} (h : Consented tr s p i j) (hpq : q → p) :
    Consented tr s q i j := by
  obtain ⟨pre, c, post, htr, haccepts, hlast, hoffer, hother, hconfirmed⟩ := h
  exact ⟨pre, c, post, htr, haccepts, hlast, hoffer, hother, fun hq => hconfirmed (hpq hq)⟩

theorem onRecord_start (h : Vacant s) : OnRecord [] s := fun i hstate => by
  rw [Server.get_of_not_live (h i)] at hstate
  exact (hstate rfl).elim

/-- A new consent. -/
theorem consented_now (hmove : moveOf t s e = .accept i j) (hs : tradeStep t s e = .ok s') :
    (s'.get i).tradingPlayer = some j ∧ Consented (tr ++ [(s, e)]) s' False i j := by
  obtain ⟨rfl, haccepts⟩ := accepts_of_move hmove
  have hdeal : ∀ k, SameDeal s s' k := by
    intro k
    rw [sameDeal_iff, sides_step hs, hmove]
    exact Sides.deal_modify (f := TradeSide.standing .accepted) fun _ => ⟨rfl, rfl⟩
  exact ⟨(hdeal i).1.trans haccepts.1.trading, tr, s, [], rfl, haccepts,
    fun x hx => absurd hx List.not_mem_nil, (hdeal i).2.symm, (hdeal j).2.symm, False.elim⟩

/-- A consent that is still there. -/
theorem Consented.next {p q : Prop} (h : Consented tr s p i j)
    (hstate : (s.get i).tradeState ≠ .none) (hi : SameDeal s s' i) (hj : SameDeal s s' j)
    (hq : q → p ∨ e = .packet i .confirm ∧ Confirms s i j) :
    Consented (tr ++ [(s, e)]) s' q i j := by
  obtain ⟨pre, c, post, htr, haccepts, hlast, hoffer, hother, hconfirmed⟩ := h
  refine ⟨pre, c, post ++ [(s, e)], ?_, haccepts, ?_, hoffer.trans hi.2.symm,
    hother.trans hj.2.symm, fun hwant => ?_⟩
  · rw [htr, List.append_assoc, List.cons_append]
  · intro x hx hagain
    rcases List.mem_append.1 hx with hold | hnew
    · exact hlast x hold hagain
    · obtain rfl := List.mem_singleton.1 hnew
      obtain ⟨-, k, hk⟩ := hagain
      exact hstate hk.2
  · rcases hq hwant with hp | ⟨rfl, hnow⟩
    · obtain ⟨d, hd, hdc⟩ := hconfirmed hp
      exact ⟨d, List.mem_append_left _ hd, hdc⟩
    · exact ⟨s, List.mem_append_right _ (List.mem_singleton_self _), hnow⟩

/-- A step that takes back every consent to what it changes keeps the record. -/
theorem OnRecord.step (h : OnRecord tr s) (hreset : Resets s s') (hs : tradeStep t s e = .ok s') :
    OnRecord (tr ++ [(s, e)]) s' := by
  intro i hstate'
  have hmove := state_move (sides s) (moveOf t s e) i
  rw [← sides_step hs, sides_state, sides_state] at hmove
  by_cases hstate : (s.get i).tradeState = .none
  · rcases hmove with hsame | hnone | ⟨j, hacc, hset⟩ | ⟨j, hconf⟩
    · exact (hstate' (hsame.trans hstate)).elim
    · exact (hstate' hnone).elim
    · obtain ⟨hname, hnow⟩ := consented_now hacc hs
      refine ⟨j, hname, hnow.weaken fun hconf => ?_⟩
      rw [hset] at hconf
      cases hconf
    · have haccepted := (confirms_of_move hconf).2.2.1
      rw [hstate] at haccepted
      cases haccepted
  · obtain ⟨j, hname, hcons⟩ := h i hstate
    rcases hreset i j hname hstate with ⟨hi, hj⟩ | hnone
    · refine ⟨j, hi.1.trans hname, hcons.next hstate hi hj fun hconfirmed => ?_⟩
      rcases hmove with hsame | hnone | ⟨k, hacc, -⟩ | ⟨k, hconf⟩
      · exact .inl (hsame.symm.trans hconfirmed)
      · exact (hstate' hnone).elim
      · exact (hstate (accepts_of_move hacc).2.2).elim
      · obtain ⟨he, hnow⟩ := confirms_of_move hconf
        obtain rfl := Option.some.inj (hname.symm.trans hnow.1.trading)
        exact .inr ⟨he, hnow⟩
    · exact (hstate' hnone.1).elim

/-- There is one who was accepted last. -/
theorem Consented.unique {p q : Prop} {k : Nat} (h : Consented tr s p i j)
    (h' : Consented tr s q i k) : j = k := by
  obtain ⟨pre, c, post, htr, haccepts, hlast, -⟩ := h
  obtain ⟨pre', c', post', htr', haccepts', hlast', -⟩ := h'
  have hsame := last_of_kind (htr.symm.trans htr') ⟨rfl, j, haccepts⟩ ⟨rfl, k, haccepts'⟩
    hlast hlast'
  obtain rfl := (Prod.mk.inj hsame).1
  exact Option.some.inj (haccepts.1.trading.symm.trans haccepts'.1.trading)

/-- The two who exchange have agreed exactly when each has the other for a
partner. -/
theorem agreed_iff (h : OnRecord tr s) (hex : Exchanges s i j) :
    Agreed tr s i j ↔ (s.get j).tradingPlayer = some i := by
  obtain ⟨hdeal, hstate, hboth⟩ := hex
  have hi : (s.get i).tradeState ≠ .none := by rw [hstate]; exact TradeState.noConfusion
  have hj : (s.get j).tradeState ≠ .none := by
    rcases hboth with rfl | hconfirmed
    · exact hi
    · rw [hconfirmed]; exact TradeState.noConfusion
  obtain ⟨k, hk, hfirst⟩ := h i hi
  obtain rfl := Option.some.inj (hdeal.trading.symm.trans hk)
  obtain ⟨m, hm, hsecond⟩ := h j hj
  constructor
  · rintro ⟨-, hback⟩
    rw [hm, hback.unique hsecond]
  · intro hback
    obtain rfl := Option.some.inj (hm.symm.trans hback)
    exact ⟨hfirst.weaken False.elim, hsecond.weaken fun hne => hboth.resolve_left hne⟩

/-- A step takes back what it has to, and exchanges what is agreed on, exactly
when its move is honest. -/
theorem honest_step (h : OnRecord tr s) (hs : tradeStep t s e = .ok s') :
    (Resets s s' ∧ ∀ i j, e = .packet i .confirm → Exchanges s i j → Agreed tr s i j) ↔
      (moveOf t s e).Honest (sides s) := by
  have hvalid := moveOf_valid t s e
  rw [resets_iff, sides_step hs]
  by_cases hex : ∃ i j, moveOf t s e = .exchange i j
  · obtain ⟨i, j, hmove⟩ := hex
    obtain ⟨rfl, hexchanges⟩ := exchanges_of_move hmove
    rw [hmove] at hvalid ⊢
    rw [← reset_exchange hvalid.1, sides_partner, ← agreed_iff h hexchanges]
    refine and_congr_right fun _ => ⟨fun hall => hall i j rfl hexchanges, ?_⟩
    rintro hagreed k m he hexchanges'
    obtain ⟨rfl, -⟩ := TradeEvent.packet.inj he
    obtain rfl := Option.some.inj (hexchanges.1.trading.symm.trans hexchanges'.1.trading)
    exact hagreed
  · rw [reset_move hvalid fun i j hmove => hex ⟨i, j, hmove⟩]
    refine and_iff_left fun i j he hexchanges => ?_
    subst he
    exact (hex ⟨i, j, hexchanges.move⟩).elim

/-- Along a run every change after an acceptance takes both consents back, and
whatever is exchanged has been accepted and confirmed by both, exactly when
every move is honest. -/
theorem trades_agreed_iff (hrun : Run Vacant (tradeStep t) tr s) :
    (∀ pre c e post c', tr = pre ++ (c, e) :: post → tradeStep t c e = .ok c' →
      Resets c c' ∧ ∀ i j, e = .packet i .confirm → Exchanges c i j → Agreed pre c i j) ↔
      ∀ x ∈ tr, (moveOf t x.1 x.2).Honest (sides x.1) :=
  hrun.steps_iff (H := OnRecord) (P := fun pre c e c' => Resets c c' ∧
      ∀ i j, e = .packet i .confirm → Exchanges c i j → Agreed pre c i j)
    (C := fun c e => (moveOf t c e).Honest (sides c)) (fun _ hs => onRecord_start hs)
    (fun _ _ _ _ h hp hs => h.step hp.1 hs) fun _ _ _ _ h hs => honest_step h hs

/-- The first player has a log. -/
def oneLog : Unrelated where
  run s := s.modify 0 fun p => { p with inventory := [⟨1, 1, false⟩] }
  sides s i := by
    unfold Server.modify
    dsimp only
    split
    · next h =>
      rw [h, Option.map_map]
      rfl
    · rfl
  slots _ := rfl

/-- The first player offers the log, both accept and confirm, and the second has it. -/
theorem trades_agreed_iff_log : ∃ tr s,
    exec (tradeStep smallTable) {} (twoTrade ++ [.world oneLog,
      .packet 0 (.update [234, 1, 0, 1, 0, 0, 0, 1]), .packet 0 .accept, .packet 1 .accept,
      .packet 0 .confirm, .packet 1 .confirm]) = .ok (tr, s) ∧
    (s.get 1).inventory = [⟨1, 1, false⟩] ∧
    ∀ pre c e post c', tr = pre ++ (c, e) :: post → tradeStep smallTable c e = .ok c' →
      Resets c c' ∧ ∀ i j, e = .packet i .confirm → Exchanges c i j → Agreed pre c i j := by
  have hrun : Run Vacant (tradeStep smallTable) _ _ := Run.of_exec (twoTrade ++ [.world oneLog,
    .packet 0 (.update [234, 1, 0, 1, 0, 0, 0, 1]), .packet 0 .accept, .packet 1 .accept,
    .packet 0 .confirm, .packet 1 .confirm]) vacant_start rfl
  refine ⟨_, _, rfl, rfl, (trades_agreed_iff hrun).2 ?_⟩
  have hnobody : ∀ {S : Sides} {i : Nat}, (∀ k, S.state k = .none) →
      ¬ Relied S i ∧ ∀ k, ¬ Stands S i k :=
    fun h => ⟨fun ⟨a, _, hstands⟩ => hstands.2 (h a), fun k hstands => hstands.2 (h _)⟩
  simp only [List.forall_mem_cons]
  refine ⟨trivial, trivial, .inr (hnobody fun k => ?_), .inr (hnobody fun k => ?_), trivial,
    .inr fun k hk hk' hstands => ?_, trivial, trivial, trivial, ⟨rfl, fun k hk hk' => ?_⟩,
    fun x hx => (List.not_mem_nil hx).elim⟩
  · match k with
    | 0 => rfl
    | 1 => rfl
    | k + 2 => rfl
  · match k with
    | 0 => rfl
    | 1 => rfl
    | k + 2 => rfl
  · match k with
    | 0 => exact hk rfl
    | 1 => exact hk' rfl
    | k + 2 => exact hstands.2 rfl
  · match k with
    | 0 => exact (hk' rfl).elim
    | 1 => exact (hk rfl).elim
    | k + 2 => exact ⟨fun hstands => hstands.2 rfl, fun hstands => hstands.2 rfl⟩

/-- The first player offers the log, both accept and the first one confirms. An
empty update packet takes the log out of the offer, and what they have agreed to
is still to be exchanged. -/
theorem cleared_offer_stands : ¬ ∀ (t : ItemTable) (tr : List (Server × TradeEvent)) (s : Server),
    Run Vacant (tradeStep t) tr s →
    ∀ pre c e post c', tr = pre ++ (c, e) :: post → tradeStep t c e = .ok c' →
      Resets c c' ∧ ∀ i j, e = .packet i .confirm → Exchanges c i j → Agreed pre c i j := by
  intro h
  have hrun : Run Vacant (tradeStep smallTable) _ _ := Run.of_exec (twoTrade ++
    [.world oneLog, .packet 0 (.update [234, 1, 0, 1, 0, 0, 0, 1]), .packet 0 .accept,
      .packet 1 .accept, .packet 0 .confirm, .packet 0 (.update [234, 0])]) vacant_start rfl
  have hlast := (h smallTable _ _ hrun [_, _, _, _, _, _, _, _, _] _ _ [] _ rfl rfl).1 0 1 rfl
    TradeState.noConfusion
  rcases hlast with ⟨⟨-, hoffer⟩, -⟩ | ⟨hstate, -⟩
  · cases hoffer
  · cases hstate

end Server

end Sundae.Proofs
