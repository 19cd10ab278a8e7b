import Sundae.Proofs.Partner

/-!
# Taking consent back

A player consents to a trade by accepting it, and what is consented to is the
partner and the two offers. A move that changes one of them has to take the
consent of both back. `Honest` says of every move when it does.
-/

namespace Sundae.Proofs

open Sundae.Ref Sundae.Lib

/-! ## Sides -/

namespace Sides

variable {S : Sides} {i k : Nat} {f : TradeSide → TradeSide}

def offer (S : Sides) (i : Nat) : List InvItem := ((S i).map TradeSide.tradeOffer).getD []

/-- The partner and the offer. -/
def deal (S : Sides) (i : Nat) : Option Nat × List InvItem := (S.partner i, S.offer i)

theorem deal_congr {S' : Sides} (h : S' i = S i) : S'.deal i = S.deal i := by
  unfold deal partner offer
  rw [h]

theorem state_congr {S' : Sides} (h : S' i = S i) : S'.state i = S.state i := by
  unfold state
  rw [h]

theorem deal_modify (hf : ∀ a, (f a).tradingPlayer = a.tradingPlayer ∧
    (f a).tradeOffer = a.tradeOffer) : (S.modify i f).deal k = S.deal k := by
  unfold deal partner offer
  rw [modify_apply]
  split
  · cases S k with
    | none => rfl
    | some a => exact Prod.ext (hf a).1 (hf a).2
  · rfl

theorem state_modify (hf : ∀ a, (f a).tradeState = a.tradeState) :
    (S.modify i f).state k = S.state k := by
  unfold state
  rw [modify_apply]
  split
  · cases S k with
    | none => rfl
    | some a => exact hf a
  · rfl

theorem deal_closed (S : Sides) (i : Nat) : (S.modify i TradeSide.closed).deal i = (none, []) := by
  unfold deal partner offer
  rw [modify_self]
  cases S i with
  | none => rfl
  | some a => rfl

/-- What takes back a consent leaves none. -/
theorem state_none (hf : ∀ a, (f a).tradeState = .none) : (S.modify i f).state i = .none := by
  unfold state
  rw [modify_self]
  cases S i with
  | none => rfl
  | some a => exact hf a

end Sides

/-- The player has accepted a trade with the other one. -/
def Stands (S : Sides) (i j : Nat) : Prop := S.partner i = some j ∧ S.state i ≠ .none

/-- Somebody else has accepted a trade with the player. -/
def Relied (S : Sides) (i : Nat) : Prop := ∃ a, a ≠ i ∧ Stands S a i

def SidesReset (S S' : Sides) : Prop :=
  ∀ i j, Stands S i j → (S'.deal i = S.deal i ∧ S'.deal j = S.deal j) ∨
    (S'.state i = .none ∧ S'.state j = .none)

/-- When a move takes back every consent to what it changes. -/
def Move.Honest (S : Sides) : Move → Prop
  | .idle | .join _ | .stage _ _ | .accept _ _ | .confirm _ _ | .flush _ => True
  | .close i | .leave i => S.deal i = (none, []) ∨
    ¬ Relied S i ∧ ∀ j, Stands S i j → j = i ∨ S.state j = .none
  | .clear i => S.partner i = none ∨ ¬ Relied S i ∧ S.state i = .none
  | .request i j => S.partner i = some j ∨ ¬ Relied S i ∧ ∀ k, ¬ Stands S i k
  | .offer i j true items _ => items = S.offer i ∨ ∀ k, k ≠ i → k ≠ j → ¬ Stands S k i
  | .offer i _ false items _ => items = S.offer i ∨ ¬ Relied S i ∧ S.state i = .none
  | .exchange i j => S.partner j = some i ∧
    ∀ k, k ≠ i → k ≠ j → ¬ Stands S k i ∧ ¬ Stands S k j
  | .decline i j => (∀ k, Stands S j k → k = i ∨ k = j ∨ S.state k = .none) ∧
    ∀ k, k ≠ i → k ≠ j → ¬ Stands S k i ∧ (Stands S k j → S.deal j = (none, []))

section Moves

variable {S S' : Sides} {i j k : Nat}

theorem reset_of_deals (h : ∀ k, S'.deal k = S.deal k) : SidesReset S S' :=
  fun i j _ => .inl ⟨h i, h j⟩

/-- One player has another deal: whoever relied on the old one has to be freed. -/
theorem reset_one (hdeal : ∀ k, k ≠ i → S'.deal k = S.deal k)
    (hstate : ∀ k, k ≠ i → S'.state k = S.state k) (hchange : S'.deal i ≠ S.deal i) :
    SidesReset S S' ↔ ¬ Relied S i ∧
      ∀ j, Stands S i j → S'.state i = .none ∧ (j = i ∨ S.state j = .none) := by
  constructor
  · intro h
    constructor
    · rintro ⟨a, ha, hstands⟩
      rcases h a i hstands with hsame | hnone
      · exact hchange hsame.2
      · rw [hstate a ha] at hnone
        exact hstands.2 hnone.1
    · intro j hstands
      rcases h i j hstands with hsame | hnone
      · exact (hchange hsame.1).elim
      · refine ⟨hnone.1, ?_⟩
        by_cases hj : j = i
        · exact .inl hj
        · exact .inr ((hstate j hj).symm.trans hnone.2)
  · rintro ⟨halone, hfree⟩ a b hstands
    by_cases ha : a = i
    · subst ha
      obtain ⟨hself, hother⟩ := hfree b hstands
      refine .inr ⟨hself, ?_⟩
      by_cases hb : b = a
      · rw [hb, hself]
      · rw [hstate b hb, hother.resolve_left hb]
    · have hb : b ≠ i := fun hb => halone ⟨a, ha, hb ▸ hstands⟩
      exact .inl ⟨hdeal a ha, hdeal b hb⟩

/-- The player leaves the deal without a word. -/
theorem reset_drop {S S' : Sides} {i : Nat} (hdeal : ∀ k, k ≠ i → S'.deal k = S.deal k)
    (hstate : ∀ k, k ≠ i → S'.state k = S.state k) (hnone : S'.deal i = (none, []))
    (hfree : S'.state i = .none) : SidesReset S S' ↔ S.deal i = (none, []) ∨
      ¬ Relied S i ∧ ∀ j, Stands S i j → j = i ∨ S.state j = .none := by
  by_cases hblank : S.deal i = (none, [])
  · refine iff_of_true (reset_of_deals fun k => ?_) (.inl hblank)
    by_cases hk : k = i
    · rw [hk, hnone, hblank]
    · exact hdeal k hk
  · rw [reset_one hdeal hstate fun h => hblank (h.symm.trans hnone)]
    simp only [hfree, true_and, hblank, false_or]

theorem reset_close : SidesReset S (S.move (.close i)) ↔ Move.Honest S (.close i) :=
  reset_drop (fun _ hk => Sides.deal_congr (Sides.modify_ne hk))
    (fun _ hk => Sides.state_congr (Sides.modify_ne hk)) (Sides.deal_closed S i)
    (Sides.state_none fun _ => rfl)

theorem reset_leave : SidesReset S (S.move (.leave i)) ↔ Move.Honest S (.leave i) := by
  have hgone : S.move (.leave i) i = none := Function.update_self i _ S
  refine reset_drop (fun _ hk => Sides.deal_congr (Function.update_of_ne hk _ S))
    (fun _ hk => Sides.state_congr (Function.update_of_ne hk _ S)) ?_ ?_
  · unfold Sides.deal Sides.partner Sides.offer
    rw [hgone]
    rfl
  · unfold Sides.state
    rw [hgone]
    rfl

theorem reset_clear : SidesReset S (S.move (.clear i)) ↔ Move.Honest S (.clear i) := by
  have hstate : ∀ k, (S.move (.clear i)).state k = S.state k := fun k =>
    Sides.state_modify fun _ => rfl
  have hdeal : ∀ k, k ≠ i → (S.move (.clear i)).deal k = S.deal k := fun k hk =>
    Sides.deal_congr (Sides.modify_ne hk)
  have hself : (S.move (.clear i)).deal i = (none, S.offer i) := by
    unfold Sides.deal Sides.partner Sides.offer
    rw [Sides.move, Sides.modify_self]
    cases S i with
    | none => rfl
    | some a => rfl
  by_cases hnone : S.partner i = none
  · refine iff_of_true (reset_of_deals fun k => ?_) (.inl hnone)
    by_cases hk : k = i
    · rw [hk, hself, Sides.deal, hnone]
    · exact hdeal k hk
  · have hchange : (S.move (.clear i)).deal i ≠ S.deal i := fun h =>
      hnone (congrArg Prod.fst (hself.symm.trans h)).symm
    rw [reset_one hdeal (fun k _ => hstate k) hchange, Move.Honest]
    simp only [hnone, false_or]
    refine and_congr_right fun _ => ⟨fun h => ?_, fun h j hstands => (hstands.2 h).elim⟩
    by_contra hstate'
    obtain ⟨j, hj⟩ := Option.ne_none_iff_exists'.1 hnone
    exact hstate' ((hstate i).symm.trans (h j ⟨hj, hstate'⟩).1)

theorem reset_request (hi : S.isTaken i) :
    SidesReset S (S.move (.request i j)) ↔ Move.Honest S (.request i j) := by
  have hopened : ∀ (S : Sides) (m k : Nat), (S.modify m TradeSide.opened).deal k = S.deal k ∧
      (S.modify m TradeSide.opened).state k = S.state k := fun S m k =>
    ⟨Sides.deal_modify fun _ => ⟨rfl, rfl⟩, Sides.state_modify fun _ => rfl⟩
  have hmove : ∀ k, (S.move (.request i j)).deal k = (S.modify i (TradeSide.naming j)).deal k ∧
      (S.move (.request i j)).state k = S.state k := by
    intro k
    have hnaming : (S.modify i (TradeSide.naming j)).state k = S.state k :=
      Sides.state_modify fun _ => rfl
    rw [Sides.move]
    split
    · exact ⟨(hopened _ j k).1.trans (hopened _ i k).1,
        ((hopened _ j k).2.trans (hopened _ i k).2).trans hnaming⟩
    · exact ⟨rfl, hnaming⟩
  have hdeal : ∀ k, k ≠ i → (S.move (.request i j)).deal k = S.deal k := fun k hk =>
    (hmove k).1.trans (Sides.deal_congr (Sides.modify_ne hk))
  have hself : (S.move (.request i j)).deal i = (some j, S.offer i) := by
    rw [(hmove i).1, Sides.deal, naming_names S hi, if_pos rfl]
    congr 1
    unfold Sides.offer
    rw [Sides.modify_self, Option.map_map]
    rfl
  by_cases hname : S.partner i = some j
  · refine iff_of_true (reset_of_deals fun k => ?_) (.inl hname)
    by_cases hk : k = i
    · rw [hk, hself, Sides.deal, hname]
    · exact hdeal k hk
  · have hchange : (S.move (.request i j)).deal i ≠ S.deal i := fun h =>
      hname (congrArg Prod.fst (hself.symm.trans h)).symm
    rw [reset_one hdeal (fun k _ => (hmove k).2) hchange, Move.Honest]
    simp only [hname, false_or, (hmove i).2]
    exact and_congr_right fun _ => forall_congr' fun k =>
      ⟨fun h hstands => hstands.2 (h hstands).1, fun h hstands => (h hstands).elim⟩

/-! ### Updates -/

theorem offer_state (S : Sides) (i j k : Nat) (heard : Bool) (items : List InvItem) (told : Bool) :
    (S.move (.offer i j heard items told)).state k =
      if heard = true ∧ (k = i ∨ k = j) then .none else S.state k := by
  have hrest : (S.move (.offer i j heard items told)).state k =
      (if heard then S.unaccept i j else S).state k := by
    have hoffering : ((if heard then S.unaccept i j else S).modify i
        (TradeSide.offering items)).state k = (if heard then S.unaccept i j else S).state k :=
      Sides.state_modify fun _ => rfl
    rw [Sides.move]
    cases told with
    | false => exact hoffering
    | true => exact (Sides.state_modify (f := TradeSide.told true) fun _ => rfl).trans hoffering
  rw [hrest]
  cases heard with
  | false => rfl
  | true =>
      simp only [true_and, if_true, Sides.unaccept]
      by_cases hkj : k = j
      · rw [if_pos (.inr hkj), hkj, Sides.state_none fun _ => rfl]
      · rw [Sides.state_congr (Sides.modify_ne hkj)]
        by_cases hki : k = i
        · rw [if_pos (.inl hki), hki, Sides.state_none fun _ => rfl]
        · rw [if_neg fun h => h.elim hki hkj, Sides.state_congr (Sides.modify_ne hki)]

theorem offer_deal (hi : S.isTaken i) (j k : Nat) (heard : Bool) (items : List InvItem)
    (told : Bool) : (S.move (.offer i j heard items told)).deal k =
      if k = i then (S.partner i, items) else S.deal k := by
  have hheard : ∀ k, (if heard then S.unaccept i j else S).deal k = S.deal k := by
    intro k
    cases heard with
    | false => rfl
    | true =>
        have hsame : ∀ (S : Sides) (m : Nat), (S.modify m TradeSide.unaccepted).deal k = S.deal k :=
          fun S m => Sides.deal_modify fun _ => ⟨rfl, rfl⟩
        exact (hsame _ j).trans (hsame S i)
  have htaken : (if heard then S.unaccept i j else S).isTaken i := by
    cases heard with
    | false => exact hi
    | true => exact Sides.isTaken_modify.2 (Sides.isTaken_modify.2 hi)
  have hrest : (S.move (.offer i j heard items told)).deal k =
      ((if heard then S.unaccept i j else S).modify i (TradeSide.offering items)).deal k := by
    rw [Sides.move]
    cases told with
    | false => rfl
    | true => exact Sides.deal_modify fun _ => ⟨rfl, rfl⟩
  rw [hrest]
  by_cases hk : k = i
  · have hname : (if heard then S.unaccept i j else S).partner i = S.partner i :=
      congrArg Prod.fst (hheard i)
    rw [if_pos hk, hk, ← hname]
    unfold Sides.isTaken at htaken
    unfold Sides.deal Sides.partner Sides.offer
    rw [Sides.modify_self]
    cases ha : (if heard then S.unaccept i j else S) i with
    | none => rw [ha] at htaken; cases htaken
    | some a => rfl
  · rw [if_neg hk, Sides.deal_congr (Sides.modify_ne hk), hheard]

theorem reset_offer (hw : S.Window i j) (heard : Bool) (items : List InvItem) (told : Bool) :
    SidesReset S (S.move (.offer i j heard items told)) ↔
      Move.Honest S (.offer i j heard items told) := by
  have hdeal : ∀ k, k ≠ i → (S.move (.offer i j heard items told)).deal k = S.deal k :=
    fun k hk => by rw [offer_deal hw.isTaken, if_neg hk]
  have hself : (S.move (.offer i j heard items told)).deal i = (S.partner i, items) := by
    rw [offer_deal hw.isTaken, if_pos rfl]
  by_cases hsame : items = S.offer i
  · refine iff_of_true (reset_of_deals fun k => ?_) ?_
    · by_cases hk : k = i
      · rw [hk, hself, hsame, Sides.deal]
      · exact hdeal k hk
    · cases heard with
      | false => exact .inl hsame
      | true => exact .inl hsame
  · have hchange : (S.move (.offer i j heard items told)).deal i ≠ S.deal i := fun h =>
      hsame (congrArg Prod.snd (hself.symm.trans h))
    have hstate := fun k => offer_state S i j k heard items told
    cases heard with
    | false =>
        simp only [Bool.false_eq_true, false_and, if_false] at hstate
        rw [reset_one hdeal (fun k _ => hstate k) hchange, Move.Honest]
        simp only [hsame, false_or, hstate]
        refine and_congr_right fun _ => ⟨fun h => ?_, fun h k hstands => (hstands.2 h).elim⟩
        by_contra hno
        exact hno (h j ⟨hw.partner_eq, hno⟩).1
    | true =>
        simp only [true_and] at hstate
        rw [Move.Honest]
        simp only [hsame, false_or]
        constructor
        · intro h k hki hkj hstands
          rcases h k i hstands with hold | hnone
          · exact hchange hold.2
          · rw [hstate, if_neg fun hk => hk.elim hki hkj] at hnone
            exact hstands.2 hnone.1
        · intro h a b hstands
          have hfreed : ∀ k, k = i ∨ k = j →
              (S.move (.offer i j true items told)).state k = .none :=
            fun k hk => by rw [hstate, if_pos hk]
          by_cases hai : a = i
          · have hb : b = j := by
              have hname := hstands.1
              rw [hai, hw.partner_eq] at hname
              exact (Option.some.inj hname).symm
            exact .inr ⟨hfreed a (.inl hai), hfreed b (.inr hb)⟩
          · by_cases hb : b = i
            · by_cases haj : a = j
              · exact .inr ⟨hfreed a (.inr haj), hfreed b (.inl hb)⟩
              · exact (h a hai haj (hb ▸ hstands)).elim
            · exact .inl ⟨hdeal a hai, hdeal b hb⟩

/-! ### The end of a trade -/

theorem closeBoth_out (hki : k ≠ i) (hkj : k ≠ j) : S.closeBoth i j k = S k := by
  rw [Sides.closeBoth, Sides.modify_ne hkj, Sides.modify_ne hki]

theorem closeBoth_in (S : Sides) (hk : k = i ∨ k = j) :
    (S.closeBoth i j).deal k = (none, []) ∧ (S.closeBoth i j).state k = .none := by
  rw [Sides.closeBoth]
  by_cases hkj : k = j
  · rw [hkj]
    exact ⟨Sides.deal_closed _ j, Sides.state_none fun _ => rfl⟩
  · rw [Sides.deal_congr (Sides.modify_ne hkj), Sides.state_congr (Sides.modify_ne hkj),
      hk.resolve_right hkj]
    exact ⟨Sides.deal_closed S i, Sides.state_none fun _ => rfl⟩

theorem reset_both (hname : S.partner i = some j)
    (hin : ∀ k, k = i ∨ k = j → S'.deal k = (none, []) ∧ S'.state k = .none)
    (hout : ∀ k, k ≠ i → k ≠ j → S'.deal k = S.deal k ∧ S'.state k = S.state k) :
    SidesReset S S' ↔ Move.Honest S (.decline i j) := by
  constructor
  · intro h
    constructor
    · intro k hstands
      rcases h j k hstands with hsame | hnone
      · have hfst := congrArg Prod.fst (hsame.1.symm.trans (hin j (.inr rfl)).1)
        rw [Sides.deal, hstands.1] at hfst
        cases hfst
      · by_cases hki : k = i
        · exact .inl hki
        · by_cases hkj : k = j
          · exact .inr (.inl hkj)
          · exact .inr (.inr ((hout k hki hkj).2.symm.trans hnone.2))
    · intro k hki hkj
      have hkept := (hout k hki hkj).2
      constructor
      · intro hstands
        rcases h k i hstands with hsame | hnone
        · have hfst := congrArg Prod.fst (hsame.2.symm.trans (hin i (.inl rfl)).1)
          rw [Sides.deal, hname] at hfst
          cases hfst
        · exact hstands.2 (hkept.symm.trans hnone.1)
      · intro hstands
        rcases h k j hstands with hsame | hnone
        · exact hsame.2.symm.trans (hin j (.inr rfl)).1
        · exact (hstands.2 (hkept.symm.trans hnone.1)).elim
  · rintro ⟨hpartner, hthird⟩ a b hstands
    by_cases hai : a = i
    · have hb : b = j := by
        have hname' := hstands.1
        rw [hai, hname] at hname'
        exact (Option.some.inj hname').symm
      exact .inr ⟨(hin a (.inl hai)).2, (hin b (.inr hb)).2⟩
    · by_cases haj : a = j
      · refine .inr ⟨(hin a (.inr haj)).2, ?_⟩
        by_cases hb : b = i ∨ b = j
        · exact (hin b hb).2
        · rw [not_or] at hb
          rcases hpartner b (haj ▸ hstands) with hbi | hbj | hnone
          · exact (hb.1 hbi).elim
          · exact (hb.2 hbj).elim
          · exact (hout b hb.1 hb.2).2.trans hnone
      · obtain ⟨hfirst, hsecond⟩ := hthird a hai haj
        have hbi : b ≠ i := fun hb => hfirst (hb ▸ hstands)
        refine .inl ⟨(hout a hai haj).1, ?_⟩
        by_cases hbj : b = j
        · subst hbj
          rw [(hin b (.inr rfl)).1, hsecond hstands]
        · exact (hout b hbi hbj).1

theorem reset_decline (hw : S.Window i j) :
    SidesReset S (S.move (.decline i j)) ↔ Move.Honest S (.decline i j) :=
  reset_both hw.partner_eq (fun _ hk => closeBoth_in S hk.symm) fun _ hki hkj =>
    ⟨Sides.deal_congr (closeBoth_out hkj hki), Sides.state_congr (closeBoth_out hkj hki)⟩

/-- The two who exchange have accepted with each other, and nobody else with
either of them. -/
theorem reset_exchange (hw : S.Window i j) :
    (SidesReset S (S.move (.exchange i j)) ∧ S.partner j = some i) ↔
      Move.Honest S (.exchange i j) := by
  have hboth : SidesReset S (S.move (.exchange i j)) ↔ Move.Honest S (.decline i j) :=
    reset_both hw.partner_eq (fun _ hk => closeBoth_in S hk) fun _ hki hkj =>
      ⟨Sides.deal_congr (closeBoth_out hki hkj), Sides.state_congr (closeBoth_out hki hkj)⟩
  rw [hboth]
  constructor
  · rintro ⟨⟨-, hthird⟩, hback⟩
    refine ⟨hback, fun k hki hkj => ⟨(hthird k hki hkj).1, fun hstands => ?_⟩⟩
    have hfst := congrArg Prod.fst ((hthird k hki hkj).2 hstands)
    rw [Sides.deal, hback] at hfst
    cases hfst
  · rintro ⟨hback, hthird⟩
    refine ⟨⟨fun k hstands => .inl ?_, fun k hki hkj => ⟨(hthird k hki hkj).1, fun hstands =>
      ((hthird k hki hkj).2 hstands).elim⟩⟩, hback⟩
    exact Option.some.inj (hstands.1.symm.trans hback)

/-! ### Every move -/

/-- But for an exchange, a move takes back what it has to exactly when it is
honest. -/
theorem reset_move {m : Move} (hm : m.Valid S) (hno : ∀ i j, m ≠ .exchange i j) :
    SidesReset S (S.move m) ↔ m.Honest S := by
  cases m with
  | idle => exact iff_of_true (reset_of_deals fun _ => rfl) trivial
  | join i =>
      refine iff_of_true (reset_of_deals fun k => ?_) trivial
      by_cases hk : k = i
      · have hnew : S.move (.join i) i = some {} := Function.update_self i _ S
        have hfree : S i = none := Option.not_isSome_iff_eq_none.1 hm
        unfold Sides.deal Sides.partner Sides.offer
        rw [hk, hnew, hfree]
        rfl
      · exact Sides.deal_congr (Function.update_of_ne hk _ S)
  | leave i => exact reset_leave
  | stage i next =>
      exact iff_of_true (reset_of_deals fun k =>
        Sides.deal_modify (f := TradeSide.staged next) fun _ => ⟨rfl, rfl⟩) trivial
  | request i j => exact reset_request hm.1
  | offer i j heard items told => exact reset_offer hm.1 heard items told
  | accept i j =>
      exact iff_of_true (reset_of_deals fun k =>
        Sides.deal_modify (f := TradeSide.standing .accepted) fun _ => ⟨rfl, rfl⟩) trivial
  | confirm i j =>
      exact iff_of_true (reset_of_deals fun k =>
        Sides.deal_modify (f := TradeSide.standing .confirmed) fun _ => ⟨rfl, rfl⟩) trivial
  | exchange i j => exact (hno i j rfl).elim
  | decline i j => exact reset_decline hm.1
  | close i => exact reset_close
  | clear i => exact reset_clear
  | flush n =>
      refine iff_of_true (reset_of_deals fun k => ?_) trivial
      unfold Sides.deal Sides.partner Sides.offer
      rw [Sides.move]
      dsimp only
      split
      · cases S k with
        | none => rfl
        | some a => rfl
      · rfl

theorem state_standing (S : Sides) (i k : Nat) (state : TradeState) :
    (S.modify i (TradeSide.standing state)).state k = S.state k ∨
      k = i ∧ (S.modify i (TradeSide.standing state)).state k = state := by
  by_cases hk : k = i
  · unfold Sides.state
    rw [hk, Sides.modify_self]
    cases S i with
    | none => exact .inl rfl
    | some a => exact .inr ⟨rfl, rfl⟩
  · exact .inl (Sides.state_congr (Sides.modify_ne hk))

/-- Consent is kept, taken back, or given by an accept or a confirm packet. -/
theorem state_move (S : Sides) (m : Move) (k : Nat) :
    (S.move m).state k = S.state k ∨ (S.move m).state k = .none ∨
      (∃ j, m = .accept k j ∧ (S.move m).state k = .accepted) ∨ ∃ j, m = .confirm k j := by
  have hclosed : ∀ (i j : Nat), (S.closeBoth i j).state k = S.state k ∨
      (S.closeBoth i j).state k = .none := by
    intro i j
    by_cases hk : k = i ∨ k = j
    · exact .inr (closeBoth_in S hk).2
    · rw [not_or] at hk
      exact .inl (Sides.state_congr (closeBoth_out hk.1 hk.2))
  have hone : ∀ {S' : Sides} {i : Nat}, S' i = none ∨ S'.state i = .none →
      (∀ k, k ≠ i → S' k = S k) → S'.state k = S.state k ∨ S'.state k = .none := by
    intro S' i hi hrest
    by_cases hk : k = i
    · subst hk
      rcases hi with hgone | hnone
      · exact .inr (by rw [Sides.state, hgone]; rfl)
      · exact .inr hnone
    · exact .inl (Sides.state_congr (hrest k hk))
  have hfirst : ∀ {S' : Sides} {p : Prop}, S'.state k = S.state k ∨ S'.state k = .none →
      S'.state k = S.state k ∨ S'.state k = .none ∨ p := fun h => h.imp_right .inl
  cases m with
  | idle => exact .inl rfl
  | join i =>
      have hnew : (S.move (.join i)).state i = .none := by
        rw [Sides.state, Sides.move, Function.update_self]
        rfl
      exact hfirst (hone (.inr hnew) fun _ hk => Function.update_of_ne hk _ S)
  | leave i =>
      exact hfirst (hone (.inl (Function.update_self i _ S)) fun _ hk =>
        Function.update_of_ne hk _ S)
  | stage i next => exact .inl (Sides.state_modify fun _ => rfl)
  | request i j =>
      have hopened : ∀ (S : Sides) (m : Nat), (S.modify m TradeSide.opened).state k = S.state k :=
        fun S m => Sides.state_modify fun _ => rfl
      have hnaming : (S.modify i (TradeSide.naming j)).state k = S.state k :=
        Sides.state_modify fun _ => rfl
      rw [Sides.move]
      split
      · exact .inl (((hopened _ j).trans (hopened _ i)).trans hnaming)
      · exact .inl hnaming
  | offer i j heard items told =>
      rw [offer_state]
      split
      · exact .inr (.inl rfl)
      · exact .inl rfl
  | accept i j =>
      rcases state_standing S i k .accepted with hsame | ⟨rfl, hset⟩
      · exact .inl hsame
      · exact .inr (.inr (.inl ⟨j, rfl, hset⟩))
  | confirm i j =>
      rcases state_standing S i k .confirmed with hsame | ⟨rfl, -⟩
      · exact .inl hsame
      · exact .inr (.inr (.inr ⟨j, rfl⟩))
  | exchange i j => exact hfirst (hclosed i j)
  | decline i j => exact hfirst (hclosed j i)
  | close i =>
      exact hfirst (hone (.inr (Sides.state_none fun _ => rfl)) fun _ hk => Sides.modify_ne hk)
  | clear i => exact .inl (Sides.state_modify fun _ => rfl)
  | flush n =>
      refine .inl ?_
      unfold Sides.state
      rw [Sides.move]
      dsimp only
      split
      · cases S k with
        | none => rfl
        | some a => rfl
      · rfl

end Moves

end Sundae.Proofs
