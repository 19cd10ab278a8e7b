import Mathlib.Algebra.BigOperators.Group.Finset.Basic
import Sundae.Proofs.Consent
import Sundae.Proofs.Death

/-!
# What an exchange creates

`player_trade_finalize` takes the two offers out of the inventories and gives
them to the other side. What it does not find it gives all the same: an offer
may hold more than its player does, for an entry is appended twice, and what is
in the inventory may go while the window is open. In every run the two end up
with what they had and what was missing from the offers, and nothing is lost.
-/

namespace Sundae.Proofs

open Sundae.Ref Sundae.Lib

/-! ## Offers -/

/-- Entries are of items there are, and of one unit if these do not stack. -/
structure OfferOk (t : ItemTable) (offer : List InvItem) : Prop where
  configured : ∀ x ∈ offer, (t.byId x.id).isSome = true
  unit : ∀ x ∈ offer, t.stackable x.id = false → x.stack = 1
  word : ∀ x ∈ offer, x.stack < u32Size

section Offers

variable {t : ItemTable} {config : ItemConfig} {inv offer : List InvItem} {id amount : Nat}

theorem offerOk_nil : OfferOk t [] :=
  ⟨fun _ hx => absurd hx List.not_mem_nil, fun _ hx => absurd hx List.not_mem_nil,
    fun _ hx => absurd hx List.not_mem_nil⟩

theorem OfferOk.tail {x : InvItem} (h : OfferOk t (x :: offer)) : OfferOk t offer :=
  ⟨fun y hy => h.configured y (List.mem_cons_of_mem x hy),
    fun y hy => h.unit y (List.mem_cons_of_mem x hy),
    fun y hy => h.word y (List.mem_cons_of_mem x hy)⟩

theorem OfferOk.append {more : List InvItem} (h : OfferOk t offer) (hmore : OfferOk t more) :
    OfferOk t (offer ++ more) :=
  ⟨fun x hx => (List.mem_append.1 hx).elim (h.configured x) (hmore.configured x),
    fun x hx => (List.mem_append.1 hx).elim (h.unit x) (hmore.unit x),
    fun x hx => (List.mem_append.1 hx).elim (h.word x) (hmore.word x)⟩

theorem OfferOk.setStack (h : OfferOk t offer) {k : Nat} (hstack : t.stackable id = true)
    (hid : ∀ x, offer[k]? = some x → x.id = id) (hamount : amount < u32Size) :
    OfferOk t (offer.modify k (·.setStack amount)) := by
  have hmem : ∀ {x}, x ∈ offer.modify k (·.setStack amount) →
      x ∈ offer ∨ ∃ y ∈ offer, y.id = id ∧ x = y.setStack amount := by
    intro x hx
    rcases mem_modify hx with hx | ⟨y, hy, rfl⟩
    · exact .inl hx
    · exact .inr ⟨y, List.mem_of_getElem? hy, hid y hy, rfl⟩
  refine ⟨fun x hx => ?_, fun x hx hunit => ?_, fun x hx => ?_⟩
  · rcases hmem hx with hx | ⟨y, hy, -, rfl⟩
    · exact h.configured x hx
    · rw [y.setStack_id]
      exact h.configured y hy
  · rcases hmem hx with hx | ⟨y, hy, hyid, rfl⟩
    · exact h.unit x hx hunit
    · rw [y.setStack_id, hyid, hstack] at hunit
      cases hunit
  · rcases hmem hx with hx | ⟨y, hy, -, rfl⟩
    · exact h.word x hx
    · rw [y.setStack_stack]
      exact hamount

theorem offerAppend_ok (h : OfferOk t offer) (hc : t.byId id = some config)
    (hamount : amount < u32Size) : OfferOk t (offerAppend config inv id amount offer) := by
  have hst := ItemTable.stackable_of_byId hc
  unfold offerAppend
  split
  · exact h
  · split
    · rw [offerUnits_eq]
      refine h.append ⟨fun x hx => ?_, fun x hx _ => ?_, fun x hx => ?_⟩
      · rw [List.eq_of_mem_replicate hx, hc]
        rfl
      · rw [List.eq_of_mem_replicate hx]
      · rw [List.eq_of_mem_replicate hx]
        exact (by decide : 1 < u32Size)
    · next hw =>
      split
      · exact h
      · refine h.append ⟨fun x hx => ?_, fun x hx hunit => ?_, fun x hx => ?_⟩
        · rw [List.mem_singleton.1 hx, hc]
          rfl
        · rw [List.mem_singleton.1 hx, hst, decide_eq_true (not_not.1 hw)] at hunit
          cases hunit
        · rw [List.mem_singleton.1 hx]
          exact hamount

theorem offerSum_lt (stack : Nat) : offerSum stack amount < u32Size := by
  unfold offerSum
  split
  · decide
  · exact Nat.mod_lt _ (by decide)

theorem offerItem_ok (h : OfferOk t offer) (hc : t.byId id = some config)
    (hamount : amount < u32Size) : OfferOk t (offerItem config inv id amount offer) := by
  unfold offerItem
  split
  · next hw =>
    have hst : t.stackable id = true := by
      rw [ItemTable.stackable_of_byId hc, decide_eq_true hw]
    split
    · exact offerAppend_ok h hc hamount
    · next k hk =>
      dsimp only
      split
      · refine offerAppend_ok (h.setStack hst (fun x hx => ?_) (offerSum_lt _)) hc hamount
        obtain ⟨y, hy, hyid⟩ := mem_of_findIdx hk
        rw [hx] at hy
        rw [Option.some.inj hy]
        exact eq_of_beq hyid
      · exact h
  · exact offerAppend_ok h hc hamount

theorem offerAll_ok {es : List (Nat × Nat)} (hes : ∀ e ∈ es, e.2 < u32Size) :
    OfferOk t (offerAll t inv es) := by
  induction es using List.reverseRecOn with
  | nil => exact offerOk_nil
  | append_singleton es e ih =>
      have hprev := ih fun e he => hes e (List.mem_append_left _ he)
      have hlast := hes e (List.mem_append_right _ (List.mem_singleton_self e))
      unfold offerAll at hprev ⊢
      rw [List.foldl_append, List.foldl_cons, List.foldl_nil]
      unfold offerNext
      cases hc : t.byId e.1 with
      | none => exact hprev
      | some config => exact offerItem_ok hprev hc hlast

/-- What four bytes spell fits in a `uint32_t`. -/
theorem bufGetu32_lt {data : List Nat} {offset n : Nat} (hdata : ∀ b ∈ data, b < 256)
    (h : bufGetu32 data offset = some n) : n < u32Size := by
  have hhalf : ∀ {offset m}, bufGetu16 data offset = some m → m < 65536 := by
    intro offset m hm
    unfold bufGetu16 at hm
    split at hm
    · next x y hx hy =>
      obtain rfl := Option.some.inj hm
      have hxb := hdata x (List.mem_of_getElem? hx)
      have hyb := hdata y (List.mem_of_getElem? hy)
      omega
    · cases hm
  unfold bufGetu32 at h
  split at h
  · next x y hx hy =>
    obtain rfl := Option.some.inj h
    have hxb := hhalf hx
    have hyb := hhalf hy
    show x * 65536 + y < 4294967296
    omega
  · cases h

theorem packetEntries_word {data : List Nat} (hdata : ∀ b ∈ data, b < 256) :
    ∀ e ∈ packetEntries data, e.2 < u32Size := by
  have hfrom : ∀ n offset, ∀ e ∈ entriesFrom data n offset, e.2 < u32Size := by
    intro n
    induction n with
    | zero => exact fun _ _ he => absurd he List.not_mem_nil
    | succ n ih =>
        intro offset e he
        rw [entriesFrom] at he
        split at he
        · next hid hamount =>
          rcases List.mem_cons.1 he with rfl | he
          · exact bufGetu32_lt hdata hamount
          · exact ih _ e he
        · exact absurd he List.not_mem_nil
  unfold packetEntries
  split
  · exact fun _ he => absurd he List.not_mem_nil
  · exact hfrom _ _

end Offers

/-! ## Packs

What is traded leaves and enters inventories at the exchange only. -/

section Packs

variable {t : ItemTable} {s s' s'' : Server} {i j : Nat}

/-- The inventories are what they were. -/
def SamePacks (s s' : Server) : Prop := ∀ k, (s'.get k).inventory = (s.get k).inventory

theorem SamePacks.refl (s : Server) : SamePacks s s := fun _ => rfl

theorem SamePacks.trans (h : SamePacks s s') (h' : SamePacks s' s'') : SamePacks s s'' :=
  fun k => (h' k).trans (h k)

theorem SamePacks.modify {f : Player → Player} (h : SamePacks s s')
    (hf : ∀ p, (f p).inventory = p.inventory) : SamePacks s (s'.modify i f) :=
  fun k => (Server.get_modify_field Player.inventory hf).trans (h k)

theorem playerSendTradeOpen_packs (h : playerSendTradeOpen s i = .ok s') : SamePacks s s' := by
  unfold playerSendTradeOpen at h
  split at h
  · cases h
  · rw [← Except.ok.inj h]
    exact (SamePacks.refl s).modify fun _ => rfl

theorem playerTradeRequest_packs (h : playerTradeRequest s i j = .ok s') : SamePacks s s' := by
  unfold playerTradeRequest at h
  split at h
  · rw [← Except.ok.inj h]
    exact .refl s
  · split at h
    · rw [← Except.ok.inj h]
      exact .refl s
    · dsimp only at h
      have hname : SamePacks s (s.modify i fun p => { p with tradingPlayer := some j }) :=
        (SamePacks.refl s).modify fun _ => rfl
      split at h
      · rw [← Except.ok.inj h]
        exact hname
      · split at h
        · cases h
        · next s₁ hs₁ =>
          exact (hname.trans (playerSendTradeOpen_packs hs₁)).trans (playerSendTradeOpen_packs h)

theorem opCliTradePlayer_packs {data : List Nat} (h : opCliTradePlayer s i data = .ok s') :
    SamePacks s s' := by
  unfold opCliTradePlayer at h
  split at h
  · rw [← Except.ok.inj h]
    exact .refl s
  · split at h
    · rw [← Except.ok.inj h]
      exact .refl s
    · split at h
      · exact playerTradeRequest_packs h
      · rw [← Except.ok.inj h]
        exact .refl s

theorem playerTradeOffer_packs {id amount : Nat} (h : playerTradeOffer t s i id amount = .ok s') :
    SamePacks s s' := by
  unfold playerTradeOffer at h
  split at h
  · split at h
    · rw [← Except.ok.inj h]
      exact .refl s
    · split at h
      · rw [← Except.ok.inj h]
        exact .refl s
      · split at h
        · rw [← Except.ok.inj h]
          exact .refl s
        · split at h
          · cases h
          · next s₁ hs₁ =>
            split at h
            · cases h
            · next s₂ hs₂ =>
              rw [← Except.ok.inj h, unaccept_eq hs₂, unaccept_eq hs₁]
              refine .modify (.modify (.modify (.refl s) ?_) ?_) ?_
              all_goals exact fun _ => rfl
  · rw [← Except.ok.inj h]
    exact .refl s

theorem tradeUpdateLoop_packs {data : List Nat} {n offset : Nat} {b : Bool}
    (h : tradeUpdateLoop t i data n offset s = .ok (s', b)) : SamePacks s s' := by
  induction n generalizing s offset with
  | zero =>
      rw [(Prod.mk.inj (Except.ok.inj h)).1]
      exact .refl s'
  | succ n ih =>
      rw [tradeUpdateLoop] at h
      split at h
      · split at h
        · cases h
        · next s₁ hs₁ => exact (playerTradeOffer_packs hs₁).trans (ih h)
      · rw [(Prod.mk.inj (Except.ok.inj h)).1]
        exact .refl s'

theorem opCliTradeUpdate_packs {data : List Nat} (h : opCliTradeUpdate t s i data = .ok s') :
    SamePacks s s' := by
  unfold opCliTradeUpdate at h
  split at h
  · split at h
    · rw [← Except.ok.inj h]
      exact .refl s
    · dsimp only at h
      have hclear : SamePacks s (s.modify i fun p => { p with tradeOffer := [] }) :=
        (SamePacks.refl s).modify fun _ => rfl
      split at h
      · rw [← Except.ok.inj h]
        exact hclear
      · split at h
        · cases h
        · next hloop =>
          rw [← Except.ok.inj h]
          exact hclear.trans (tradeUpdateLoop_packs hloop)
        · next hloop =>
          rw [← Except.ok.inj h]
          exact (hclear.trans (tradeUpdateLoop_packs hloop)).modify fun _ => rfl
  · rw [← Except.ok.inj h]
    exact .refl s

theorem playerTradeAccept_packs (h : playerTradeAccept s i = .ok s') : SamePacks s s' := by
  unfold playerTradeAccept at h
  split at h
  · split at h
    · rw [← Except.ok.inj h]
      exact .refl s
    · split at h
      · rw [← Except.ok.inj h]
        exact .refl s
      · dsimp only at h
        split at h
        · split at h
          · rw [← Except.ok.inj h]
            exact (SamePacks.refl s).modify fun _ => rfl
          all_goals cases h
        · split at h
          · cases h
          · rw [← Except.ok.inj h]
            exact (SamePacks.refl s).modify fun _ => rfl
  · rw [← Except.ok.inj h]
    exact .refl s

theorem Player.closeUi_inventory (p : Player) : p.closeUi.inventory = p.inventory := rfl

theorem playerTradeDecline_packs (s : Server) (i : Nat) :
    SamePacks s (playerTradeDecline s i) := by
  unfold playerTradeDecline
  split
  · split
    · exact (SamePacks.refl s).modify fun _ => rfl
    · exact .modify (.modify (.refl s) Player.closeUi_inventory) Player.closeUi_inventory
  · exact .refl s

theorem serverFlushOffers_packs (h : serverFlushOffers s = .ok s') : SamePacks s s' := by
  have hloop : ∀ (l : List Nat) (s : Server), SamePacks s (l.foldl
      (fun s i => s.modify i fun p => { p with partnerOfferChanged := false }) s) := by
    intro l
    induction l with
    | nil => exact SamePacks.refl
    | cons k l ih =>
        intro s
        refine .trans ?_ (ih _)
        exact (SamePacks.refl s).modify fun _ => rfl
  unfold serverFlushOffers at h
  split at h
  · cases h
  · rw [← Except.ok.inj h]
    exact hloop _ s

/-! ### The loops of the exchange -/

variable {k : Nat} {offer : List InvItem}

theorem leaving_get_ne {inv : List InvItem} {new : List GroundItem} {m : Nat} (h : j ≠ i) :
    (leaving s i inv new m).get j = s.get j := by
  show (s.modify i fun p => { p with inventory := inv }).get j = _
  rw [Server.get_modify_ne h]

theorem held_singleton (x : InvItem) :
    held t k [x] = if k = x.id then units t x else 0 := by
  by_cases hk : k = x.id
  · rw [held, tally_cons, tally_nil, share_of_eq hk.symm, if_pos hk]
    rfl
  · rw [if_neg hk]
    refine held_eq_zero fun y hy => ?_
    rw [List.mem_singleton.1 hy]
    exact Ne.symm hk

theorem units_offered {x : InvItem} (hoffer : OfferOk t offer) (hx : x ∈ offer) :
    units t x = x.stack := by
  by_cases hst : t.stackable x.id = true
  · exact units_stackable hst
  · rw [units_unstackable (Bool.eq_false_iff.2 hst), hoffer.unit x hx (Bool.eq_false_iff.2 hst)]

/-- An entry is taken out as far as it is there. -/
theorem removeEntry_spec {x : InvItem} (hinv : InvOk t (s.get i).inventory)
    (hoffer : OfferOk t offer) (hx : x ∈ offer) :
    ∃ inv, playerInvRemoveId t s i x.id x.stack = .ok (leaving s i inv [] s.groundItemCounter) ∧
      InvOk t inv ∧ ∀ k, held t k inv = held t k (s.get i).inventory - held t k [x] := by
  obtain ⟨config, hc⟩ := Option.isSome_iff_exists.1 (hoffer.configured x hx)
  refine ⟨removed (·.id == x.id) config.weight x.stack (s.get i).inventory, ?_, removed_ok hinv,
    fun k => ?_⟩
  · rw [playerInvRemoveId_eq hinv.wf hc, leaving, List.append_nil]
    rfl
  · rw [held_removed hinv.wf hc, held_singleton]
    by_cases hk : k = x.id
    · subst hk
      rw [if_pos rfl, if_pos rfl, units_offered hoffer hx]
      by_cases hst : t.stackable x.id = true
      · rw [reach, if_pos hst]
      · rw [hoffer.unit x hx (Bool.eq_false_iff.2 hst)]
        rcases Nat.eq_zero_or_pos (held t x.id (s.get i).inventory) with hnone | hsome
        · rw [hnone, Nat.zero_sub, Nat.zero_sub]
        · rw [reach_one hsome]
    · rw [if_neg hk, if_neg hk, Nat.sub_zero]

theorem removeOffer_spec (hi : s.live i) (hinv : InvOk t (s.get i).inventory)
    (hoffer : OfferOk t offer) :
    ∃ inv, removeOffer t i offer s = .ok (leaving s i inv [] s.groundItemCounter) ∧
      InvOk t inv ∧ ∀ k, held t k inv = held t k (s.get i).inventory - held t k offer := by
  induction offer generalizing s with
  | nil => exact ⟨_, congrArg Except.ok (leaving_self rfl).symm, hinv, fun k => rfl⟩
  | cons x offer ih =>
      obtain ⟨inv₁, hfirst, hok₁, hheld₁⟩ := removeEntry_spec hinv hoffer List.mem_cons_self
      have hget := leaving_get hi inv₁ [] s.groundItemCounter
      obtain ⟨inv, hrest, hok, hheld⟩ :=
        ih (live_leaving hi inv₁ [] s.groundItemCounter) (by rw [hget]; exact hok₁) hoffer.tail
      refine ⟨inv, ?_, hok, fun k => ?_⟩
      · rw [removeOffer, hfirst]
        exact hrest.trans (congrArg Except.ok (leaving_leaving _ _ _ _ _ _))
      · rw [hheld k, hget, hheld₁ k, Nat.sub_sub, ← held_append]
        rfl

/-- An entry arrives whole, in the inventory or on the ground. -/
theorem giveEntry_spec {x : InvItem} (hinv : InvOk t (s.get i).inventory)
    (hoffer : OfferOk t offer) (hx : x ∈ offer) :
    ∃ config inv new m, t.byId x.id = some config ∧
      playerInvGive s i config x.stack = leaving s i inv new m ∧ InvOk t inv ∧
      ((t.stackable x.id = true →
          held t x.id (s.get i).inventory + x.stack ≤ maxStackSize) →
        ∀ k, held t k inv + groundOf k new = held t k (s.get i).inventory + held t k [x]) := by
  obtain ⟨config, hc⟩ := Option.isSome_iff_exists.1 (hoffer.configured x hx)
  have hid := ItemTable.byId_id hc
  obtain ⟨new, m, hgive, hnew⟩ := playerInvGive_eq s i config x.stack
  refine ⟨config, _, new, m, hc, hgive, invGive_ok hinv hc (hoffer.word x hx), fun hfit k => ?_⟩
  have hroom : HasRoom config x.stack (s.get i).inventory := by
    intro hw y hy hyid
    rw [hid] at hyid
    have hst : t.stackable x.id = true := by
      rw [ItemTable.stackable_of_byId hc, decide_eq_true hw]
    have hle := le_tally InvItem.id (units t) (k := x.id) hy
    rw [share_of_eq hyid, units_stackable (hyid ▸ hst)] at hle
    exact Nat.le_trans (Nat.add_le_add_right hle _) (hfit hst)
  rw [hnew k, hid, held_invGive hc (hoffer.word x hx) hroom, held_singleton,
    units_offered hoffer hx]

theorem giveOffer_spec (hi : s.live i) (hinv : InvOk t (s.get i).inventory)
    (hoffer : OfferOk t offer) :
    ∃ inv new m, giveOffer t i offer s = .ok (leaving s i inv new m) ∧ InvOk t inv ∧
      ((∀ k, t.stackable k = true →
          held t k (s.get i).inventory + held t k offer ≤ maxStackSize) →
        ∀ k, held t k inv + groundOf k new = held t k (s.get i).inventory + held t k offer) := by
  induction offer generalizing s with
  | nil =>
      exact ⟨_, [], _, congrArg Except.ok (leaving_self rfl).symm, hinv, fun _ k => rfl⟩
  | cons x offer ih =>
      have hsplit : ∀ k, held t k (x :: offer) = held t k [x] + held t k offer := by
        intro k
        rw [← held_append, List.singleton_append]
      obtain ⟨config, inv₁, new₁, m₁, hc, hfirst, hok₁, hheld₁⟩ :=
        giveEntry_spec hinv hoffer List.mem_cons_self
      have hget := leaving_get hi inv₁ new₁ m₁
      obtain ⟨inv, new₂, m₂, hrest, hok, hheld⟩ :=
        ih (live_leaving hi inv₁ new₁ m₁) (by rw [hget]; exact hok₁) hoffer.tail
      refine ⟨inv, new₁ ++ new₂, m₂, ?_, hok, fun hfit k => ?_⟩
      · rw [giveOffer, hc]
        dsimp only
        rw [hfirst, hrest, leaving_leaving]
      · have hmore := hheld₁ fun hst => by
          have hall := hfit x.id hst
          rw [hsplit, held_singleton, if_pos rfl, units_offered hoffer List.mem_cons_self] at hall
          omega
        have hground : groundOf k (new₁ ++ new₂) = groundOf k new₁ + groundOf k new₂ :=
          tally_append
        rw [hget] at hheld
        have hk := hheld (fun k hst => by
          have hall := hfit k hst
          have hk₁ := hmore k
          rw [hsplit] at hall
          dsimp only
          omega) k
        have hk₁ := hmore k
        rw [hground, hsplit]
        dsimp only at hk
        omega

/-- What the exchange is to take from a player. -/
def owed (t : ItemTable) (s : Server) (i j p k : Nat) : Nat :=
  (if p = i then held t k (s.get i).tradeOffer else 0) +
    if p = j then held t k (s.get j).tradeOffer else 0

/-- What it gives to one. -/
def coming (t : ItemTable) (s : Server) (i j p k : Nat) : Nat :=
  (if p = j then held t k (s.get i).tradeOffer else 0) +
    if p = i then held t k (s.get j).tradeOffer else 0

/-- What the two have, and what lies on the ground. -/
def total (t : ItemTable) (s : Server) (i j k : Nat) : Nat :=
  ∑ p ∈ ({i, j} : Finset Nat), held t k (s.get p).inventory + groundOf k s.tempItems

/-- What the offers hold and the inventories do not. -/
def shortfall (t : ItemTable) (s : Server) (i j k : Nat) : Nat :=
  ∑ p ∈ ({i, j} : Finset Nat), (owed t s i j p k - held t k (s.get p).inventory)

/-- No stack will be full. -/
def StacksFit (t : ItemTable) (s : Server) (i j : Nat) : Prop :=
  ∀ p ∈ ({i, j} : Finset Nat), ∀ k, t.stackable k = true →
    held t k (s.get p).inventory + coming t s i j p k ≤ maxStackSize

theorem total_congr (h : SamePacks s s') (htemp : s'.tempItems = s.tempItems) :
    total t s' i j k = total t s i j k := by
  unfold total
  rw [htemp]
  congr 1
  exact Finset.sum_congr rfl fun p _ => by rw [h p]

/-- One inventory is another, and nothing else about the players. -/
structure Handled (t : ItemTable) (s s' : Server) (i : Nat) : Prop where
  live : ∀ p, s'.live p ↔ s.live p
  packs : ∀ p, InvOk t (s'.get p).inventory
  others : ∀ p, p ≠ i → s'.get p = s.get p

theorem handled_leaving {inv : List InvItem} {new : List GroundItem} {m : Nat}
    (hinv : ∀ p, InvOk t (s.get p).inventory) (hok : InvOk t inv) (hi : s.live i) :
    Handled t s (leaving s i inv new m) i where
  live p := Server.live_modify
  packs p := by
    by_cases hp : p = i
    · rw [hp, leaving_get hi]
      exact hok
    · rw [leaving_get_ne hp]
      exact hinv p
  others p hp := leaving_get_ne hp

theorem removeOffer_handled (hi : s.live i) (hinv : ∀ p, InvOk t (s.get p).inventory)
    (hoffer : OfferOk t offer) :
    ∃ s', removeOffer t i offer s = .ok s' ∧ Handled t s s' i ∧ s'.tempItems = s.tempItems ∧
      ∀ k, held t k (s'.get i).inventory = held t k (s.get i).inventory - held t k offer := by
  obtain ⟨inv, hloop, hok, hheld⟩ := removeOffer_spec hi (hinv i) hoffer
  refine ⟨_, hloop, handled_leaving hinv hok hi, List.append_nil _, fun k => ?_⟩
  rw [leaving_get hi]
  exact hheld k

theorem giveOffer_handled (hi : s.live i) (hinv : ∀ p, InvOk t (s.get p).inventory)
    (hoffer : OfferOk t offer) :
    ∃ s' new, giveOffer t i offer s = .ok s' ∧ Handled t s s' i ∧
      s'.tempItems = s.tempItems ++ new ∧ ((∀ k, t.stackable k = true →
          held t k (s.get i).inventory + held t k offer ≤ maxStackSize) →
        ∀ k, held t k (s'.get i).inventory + groundOf k new =
          held t k (s.get i).inventory + held t k offer) := by
  obtain ⟨inv, new, m, hloop, hok, hheld⟩ := giveOffer_spec hi (hinv i) hoffer
  refine ⟨_, new, hloop, handled_leaving hinv hok hi, rfl, fun hfit k => ?_⟩
  rw [leaving_get hi]
  exact hheld hfit k

theorem tradeItems_spec (hi : s.live i) (hj : s.live j)
    (hinv : ∀ p, InvOk t (s.get p).inventory) (hoffer : ∀ p, OfferOk t (s.get p).tradeOffer) :
    ∃ s', tradeItems t s i j = .ok s' ∧ (∀ p, InvOk t (s'.get p).inventory) ∧
      (∀ p, p ≠ i → p ≠ j → s'.get p = s.get p) ∧
      (StacksFit t s i j → ∀ k, total t s' i j k = total t s i j k + shortfall t s i j k) := by
  obtain ⟨s₁, hloop₁, h₁, htemp₁, hheld₁⟩ := removeOffer_handled hi hinv (hoffer i)
  obtain ⟨s₂, hloop₂, h₂, htemp₂, hheld₂⟩ :=
    removeOffer_handled ((h₁.live j).2 hj) h₁.packs (hoffer j)
  obtain ⟨s₃, new₃, hloop₃, h₃, htemp₃, hheld₃⟩ :=
    giveOffer_handled ((h₂.live j).2 ((h₁.live j).2 hj)) h₂.packs (hoffer i)
  obtain ⟨s₄, new₄, hloop₄, h₄, htemp₄, hheld₄⟩ :=
    giveOffer_handled ((h₃.live i).2 ((h₂.live i).2 ((h₁.live i).2 hi))) h₃.packs (hoffer j)
  refine ⟨s₄, ?_, h₄.packs, fun p hpi hpj => ?_, fun hfit k => ?_⟩
  · unfold tradeItems
    dsimp only
    rw [hloop₁]
    dsimp only
    rw [hloop₂]
    dsimp only
    rw [hloop₃]
    exact hloop₄
  · rw [h₄.others p hpi, h₃.others p hpj, h₂.others p hpj, h₁.others p hpi]
  · have hground : groundOf k s₄.tempItems =
        groundOf k s.tempItems + groundOf k new₃ + groundOf k new₄ := by
      rw [htemp₄, htemp₃, htemp₂, htemp₁]
      exact tally_append.trans (congrArg (· + _) tally_append)
    by_cases hij : j = i
    · subst hij
      -- alone in the trade: the offer is taken twice and given twice
      have hfit' := fun k => hfit j (Finset.mem_insert_self j _) k
      simp only [coming, if_true] at hfit'
      have hgive₃ := hheld₃ fun k hst => by
        have hk := hfit' k hst
        rw [hheld₂, hheld₁]
        omega
      have hgive₄ := hheld₄ fun k hst => by
        have hk := hfit' k hst
        have hk₃ := hgive₃ k
        rw [hheld₂, hheld₁] at hk₃
        omega
      have hk₃ := hgive₃ k
      have hk₄ := hgive₄ k
      rw [hheld₂, hheld₁] at hk₃
      simp only [total, shortfall, owed, Finset.pair_eq_singleton, Finset.sum_singleton, if_true]
      omega
    · have hfiti := fun k => hfit i (Finset.mem_insert_self i _) k
      have hfitj := fun k =>
        hfit j (Finset.mem_insert_of_mem (Finset.mem_singleton_self j)) k
      simp only [coming, if_true, if_neg hij, if_neg (Ne.symm hij), Nat.zero_add,
        Nat.add_zero] at hfiti hfitj
      rw [h₁.others j hij] at hheld₂
      have hgive₃ := hheld₃ fun k hst => by
        have hk := hfitj k hst
        rw [hheld₂]
        omega
      rw [h₃.others i (Ne.symm hij), h₂.others i (Ne.symm hij)] at hheld₄
      have hgive₄ := hheld₄ fun k hst => by
        have hk := hfiti k hst
        rw [hheld₁]
        omega
      have hk₃ := hgive₃ k
      have hk₄ := hgive₄ k
      rw [hheld₂] at hk₃
      rw [hheld₁] at hk₄
      simp only [total, shortfall, owed, Finset.sum_pair (Ne.symm hij), h₄.others j hij, if_true,
        if_neg hij, if_neg (Ne.symm hij), Nat.zero_add, Nat.add_zero]
      omega

/-! ### Confirmation -/

theorem confirmed_iff (hi : s.live i) (state : TradeState) (hstate : state = .confirmed) :
    ((s.modify i fun p => { p with tradeState := state }).get j).tradeState = .confirmed ↔
      j = i ∨ (s.get j).tradeState = .confirmed := by
  rw [Server.get_modify]
  split
  · next hc => exact iff_of_true hstate (.inl hc.1)
  · next hc => exact ⟨.inr, fun h => h.resolve_left fun heq => hc ⟨heq, hi⟩⟩

/-- The packet that makes an exchange. -/
theorem Exchanges.confirm (hex : Exchanges s i j) (hinv : ∀ p, InvOk t (s.get p).inventory)
    (hoffer : ∀ p, OfferOk t (s.get p).tradeOffer) :
    ∃ s', playerTradeConfirm t s i = .ok s' ∧ (∀ p, InvOk t (s'.get p).inventory) ∧
      (∀ p, p ≠ i → p ≠ j → s'.get p = s.get p) ∧
      (StacksFit t s i j → ∀ k, total t s' i j k = total t s i j k + shortfall t s i j k) := by
  obtain ⟨hdeal, hstate, hboth⟩ := hex
  have hsame : SamePacks s (s.modify i fun p => { p with tradeState := .confirmed }) :=
    (SamePacks.refl s).modify fun _ => rfl
  have hoffers : ∀ p, ((s.modify i fun p => { p with tradeState := .confirmed }).get p).tradeOffer =
      (s.get p).tradeOffer := fun p => Server.get_modify_field Player.tradeOffer fun _ => rfl
  have htotal : ∀ k, total t (s.modify i fun p => { p with tradeState := .confirmed }) i j k =
      total t s i j k := fun k => total_congr hsame rfl
  have hconf := (confirmed_iff (j := j) hdeal.live _ rfl).2 hboth
  have hget := Server.get_modify_self (f := fun p => { p with tradeState := .confirmed }) hdeal.live
  have hothers : ∀ p, p ≠ i →
      (s.modify i fun p => { p with tradeState := .confirmed }).get p = s.get p :=
    fun p hp => Server.get_modify_ne hp
  have hlivei := (Server.live_modify (f := fun p => { p with tradeState := .confirmed }) (i := i)
    (j := i)).2 hdeal.live
  have hlivej := (Server.live_modify (f := fun p => { p with tradeState := .confirmed }) (i := i)
    (j := j)).2 hdeal.partner
  unfold playerTradeConfirm
  simp only [hdeal.trading, hdeal.uiOpen, hdeal.partner, not_true_eq_false, if_false, hstate,
    ne_eq, hconf, if_true]
  generalize s.modify i (fun p => { p with tradeState := .confirmed }) = c at *
  obtain ⟨s₁, hitems, hinv₁, hothers₁, htotal₁⟩ := tradeItems_spec hlivei hlivej
    (fun p => by rw [hsame p]; exact hinv p) fun p => by rw [hoffers p]; exact hoffer p
  have hclosed : SamePacks s₁ (playerCloseUi (playerCloseUi s₁ i) j) :=
    .modify (.modify (.refl s₁) Player.closeUi_inventory) Player.closeUi_inventory
  refine ⟨playerCloseUi (playerCloseUi s₁ i) j, ?_, fun p => ?_, fun p hpi hpj => ?_,
    fun hfit k => ?_⟩
  · unfold playerTradeFinalize
    simp only [hget, hdeal.trading, hdeal.uiOpen, hlivej, not_true_eq_false, if_false, hitems]
  · rw [hclosed p]
    exact hinv₁ p
  · unfold playerCloseUi
    rw [Server.get_modify_ne hpj, Server.get_modify_ne hpi, hothers₁ p hpi hpj, hothers p hpi]
  · have howed : ∀ p, owed t c i j p k = owed t s i j p k := fun p => by
      simp only [owed, hoffers]
    have hshort : shortfall t c i j k = shortfall t s i j k :=
      Finset.sum_congr rfl fun p _ => by rw [howed p, hsame p]
    have hfit' : StacksFit t c i j := fun p hp k hst => by
      have hall := hfit p hp k hst
      rw [hsame p]
      simpa only [coming, hoffers] using hall
    rw [total_congr hclosed rfl, htotal₁ hfit' k, htotal k, hshort]

theorem playerTradeConfirm_packs (hi : s.live i) (hno : ∀ j, ¬ Exchanges s i j)
    (h : playerTradeConfirm t s i = .ok s') : SamePacks s s' := by
  unfold playerTradeConfirm at h
  split at h
  · next j hname hopen =>
    split at h
    · rw [← Except.ok.inj h]
      exact .refl s
    · next hj =>
      split at h
      · rw [← Except.ok.inj h]
        exact .refl s
      · next hstate =>
        dsimp only at h
        split at h
        · next hconf =>
          exact (hno j ⟨⟨hi, hname, hopen, not_not.1 hj⟩, not_not.1 hstate,
            (confirmed_iff hi _ rfl).1 hconf⟩).elim
        · rw [← Except.ok.inj h]
          exact (SamePacks.refl s).modify fun _ => rfl
  · rw [← Except.ok.inj h]
    exact .refl s

end Packs

/-! ## Runs -/

section Runs

variable {t : ItemTable} {s s' : Server} {i j : Nat} {e : TradeEvent}

/-- Inventories as the game fills them, and offers as packets fill them. -/
structure Goods (t : ItemTable) (s : Server) : Prop where
  packs : ∀ i, InvOk t (s.get i).inventory
  offers : ∀ i, OfferOk t (s.get i).tradeOffer

/-- What a packet holds is bytes, and whatever else happens keeps inventories
as they should be. -/
def SoundEvent (t : ItemTable) : TradeEvent → Prop
  | .packet _ (.update data) => ∀ b ∈ data, b < 256
  | .world change => ∀ s, (∀ i, InvOk t (s.get i).inventory) →
      ∀ i, InvOk t ((change.run s).get i).inventory
  | _ => True

theorem offerOk_modify {S : Sides} {f : TradeSide → TradeSide}
    (hS : ∀ k, OfferOk t (S.offer k)) (i : Nat)
    (hf : ∀ a, OfferOk t a.tradeOffer → OfferOk t (f a).tradeOffer) (k : Nat) :
    OfferOk t ((S.modify i f).offer k) := by
  have hk := hS k
  unfold Sides.offer at hk ⊢
  rw [Sides.modify_apply]
  split
  · cases hSk : S k with
    | none => exact offerOk_nil
    | some a =>
        rw [hSk] at hk
        exact hf a hk
  · exact hk

/-- An offer is what it was, or empty, or what a packet makes it. -/
theorem offerOk_move {S : Sides} {m : Move} (hS : ∀ k, OfferOk t (S.offer k))
    (hm : ∀ i j b items c, m = .offer i j b items c → OfferOk t items) (k : Nat) :
    OfferOk t ((S.move m).offer k) := by
  have hupdate : ∀ (i : Nat) (o : Option TradeSide),
      (∀ a, o = some a → OfferOk t a.tradeOffer) →
      OfferOk t (Sides.offer (Function.update S i o) k) := by
    intro i o ho
    have hk := hS k
    unfold Sides.offer at hk ⊢
    rw [Function.update_apply]
    split
    · cases o with
      | none => exact offerOk_nil
      | some a => exact ho a rfl
    · exact hk
  have hsame : ∀ (i : Nat) (f : TradeSide → TradeSide),
      (∀ a, (f a).tradeOffer = a.tradeOffer) → ∀ k, OfferOk t ((S.modify i f).offer k) :=
    fun i f hf => offerOk_modify hS i fun a ha => by rw [hf a]; exact ha
  cases m with
  | idle => exact hS k
  | join i => exact hupdate i _ fun a ha => by rw [← Option.some.inj ha]; exact offerOk_nil
  | leave i => exact hupdate i _ fun a ha => nomatch ha
  | stage i stage => exact hsame i (TradeSide.staged stage) (fun _ => rfl) k
  | request i j =>
      unfold Sides.move
      dsimp only
      have hname := hsame i (TradeSide.naming j) fun _ => rfl
      split
      · have hopen := offerOk_modify (f := TradeSide.opened) hname i fun _ ha => ha
        exact offerOk_modify (f := TradeSide.opened) hopen j (fun _ ha => ha) k
      · exact hname k
  | offer i j heard items told =>
      have hitems := hm i j heard items told rfl
      have hboth : ∀ k, OfferOk t ((if heard then S.unaccept i j else S).offer k) := by
        intro k
        split
        · have hfree := hsame i TradeSide.unaccepted fun _ => rfl
          exact offerOk_modify (f := TradeSide.unaccepted) hfree j (fun _ ha => ha) k
        · exact hS k
      have hset := offerOk_modify hboth i (f := TradeSide.offering items) fun _ _ => hitems
      unfold Sides.move
      dsimp only
      split
      · exact offerOk_modify (f := TradeSide.told true) hset j (fun _ ha => ha) k
      · exact hset k
  | accept i j => exact hsame i (TradeSide.standing .accepted) (fun _ => rfl) k
  | confirm i j => exact hsame i (TradeSide.standing .confirmed) (fun _ => rfl) k
  | exchange i j =>
      exact offerOk_modify (offerOk_modify hS i fun _ _ => offerOk_nil) j
        (fun _ _ => offerOk_nil) k
  | decline i j =>
      exact offerOk_modify (offerOk_modify hS j fun _ _ => offerOk_nil) i
        (fun _ _ => offerOk_nil) k
  | close i => exact offerOk_modify hS i (fun _ _ => offerOk_nil) k
  | clear i => exact hsame i TradeSide.cleared (fun _ => rfl) k
  | flush n =>
      have hk := hS k
      unfold Sides.move Sides.offer at *
      dsimp only
      split
      · cases hSk : S k with
        | none => exact offerOk_nil
        | some a =>
            rw [hSk] at hk
            exact hk
      · exact hk

/-- Only an update packet makes an offer. -/
theorem moveOf_offer {b c : Bool} {items : List InvItem} (h : moveOf t s e = .offer i j b items c) :
    ∃ data, e = .packet i (.update data) ∧ items = offerOf t s i j data := by
  have hwindow : ∀ {k : Nat} {deal : Nat → Move} {alone : Move},
      windowMove s k deal alone = .offer i j b items c →
      (∃ m, deal m = .offer i j b items c) ∨ alone = .offer i j b items c := by
    intro k deal alone hw
    unfold windowMove at hw
    split at hw
    · next m _ _ =>
      split at hw
      · exact .inl ⟨m, hw⟩
      · exact .inr hw
    · cases hw
  cases e with
  | packet k packet =>
      rw [moveOf] at h
      split at h
      · cases packet with
        | player data =>
            rw [packetMove] at h
            unfold requestMove at h
            repeat' split at h
            all_goals cases h
        | update data =>
            rcases hwindow h with ⟨m, hm⟩ | hm
            · cases hm
              exact ⟨data, rfl, rfl⟩
            · cases hm
        | accept =>
            rcases hwindow h with ⟨m, hm⟩ | hm
            · unfold acceptMove at hm
              split at hm
              · cases hm
              · cases hm
            · cases hm
        | confirm =>
            rcases hwindow h with ⟨m, hm⟩ | hm
            · unfold confirmMove at hm
              repeat' split at hm
              all_goals cases hm
            · cases hm
        | decline =>
            rcases hwindow h with ⟨m, hm⟩ | hm
            · cases hm
            · cases hm
      · cases h
  | connect =>
      rw [moveOf] at h
      cases hslot : freeSlot s maxPlayers 0 with
      | none => rw [hslot] at h; cases h
      | some slot => rw [hslot] at h; cases h
  | remove k =>
      rw [moveOf] at h
      split at h
      · cases h
      · cases h
  | stage k stage => cases h
  | closeUi k => cases h
  | clearActions k => cases h
  | flush => cases h
  | world change => cases h

theorem offerOf_ok {data : List Nat} (hdata : ∀ b ∈ data, b < 256) :
    OfferOk t (offerOf t s i j data) := by
  unfold offerOf
  split
  · exact offerOk_nil
  · exact offerAll_ok (packetEntries_word hdata)

theorem invOk_nil : InvOk t [] :=
  ⟨List.Pairwise.nil, fun _ hx => absurd hx List.not_mem_nil,
    fun _ hx => absurd hx List.not_mem_nil, Nat.zero_le _⟩

theorem Goods.packs_step (h : Goods t s) (he : SoundEvent t e) (hs : tradeStep t s e = .ok s')
    (k : Nat) :
    InvOk t (s'.get k).inventory := by
  have hsame : SamePacks s s' → InvOk t (s'.get k).inventory := fun hp => by
    rw [hp k]
    exact h.packs k
  have htable : ∀ (p : Option Player) (i : Nat),
      (∀ a, p = some a → InvOk t a.inventory) →
      InvOk t ((((if k = i then p else s.players k) : Option Player).getD {}).inventory) := by
    intro p i hp
    split
    · cases p with
      | none => exact invOk_nil
      | some a => exact hp a rfl
    · exact h.packs k
  cases e with
  | connect =>
      obtain rfl := Except.ok.inj hs
      unfold playerCreate
      split
      · exact h.packs k
      · exact htable _ _ fun a ha => by rw [← Option.some.inj ha]; exact invOk_nil
  | stage i stage =>
      obtain rfl := Except.ok.inj hs
      exact hsame ((SamePacks.refl s).modify fun _ => rfl)
  | packet i packet =>
      rw [tradeStep] at hs
      split at hs
      · next hi =>
        cases packet with
        | player data => exact hsame (opCliTradePlayer_packs hs)
        | update data => exact hsame (opCliTradeUpdate_packs hs)
        | accept => exact hsame (playerTradeAccept_packs hs)
        | confirm =>
            by_cases hex : ∃ j, Exchanges s i j
            · obtain ⟨j, hj⟩ := hex
              obtain ⟨c, hc, hinv, -⟩ := hj.confirm h.packs h.offers
              rw [tradePacket, hc] at hs
              obtain rfl := Except.ok.inj hs
              exact hinv k
            · exact hsame (playerTradeConfirm_packs hi (fun j hj => hex ⟨j, hj⟩) hs)
        | decline =>
            obtain rfl := Except.ok.inj hs
            exact hsame (playerTradeDecline_packs s i)
      · rw [← Except.ok.inj hs]
        exact h.packs k
  | closeUi i =>
      obtain rfl := Except.ok.inj hs
      exact hsame (.modify (.refl s) Player.closeUi_inventory)
  | clearActions i =>
      obtain rfl := Except.ok.inj hs
      exact hsame ((SamePacks.refl s).modify fun _ => rfl)
  | remove i =>
      obtain rfl := Except.ok.inj hs
      unfold serverRemovePlayer
      split
      · obtain ⟨l, hl⟩ := serverRegister_notices false (s.get i).name s
        rw [hl]
        exact htable _ _ fun a ha => by cases ha
      · exact h.packs k
  | flush => exact hsame (serverFlushOffers_packs hs)
  | world change =>
      obtain rfl := Except.ok.inj hs
      exact he s h.packs k

theorem sides_offer_eq (s : Server) (k : Nat) : (sides s).offer k = (s.get k).tradeOffer :=
  congrArg Prod.snd (sides_deal s k)

theorem Goods.step (h : Goods t s) (he : SoundEvent t e) (hs : tradeStep t s e = .ok s') :
    Goods t s' := by
  refine ⟨h.packs_step he hs, fun k => ?_⟩
  rw [← sides_offer_eq, sides_step hs]
  refine offerOk_move (fun k => by rw [sides_offer_eq]; exact h.offers k) ?_ k
  intro i j b items c hm
  obtain ⟨data, rfl, rfl⟩ := moveOf_offer hm
  exact offerOf_ok he

end Runs

end Sundae.Proofs
