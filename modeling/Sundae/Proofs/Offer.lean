import Mathlib.Data.Finset.Card
import Mathlib.Data.List.Induction
import Sundae.Proofs.Inventory
import Sundae.Ref.Trade

/-!
# What a player may offer

An offer is made anew by every update packet, one entry after another, and
each entry is compared with the whole inventory. Nothing compares the entries
with one another but the sum of two offers of a stackable item, and that sum is
made and then the second offer is appended as well.

`Affordable` says of a packet what its entries have to be for the offer to stay
within the inventory: what fits is weighed against what the entries before it
already took.
-/

namespace Sundae.Proofs

open Sundae.Ref Sundae.Lib

variable {t : ItemTable} {inv offer : List InvItem} {id amount n k : Nat}

/-- The offer stays within the inventory and its own size, and has one entry
at most for a stackable item. -/
structure Within (t : ItemTable) (inv offer : List InvItem) : Prop where
  covered : ∀ k, held t k offer ≤ held t k inv
  size : offer.length ≤ maxOfferSize
  single : (offer.map InvItem.id).Pairwise fun a b => a = b → t.stackable a = false

/-! ## The packet -/

/-- The entries of an update packet, an id and an amount each, up to where the
data ends. -/
def entriesFrom (data : List Nat) : Nat → Nat → List (Nat × Nat)
  | 0, _ => []
  | n + 1, offset =>
    match bufGetu16 data offset, bufGetu32 data (offset + 2) with
    | some id, some amount => (id, amount) :: entriesFrom data n (offset + 6)
    | _, _ => []

def packetEntries (data : List Nat) : List (Nat × Nat) :=
  match bufGetu8 data 1 with
  | none => []
  | some count => entriesFrom data count 2

/-- An entry for an item there is, in an amount that is held. -/
def heard (t : ItemTable) (inv : List InvItem) (e : Nat × Nat) : Bool :=
  (t.byId e.1).any fun config => invHeldId config e.1 e.2 inv

/-- The units of an unstackable item that the entries ask for. -/
def asked (t : ItemTable) (inv : List InvItem) (k : Nat) (es : List (Nat × Nat)) : Nat :=
  ((es.filter fun e => heard t inv e && e.1 == k).map Prod.snd).sum

/-- What one more entry makes of the amount of a stackable item. -/
def pileUp (t : ItemTable) (inv : List InvItem) (k : Nat) (pile : Option Nat) (e : Nat × Nat) :
    Option Nat :=
  if e.1 = k then
    match pile with
    | none => if heard t inv e then some e.2 else none
    | some n => if heard t inv (k, offerSum n e.2) then some (offerSum n e.2) else some n
  else pile

/-- The amount of a stackable item that the entries come to. -/
def pile (t : ItemTable) (inv : List InvItem) (k : Nat) (es : List (Nat × Nat)) : Option Nat :=
  es.foldl (pileUp t inv k) none

/-- The places the entries take: one for every unit of an unstackable item, one
for every stackable item. -/
def places (t : ItemTable) (inv : List InvItem) (es : List (Nat × Nat)) : Nat :=
  ((es.filter fun e => heard t inv e && !t.stackable e.1).map Prod.snd).sum +
    ((es.filter fun e => heard t inv e && t.stackable e.1).map Prod.fst).dedup.length

/-- An entry that does no harm after those before it: there is no place left,
or it is not held, or it is of a stackable item not offered yet or not held in
the sum, or there are as many units as are asked for and have a place. -/
def EntryFits (t : ItemTable) (inv : List InvItem) (before : List (Nat × Nat)) (e : Nat × Nat) : Prop :=
  places t inv before < maxOfferSize → heard t inv e = true →
    if t.stackable e.1 = true then
      ∀ m, pile t inv e.1 before = some m → heard t inv (e.1, offerSum m e.2) = false
    else asked t inv e.1 before + min e.2 (maxOfferSize - places t inv before) ≤ held t e.1 inv

/-- Every entry fits after those before it. -/
def Affordable (t : ItemTable) (inv : List InvItem) (es : List (Nat × Nat)) : Prop :=
  ∀ n e, es[n]? = some e → EntryFits t inv (es.take n) e

/-- What one entry makes of the offer. -/
def offerNext (t : ItemTable) (inv offer : List InvItem) (e : Nat × Nat) : List InvItem :=
  (t.byId e.1).elim offer fun config => offerItem config inv e.1 e.2 offer

/-- What the entries make of an empty offer. -/
def offerAll (t : ItemTable) (inv : List InvItem) (es : List (Nat × Nat)) : List InvItem :=
  es.foldl (offerNext t inv) []

/-- What cannot be mended by offering more. -/
def Broken (t : ItemTable) (inv offer : List InvItem) : Prop :=
  ¬ (offer.map InvItem.id).Pairwise (fun a b => a = b → t.stackable a = false) ∨
    ∃ k, t.stackable k = false ∧ held t k inv < (offer.map InvItem.id).count k

/-! ## The entries so far -/

theorem heard_of_byId {config : ItemConfig} (hc : t.byId id = some config) :
    heard t inv (id, n) = invHeldId config id n inv := by
  rw [heard, hc, Option.any_some]

theorem not_heard {e : Nat × Nat} (hc : t.byId e.1 = none) : heard t inv e = false := by
  rw [heard, hc, Option.any_none]

theorem pile_concat (es : List (Nat × Nat)) (e : Nat × Nat) :
    pile t inv k (es ++ [e]) = pileUp t inv k (pile t inv k es) e := by
  rw [pile, List.foldl_append]
  rfl

theorem asked_concat (es : List (Nat × Nat)) (e : Nat × Nat) :
    asked t inv k (es ++ [e]) =
      asked t inv k es + if heard t inv e = true ∧ e.1 = k then e.2 else 0 := by
  rw [asked, asked, List.filter_append, List.map_append, List.sum_append, List.filter_singleton]
  by_cases hk : e.1 = k
  · cases heard t inv e <;> simp [hk]
  · have hbeq : (e.1 == k) = false := beq_false_of_ne hk
    simp [hk, hbeq]

/-- A stackable item has been offered if an entry for it was heard. -/
theorem pile_eq_none_iff {es : List (Nat × Nat)} :
    pile t inv k es = none ↔ ∀ e ∈ es, e.1 = k → heard t inv e = false := by
  induction es using List.reverseRecOn with
  | nil => simp [pile]
  | append_singleton es e ih =>
      rw [pile_concat, pileUp.eq_def]
      simp only [List.mem_append, List.mem_singleton, or_imp, forall_and, forall_eq]
      by_cases hk : e.1 = k
      · rw [if_pos hk]
        cases hp : pile t inv k es with
        | none =>
            have hold := ih.1 hp
            cases he : heard t inv e with
            | false => exact iff_of_true rfl ⟨hold, fun _ => rfl⟩
            | true => exact iff_of_false (Option.some_ne_none _) fun h => by cases h.2 hk
        | some m =>
            have hold : ¬ ∀ a ∈ es, a.1 = k → heard t inv a = false := fun h => by
              rw [ih.2 h] at hp
              cases hp
            refine iff_of_false ?_ fun h => hold h.1
            simp only
            split
            · exact Option.some_ne_none _
            · exact Option.some_ne_none _
      · rw [if_neg hk, ih]
        exact ⟨fun h => ⟨h, fun h' => absurd h' hk⟩, And.left⟩

theorem places_concat_unheard {es : List (Nat × Nat)} {e : Nat × Nat}
    (he : heard t inv e = false) : places t inv (es ++ [e]) = places t inv es := by
  simp [places, List.filter_append, he]

theorem places_concat_units {es : List (Nat × Nat)} {e : Nat × Nat} (he : heard t inv e = true)
    (hid : t.stackable e.1 = false) : places t inv (es ++ [e]) = places t inv es + e.2 := by
  simp only [places, List.filter_append, List.filter_singleton, he, hid, Bool.not_false,
    Bool.and_self, Bool.and_false, cond_true, cond_false, List.append_nil,
    List.map_append, List.map_cons, List.map_nil, List.sum_append, List.sum_cons, List.sum_nil]
  omega

theorem length_dedup_concat {α : Type} [DecidableEq α] (l : List α) (a : α) :
    (l ++ [a]).dedup.length = l.dedup.length + if a ∈ l then 0 else 1 := by
  rw [← List.card_toFinset, ← List.card_toFinset, List.toFinset_append, List.toFinset_cons,
    List.toFinset_nil, insert_empty_eq, Finset.union_comm, ← Finset.insert_eq]
  by_cases ha : a ∈ l
  · rw [Finset.insert_eq_of_mem (List.mem_toFinset.2 ha), if_pos ha,
      Nat.add_zero]
  · rw [Finset.card_insert_of_notMem fun h => ha (List.mem_toFinset.1 h), if_neg ha]

theorem places_concat_stack {es : List (Nat × Nat)} {e : Nat × Nat} (he : heard t inv e = true)
    (hid : t.stackable e.1 = true) :
    places t inv (es ++ [e]) =
      places t inv es + if (pile t inv e.1 es).isSome = true then 0 else 1 := by
  have hmem : e.1 ∈ (es.filter fun e => heard t inv e && t.stackable e.1).map Prod.fst ↔
      (pile t inv e.1 es).isSome = true := by
    rw [← Option.ne_none_iff_isSome, ne_eq, pile_eq_none_iff, List.mem_map]
    simp only [List.mem_filter, Bool.and_eq_true, not_forall, Bool.not_eq_false]
    constructor
    · rintro ⟨a, ⟨ha, hheard, -⟩, hae⟩
      exact ⟨a, ha, hae, hheard⟩
    · rintro ⟨a, ha, hae, hheard⟩
      exact ⟨a, ⟨ha, hheard, hae ▸ hid⟩, hae⟩
  simp only [places, List.filter_append, List.filter_singleton, he, hid, Bool.not_true,
    Bool.and_self, Bool.and_false, cond_true, cond_false, List.append_nil,
    List.map_append, List.map_cons, List.map_nil, length_dedup_concat, hmem, Nat.add_assoc]

theorem places_mono (es : List (Nat × Nat)) (e : Nat × Nat) :
    places t inv es ≤ places t inv (es ++ [e]) := by
  cases he : heard t inv e with
  | false => rw [places_concat_unheard he]
  | true =>
      cases hid : t.stackable e.1 with
      | false =>
          rw [places_concat_units he hid]
          omega
      | true =>
          rw [places_concat_stack he hid]
          omega

/-! ## The offer so far -/

theorem offerUnits_eq :
    offerUnits id n offer =
      offer ++ List.replicate (min n (maxOfferSize - offer.length)) { id := id, stack := 1 } := by
  induction n generalizing offer with
  | zero => simp [offerUnits]
  | succ n ih =>
      rw [offerUnits]
      split
      · next hfull =>
        rw [Nat.sub_eq_zero_of_le hfull, Nat.min_zero, List.replicate_zero, List.append_nil]
      · next hroom =>
        obtain ⟨m, hm⟩ : ∃ m, maxOfferSize - offer.length = m + 1 :=
          ⟨maxOfferSize - offer.length - 1, by omega⟩
        have hm' : maxOfferSize - (offer ++ [(⟨id, 1, false⟩ : InvItem)]).length = m := by
          rw [List.length_append, List.length_singleton]
          omega
        rw [ih, hm, hm', Nat.succ_min_succ, List.replicate_succ, List.append_assoc,
          List.singleton_append]

theorem le_held_of_invHeldId {config : ItemConfig} (hc : t.byId id = some config)
    (h : invHeldId config id n inv = true) : n ≤ held t id inv := by
  unfold invHeldId at h
  split at h
  · next hw =>
    have hid : t.stackable id = true := by
      rw [ItemTable.stackable_of_byId hc, decide_eq_true hw]
    split at h
    · next x hx =>
      have hbeq := List.find?_some (p := fun x : InvItem => x.id == id) hx
      have hxid : x.id = id := eq_of_beq hbeq
      have hle := le_tally InvItem.id (units t) (k := id) (List.mem_of_find?_eq_some hx)
      rw [share_of_eq hxid, units_stackable (hxid ▸ hid)] at hle
      exact Nat.le_trans (of_decide_eq_true h) hle
    · exact Nat.le_trans (of_decide_eq_true h) (Nat.zero_le _)
  · next hw =>
    have hid : t.stackable id = false := by
      rw [ItemTable.stackable_of_byId hc, decide_eq_false hw]
    rw [held_unstackable hid]
    exact of_decide_eq_true h

theorem le_held_of_heard (h : heard t inv (id, n) = true) : n ≤ held t id inv := by
  cases hc : t.byId id with
  | none =>
      rw [not_heard hc] at h
      cases h
  | some config => exact le_held_of_invHeldId hc (heard_of_byId hc ▸ h)

theorem offerAppend_ids (config : ItemConfig) (inv offer : List InvItem) (id amount : Nat) :
    offer.map InvItem.id <+: (offerAppend config inv id amount offer).map InvItem.id := by
  unfold offerAppend
  split
  · exact List.prefix_rfl
  · split
    · rw [offerUnits_eq, List.map_append]
      exact List.prefix_append _ _
    · split
      · exact List.prefix_rfl
      · rw [List.map_append]
        exact List.prefix_append _ _

/-- The items offered stay offered. -/
theorem offerItem_ids (config : ItemConfig) :
    offer.map InvItem.id <+: (offerItem config inv id amount offer).map InvItem.id := by
  unfold offerItem
  split
  · split
    · exact offerAppend_ids config _ _ _ _
    · next k _ =>
      simp only
      split
      · have hmap := offerAppend_ids config inv
          (offer.modify k (·.setStack (offerSum (offer[k]?.elim 0 InvItem.stack) amount))) id amount
        rwa [map_modify_of_key InvItem.id fun x => x.setStack_id _] at hmap
      · exact List.prefix_rfl
  · exact offerAppend_ids config _ _ _ _

theorem Broken.grown {offer' : List InvItem} (h : Broken t inv offer)
    (hpre : offer.map InvItem.id <+: offer'.map InvItem.id) : Broken t inv offer' := by
  rcases h with hsingle | ⟨k, hk, hlt⟩
  · exact .inl fun hp => hsingle (hp.sublist hpre.sublist)
  · exact .inr ⟨k, hk, Nat.lt_of_lt_of_le hlt (hpre.sublist.count_le k)⟩

theorem held_eq_count (hk : t.stackable k = false) :
    held t k offer = (offer.map InvItem.id).count k := by
  rw [held_unstackable hk, List.count, List.countP_map]
  rfl

theorem Broken.not_within (h : Broken t inv offer) : ¬ Within t inv offer := by
  rintro ⟨hcovered, -, hsingle⟩
  rcases h with hmany | ⟨k, hk, hlt⟩
  · exact hmany hsingle
  · have hle := hcovered k
    rw [held_eq_count hk] at hle
    omega

/-! ## One more entry -/

/-- The offer after entries that all fit: while there is a place left it is
what they ask for. -/
structure Tracks (t : ItemTable) (inv : List InvItem) (es : List (Nat × Nat))
    (offer : List InvItem) : Prop where
  within : Within t inv offer
  unworn : ∀ x ∈ offer, x.worn = false
  length : offer.length = min maxOfferSize (places t inv es)
  units : places t inv es < maxOfferSize → ∀ k, t.stackable k = false →
    held t k offer = asked t inv k es
  piles : places t inv es < maxOfferSize → ∀ k, t.stackable k = true → ∀ m,
    (pile t inv k es = some m ↔ ∃ x ∈ offer, x.id = k ∧ x.stack = m)

variable {es : List (Nat × Nat)}

theorem Tracks.wf (h : Tracks t inv es offer) : InvWf t offer :=
  ⟨h.within.single, fun x hx hw => by rw [h.unworn x hx] at hw; cases hw⟩

theorem asked_concat_ne {e : Nat × Nat} (hk : k ≠ e.1) :
    asked t inv k (es ++ [e]) = asked t inv k es := by
  rw [asked_concat, if_neg fun h => hk h.2.symm, Nat.add_zero]

theorem pile_concat_ne {e : Nat × Nat} (hk : k ≠ e.1) :
    pile t inv k (es ++ [e]) = pile t inv k es := by
  rw [pile_concat, pileUp.eq_def, if_neg (Ne.symm hk)]

/-- Once the offer is full the entries no longer matter. -/
theorem Tracks.of_full {e : Nat × Nat} {offer' : List InvItem}
    (hfull : maxOfferSize ≤ places t inv es) (hwithin : Within t inv offer')
    (hunworn : ∀ x ∈ offer', x.worn = false) (hlen : offer'.length = maxOfferSize) :
    Tracks t inv (es ++ [e]) offer' := by
  have hmono : places t inv es ≤ places t inv (es ++ [e]) := places_mono es e
  refine ⟨hwithin, hunworn, ?_, fun hlt => ?_, fun hlt => ?_⟩
  · rw [hlen, Nat.min_eq_left (Nat.le_trans hfull hmono)]
  · omega
  · omega

/-- An entry that changes nothing. -/
theorem Tracks.same {e : Nat × Nat} (h : Tracks t inv es offer)
    (hplaces : places t inv (es ++ [e]) = places t inv es)
    (hasked : ∀ k, t.stackable k = false → asked t inv k (es ++ [e]) = asked t inv k es)
    (hpile : t.stackable e.1 = true → pile t inv e.1 (es ++ [e]) = pile t inv e.1 es) :
    Tracks t inv (es ++ [e]) offer := by
  refine ⟨h.within, h.unworn, by rw [hplaces, h.length], fun hlt k hk => ?_,
    fun hlt k hk m => ?_⟩
  · rw [hplaces] at hlt
    rw [hasked k hk, h.units hlt k hk]
  · rw [hplaces] at hlt
    by_cases hke : k = e.1
    · subst hke
      rw [hpile hk]
      exact h.piles hlt _ hk m
    · rw [pile_concat_ne hke]
      exact h.piles hlt k hk m

theorem asked_concat_unheard {e : Nat × Nat} (he : heard t inv e = false) :
    asked t inv k (es ++ [e]) = asked t inv k es := by
  rw [asked_concat, if_neg (by simp [he]), Nat.add_zero]

/-- Units of an unstackable item are appended while there is a place. -/
theorem Tracks.addUnits {e : Nat × Nat} (h : Tracks t inv es offer) (he : heard t inv e = true)
    (hid : t.stackable e.1 = false)
    (hfit : places t inv es < maxOfferSize →
      asked t inv e.1 es + min e.2 (maxOfferSize - places t inv es) ≤ held t e.1 inv) :
    Tracks t inv (es ++ [e]) (offerUnits e.1 e.2 offer) := by
  rw [offerUnits_eq]
  by_cases hfull : maxOfferSize ≤ places t inv es
  · have hlen : offer.length = maxOfferSize := by rw [h.length, Nat.min_eq_left hfull]
    rw [hlen, Nat.sub_self, Nat.min_zero, List.replicate_zero, List.append_nil]
    exact .of_full hfull h.within h.unworn hlen
  · have hroom : places t inv es < maxOfferSize := Nat.lt_of_not_le hfull
    have hlen : offer.length = places t inv es := by
      rw [h.length, Nat.min_eq_right (Nat.le_of_lt hroom)]
    have hplaces : places t inv (es ++ [e]) = places t inv es + e.2 := places_concat_units he hid
    have hheld : ∀ k, held t k (offer ++ List.replicate
        (min e.2 (maxOfferSize - offer.length)) (⟨e.1, 1, false⟩ : InvItem)) =
          held t k offer + if k = e.1 then min e.2 (maxOfferSize - offer.length) else 0 :=
      fun k => by rw [held_append, held_replicate hid]
    refine ⟨⟨fun k => ?_, ?_, ?_⟩, fun x hx => ?_, ?_, fun hlt k hk => ?_, fun hlt k hk m => ?_⟩
    · rw [hheld]
      by_cases hk : k = e.1
      · rw [if_pos hk, hk, h.units hroom _ hid, hlen]
        exact hfit hroom
      · rw [if_neg hk]
        exact h.within.covered k
    · rw [List.length_append, List.length_replicate]
      have := h.within.size
      omega
    · rw [List.map_append, List.map_replicate, List.pairwise_append]
      refine ⟨h.within.single, List.pairwise_replicate.2 (.inr fun _ => hid),
        fun a _ b hb hab => ?_⟩
      rw [hab, List.eq_of_mem_replicate hb]
      exact hid
    · rcases List.mem_append.1 hx with hx | hx
      · exact h.unworn x hx
      · rw [List.eq_of_mem_replicate hx]
    · rw [List.length_append, List.length_replicate, hplaces, hlen]
      omega
    · rw [hheld, h.units hroom k hk, asked_concat]
      rw [hplaces] at hlt
      by_cases hke : k = e.1
      · rw [if_pos hke, if_pos ⟨he, hke.symm⟩, hlen, Nat.min_eq_left (by omega)]
      · rw [if_neg hke, if_neg fun h => hke h.2.symm]
    · have hke : k ≠ e.1 := fun heq => by rw [heq, hid] at hk; cases hk
      rw [pile_concat_ne hke, h.piles hroom k hk]
      constructor
      · rintro ⟨x, hx, hxid⟩
        exact ⟨x, List.mem_append_left _ hx, hxid⟩
      · rintro ⟨x, hx, hxid⟩
        rcases List.mem_append.1 hx with hx | hx
        · exact ⟨x, hx, hxid⟩
        · rw [List.eq_of_mem_replicate hx] at hxid
          exact absurd hxid.1.symm hke

/-- A stackable item is offered for the first time. -/
theorem Tracks.addStack {e : Nat × Nat} (h : Tracks t inv es offer) (he : heard t inv e = true)
    (hid : t.stackable e.1 = true) (hnew : ∀ x ∈ offer, x.id ≠ e.1)
    (hroom : places t inv es < maxOfferSize) :
    Tracks t inv (es ++ [e]) (offer ++ [{ id := e.1, stack := e.2 }]) := by
  have hlen : offer.length = places t inv es := by
    rw [h.length, Nat.min_eq_right (Nat.le_of_lt hroom)]
  have hnone : pile t inv e.1 es = none := by
    cases hp : pile t inv e.1 es with
    | none => rfl
    | some m =>
        obtain ⟨x, hx, hxid, -⟩ := (h.piles hroom _ hid m).1 hp
        exact absurd hxid (hnew x hx)
  have hplaces : places t inv (es ++ [e]) = places t inv es + 1 := by
    rw [places_concat_stack he hid, hnone]
    rfl
  have hheld : ∀ k, held t k (offer ++ [(⟨e.1, e.2, false⟩ : InvItem)]) =
      held t k offer + if k = e.1 then e.2 else 0 := by
    intro k
    rw [held_append, held, held, tally_cons, tally_nil, share,
      units_stackable (x := ⟨e.1, e.2, false⟩) hid, Nat.add_zero]
  refine ⟨⟨fun k => ?_, ?_, ?_⟩, fun x hx => ?_, ?_, fun hlt k hk => ?_, fun hlt k hk m => ?_⟩
  · rw [hheld]
    by_cases hk : k = e.1
    · rw [if_pos hk, hk, held_eq_zero hnew, Nat.zero_add]
      exact le_held_of_heard he
    · rw [if_neg hk]
      exact h.within.covered k
  · rw [List.length_append, List.length_singleton, hlen]
    exact hroom
  · rw [List.map_append, List.map_singleton, List.pairwise_append]
    refine ⟨h.within.single, List.pairwise_singleton _ _, fun a ha b hb hab => ?_⟩
    obtain ⟨x, hx, rfl⟩ := List.mem_map.1 ha
    exact absurd (hab.trans (List.mem_singleton.1 hb)) (hnew x hx)
  · rcases List.mem_append.1 hx with hx | hx
    · exact h.unworn x hx
    · rw [List.mem_singleton.1 hx]
  · rw [List.length_append, List.length_singleton, hplaces, hlen]
    omega
  · have hke : k ≠ e.1 := fun heq => by rw [heq, hid] at hk; cases hk
    rw [hheld, if_neg hke, h.units hroom k hk, asked_concat_ne hke, Nat.add_zero]
  · by_cases hke : k = e.1
    · subst hke
      rw [pile_concat, pileUp.eq_def, if_pos rfl, hnone]
      simp only [he, if_true, Option.some.injEq]
      constructor
      · rintro rfl
        exact ⟨_, List.mem_append_right _ (List.mem_singleton_self _), rfl, rfl⟩
      · rintro ⟨x, hx, hxid, rfl⟩
        rcases List.mem_append.1 hx with hx | hx
        · exact absurd hxid (hnew x hx)
        · rw [List.mem_singleton.1 hx]
    · rw [pile_concat_ne hke, h.piles hroom k hk]
      constructor
      · rintro ⟨x, hx, hxid⟩
        exact ⟨x, List.mem_append_left _ hx, hxid⟩
      · rintro ⟨x, hx, hxid, hxm⟩
        rcases List.mem_append.1 hx with hx | hx
        · exact ⟨x, hx, hxid, hxm⟩
        · rw [List.mem_singleton.1 hx] at hxid
          exact absurd hxid.symm hke

/-- The sum replaces the amount. -/
theorem Within.merge (h : Within t inv offer) (hwf : InvWf t offer) (hid : t.stackable id = true)
    {i m : Nat} {x : InvItem} (hi : offer[i]? = some x) (hx : x.id = id)
    (hm : m ≤ held t id inv) : Within t inv (offer.modify i (·.setStack m)) := by
  refine ⟨fun k => ?_, by rw [List.length_modify]; exact h.size, ?_⟩
  · have hmod := held_modify (k := k) hid hi hx (f := (·.setStack m)) (x.setStack_id _)
    rw [x.setStack_stack] at hmod
    by_cases hk : k = id
    · rw [if_pos hk, if_pos hk, hk, held_stackable hwf hid hi hx] at hmod
      rw [hk]
      omega
    · rw [if_neg hk, if_neg hk] at hmod
      have := h.covered k
      omega
  · rw [map_modify_of_key InvItem.id fun x => x.setStack_id _]
    exact h.single

theorem unworn_modify {i m : Nat} (h : ∀ x ∈ offer, x.worn = false) :
    ∀ x ∈ offer.modify i (·.setStack m), x.worn = false := by
  intro x hx
  rcases mem_modify hx with hx | ⟨y, hy, rfl⟩
  · exact h x hx
  · exact h y (List.mem_of_getElem? hy)

/-- A second amount is added to the first and not appended. -/
theorem Tracks.merge {e : Nat × Nat} (h : Tracks t inv es offer) (he : heard t inv e = false)
    (hid : t.stackable e.1 = true) {i : Nat} {x : InvItem} (hi : offer[i]? = some x)
    (hx : x.id = e.1) (hm : heard t inv (e.1, offerSum x.stack e.2) = true) :
    Tracks t inv (es ++ [e]) (offer.modify i (·.setStack (offerSum x.stack e.2))) := by
  have hplaces : places t inv (es ++ [e]) = places t inv es := places_concat_unheard he
  have hwithin := h.within.merge h.wf hid hi hx (le_held_of_heard hm)
  have hunworn := unworn_modify (i := i) (m := offerSum x.stack e.2) h.unworn
  have hwf : InvWf t (offer.modify i (·.setStack (offerSum x.stack e.2))) :=
    ⟨hwithin.single, fun y hy hw => by rw [hunworn y hy] at hw; cases hw⟩
  have hnew : (offer.modify i (·.setStack (offerSum x.stack e.2)))[i]? =
      some (x.setStack (offerSum x.stack e.2)) := by
    rw [List.getElem?_modify_eq, hi]
    rfl
  refine ⟨hwithin, hunworn, by rw [List.length_modify, hplaces, h.length], fun hlt k hk => ?_,
    fun hlt k hk m => ?_⟩
  · have hke : k ≠ e.1 := fun heq => by rw [heq, hid] at hk; cases hk
    have hmod := held_modify (k := k) hid hi hx (f := (·.setStack (offerSum x.stack e.2)))
      (x.setStack_id _)
    rw [if_neg hke, if_neg hke] at hmod
    rw [hplaces] at hlt
    rw [asked_concat_ne hke, ← h.units hlt k hk]
    omega
  · rw [hplaces] at hlt
    by_cases hke : k = e.1
    · subst hke
      have hpile : pile t inv e.1 es = some x.stack :=
        (h.piles hlt _ hid _).2 ⟨x, List.mem_of_getElem? hi, hx, rfl⟩
      rw [pile_concat, pileUp.eq_def, if_pos rfl, hpile]
      simp only [hm, if_true, Option.some.injEq]
      constructor
      · rintro rfl
        exact ⟨_, List.mem_of_getElem? hnew, hx, rfl⟩
      · rintro ⟨y, hy, hyid, rfl⟩
        obtain ⟨j, hj⟩ := List.mem_iff_getElem?.1 hy
        have hji := hwf.unique hid hnew hx hj hyid
        rw [hji, hnew] at hj
        rw [← Option.some.inj hj, x.setStack_stack]
    · rw [pile_concat_ne hke, h.piles hlt k hk]
      constructor
      · rintro ⟨y, hy, hyid, hym⟩
        obtain ⟨j, hj⟩ := List.mem_iff_getElem?.1 hy
        have hji : i ≠ j := fun heq => by
          rw [← heq, hi] at hj
          obtain rfl := Option.some.inj hj
          exact hke (hyid.symm.trans hx)
        have hkept : (offer.modify i (·.setStack (offerSum x.stack e.2)))[j]? = some y := by
          rw [List.getElem?_modify_ne _ _ hji, hj]
        exact ⟨y, List.mem_of_getElem? hkept, hyid, hym⟩
      · rintro ⟨y, hy, hyid, hym⟩
        rcases mem_modify hy with hy | ⟨z, hz, rfl⟩
        · exact ⟨y, hy, hyid, hym⟩
        · obtain rfl := Option.some.inj (hz.symm.trans hi)
          exact absurd (hyid.symm.trans hx) hke

theorem offerAll_concat (es : List (Nat × Nat)) (e : Nat × Nat) :
    offerAll t inv (es ++ [e]) = offerNext t inv (offerAll t inv es) e := by
  rw [offerAll, List.foldl_append]
  rfl

theorem Broken.next (h : Broken t inv offer) (e : Nat × Nat) :
    Broken t inv (offerNext t inv offer e) := by
  unfold offerNext
  cases t.byId e.1 with
  | none => exact h
  | some config => exact h.grown (offerItem_ids config)

/-- Units that are not held are offered. -/
theorem Tracks.overdrawn {e : Nat × Nat} (h : Tracks t inv es offer)
    (hid : t.stackable e.1 = false) (hroom : places t inv es < maxOfferSize)
    (hover : held t e.1 inv < asked t inv e.1 es + min e.2 (maxOfferSize - places t inv es)) :
    Broken t inv (offerUnits e.1 e.2 offer) := by
  have hlen : offer.length = places t inv es := by
    rw [h.length, Nat.min_eq_right (Nat.le_of_lt hroom)]
  refine .inr ⟨e.1, hid, ?_⟩
  rw [← held_eq_count hid, offerUnits_eq, held_append, held_replicate hid, if_pos rfl, hlen,
    h.units hroom _ hid]
  exact hover

/-- A stackable item is offered for the second time. -/
theorem broken_of_twice {m : Nat} {e : Nat × Nat} (hid : t.stackable e.1 = true) {i : Nat}
    {x : InvItem} (hi : offer[i]? = some x) (hx : x.id = e.1) :
    Broken t inv (offer.modify i (·.setStack m) ++ [{ id := e.1, stack := e.2 }]) := by
  left
  rw [List.map_append, map_modify_of_key InvItem.id fun x => x.setStack_id _, List.map_singleton,
    List.pairwise_append]
  rintro ⟨-, -, hcross⟩
  have hno := hcross x.id (List.mem_map_of_mem (List.mem_of_getElem? hi)) e.1
    (List.mem_singleton_self _) hx
  rw [hx, hid] at hno
  cases hno

/-- A full offer takes no more entries. -/
theorem offerAppend_full (config : ItemConfig) (hlen : offer.length = maxOfferSize) :
    offerAppend config inv id n offer = offer := by
  unfold offerAppend
  split
  · rfl
  · split
    · rw [offerUnits_eq, hlen, Nat.sub_self, Nat.min_zero, List.replicate_zero, List.append_nil]
    · rw [if_pos (Nat.le_of_eq hlen.symm)]

theorem Tracks.next_full (h : Tracks t inv es offer) (hfull : maxOfferSize ≤ places t inv es)
    (e : Nat × Nat) : Tracks t inv (es ++ [e]) (offerNext t inv offer e) := by
  have hlen : offer.length = maxOfferSize := by rw [h.length, Nat.min_eq_left hfull]
  have hskip : Tracks t inv (es ++ [e]) offer := .of_full hfull h.within h.unworn hlen
  unfold offerNext
  cases hc : t.byId e.1 with
  | none => exact hskip
  | some config =>
      show Tracks t inv _ (offerItem config inv e.1 e.2 offer)
      unfold offerItem
      by_cases hw : config.weight = 0
      · have hid : t.stackable e.1 = true := by
          rw [ItemTable.stackable_of_byId hc, decide_eq_true hw]
        rw [if_pos hw]
        cases hf : offer.findIdx? (·.id == e.1) with
        | none =>
            rw [offerAppend_full config hlen]
            exact hskip
        | some i =>
            obtain ⟨x, hi, hx⟩ := mem_of_findIdx hf
            simp only [hi, Option.elim_some]
            split
            · next hm =>
              rw [offerAppend_full config (by rw [List.length_modify, hlen])]
              exact .of_full hfull
                (h.within.merge h.wf hid hi (eq_of_beq hx) (le_held_of_invHeldId hc hm))
                (unworn_modify h.unworn) (by rw [List.length_modify, hlen])
            · exact hskip
      · rw [if_neg hw, offerAppend_full config hlen]
        exact hskip

/-- An entry for an unstackable item. -/
theorem Tracks.next_units (h : Tracks t inv es offer) {e : Nat × Nat}
    (hroom : places t inv es < maxOfferSize) {config : ItemConfig} (hc : t.byId e.1 = some config)
    (hw : config.weight ≠ 0) :
    (EntryFits t inv es e → Tracks t inv (es ++ [e]) (offerNext t inv offer e)) ∧
      (¬ EntryFits t inv es e → Broken t inv (offerNext t inv offer e)) := by
  have hid : t.stackable e.1 = false := by rw [ItemTable.stackable_of_byId hc, decide_eq_false hw]
  have hheard : heard t inv e = invHeldId config e.1 e.2 inv := heard_of_byId hc
  have hnext : offerNext t inv offer e =
      if heard t inv e = true then offerUnits e.1 e.2 offer else offer := by
    rw [offerNext, hc, Option.elim_some, offerItem, if_neg hw, offerAppend, ← hheard]
    cases heard t inv e <;> simp [hw]
  have hfits : EntryFits t inv es e ↔ (heard t inv e = true →
      asked t inv e.1 es + min e.2 (maxOfferSize - places t inv es) ≤ held t e.1 inv) := by
    unfold EntryFits
    rw [if_neg (by simp [hid])]
    exact ⟨fun hfit => hfit hroom, fun hfit _ => hfit⟩
  rw [hnext, hfits]
  cases he : heard t inv e with
  | false =>
      have hskip : Tracks t inv (es ++ [e]) offer :=
        h.same (places_concat_unheard he) (fun _ _ => asked_concat_unheard he) fun hst => by
          rw [hid] at hst
          cases hst
      exact ⟨fun _ => hskip, fun hfit => absurd (fun hheard => nomatch hheard) hfit⟩
  | true =>
      rw [if_pos rfl]
      refine ⟨fun hfit => h.addUnits he hid fun _ => hfit rfl, fun hfit => ?_⟩
      refine h.overdrawn hid hroom (Nat.lt_of_not_le fun hle => hfit fun _ => hle)

/-- An entry for a stackable item not offered yet. -/
theorem Tracks.next_new (h : Tracks t inv es offer) {e : Nat × Nat}
    (hroom : places t inv es < maxOfferSize) {config : ItemConfig} (hc : t.byId e.1 = some config)
    (hw : config.weight = 0) (hf : offer.findIdx? (·.id == e.1) = none) :
    EntryFits t inv es e ∧ Tracks t inv (es ++ [e]) (offerNext t inv offer e) := by
  have hid : t.stackable e.1 = true := by rw [ItemTable.stackable_of_byId hc, decide_eq_true hw]
  have hheard : heard t inv e = invHeldId config e.1 e.2 inv := heard_of_byId hc
  have hnew : ∀ x ∈ offer, x.id ≠ e.1 := fun x hx => ne_of_beq_false (not_mem_of_findIdx hf x hx)
  have hlen : offer.length = places t inv es := by
    rw [h.length, Nat.min_eq_right (Nat.le_of_lt hroom)]
  have hnone : pile t inv e.1 es = none := by
    refine Option.eq_none_iff_forall_ne_some.2 fun m hp => ?_
    obtain ⟨x, hx, hxid, -⟩ := (h.piles hroom _ hid m).1 hp
    exact hnew x hx hxid
  have hnext : offerNext t inv offer e =
      if heard t inv e = true then offer ++ [{ id := e.1, stack := e.2 }] else offer := by
    rw [offerNext, hc, Option.elim_some, offerItem, if_pos hw, hf]
    show offerAppend config inv e.1 e.2 offer = _
    rw [offerAppend, ← hheard]
    cases heard t inv e <;> simp [hw, hlen, Nat.not_le.2 hroom]
  constructor
  · intro _ _
    rw [if_pos hid]
    intro m hp
    rw [hnone] at hp
    cases hp
  · rw [hnext]
    cases he : heard t inv e with
    | false =>
        refine h.same (places_concat_unheard he) (fun _ _ => asked_concat_unheard he) fun _ => ?_
        rw [pile_concat, pileUp.eq_def, if_pos rfl, hnone]
        simp only [he, Bool.false_eq_true, if_false]
    | true => exact h.addStack he hid hnew hroom

/-- An entry for a stackable item that is offered already. -/
theorem Tracks.next_again (h : Tracks t inv es offer) {e : Nat × Nat}
    (hroom : places t inv es < maxOfferSize) {config : ItemConfig} (hc : t.byId e.1 = some config)
    (hw : config.weight = 0) {i : Nat} (hf : offer.findIdx? (·.id == e.1) = some i) :
    (EntryFits t inv es e → Tracks t inv (es ++ [e]) (offerNext t inv offer e)) ∧
      (¬ EntryFits t inv es e → Broken t inv (offerNext t inv offer e)) := by
  have hid : t.stackable e.1 = true := by rw [ItemTable.stackable_of_byId hc, decide_eq_true hw]
  have hheard : ∀ n, heard t inv (e.1, n) = invHeldId config e.1 n inv := fun n => heard_of_byId hc
  obtain ⟨x, hi, hx⟩ := mem_of_findIdx hf
  have hx := eq_of_beq hx
  have hlen : offer.length = places t inv es := by
    rw [h.length, Nat.min_eq_right (Nat.le_of_lt hroom)]
  have hpile : pile t inv e.1 es = some x.stack :=
    (h.piles hroom _ hid _).2 ⟨x, List.mem_of_getElem? hi, hx, rfl⟩
  have hfits : EntryFits t inv es e ↔
      (heard t inv e = true → heard t inv (e.1, offerSum x.stack e.2) = false) := by
    unfold EntryFits
    rw [if_pos hid, hpile]
    simp only [Option.some.injEq, forall_eq', hroom, true_imp_iff]
  have hnext : offerNext t inv offer e =
      if heard t inv (e.1, offerSum x.stack e.2) = true then
        if heard t inv e = true then
          offer.modify i (·.setStack (offerSum x.stack e.2)) ++ [{ id := e.1, stack := e.2 }]
        else offer.modify i (·.setStack (offerSum x.stack e.2))
      else offer := by
    have he : heard t inv e = invHeldId config e.1 e.2 inv := heard_of_byId hc
    rw [offerNext, hc, Option.elim_some, offerItem, if_pos hw, hf, hheard, he]
    simp only [hi, Option.elim_some, offerAppend, List.length_modify, hlen, Nat.not_le.2 hroom,
      hw, ne_eq, not_true_eq_false, if_false]
    cases invHeldId config e.1 e.2 inv <;> rfl
  rw [hnext, hfits]
  cases hm : heard t inv (e.1, offerSum x.stack e.2) with
  | false =>
      have hkept : pile t inv e.1 (es ++ [e]) = pile t inv e.1 es := by
        rw [pile_concat, pileUp.eq_def, if_pos rfl, hpile]
        simp only [hm, Bool.false_eq_true, if_false]
      have hplaces : places t inv (es ++ [e]) = places t inv es := by
        cases he : heard t inv e with
        | false => exact places_concat_unheard he
        | true =>
            rw [places_concat_stack he hid, hpile]
            rfl
      have hasked : ∀ k, t.stackable k = false → asked t inv k (es ++ [e]) = asked t inv k es :=
        fun k hk => asked_concat_ne fun heq => by rw [heq, hid] at hk; cases hk
      exact ⟨fun _ => h.same hplaces hasked fun _ => hkept, fun hfit => absurd (fun _ => rfl) hfit⟩
  | true =>
      rw [if_pos rfl]
      cases he : heard t inv e with
      | false =>
          rw [if_neg Bool.false_ne_true]
          exact ⟨fun _ => h.merge he hid hi hx hm,
            fun hfit => absurd (fun hheard => nomatch hheard) hfit⟩
      | true =>
          rw [if_pos rfl]
          exact ⟨fun hfit => absurd (hfit rfl) (by simp), fun _ => broken_of_twice hid hi hx⟩

/-- An entry that fits keeps the offer in step, and one that does not breaks
it. -/
theorem Tracks.next (h : Tracks t inv es offer) (e : Nat × Nat) :
    (EntryFits t inv es e → Tracks t inv (es ++ [e]) (offerNext t inv offer e)) ∧
      (¬ EntryFits t inv es e → Broken t inv (offerNext t inv offer e)) := by
  by_cases hfull : maxOfferSize ≤ places t inv es
  · have hfits : EntryFits t inv es e := fun hroom => absurd hfull (Nat.not_le.2 hroom)
    exact ⟨fun _ => h.next_full hfull e, fun hfit => absurd hfits hfit⟩
  · have hroom : places t inv es < maxOfferSize := Nat.lt_of_not_le hfull
    cases hc : t.byId e.1 with
    | none =>
        have he : heard t inv e = false := not_heard hc
        have hid : t.stackable e.1 = false := by rw [ItemTable.stackable, hc, Option.any_none]
        have hskip : Tracks t inv (es ++ [e]) offer :=
          h.same (places_concat_unheard he) (fun _ _ => asked_concat_unheard he) fun hst => by
            rw [hid] at hst
            cases hst
        have hfits : EntryFits t inv es e := fun _ hheard => by
          rw [he] at hheard
          cases hheard
        rw [offerNext, hc]
        exact ⟨fun _ => hskip, fun hfit => absurd hfits hfit⟩
    | some config =>
        by_cases hw : config.weight = 0
        · cases hf : offer.findIdx? (·.id == e.1) with
          | none =>
              obtain ⟨hfits, htracks⟩ := h.next_new hroom hc hw hf
              exact ⟨fun _ => htracks, fun hfit => absurd hfits hfit⟩
          | some i => exact h.next_again hroom hc hw hf
        · exact h.next_units hroom hc hw

theorem affordable_concat (es : List (Nat × Nat)) (e : Nat × Nat) :
    Affordable t inv (es ++ [e]) ↔ Affordable t inv es ∧ EntryFits t inv es e := by
  constructor
  · intro h
    constructor
    · intro n a ha
      have hlt : n < es.length := (List.getElem?_eq_some_iff.1 ha).1
      have hfit := h n a (by rw [List.getElem?_append_left hlt, ha])
      rwa [List.take_append_of_le_length (Nat.le_of_lt hlt)] at hfit
    · have hfit := h es.length e (by rw [List.getElem?_concat_length])
      rwa [List.take_left'] at hfit
      rfl
  · rintro ⟨h, hlast⟩ n a ha
    rcases Nat.lt_trichotomy n es.length with hlt | heq | hgt
    · rw [List.getElem?_append_left hlt] at ha
      rw [List.take_append_of_le_length (Nat.le_of_lt hlt)]
      exact h n a ha
    · subst heq
      rw [List.getElem?_concat_length] at ha
      obtain rfl := Option.some.inj ha
      rwa [List.take_left' rfl]
    · rw [List.getElem?_eq_none (by rw [List.length_append, List.length_singleton]; omega)] at ha
      cases ha

theorem tracks_nil : Tracks t inv [] [] := by
  refine ⟨⟨fun k => Nat.zero_le _, Nat.zero_le _, List.Pairwise.nil⟩,
    fun x hx => absurd hx List.not_mem_nil, ?_, fun _ k _ => rfl, fun _ k _ m => ?_⟩
  · simp [places]
  · simp [pile]

/-- The whole packet. -/
theorem offerAll_cases (es : List (Nat × Nat)) :
    (Affordable t inv es → Tracks t inv es (offerAll t inv es)) ∧
      (¬ Affordable t inv es → Broken t inv (offerAll t inv es)) := by
  induction es using List.reverseRecOn with
  | nil => exact ⟨fun _ => tracks_nil, fun h => absurd (fun n a ha => by cases ha) h⟩
  | append_singleton es e ih =>
      rw [offerAll_concat, affordable_concat]
      constructor
      · rintro ⟨h, hlast⟩
        exact ((ih.1 h).next e).1 hlast
      · intro h
        by_cases hes : Affordable t inv es
        · exact ((ih.1 hes).next e).2 fun hlast => h ⟨hes, hlast⟩
        · exact (ih.2 hes).next e

theorem offerAll_within_iff (es : List (Nat × Nat)) :
    Within t inv (offerAll t inv es) ↔ Affordable t inv es := by
  constructor
  · intro h
    by_contra hes
    exact ((offerAll_cases es).2 hes).not_within h
  · exact fun hes => ((offerAll_cases es).1 hes).within

/-! ## The handler -/

variable {s s' : Server} {i j : Nat}

/-- The trade window is open and the partner is there. -/
structure Dealing (s : Server) (i j : Nat) : Prop where
  live : s.live i
  trading : (s.get i).tradingPlayer = some j
  uiOpen : (s.get i).uiTradeOpen = true
  partner : s.live j

/-- One of the two has confirmed: offers are refused. -/
def Sealed (s : Server) (i j : Nat) : Prop :=
  (s.get i).tradeState = .confirmed ∨ (s.get j).tradeState = .confirmed

instance (s : Server) (i j : Nat) : Decidable (Sealed s i j) :=
  inferInstanceAs (Decidable (_ ∨ _))

def Player.unaccepted (p : Player) : Player := { p with tradeState := .none }

theorem unaccept_eq (h : unaccept s i j = .ok s') : s' = s.modify i Player.unaccepted := by
  unfold unaccept at h
  split at h
  · next hnone =>
    obtain rfl := Except.ok.inj h
    refine (Server.modify_eq_self ?_).symm
    rw [Player.unaccepted, ← hnone]
  · simp only at h
    split at h
    · cases h
    · exact (Except.ok.inj h).symm

/-- Both take back their consent, and the offer grows. -/
theorem Dealing.appended (h : Dealing s i j) (hsealed : ¬ Sealed s i j) {id amount : Nat}
    {config : ItemConfig} (hc : t.byId id = some config) :
    let s₂ := (s.modify i Player.unaccepted).modify j Player.unaccepted
    let s' := s₂.modify i fun p =>
      { p with tradeOffer := offerItem config p.inventory id amount p.tradeOffer }
    Dealing s' i j ∧ (s'.get i).inventory = (s.get i).inventory ∧
      (Sealed s' i j ↔ Sealed s i j) ∧
      (s'.get i).tradeOffer = if Sealed s i j then (s.get i).tradeOffer else
        offerNext t (s.get i).inventory (s.get i).tradeOffer (id, amount) := by
  intro s₂ s'
  have hold : ∀ {β : Type} (π : Player → β) (_ : ∀ p, π (Player.unaccepted p) = π p) (k : Nat),
      π (s₂.get k) = π (s.get k) := fun π hπ k =>
    (Server.get_modify_field π hπ).trans (Server.get_modify_field π hπ)
  have hlive : ∀ k, s₂.live k ↔ s.live k := fun k =>
    Server.live_modify.trans Server.live_modify
  have hself : s'.get i = { s₂.get i with
      tradeOffer := offerItem config (s₂.get i).inventory id amount (s₂.get i).tradeOffer } :=
    Server.get_modify_self ((hlive i).2 h.live)
  have hi : (s₂.get i).tradeState = .none := by
    show ((s.modify i Player.unaccepted).modify j Player.unaccepted |>.get i).tradeState = _
    rw [Server.get_modify]
    split
    · rfl
    · rw [Server.get_modify_self h.live]
      rfl
  have hj : (s₂.get j).tradeState = .none := by
    show ((s.modify i Player.unaccepted).modify j Player.unaccepted |>.get j).tradeState = _
    rw [Server.get_modify_self (Server.live_modify.2 h.partner)]
    rfl
  have hopen : ¬ Sealed s' i j := by
    rintro (hconf | hconf)
    · rw [hself] at hconf
      rw [show (s₂.get i).tradeState = .confirmed from hconf] at hi
      cases hi
    · have hkept : (s'.get j).tradeState = (s₂.get j).tradeState :=
        Server.get_modify_field Player.tradeState fun _ => rfl
      rw [hkept, hj] at hconf
      cases hconf
  refine ⟨⟨?_, ?_, ?_, ?_⟩, ?_, iff_of_false hopen hsealed, ?_⟩
  · exact Server.live_modify.2 ((hlive i).2 h.live)
  · rw [hself]
    exact (hold Player.tradingPlayer (fun _ => rfl) i).trans h.trading
  · rw [hself]
    exact (hold Player.uiTradeOpen (fun _ => rfl) i).trans h.uiOpen
  · exact Server.live_modify.2 ((hlive j).2 h.partner)
  · rw [hself]
    exact hold Player.inventory (fun _ => rfl) i
  · rw [hself, if_neg hsealed, offerNext, hc, Option.elim_some,
      ← hold Player.inventory (fun _ => rfl) i, ← hold Player.tradeOffer (fun _ => rfl) i]

/-- What an entry does to who offers. -/
theorem Dealing.offers (h : Dealing s i j) {id amount : Nat}
    (hs : playerTradeOffer t s i id amount = .ok s') :
    Dealing s' i j ∧ (s'.get i).inventory = (s.get i).inventory ∧
      (Sealed s' i j ↔ Sealed s i j) ∧
      (s'.get i).tradeOffer = if Sealed s i j then (s.get i).tradeOffer else
        offerNext t (s.get i).inventory (s.get i).tradeOffer (id, amount) := by
  have hstay : Dealing s i j ∧ (s.get i).inventory = (s.get i).inventory ∧
      (Sealed s i j ↔ Sealed s i j) := ⟨h, rfl, Iff.rfl⟩
  unfold playerTradeOffer at hs
  simp only [h.trading, h.uiOpen, h.partner, not_true_eq_false, if_false] at hs
  cases hc : t.byId id with
  | none =>
      simp only [hc] at hs
      obtain rfl := Except.ok.inj hs
      refine ⟨hstay.1, hstay.2.1, hstay.2.2, ?_⟩
      rw [offerNext, hc, Option.elim_none, ite_self]
  | some config =>
      simp only [hc] at hs
      split at hs
      · next hsealed =>
        obtain rfl := Except.ok.inj hs
        exact ⟨hstay.1, hstay.2.1, hstay.2.2, (if_pos hsealed).symm⟩
      · next hsealed =>
        split at hs
        · cases hs
        · next s₁ hs₁ =>
          split at hs
          · cases hs
          · next s₂ hs₂ =>
            obtain rfl := unaccept_eq hs₁
            obtain rfl := unaccept_eq hs₂
            obtain rfl := Except.ok.inj hs
            exact h.appended hsealed hc

/-- What the loop over the entries does to who offers. -/
theorem Dealing.update (data : List Nat) {n offset : Nat} {b : Bool} (h : Dealing s i j)
    (hs : tradeUpdateLoop t i data n offset s = .ok (s', b)) :
    (s'.get i).inventory = (s.get i).inventory ∧
      (s'.get i).tradeOffer = if Sealed s i j then (s.get i).tradeOffer else
        (entriesFrom data n offset).foldl (offerNext t (s.get i).inventory)
          (s.get i).tradeOffer := by
  induction n generalizing s offset with
  | zero =>
      obtain ⟨rfl, -⟩ := Prod.mk.inj (Except.ok.inj hs)
      exact ⟨rfl, by rw [entriesFrom, List.foldl_nil, ite_self]⟩
  | succ n ih =>
      rw [tradeUpdateLoop] at hs
      rw [entriesFrom]
      cases hid : bufGetu16 data offset with
      | none =>
          rw [hid] at hs
          obtain ⟨rfl, -⟩ := Prod.mk.inj (Except.ok.inj hs)
          exact ⟨rfl, (ite_self _).symm⟩
      | some id =>
          cases hamount : bufGetu32 data (offset + 2) with
          | none =>
              rw [hid, hamount] at hs
              obtain ⟨rfl, -⟩ := Prod.mk.inj (Except.ok.inj hs)
              exact ⟨rfl, (ite_self _).symm⟩
          | some amount =>
              rw [hid, hamount] at hs
              simp only at hs
              split at hs
              · cases hs
              · next s₁ hs₁ =>
                obtain ⟨hdealing, hinv, hsealed, hoffer⟩ := h.offers hs₁
                obtain ⟨hinv', hoffer'⟩ := ih hdealing hs
                refine ⟨hinv'.trans hinv, ?_⟩
                rw [hoffer', hinv, hoffer]
                by_cases hc : Sealed s i j
                · rw [if_pos hc, if_pos hc, if_pos (hsealed.2 hc)]
                · rw [if_neg hc, if_neg hc, if_neg fun hc' => hc (hsealed.1 hc'), List.foldl_cons]

/-- An update packet, from where it has cleared the offer. -/
theorem Dealing.updated (data : List Nat) (h : Dealing s i j)
    (hs : opCliTradeUpdate t s i data = .ok s') :
    (s'.get i).inventory = (s.get i).inventory ∧
      (s'.get i).tradeOffer = if Sealed s i j then [] else
        offerAll t (s.get i).inventory (packetEntries data) := by
  have hclear : ∀ k, ((s.modify i fun p => { p with tradeOffer := [] }).get k).tradeState =
      (s.get k).tradeState := fun k => Server.get_modify_field Player.tradeState fun _ => rfl
  have hself := Server.get_modify_self (f := fun p => { p with tradeOffer := [] }) h.live
  have hdealing : Dealing (s.modify i fun p => { p with tradeOffer := [] }) i j :=
    ⟨Server.live_modify.2 h.live, by rw [hself]; exact h.trading, by rw [hself]; exact h.uiOpen,
      Server.live_modify.2 h.partner⟩
  have hsealed : Sealed (s.modify i fun p => { p with tradeOffer := [] }) i j ↔ Sealed s i j := by
    rw [Sealed, Sealed, hclear, hclear]
  have hloop : ∀ {count b s₁}, tradeUpdateLoop t i data count 2
      (s.modify i fun p => { p with tradeOffer := [] }) = .ok (s₁, b) →
      (s₁.get i).inventory = (s.get i).inventory ∧
        (s₁.get i).tradeOffer = if Sealed s i j then [] else
          offerAll t (s.get i).inventory (entriesFrom data count 2) := by
    intro count b s₁ hs₁
    obtain ⟨hinv, hoffer⟩ := hdealing.update data hs₁
    rw [hself] at hinv hoffer
    simp only [hsealed] at hoffer
    exact ⟨hinv, hoffer⟩
  unfold opCliTradeUpdate at hs
  simp only [h.trading, h.uiOpen, h.partner, not_true_eq_false, if_false] at hs
  rw [packetEntries]
  cases hcount : bufGetu8 data 1 with
  | none =>
      simp only [hcount] at hs
      obtain rfl := Except.ok.inj hs
      rw [hself]
      exact ⟨rfl, by rw [offerAll, List.foldl_nil, ite_self]⟩
  | some count =>
      simp only [hcount] at hs
      split at hs
      · cases hs
      · next s₁ hs₁ =>
        obtain rfl := Except.ok.inj hs
        exact hloop hs₁
      · next s₁ hs₁ =>
        obtain rfl := Except.ok.inj hs
        obtain ⟨hinv, hoffer⟩ := hloop hs₁
        refine ⟨Eq.trans ?_ hinv, Eq.trans ?_ hoffer⟩
        · exact Server.get_modify_field Player.inventory fun _ => rfl
        · exact Server.get_modify_field Player.tradeOffer fun _ => rfl

/-- After an update packet the offer stays within the inventory if and only if
one of the two had confirmed, or every entry of the packet fits after those
before it. -/
theorem offer_within_iff (t : ItemTable) (data : List Nat) (h : Dealing s i j)
    (hs : opCliTradeUpdate t s i data = .ok s') :
    Within t (s'.get i).inventory (s'.get i).tradeOffer ↔
      Sealed s i j ∨ Affordable t (s.get i).inventory (packetEntries data) := by
  obtain ⟨hinv, hoffer⟩ := h.updated data hs
  rw [hinv, hoffer]
  by_cases hsealed : Sealed s i j
  · rw [if_pos hsealed]
    exact iff_of_true tracks_nil.within (.inl hsealed)
  · rw [if_neg hsealed, offerAll_within_iff]
    exact ⟨.inr, fun h => h.resolve_left hsealed⟩

/-- Two players whose trade windows are open with each other; the first has
the given inventory. -/
def facing (inv : List InvItem) : Server where
  players i :=
    if i = 0 then some { tradingPlayer := some 1, uiTradeOpen := true, inventory := inv }
    else if i = 1 then some { tradingPlayer := some 0, uiTradeOpen := true }
    else none
  maxPlayerId := 2

theorem facing_dealing (inv : List InvItem) : Dealing (facing inv) 0 1 := ⟨rfl, rfl, rfl, rfl⟩

/-- Three coins of ten, and one of two logs. -/
theorem offer_within_iff_coins : ∃ s', opCliTradeUpdate smallTable
      (facing [⟨0, 10, false⟩, ⟨1, 1, false⟩, ⟨1, 1, false⟩]) 0
      [234, 2, 0, 0, 0, 0, 0, 3, 0, 1, 0, 0, 0, 1] = .ok s' ∧
    Within smallTable (s'.get 0).inventory (s'.get 0).tradeOffer := by
  refine ⟨_, rfl, ?_⟩
  refine (offer_within_iff smallTable [234, 2, 0, 0, 0, 0, 0, 3, 0, 1, 0, 0, 0, 1]
    (facing_dealing _) rfl).2 (.inr ?_)
  have hes : packetEntries [234, 2, 0, 0, 0, 0, 0, 3, 0, 1, 0, 0, 0, 1] = [(0, 3), (1, 1)] := by
    decide
  rw [hes]
  intro n e he _ _
  match n, he with
  | 0, he =>
      cases he
      rw [if_pos (by decide)]
      exact fun m hm => absurd hm (by simp [pile])
  | 1, he =>
      cases he
      rw [if_neg (by decide)]
      decide

/-- One coin of ten, and one more: two coins and one coin are offered. -/
theorem second_coin_twice : ¬ ∀ (t : ItemTable) (data : List Nat) (s s' : Server) (i j : Nat),
    Dealing s i j → opCliTradeUpdate t s i data = .ok s' →
    Within t (s'.get i).inventory (s'.get i).tradeOffer := by
  intro h
  have hwithin := h smallTable [234, 2, 0, 0, 0, 0, 0, 1, 0, 0, 0, 0, 0, 1]
    (facing [⟨0, 10, false⟩]) _ 0 1 (facing_dealing _) rfl
  exact absurd hwithin.single (by decide)

end Sundae.Proofs
