import Sundae.Proofs.Sides

/-!
# Partners

Two players trade when each is in the window of the other. Nothing in the
server keeps it so: a walk closes one window of the two, a player who leaves
stays in the other's, and the message about a changed offer waits for the end
of the tick for a partner who may be gone.
-/

namespace Sundae.Proofs

open Sundae.Ref Sundae.Lib

/-! ## Partners on both sides -/

/-- The end of the tick has a message for the player, about the partner's offer. -/
def Expecting (S : Sides) (i : Nat) : Prop :=
  ∃ a, S i = some a ∧ a.loginStage = .gotLogin ∧ a.partnerOfferChanged = true

/-- `trading_player` is the slot of a player. -/
def Accompanied (S : Sides) (i : Nat) : Prop := ∃ j, S.partner i = some j ∧ S.isTaken j

/-- Who has a window open with someone is in that one's window, and who expects
a message has a partner. -/
structure Partnered (S : Sides) : Prop where
  paired : ∀ i j, S.Window i j → S.Window j i
  told : ∀ i, Expecting S i → Accompanied S i

/-- The trade window is open. -/
def Sides.isOpen (S : Sides) (i : Nat) : Prop := (S i).any TradeSide.uiTradeOpen = true

/-- What is so when a move is made. -/
def Move.Valid (S : Sides) : Move → Prop
  | .idle | .stage _ _ | .close _ | .clear _ | .flush _ => True
  | .join i => ¬ S.isTaken i
  | .leave i => S.isTaken i
  | .request i j => S.isTaken i ∧ S.isTaken j
  | .offer i j _ _ _ | .accept i j | .confirm i j | .exchange i j | .decline i j =>
    S.Window i j ∧ S.isTaken j

/-- When a move leaves nobody behind. A window that is open is closed, left or
given another partner only if nobody else is in it, and nobody who expects a
message loses the partner before it is sent. -/
def Move.Fair (S : Sides) : Move → Prop
  | .idle | .join _ | .offer _ _ _ _ _ | .accept _ _ | .confirm _ _ | .flush _ => True
  | .stage i next => next = .gotLogin → ∀ a, S i = some a → a.partnerOfferChanged = true →
    Accompanied S i
  | .request i j => S.isOpen i →
    (j = i ∨ S.partner j = some i) ∧ ∀ k, S.partner i = some k → k = i ∨ k = j
  | .exchange i j | .decline i j => ¬ Expecting S i ∧ ¬ Expecting S j
  | .close i | .clear i => (∀ k, S.Window i k → k = i) ∧ ¬ Expecting S i
  | .leave i => (∀ k, S.Window i k → k = i) ∧ ∀ k, k ≠ i → Expecting S k → S.partner k ≠ some i

namespace Sides

variable {S : Sides} {i j k : Nat} {f : TradeSide → TradeSide}

theorem window_iff : S.Window i j ↔ S.isOpen i ∧ S.partner i = some j := by
  unfold Window isOpen partner
  cases S i with
  | none => exact iff_of_false (fun ⟨a, ha, _⟩ => by cases ha) fun h => by cases h.1
  | some a => simp only [Option.some.injEq, exists_eq_left', Option.any_some, Option.bind_some]

theorem Window.isTaken (h : S.Window i j) : S.isTaken i := by
  obtain ⟨a, ha, -⟩ := h
  rw [Sides.isTaken, ha]
  rfl

theorem Window.partner_eq (h : S.Window i j) : S.partner i = some j := by
  obtain ⟨a, ha, -, hname⟩ := h
  rw [Sides.partner, ha]
  exact hname

theorem Window.unique (h : S.Window i j) (h' : S.Window i k) : k = j :=
  Option.some.inj (h'.partner_eq.symm.trans h.partner_eq)

/-- A change that leaves window and partner alone. -/
theorem window_modify (hf : ∀ a, (f a).uiTradeOpen = a.uiTradeOpen ∧
    (f a).tradingPlayer = a.tradingPlayer) : (S.modify k f).Window i j ↔ S.Window i j := by
  unfold Window
  rw [modify_apply]
  split
  · cases S i with
    | none => exact Iff.rfl
    | some a =>
        simp only [Option.map_some, Option.some.injEq, exists_eq_left', hf a]
  · exact Iff.rfl

theorem partner_modify (hf : ∀ a, (f a).tradingPlayer = a.tradingPlayer) :
    (S.modify k f).partner i = S.partner i := by
  unfold partner
  rw [modify_apply]
  split
  · cases S i with
    | none => rfl
    | some a => exact hf a
  · rfl

theorem partner_modify_ne (h : i ≠ k) : (S.modify k f).partner i = S.partner i := by
  unfold partner
  rw [modify_ne h]

theorem expecting_modify (hf : ∀ a, (f a).loginStage = a.loginStage ∧
    (f a).partnerOfferChanged = a.partnerOfferChanged) :
    Expecting (S.modify k f) i ↔ Expecting S i := by
  unfold Expecting
  rw [modify_apply]
  split
  · cases S i with
    | none => exact Iff.rfl
    | some a =>
        simp only [Option.map_some, Option.some.injEq, exists_eq_left', hf a]
  · exact Iff.rfl

end Sides

section Moves

variable {S : Sides} {i j k : Nat}

/-- A change that leaves windows, partners and messages alone. -/
theorem partnered_modify {f : TradeSide → TradeSide}
    (hf : ∀ a, (f a).uiTradeOpen = a.uiTradeOpen ∧ (f a).tradingPlayer = a.tradingPlayer ∧
      (f a).loginStage = a.loginStage ∧ (f a).partnerOfferChanged = a.partnerOfferChanged) :
    Partnered (S.modify k f) ↔ Partnered S := by
  have hwindow : ∀ i j, (S.modify k f).Window i j ↔ S.Window i j := fun i j =>
    Sides.window_modify fun a => ⟨(hf a).1, (hf a).2.1⟩
  have hexpect : ∀ i, Expecting (S.modify k f) i ↔ Expecting S i := fun i =>
    Sides.expecting_modify fun a => (hf a).2.2
  have hwith : ∀ i, Accompanied (S.modify k f) i ↔ Accompanied S i := by
    intro i
    unfold Accompanied
    simp only [Sides.partner_modify fun a => (hf a).2.1, Sides.isTaken_modify]
  constructor
  · exact fun h => ⟨fun i j hw => (hwindow j i).1 (h.paired i j ((hwindow i j).2 hw)),
      fun i he => (hwith i).1 (h.told i ((hexpect i).2 he))⟩
  · exact fun h => ⟨fun i j hw => (hwindow j i).2 (h.paired i j ((hwindow i j).1 hw)),
      fun i he => (hwith i).2 (h.told i ((hexpect i).1 he))⟩

theorem Sides.Window.congr {S S' : Sides} (h : S' i = S i) : S'.Window i j ↔ S.Window i j := by
  unfold Sides.Window
  rw [h]

theorem expecting_congr {S S' : Sides} (h : S' i = S i) : Expecting S' i ↔ Expecting S i := by
  unfold Expecting
  rw [h]

theorem partner_congr {S S' : Sides} (h : S' i = S i) : S'.partner i = S.partner i := by
  unfold Sides.partner
  rw [h]

/-- Some players lose their partners, and the others are as they were: nobody
is left behind if they were only with one another and expected nothing. -/
theorem partnered_without {S' : Sides} (out : Nat → Prop) (hS : Partnered S)
    (hout : ∀ k, out k → S'.partner k = none ∧ (Expecting S' k ↔ Expecting S k))
    (hkeep : ∀ k, ¬ out k → S' k = S k) (htaken : ∀ k, S'.isTaken k ↔ S.isTaken k) :
    Partnered S' ↔ (∀ i j, out i → S.Window i j → out j) ∧ ∀ i, out i → ¬ Expecting S i := by
  have hshut : ∀ {i j}, out i → ¬ S'.Window i j := fun hi hw => by
    have hname := hw.partner_eq
    rw [(hout _ hi).1] at hname
    cases hname
  constructor
  · intro h
    constructor
    · intro i j hi hw
      by_contra hj
      have hback := (Sides.Window.congr (hkeep j hj)).2 (hS.paired i j hw)
      exact hshut hi (h.paired j i hback)
    · intro i hi he
      obtain ⟨j, hj, -⟩ := h.told i ((hout i hi).2.2 he)
      rw [(hout i hi).1] at hj
      cases hj
  · rintro ⟨htogether, hquiet⟩
    constructor
    · intro i j hw
      have hi : ¬ out i := fun hi => hshut hi hw
      have hback := hS.paired i j ((Sides.Window.congr (hkeep i hi)).1 hw)
      have hj : ¬ out j := fun hj => hi (htogether j i hj hback)
      exact (Sides.Window.congr (hkeep j hj)).2 hback
    · intro i he
      have hi : ¬ out i := fun hi => hquiet i hi ((hout i hi).2.1 he)
      obtain ⟨j, hj, hthere⟩ := hS.told i ((expecting_congr (hkeep i hi)).1 he)
      exact ⟨j, (partner_congr (hkeep i hi)).trans hj, (htaken j).2 hthere⟩

/-- A change that takes the partner and leaves the messages. -/
theorem partnered_drop {f : TradeSide → TradeSide}
    (hf : ∀ a, (f a).tradingPlayer = none ∧ (f a).loginStage = a.loginStage ∧
      (f a).partnerOfferChanged = a.partnerOfferChanged) (hS : Partnered S) :
    Partnered (S.modify i f) ↔ (∀ k, S.Window i k → k = i) ∧ ¬ Expecting S i := by
  have hnone : (S.modify i f).partner i = none := by
    unfold Sides.partner
    rw [Sides.modify_self]
    cases S i with
    | none => rfl
    | some a => exact (hf a).1
  rw [partnered_without (· = i) hS]
  · exact ⟨fun h => ⟨fun k hw => h.1 i k rfl hw, h.2 i rfl⟩,
      fun h => ⟨fun m k hm hw => h.1 k (hm ▸ hw), fun m hm => hm ▸ h.2⟩⟩
  · rintro k rfl
    exact ⟨hnone, Sides.expecting_modify fun a => (hf a).2⟩
  · exact fun k hk => Sides.modify_ne hk
  · exact fun k => Sides.isTaken_modify

theorem partnered_closeBoth (hS : Partnered S) (hw : S.Window i j) :
    Partnered (S.closeBoth i j) ↔ ¬ Expecting S i ∧ ¬ Expecting S j := by
  have hback := hS.paired i j hw
  have hexpect : ∀ k, Expecting (S.closeBoth i j) k ↔ Expecting S k := fun k =>
    (Sides.expecting_modify (f := TradeSide.closed) fun _ => ⟨rfl, rfl⟩).trans
      (Sides.expecting_modify (f := TradeSide.closed) fun _ => ⟨rfl, rfl⟩)
  have hclose : ∀ (S : Sides) (k : Nat), (S.modify k TradeSide.closed).partner k = none := by
    intro S k
    unfold Sides.partner
    rw [Sides.modify_self]
    cases S k with
    | none => rfl
    | some a => rfl
  have hnone : ∀ k, k = i ∨ k = j → (S.closeBoth i j).partner k = none := by
    intro k hk
    by_cases hkj : k = j
    · rw [hkj]
      exact hclose _ j
    · rw [Sides.closeBoth, Sides.partner_modify_ne hkj, hk.resolve_right hkj]
      exact hclose S i
  rw [partnered_without (fun k => k = i ∨ k = j) hS]
  · constructor
    · exact fun h => ⟨h.2 i (.inl rfl), h.2 j (.inr rfl)⟩
    · rintro ⟨hi, hj⟩
      refine ⟨?_, ?_⟩
      · rintro k m (rfl | rfl) hkm
        · exact .inr (hw.unique hkm)
        · exact .inl (hback.unique hkm)
      · rintro k (rfl | rfl)
        · exact hi
        · exact hj
  · exact fun k hk => ⟨hnone k hk, hexpect k⟩
  · intro k hk
    rw [Sides.closeBoth, Sides.modify_ne fun h => hk (.inr h), Sides.modify_ne fun h => hk (.inl h)]
  · exact fun k => Sides.isTaken_modify.trans Sides.isTaken_modify

/-! ### Coming and going -/

theorem partnered_join (hS : Partnered S) (hfree : ¬ S.isTaken i) :
    Partnered (S.move (.join i)) := by
  have hne : ∀ {k}, S.isTaken k → k ≠ i := fun hk heq => hfree (heq ▸ hk)
  have hkeep : ∀ {k}, k ≠ i → S.move (.join i) k = S k := fun hk =>
    Function.update_of_ne hk _ S
  have hnew : S.move (.join i) i = some {} := Function.update_self i _ S
  constructor
  · intro k m hw
    have hk : k ≠ i := by
      rintro rfl
      obtain ⟨a, ha, hopen, -⟩ := hw
      rw [hnew] at ha
      obtain rfl := Option.some.inj ha
      cases hopen
    have hback := hS.paired k m ((Sides.Window.congr (hkeep hk)).1 hw)
    exact (Sides.Window.congr (hkeep (hne hback.isTaken))).2 hback
  · intro k he
    have hk : k ≠ i := by
      rintro rfl
      obtain ⟨a, ha, hstage, -⟩ := he
      rw [hnew] at ha
      obtain rfl := Option.some.inj ha
      cases hstage
    obtain ⟨m, hm, hthere⟩ := hS.told k ((expecting_congr (hkeep hk)).1 he)
    refine ⟨m, (partner_congr (hkeep hk)).trans hm, ?_⟩
    rw [Sides.isTaken, hkeep (hne hthere)]
    exact hthere

theorem partnered_leave (hS : Partnered S) :
    Partnered (S.move (.leave i)) ↔ Move.Fair S (.leave i) := by
  have hkeep : ∀ {k}, k ≠ i → S.move (.leave i) k = S k := fun hk =>
    Function.update_of_ne hk _ S
  have hgone : ¬ (S.move (.leave i)).isTaken i := by
    rw [Sides.isTaken, Sides.move, Function.update_self]
    exact Bool.false_ne_true
  have hstays : ∀ {k}, (S.move (.leave i)).isTaken k → k ≠ i := fun hk heq => hgone (heq ▸ hk)
  constructor
  · intro h
    constructor
    · intro k hw
      by_contra hk
      have hback := (Sides.Window.congr (hkeep hk)).2 (hS.paired i k hw)
      exact hgone (h.paired k i hback).isTaken
    · intro k hk he hname
      obtain ⟨m, hm, hthere⟩ := h.told k ((expecting_congr (hkeep hk)).2 he)
      rw [partner_congr (hkeep hk), hname] at hm
      exact hgone (Option.some.inj hm ▸ hthere)
  · rintro ⟨halone, hquiet⟩
    constructor
    · intro k m hw
      have hk : k ≠ i := hstays hw.isTaken
      have hback := hS.paired k m ((Sides.Window.congr (hkeep hk)).1 hw)
      have hm : m ≠ i := fun heq => hk (halone k (heq ▸ hback))
      exact (Sides.Window.congr (hkeep hm)).2 hback
    · intro k he
      have hk : k ≠ i := by
        rintro rfl
        obtain ⟨a, ha, -⟩ := he
        rw [Sides.move, Function.update_self] at ha
        cases ha
      have he' := (expecting_congr (hkeep hk)).1 he
      obtain ⟨m, hm, hthere⟩ := hS.told k he'
      have hmi : m ≠ i := fun heq => hquiet k hk he' (heq ▸ hm)
      refine ⟨m, (partner_congr (hkeep hk)).trans hm, ?_⟩
      rw [Sides.isTaken, hkeep hmi]
      exact hthere

/-! ### Requests -/

theorem naming_names (S : Sides) (hi : S.isTaken i) : (S.modify i (TradeSide.naming j)).partner k =
    if k = i then some j else S.partner k := by
  unfold Sides.partner
  rw [Sides.modify_apply]
  split
  · next hk =>
    subst hk
    unfold Sides.isTaken at hi
    cases ha : S k with
    | none => rw [ha] at hi; cases hi
    | some a => rfl
  · rfl

/-- A request to one who has named the player opens both windows. -/
theorem request_opens (hi : S.isTaken i) (hj : S.isTaken j) (hback : j = i ∨ S.partner j = some i) :
    (∀ k, (S.move (.request i j)).partner k = if k = i then some j else S.partner k) ∧
      ∀ k, (S.move (.request i j)).isOpen k ↔ k = i ∨ k = j ∨ S.isOpen k := by
  have hnames : (S.modify i (TradeSide.naming j)).partner j = some i := by
    rw [naming_names S hi]
    split
    · next h => rw [h]
    · next h => exact hback.resolve_left h
  have hmove : S.move (.request i j) = ((S.modify i (TradeSide.naming j)).modify i
      TradeSide.opened).modify j TradeSide.opened := if_pos hnames
  have hopen : ∀ (S : Sides) (i k : Nat), S.isTaken i →
      ((S.modify i TradeSide.opened).isOpen k ↔ k = i ∨ S.isOpen k) := by
    intro S i k hi
    unfold Sides.isOpen
    rw [Sides.modify_apply]
    by_cases hk : k = i
    · unfold Sides.isTaken at hi
      rw [if_pos hk, hk]
      cases ha : S i with
      | none => rw [ha] at hi; cases hi
      | some a => exact iff_of_true rfl (.inl rfl)
    · rw [if_neg hk]
      exact ⟨.inr, fun h => h.resolve_left hk⟩
  have hsame : ∀ k, (S.modify i (TradeSide.naming j)).isOpen k ↔ S.isOpen k := by
    intro k
    unfold Sides.isOpen
    rw [Sides.modify_apply]
    split
    · rw [Option.any_map]
      rfl
    · rfl
  rw [hmove]
  constructor
  · intro k
    rw [Sides.partner_modify (f := TradeSide.opened) fun _ => rfl,
      Sides.partner_modify (f := TradeSide.opened) fun _ => rfl, naming_names S hi]
  · intro k
    rw [hopen _ _ _ (by simpa using hj), hopen _ _ _ (by simpa using hi), hsame]
    exact or_left_comm

/-- Any other request names and opens nothing. -/
theorem request_names (hi : S.isTaken i) (hno : ¬ (j = i ∨ S.partner j = some i)) :
    S.move (.request i j) = S.modify i (TradeSide.naming j) := by
  refine if_neg ?_
  rw [naming_names S hi, if_neg fun h => hno (.inl h)]
  exact fun h => hno (.inr h)

theorem expecting_request (S : Sides) (i j k : Nat) :
    Expecting (S.move (.request i j)) k ↔ Expecting S k := by
  have hnaming : Expecting (S.modify i (TradeSide.naming j)) k ↔ Expecting S k :=
    Sides.expecting_modify fun _ => ⟨rfl, rfl⟩
  rw [Sides.move]
  split
  · exact ((Sides.expecting_modify (f := TradeSide.opened) fun _ => ⟨rfl, rfl⟩).trans
      (Sides.expecting_modify (f := TradeSide.opened) fun _ => ⟨rfl, rfl⟩)).trans hnaming
  · exact hnaming

theorem isTaken_request (S : Sides) (i j k : Nat) :
    (S.move (.request i j)).isTaken k ↔ S.isTaken k := by
  rw [Sides.move]
  split
  · simp
  · simp

/-- Who expects a message has a partner after a request as well. -/
theorem told_request (hS : Partnered S) (hj : S.isTaken j)
    (hnames : ∀ k, (S.move (.request i j)).partner k = if k = i then some j else S.partner k)
    (he : Expecting (S.move (.request i j)) k) : Accompanied (S.move (.request i j)) k := by
  by_cases hk : k = i
  · exact ⟨j, by rw [hnames, if_pos hk], (isTaken_request S i j j).2 hj⟩
  · obtain ⟨m, hm, hthere⟩ := hS.told k ((expecting_request S i j k).1 he)
    exact ⟨m, by rw [hnames, if_neg hk, hm], (isTaken_request S i j m).2 hthere⟩

/-- A request that opens the windows leaves nobody behind unless the player was
in the window of a third. -/
theorem partnered_opens (hS : Partnered S) (hi : S.isTaken i) (hj : S.isTaken j)
    (hback : j = i ∨ S.partner j = some i) : Partnered (S.move (.request i j)) ↔
      (S.isOpen i → ∀ k, S.partner i = some k → k = i ∨ k = j) := by
  obtain ⟨hnames, hopens⟩ := request_opens hi hj hback
  constructor
  · intro h hopen k hk
    by_contra hthird
    have hki : k ≠ i := fun heq => hthird (.inl heq)
    have hwk := hS.paired i k (Sides.window_iff.2 ⟨hopen, hk⟩)
    have hwk' : (S.move (.request i j)).Window k i := by
      refine Sides.window_iff.2 ⟨(hopens k).2 (.inr (.inr (Sides.window_iff.1 hwk).1)), ?_⟩
      rw [hnames, if_neg hki]
      exact hwk.partner_eq
    have hname := (h.paired k i hwk').partner_eq
    rw [hnames, if_pos rfl] at hname
    exact hthird (.inr (Option.some.inj hname).symm)
  · intro halone
    have hij : (S.move (.request i j)).Window i j :=
      Sides.window_iff.2 ⟨(hopens i).2 (.inl rfl), by rw [hnames, if_pos rfl]⟩
    have hji : (S.move (.request i j)).Window j i := by
      refine Sides.window_iff.2 ⟨(hopens j).2 (.inr (.inl rfl)), ?_⟩
      rw [hnames]
      split
      · next heq => rw [heq]
      · next heq => exact hback.resolve_left heq
    refine ⟨fun a b hw => ?_, fun k he => told_request hS hj hnames he⟩
    by_cases ha : a = i
    · subst ha
      exact hij.unique hw ▸ hji
    · by_cases haj : a = j
      · subst haj
        exact hji.unique hw ▸ hij
      · obtain ⟨hopen, hname⟩ := Sides.window_iff.1 hw
        rw [hnames, if_neg ha] at hname
        have hopen : S.isOpen a := (((hopens a).1 hopen).resolve_left ha).resolve_left haj
        have hba := hS.paired a b (Sides.window_iff.2 ⟨hopen, hname⟩)
        obtain ⟨hopenb, hnameb⟩ := Sides.window_iff.1 hba
        have hb : b ≠ i := by
          rintro rfl
          rcases halone hopenb a hnameb with heq | heq
          · exact ha heq
          · exact haj heq
        refine Sides.window_iff.2 ⟨(hopens b).2 (.inr (.inr hopenb)), ?_⟩
        rw [hnames, if_neg hb, hnameb]

/-- One that opens none must not come out of an open window. -/
theorem partnered_names (hS : Partnered S) (hi : S.isTaken i) (hj : S.isTaken j)
    (hno : ¬ (j = i ∨ S.partner j = some i)) :
    Partnered (S.move (.request i j)) ↔ ¬ S.isOpen i := by
  have hmove := request_names hi hno
  have hnames : ∀ k, (S.move (.request i j)).partner k = if k = i then some j else S.partner k :=
    fun k => by rw [hmove, naming_names S hi]
  have hopens : ∀ k, (S.move (.request i j)).isOpen k ↔ S.isOpen k := by
    intro k
    rw [hmove]
    unfold Sides.isOpen
    rw [Sides.modify_apply]
    split
    · rw [Option.any_map]
      rfl
    · rfl
  constructor
  · intro h hopen
    have hij : (S.move (.request i j)).Window i j :=
      Sides.window_iff.2 ⟨(hopens i).2 hopen, by rw [hnames, if_pos rfl]⟩
    have hname := (h.paired i j hij).partner_eq
    rw [hnames, if_neg fun heq => hno (.inl heq)] at hname
    exact hno (.inr hname)
  · intro hshut
    refine ⟨fun a b hw => ?_, fun k he => told_request hS hj hnames he⟩
    obtain ⟨hopen, hname⟩ := Sides.window_iff.1 hw
    have hopen := (hopens a).1 hopen
    have ha : a ≠ i := fun heq => hshut (heq ▸ hopen)
    rw [hnames, if_neg ha] at hname
    have hba := hS.paired a b (Sides.window_iff.2 ⟨hopen, hname⟩)
    obtain ⟨hopenb, hnameb⟩ := Sides.window_iff.1 hba
    have hb : b ≠ i := fun heq => hshut (heq ▸ hopenb)
    exact Sides.window_iff.2 ⟨(hopens b).2 hopenb, by rw [hnames, if_neg hb, hnameb]⟩

theorem partnered_request (hS : Partnered S) (hi : S.isTaken i) (hj : S.isTaken j) :
    Partnered (S.move (.request i j)) ↔ Move.Fair S (.request i j) := by
  by_cases hback : j = i ∨ S.partner j = some i
  · rw [partnered_opens hS hi hj hback]
    exact ⟨fun h hopen => ⟨hback, h hopen⟩, fun h hopen => (h hopen).2⟩
  · rw [partnered_names hS hi hj hback]
    exact ⟨fun h hopen => absurd hopen h, fun h hopen => hback (h hopen).1⟩

/-! ### The other moves -/

theorem partnered_stage (hS : Partnered S) (next : LoginStage) :
    Partnered (S.move (.stage i next)) ↔ Move.Fair S (.stage i next) := by
  have hwindow : ∀ k m, (S.move (.stage i next)).Window k m ↔ S.Window k m := fun k m =>
    Sides.window_modify fun _ => ⟨rfl, rfl⟩
  have hwith : ∀ k, Accompanied (S.move (.stage i next)) k ↔ Accompanied S k := by
    intro k
    unfold Accompanied
    rw [Sides.move]
    simp only [Sides.partner_modify (f := TradeSide.staged next) fun _ => rfl, Sides.isTaken_modify]
  have hexpect : ∀ k, Expecting (S.move (.stage i next)) k ↔ if k = i then next = .gotLogin ∧
      ∃ a, S k = some a ∧ a.partnerOfferChanged = true else Expecting S k := by
    intro k
    unfold Expecting
    rw [Sides.move, Sides.modify_apply]
    split
    · cases S k with
      | none => simp
      | some a => simp [TradeSide.staged]
    · rfl
  constructor
  · rintro h rfl a ha hchanged
    refine (hwith i).1 (h.told i ((hexpect i).2 ?_))
    rw [if_pos rfl]
    exact ⟨rfl, a, ha, hchanged⟩
  · intro h
    refine ⟨fun k m hw => (hwindow m k).2 (hS.paired k m ((hwindow k m).1 hw)), fun k he => ?_⟩
    rw [hexpect] at he
    refine (hwith k).2 ?_
    split at he
    · next hk =>
      subst hk
      obtain ⟨hnext, a, ha, hchanged⟩ := he
      exact h hnext a ha hchanged
    · exact hS.told k he

theorem partnered_flush (hS : Partnered S) (n : Nat) : Partnered (S.move (.flush n)) := by
  have hwindow : ∀ k m, (S.move (.flush n)).Window k m ↔ S.Window k m := by
    intro k m
    unfold Sides.Window
    rw [Sides.move]
    dsimp only
    split
    · cases S k with
      | none => simp
      | some a => simp [TradeSide.told]
    · rfl
  have hwith : ∀ k, Accompanied S k → Accompanied (S.move (.flush n)) k := by
    rintro k ⟨m, hm, hthere⟩
    refine ⟨m, ?_, ?_⟩
    · rw [← hm]
      unfold Sides.partner
      rw [Sides.move]
      dsimp only
      split
      · cases S k with
        | none => rfl
        | some a => rfl
      · rfl
    · rw [Sides.isTaken, Sides.move]
      dsimp only
      split
      · rwa [Option.isSome_map]
      · exact hthere
  refine ⟨fun k m hw => (hwindow m k).2 (hS.paired k m ((hwindow k m).1 hw)), fun k he => ?_⟩
  refine hwith k (hS.told k ?_)
  obtain ⟨a, ha, hstage, hchanged⟩ := he
  rw [Sides.move] at ha
  dsimp only at ha
  split at ha
  · obtain ⟨c, -, rfl⟩ := Option.map_eq_some_iff.1 ha
    cases hchanged
  · exact ⟨a, ha, hstage, hchanged⟩

/-- A message is due to one who has a partner. -/
theorem partnered_told (hS : Partnered S) (hj : Accompanied S j) :
    Partnered (S.modify j (TradeSide.told true)) := by
  have hwindow : ∀ k m, (S.modify j (TradeSide.told true)).Window k m ↔ S.Window k m :=
    fun k m => Sides.window_modify fun _ => ⟨rfl, rfl⟩
  refine ⟨fun k m hw => (hwindow m k).2 (hS.paired k m ((hwindow k m).1 hw)), fun k he => ?_⟩
  have hwith : Accompanied S k := by
    by_cases hk : k = j
    · exact hk ▸ hj
    · obtain ⟨a, ha, hstage, hchanged⟩ := he
      rw [Sides.modify_ne hk] at ha
      exact hS.told k ⟨a, ha, hstage, hchanged⟩
  obtain ⟨m, hm, hthere⟩ := hwith
  refine ⟨m, ?_, Sides.isTaken_modify.2 hthere⟩
  rw [Sides.partner_modify (f := TradeSide.told true) fun _ => rfl, hm]

theorem partnered_offer (hS : Partnered S) (hw : S.Window i j) (heard : Bool)
    (offer : List InvItem) (told : Bool) : Partnered (S.move (.offer i j heard offer told)) := by
  have hheard : Partnered (if heard then S.unaccept i j else S) ∧
      (if heard then S.unaccept i j else S).Window j i := by
    split
    · have htwice : Partnered (S.unaccept i j) :=
        (partnered_modify (f := TradeSide.unaccepted) fun _ => ⟨rfl, rfl, rfl, rfl⟩).2
          ((partnered_modify (f := TradeSide.unaccepted) fun _ => ⟨rfl, rfl, rfl, rfl⟩).2 hS)
      have hback := hS.paired i j hw
      exact ⟨htwice, (Sides.window_modify (f := TradeSide.unaccepted) fun _ => ⟨rfl, rfl⟩).2
        ((Sides.window_modify (f := TradeSide.unaccepted) fun _ => ⟨rfl, rfl⟩).2 hback)⟩
    · exact ⟨hS, hS.paired i j hw⟩
  have hoffer : Partnered ((if heard then S.unaccept i j else S).modify i
      (TradeSide.offering offer)) :=
    (partnered_modify (f := TradeSide.offering offer) fun _ => ⟨rfl, rfl, rfl, rfl⟩).2 hheard.1
  have hback : ((if heard then S.unaccept i j else S).modify i
      (TradeSide.offering offer)).Window j i :=
    (Sides.window_modify (f := TradeSide.offering offer) fun _ => ⟨rfl, rfl⟩).2 hheard.2
  rw [Sides.move]
  cases told with
  | false => exact hoffer
  | true => exact partnered_told hoffer ⟨i, hback.partner_eq, (hoffer.paired j i hback).isTaken⟩

/-- A move leaves nobody behind exactly when it is fair. -/
theorem partnered_move {m : Move} (hS : Partnered S) (hm : m.Valid S) :
    Partnered (S.move m) ↔ m.Fair S := by
  cases m with
  | idle => exact iff_of_true hS trivial
  | join i => exact iff_of_true (partnered_join hS hm) trivial
  | leave i => exact partnered_leave hS
  | stage i next => exact partnered_stage hS next
  | request i j => exact partnered_request hS hm.1 hm.2
  | offer i j heard offer told =>
      exact iff_of_true (partnered_offer hS hm.1 heard offer told) trivial
  | accept i j =>
      exact iff_of_true ((partnered_modify (f := TradeSide.standing .accepted)
        fun _ => ⟨rfl, rfl, rfl, rfl⟩).2 hS) trivial
  | confirm i j =>
      exact iff_of_true ((partnered_modify (f := TradeSide.standing .confirmed)
        fun _ => ⟨rfl, rfl, rfl, rfl⟩).2 hS) trivial
  | exchange i j => exact partnered_closeBoth hS hm.1
  | decline i j =>
      refine (partnered_closeBoth hS (hS.paired i j hm.1)).trans ?_
      exact and_comm
  | close i => exact partnered_drop (fun _ => ⟨rfl, rfl, rfl⟩) hS
  | clear i => exact partnered_drop (fun _ => ⟨rfl, rfl, rfl⟩) hS
  | flush n => exact iff_of_true (partnered_flush hS n) trivial

end Moves

end Sundae.Proofs
