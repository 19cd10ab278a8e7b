import Sundae.Proofs.Ground

/-!
# Whether a removal is exact

`player_inv_remove` and `player_inv_remove_id` are to take the count asked for,
or all there is, and leave the other slots as they were. The other slots always
are: the loop only ever takes out slots that hit. The count is not. After its
first removal the loop sets its index to 0 and increments it, so slot 0 is not
looked at again, and an item that fills both of the first two slots keeps one
of them whatever was asked.
-/

namespace Sundae.Proofs

open Sundae.Ref Sundae.Lib

variable {t : ItemTable} {s : Server} {inv : List InvItem} {i id count n : Nat}

/-- The slots of every other item, in their order. -/
def others (id : Nat) (inv : List InvItem) : List InvItem := inv.filter (·.id != id)

/-- A removal that took out what it was asked for, or all there was, and
nothing else. -/
structure RemovedExactly (t : ItemTable) (id count : Nat) (inv inv' : List InvItem) : Prop where
  held_eq : held t id inv' = held t id inv - min count (held t id inv)
  others_eq : others id inv' = others id inv

/-- The removal came back, and was exact. -/
def RemovesExactly (t : ItemTable) (s : Server) (i id count : Nat)
    (r : Except Assert Server) : Prop :=
  ∃ s', r = .ok s' ∧ RemovedExactly t id count (s.get i).inventory (s'.get i).inventory

/-- Everything there is to take is in the loop's reach. -/
def InReach (t : ItemTable) (id count : Nat) (inv : List InvItem) : Prop :=
  t.stackable id = true ∨ doubled (·.id == id) inv = 0 ∨ count < held t id inv

/-- Of all the items in the table the name is the name of one. -/
def DenotesOne (t : ItemTable) (name : List Char) (item : ItemConfig) : Prop :=
  t.byName name = some item ∧
    ∀ k c, t.byId k = some c → c.names.any (strcasecmp name ·) = true → k = item.id

/-! ## The other slots -/

theorem others_eraseP {l : List InvItem} : others id (l.eraseP (·.id == id)) = others id l := by
  induction l with
  | nil => rfl
  | cons x l ih =>
      by_cases hx : x.id = id
      · rw [List.eraseP_cons_of_pos (by simpa using hx), others, others,
          List.filter_cons_of_neg (by simpa using hx)]
      · rw [List.eraseP_cons_of_neg (by simpa using hx)]
        show (x :: l.eraseP (·.id == id)).filter _ = (x :: l).filter _
        rw [List.filter_cons_of_pos (by simpa using hx),
          List.filter_cons_of_pos (by simpa using hx)]
        exact congrArg (x :: ·) ih

theorem others_eraseFirst {l : List InvItem} :
    others id (eraseFirst (·.id == id) n l) = others id l := by
  induction n generalizing l with
  | zero => rfl
  | succ n ih => rw [eraseFirst, ih, others_eraseP]

theorem others_removeMatches : others id (removeMatches (·.id == id) n inv) = others id inv := by
  cases n with
  | zero => rfl
  | succ n =>
      rw [removeMatches, ← others_eraseP (l := inv)]
      cases inv.eraseP (·.id == id) with
      | nil => rfl
      | cons x l =>
          have hl : (eraseFirst (·.id == id) n l).filter (·.id != id) = l.filter (·.id != id) :=
            others_eraseFirst
          simp only [keepHead, others, List.filter_cons, hl]

/-- Changing a slot of the item itself is not seen. -/
theorem others_modify {f : InvItem → InvItem} (hf : ∀ x, (f x).id = x.id) {k : Nat} {x : InvItem}
    (hk : inv[k]? = some x) (hx : x.id = id) : others id (inv.modify k f) = others id inv := by
  induction inv generalizing k with
  | nil => rw [List.modify_nil]
  | cons y l ih =>
      cases k with
      | zero =>
          obtain rfl : y = x := by simpa using hk
          have hfy : (f y).id = id := (hf y).trans hx
          simp only [others, List.modify_zero_cons, List.filter_cons, hfy, hx, bne_self_eq_false,
            Bool.false_eq_true, if_false]
      | succ k =>
          have hl : (l.modify k f).filter (·.id != id) = l.filter (·.id != id) :=
            ih (by simpa using hk)
          simp only [others, List.modify_succ_cons, List.filter_cons, hl]

theorem others_removed {weight : Nat} :
    others id (removed (·.id == id) weight count inv) = others id inv := by
  unfold removed
  split
  · split
    · rfl
    · next k hk =>
      split
      · obtain ⟨x, hx, hid⟩ := mem_of_findIdx hk
        exact others_modify (fun x => x.setStack_id _) hx (eq_of_beq hid)
      · exact others_eraseP
  · exact others_removeMatches

/-! ## The count -/

theorem inReach_iff {item : ItemConfig} (hwf : InvWf t inv) (hc : t.byId id = some item) :
    RemovedExactly t id count inv (removed (·.id == id) item.weight count inv) ↔
      InReach t id count inv := by
  have hheld : held t id (removed (·.id == id) item.weight count inv) =
      held t id inv - reach t id count inv := by
    rw [held_removed hwf hc, if_pos rfl]
  have hexact : RemovedExactly t id count inv (removed (·.id == id) item.weight count inv) ↔
      held t id inv - reach t id count inv = held t id inv - min count (held t id inv) := by
    rw [← hheld]
    exact ⟨fun h => h.held_eq, fun h => ⟨h, others_removed⟩⟩
  rw [hexact, InReach]
  cases hid : t.stackable id with
  | true =>
      have hreach : reach t id count inv = count := by rw [reach, hid, if_pos rfl]
      rw [hreach]
      exact iff_of_true (by omega) (.inl rfl)
  | false =>
      have hreach : reach t id count inv =
          min count (held t id inv - doubled (·.id == id) inv) := by
        rw [reach, hid, if_neg Bool.false_ne_true]
      rw [hreach]
      rcases Nat.le_one_iff_eq_zero_or_eq_one.1 (doubled_le_one (·.id == id) inv) with h0 | h1
      · rw [h0]
        exact iff_of_true (by rw [Nat.sub_zero]) (.inr (.inl rfl))
      · have htwo := doubled_lt_held hid h1
        rw [h1]
        simp only [Bool.false_eq_true, false_or, Nat.one_ne_zero]
        omega

theorem name_of_denotes {name : List Char} {item : ItemConfig} (hname : DenotesOne t name item) :
    item.names.any (strcasecmp name ·) = true := by
  have hsome := List.find?_some (p := fun c : ItemConfig => c.names.any (strcasecmp name ·))
    (ItemTable.find_of_byName hname.1)
  exact hsome

/-- Of the slots such a name names those of its item. -/
theorem answers_denoted {name : List Char} {item : ItemConfig} (hname : DenotesOne t name item)
    {x : InvItem} (hx : (t.byId x.id).isSome = true) :
    answers t name x = (x.id == item.id) := by
  obtain ⟨c, hc⟩ := Option.isSome_iff_exists.1 hx
  rw [answers, hc, Option.any_some]
  by_cases hid : x.id = item.id
  · have hci : c = item := Option.some.inj (hc.symm.trans (hid ▸ ItemTable.byId_of_byName hname.1))
    rw [hci, name_of_denotes hname]
    simpa using hid
  · have hother : c.names.any (strcasecmp name ·) = false :=
      Bool.eq_false_iff.2 fun h => hid (hname.2 _ _ hc h)
    rw [hother]
    simpa using hid

/-- What either function does once it knows its item. -/
theorem removesExactly_iff {item : ItemConfig} (hlive : s.live i)
    (hwf : InvWf t (s.get i).inventory) (hc : t.byId id = some item) {r : Except Assert Server}
    (hr : r = .ok (s.modify i fun p =>
      { p with inventory := removed (·.id == id) item.weight count (s.get i).inventory })) :
    RemovesExactly t s i id count r ↔ InReach t id count (s.get i).inventory := by
  rw [← inReach_iff hwf hc, hr]
  constructor
  · rintro ⟨s', hs', hexact⟩
    obtain rfl := Except.ok.inj hs'
    rwa [Server.get_modify_self hlive] at hexact
  · intro hexact
    refine ⟨_, rfl, ?_⟩
    rwa [Server.get_modify_self hlive]

theorem playerInvRemove_eq (hwf : InvWf t (s.get i).inventory)
    (hconfig : ∀ x ∈ (s.get i).inventory, (t.byId x.id).isSome = true) {name : List Char}
    {item : ItemConfig} (hname : DenotesOne t name item) :
    playerInvRemove t s i name count = .ok (s.modify i fun p =>
      { p with inventory := removed (·.id == item.id) item.weight count (s.get i).inventory }) := by
  have hhit : ∀ x ∈ (s.get i).inventory, nameMatch t x.id name = .ok (x.id == item.id) :=
    fun x hx => by rw [nameMatch_eq (hconfig x hx), answers_denoted hname (hconfig x hx)]
  simp only [playerInvRemove, hname.1, invRemove_eq hwf hhit]

/-- A removal, by id or by a name that is one item's alone, is exact if and
only if the item stacks, or is not in both of the first two slots, or more of
it is held than is asked for. -/
theorem removal_exact_iff (t : ItemTable) (id count : Nat) (hlive : s.live i)
    (hwf : InvWf t (s.get i).inventory)
    (hconfig : ∀ x ∈ (s.get i).inventory, (t.byId x.id).isSome = true) {item : ItemConfig} :
    (t.byId id = some item →
      (RemovesExactly t s i id count (playerInvRemoveId t s i id count) ↔
        InReach t id count (s.get i).inventory)) ∧
    ∀ name, DenotesOne t name item →
      (RemovesExactly t s i item.id count (playerInvRemove t s i name count) ↔
        InReach t item.id count (s.get i).inventory) := by
  constructor
  · intro hc
    exact removesExactly_iff hlive hwf hc (playerInvRemoveId_eq hwf hc)
  · intro name hname
    exact removesExactly_iff hlive hwf (ItemTable.byId_of_byName hname.1)
      (playerInvRemove_eq hwf hconfig hname)

/-- A player alone on the server, with the given slots. -/
def carrying (inv : List InvItem) : Server where
  players i := if i = 0 then some { inventory := inv } else none
  maxPlayerId := 1

theorem removal_exact_iff_logs :
    RemovesExactly smallTable (carrying [⟨1, 1, false⟩, ⟨1, 1, true⟩, ⟨0, 7, false⟩]) 0 1 1
        (playerInvRemoveId smallTable
          (carrying [⟨1, 1, false⟩, ⟨1, 1, true⟩, ⟨0, 7, false⟩]) 0 1 1) ∧
      RemovesExactly smallTable (carrying [⟨1, 1, false⟩, ⟨0, 7, false⟩, ⟨1, 1, true⟩]) 0 1 9
        (playerInvRemove smallTable
          (carrying [⟨1, 1, false⟩, ⟨0, 7, false⟩, ⟨1, 1, true⟩]) 0 ['L', 'o', 'g', 's'] 9) := by
  have hdenotes : DenotesOne smallTable ['L', 'o', 'g', 's'] ⟨1, [['l', 'o', 'g', 's']], 1, 0⟩ := by
    refine ⟨by decide, fun k c hk hany => ?_⟩
    match k, hk with
    | 0, hk => cases hk; exact absurd hany (by decide)
    | 1, _ => rfl
  constructor
  · exact ((removal_exact_iff (i := 0) smallTable 1 1 (by decide)
      ⟨by decide, by decide⟩ (by decide)).1 rfl).2 (.inr (.inr (by decide)))
  · exact ((removal_exact_iff (i := 0) smallTable 1 9 (by decide)
      ⟨by decide, by decide⟩ (by decide)).2 _ hdenotes).2 (.inr (.inl (by decide)))

/-- Two logs in the first two slots: asked for both, the loop takes one. -/
theorem second_log_kept : ¬ ∀ (t : ItemTable) (s : Server) (i id count : Nat) (item : ItemConfig),
    s.live i → InvWf t (s.get i).inventory →
    (∀ x ∈ (s.get i).inventory, (t.byId x.id).isSome = true) → t.byId id = some item →
    RemovesExactly t s i id count (playerInvRemoveId t s i id count) := by
  intro h
  obtain ⟨s', hs', hexact⟩ := h smallTable (carrying [⟨1, 1, false⟩, ⟨1, 1, false⟩]) 0 1 2 _
    (by decide) ⟨by decide, by decide⟩ (by decide) rfl
  obtain rfl := Except.ok.inj hs'
  exact absurd hexact.held_eq (by decide)

end Sundae.Proofs
