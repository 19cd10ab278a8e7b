import Sundae.Proofs.Equip
import Sundae.Proofs.Pack
import Sundae.Ref.Slots

/-!
# A client has the server's inventory

Every change of a slot is written at once, and each packet tells a client that had
the slots before the change of the slots after it. What is changed without a packet
sets a flag, and the whole inventory is written at the end of the tick. A packet of
a slot that is refused is not written again, and all that makes up for it is the
whole inventory.
-/

namespace Sundae.Proofs

open Sundae.Lib Sundae.Ref

/-! ## What can be told -/

/-- A slot that a packet has room for. -/
structure SlotTold (t : ItemTable) (x : InvItem) : Prop where
  configured : (t.byId x.id).isSome = true
  unit : t.stackable x.id = false → x.stack = 1
  fits : SlotFits x

structure Tellable (t : ItemTable) (inv : List InvItem) : Prop where
  slots : ∀ x ∈ inv, SlotTold t x
  size : inv.length ≤ maxInvSize

/-- A player whose inventory can be told. -/
structure Ready (t : ItemTable) (s : Post) : Prop where
  tellable : Tellable t s.inventory
  buf : s.tmpbuf.length = playerBufsize

/-- What has been written in between tells a client of all that has changed, if
none of it was refused. -/
structure Relays (t : ItemTable) (s s' : Post) : Prop where
  ready : Ready t s'
  flag : s'.invChanged = s.invChanged
  lost : s'.lost = false → s.lost = false
  sent : ∃ new, s'.sent = s.sent ++ new ∧
    (s'.lost = false → readUpdates t.stackable s.inventory new = s'.inventory)

theorem Relays.refl {t : ItemTable} {s : Post} (h : Ready t s) : Relays t s s :=
  ⟨h, rfl, id, [], (List.append_nil _).symm, fun _ => rfl⟩

theorem Relays.trans {t : ItemTable} {s s' s'' : Post} (h : Relays t s s')
    (h' : Relays t s' s'') : Relays t s s'' := by
  obtain ⟨new, hsent, hread⟩ := h.sent
  obtain ⟨new', hsent', hread'⟩ := h'.sent
  refine ⟨h'.ready, h'.flag.trans h.flag, fun hlost => h.lost (h'.lost hlost), new ++ new',
    ?_, fun hlost => ?_⟩
  · rw [hsent', hsent, List.append_assoc]
  · have hread := hread (h'.lost hlost)
    have hread' := hread' hlost
    rw [readUpdates, List.foldl_append]
    rw [readUpdates] at hread hread'
    rw [hread, hread']

section Packets

variable {t : ItemTable} {s : Post} {inv : List InvItem} {x : InvItem} {k : Nat}

/-- A packet is placed, or it is refused and that is on record. -/
theorem Post.write_cases (s : Post) (d : Draft) :
    ((s.write d).sent = s.sent ++ [d.payload] ∧ (s.write d).lost = s.lost) ∨
      ((s.write d).sent = s.sent ∧ (s.write d).lost = true) := by
  unfold Post.write
  dsimp only
  cases (playerWritePacket s.isaacOut s.out d.payload).2 with
  | none => exact .inr ⟨rfl, Bool.or_true _⟩
  | some payload => exact .inl ⟨rfl, Bool.or_false _⟩

/-- A packet from which a client reads the inventory there is after a change. -/
theorem relays_write {d : Draft} (hinv : Tellable t inv) (hlen : d.tmpbuf.length = playerBufsize)
    (hread : readUpdate t.stackable s.inventory d.payload = inv) :
    Relays t s ((s.setInventory inv).write d) := by
  rcases Post.write_cases (s.setInventory inv) d with ⟨hsent, hlost⟩ | ⟨hsent, hlost⟩
  · exact ⟨⟨hinv, hlen⟩, rfl, fun h => hlost.symm.trans h, [d.payload], hsent, fun _ => hread⟩
  · have hnever : ¬ ((s.setInventory inv).write d).lost = false := by
      rw [hlost]
      exact Bool.noConfusion
    exact ⟨⟨hinv, hlen⟩, rfl, fun h => absurd h hnever, [],
      hsent.trans (List.append_nil _).symm, fun h => absurd h hnever⟩

theorem Tellable.mono {inv' : List InvItem} (h : Tellable t inv) (hsize : inv'.length ≤ inv.length)
    (hslots : ∀ y ∈ inv', ∃ x ∈ inv, y.id = x.id ∧ y.stack ≤ x.stack ∧
      (x.stack = 1 → y.stack = 1)) : Tellable t inv' := by
  refine ⟨fun y hy => ?_, hsize.trans h.size⟩
  obtain ⟨x, hx, hid, hle, hunit⟩ := hslots y hy
  obtain ⟨hconfigured, hone, hfits⟩ := h.slots x hx
  rw [← hid] at hconfigured hone
  exact ⟨hconfigured, fun hst => hunit (hone hst), ⟨hid ▸ hfits.id, hle.trans hfits.stack⟩⟩

/-- The bytes of a slot, for which there is room. -/
theorem playerSendInvSlot_write (hbuf : s.tmpbuf.length = playerBufsize)
    (hx : s.inventory[k]? = some x) : ∃ d : Draft, s.playerSendInvSlot t k = s.write d ∧
      d.tmpbuf.length = playerBufsize ∧
      d.payload = opSrvInventoryItem :: UInt8.ofNat k :: invBytes t x := by
  obtain ⟨hlen, hoffset, hpayload⟩ := header_grows hbuf opSrvInventoryItem (UInt8.ofNat k)
  have hmax : playerBufsize = 5000 := rfl
  simp only [Post.playerSendInvSlot, hx]
  generalize hd : (Draft.opened s.tmpbuf opSrvInventoryItem).putHeader (UInt8.ofNat k) = d at *
  rcases putu16_puts d (if x.worn then x.id + 0x8000 else x.id) with
    ⟨hfull, -⟩ | ⟨d₁, heq, hgrows⟩
  · simp only [List.length_cons, List.length_nil] at hfull
    omega
  · have hlen₁ := hgrows.length.trans hlen
    have hoffset₁ := hgrows.offset
    simp only [List.length_cons, List.length_nil] at hoffset₁
    simp only [heq, Option.getD_some]
    by_cases hst : t.stackable x.id = true
    · have hsmart := length_smartBytes_le x.stack
      rcases putsmartu32_puts d₁ x.stack with ⟨hfull, -⟩ | ⟨d₂, heq₂, hgrows₂⟩
      · omega
      · refine ⟨d₂, by rw [if_pos hst, heq₂, Option.getD_some], hgrows₂.length.trans hlen₁, ?_⟩
        rw [hgrows₂.payload hlen₁, hgrows.payload hlen, hpayload, invBytes, if_pos hst]
        rfl
    · refine ⟨d₁, by rw [if_neg hst], hlen₁, ?_⟩
      rw [hgrows.payload hlen, hpayload, invBytes, if_neg hst]
      rfl

theorem toNat_of_slot (hk : k < maxInvSize) : (UInt8.ofNat k).toNat = k := by
  have hmax : maxInvSize = 30 := rfl
  rw [UInt8.toNat_ofNat']
  omega

/-- A slot that is written over, or one more, is told of. -/
theorem relays_slot (h : Ready t s) (hinv : Tellable t inv) (hx : inv[k]? = some x)
    (hput : putSlot s.inventory k x = inv) :
    Relays t s ((s.setInventory inv).playerSendInvSlot t k) := by
  obtain ⟨d, heq, hlen, hpayload⟩ :=
    playerSendInvSlot_write (t := t) (s := s.setInventory inv) h.buf hx
  obtain ⟨hk, -⟩ := List.getElem?_eq_some_iff.1 hx
  have hslot := toNat_of_slot (Nat.lt_of_lt_of_le hk hinv.size)
  have hmem := hinv.slots x (List.mem_of_getElem? hx)
  have hread := readInvItem_invBytes hmem.fits hmem.unit []
  rw [List.append_nil] at hread
  rw [heq]
  refine relays_write hinv hlen ?_
  rw [hpayload, readUpdate, if_neg (by decide), if_pos rfl, hread, hslot]
  exact hput

/-- A slot that is written over. -/
theorem relays_modify {f : InvItem → InvItem} (h : Ready t s)
    (hinv : Tellable t (s.inventory.modify k f)) :
    Relays t s ((s.setInventory (s.inventory.modify k f)).playerSendInvSlot t k) := by
  cases hx : s.inventory[k]? with
  | none =>
      have hsame : s.inventory.modify k f = s.inventory :=
        List.modify_eq_self (List.getElem?_eq_none_iff.1 hx)
      have hself : s.setInventory s.inventory = s := rfl
      simp only [hsame, hself, Post.playerSendInvSlot, hx]
      exact .refl h
  | some x =>
      obtain ⟨hk, -⟩ := List.getElem?_eq_some_iff.1 hx
      refine relays_slot (x := f x) h hinv (by rw [List.getElem?_modify_eq, hx]; rfl) ?_
      rw [putSlot, if_pos hk]
      refine List.ext_getElem? fun j => ?_
      by_cases hj : k = j
      · subst hj
        rw [List.getElem?_set_self hk, List.getElem?_modify_eq, hx]
        rfl
      · rw [List.getElem?_set_ne hj, List.getElem?_modify_ne _ _ hj]

theorem relays_append (h : Ready t s) (hx : SlotTold t x) (hroom : s.inventory.length < maxInvSize) :
    Relays t s (s.append t x) := by
  refine relays_slot h ⟨fun y hy => ?_, ?_⟩ List.getElem?_concat_length ?_
  · rcases List.mem_append.1 hy with hy | hy
    · exact h.tellable.slots y hy
    · exact List.mem_singleton.1 hy ▸ hx
  · rw [List.length_append]
    exact hroom
  · rw [putSlot, if_neg (Nat.lt_irrefl _), Nat.sub_self, List.replicate_zero, List.append_nil]

/-- A slot that is taken out. -/
theorem relays_erase (h : Ready t s) (hk : k < s.inventory.length) :
    Relays t s ((s.setInventory (s.inventory.eraseIdx k)).playerSendInvRemove k) := by
  obtain ⟨hlen, -, hpayload⟩ := header_grows h.buf opSrvInventoryRemove (UInt8.ofNat k)
  have hslot := toNat_of_slot (Nat.lt_of_lt_of_le hk h.tellable.size)
  refine relays_write (h.tellable.mono ?_ fun y hy => ?_) hlen ?_
  · exact (List.eraseIdx_sublist ..).length_le
  · exact ⟨y, (List.eraseIdx_sublist ..).subset hy, rfl, Nat.le_refl _, id⟩
  · show readUpdate t.stackable s.inventory
      ((Draft.opened s.tmpbuf opSrvInventoryRemove).putHeader (UInt8.ofNat k)).payload = _
    rw [hpayload, readUpdate, if_neg (by decide), if_neg (by decide), if_pos rfl, hslot]

/-- What the inventory is not of. -/
theorem relays_player {p : EquipPlayer} (h : Ready t s) (hinv : p.inventory = s.inventory) :
    Relays t s { s with player := p } := by
  have hsame : ({ s with player := p } : Post).inventory = s.inventory := hinv
  exact ⟨⟨hsame ▸ h.tellable, h.buf⟩, rfl, id, [], (List.append_nil _).symm,
    fun _ => hsame.symm⟩

/-- All the slots are told of, whatever the client has, unless the packet is refused. -/
theorem playerSendInv_told (h : Ready t s) (client : List InvItem) :
    Ready t (s.playerSendInv t) ∧ (s.playerSendInv t).inventory = s.inventory ∧
      ∃ new, (s.playerSendInv t).sent = s.sent ++ new ∧
        ((s.playerSendInv t).lost = false →
          readUpdates t.stackable client new = s.inventory) := by
  obtain ⟨hlen, hoffset, hpayload⟩ :=
    header_grows h.buf opSrvInventory (UInt8.ofNat s.inventory.length)
  have hbytes : (s.inventory.flatMap (invBytes t)).length ≤ s.inventory.length * 6 := by
    refine length_flatMap_le s.inventory fun x => ?_
    have hsmart := length_smartBytes_le x.stack
    unfold invBytes
    rw [List.length_append, List.length_cons, List.length_singleton]
    split
    · omega
    · rw [List.length_nil]
      omega
  have hsize := h.tellable.size
  have hmax : maxInvSize = 30 := rfl
  have hroom : playerBufsize = 5000 := rfl
  unfold Post.playerSendInv
  generalize hd : (Draft.opened s.tmpbuf opSrvInventory).putHeader
    (UInt8.ofNat s.inventory.length) = d at *
  have hputs : PutsBytes (s.inventory.flatMap (invBytes t)) d
      (putEach (putInvItem t) d s.inventory) :=
    putEach_puts (fun x hx => putInvItem_puts (h.tellable.slots x hx).configured) (by omega)
  rcases hputs with ⟨hfull, -⟩ | ⟨d', heq, hgrows⟩
  · omega
  · simp only [heq]
    have hlen' := hgrows.length.trans hlen
    have hread : readMany (readInvItem t.stackable) s.inventory.length
        (s.inventory.flatMap (invBytes t) ++ []) = some (s.inventory, []) :=
      readMany_flatMap (fun x hx =>
        readInvItem_invBytes (h.tellable.slots x hx).fits (h.tellable.slots x hx).unit) []
    have hcount : (UInt8.ofNat s.inventory.length).toNat = s.inventory.length := by
      rw [UInt8.toNat_ofNat']
      omega
    rw [List.append_nil] at hread
    have htold : readUpdate t.stackable client d'.payload = s.inventory := by
      rw [hgrows.payload hlen, hpayload]
      show (readInv t.stackable (opSrvInventory :: UInt8.ofNat s.inventory.length ::
        s.inventory.flatMap (invBytes t))).getD client = s.inventory
      rw [readInv, hcount, hread]
      rfl
    refine ⟨⟨h.tellable, hlen'⟩, rfl, ?_⟩
    rcases Post.write_cases { s with lost := false } d' with ⟨hsent, -⟩ | ⟨hsent, hlost⟩
    · exact ⟨[d'.payload], hsent, fun _ => htold⟩
    · refine ⟨[], hsent.trans (List.append_nil _).symm, fun h => ?_⟩
      rw [hlost] at h
      cases h

end Packets

/-! ## The functions -/

/-- The function with the packets does what the one without does, and its packets
tell of it. -/
def Follows (t : ItemTable) (s : Post) (r : Except Assert Post)
    (r' : Except Assert EquipPlayer) : Prop :=
  (∃ a, r = .error a ∧ r' = .error a) ∨ ∃ s', r = .ok s' ∧ r' = .ok s'.player ∧ Relays t s s'

theorem Follows.of_relays {t : ItemTable} {s s' : Post} (h : Relays t s s') :
    Follows t s (.ok s') (.ok s'.player) := .inr ⟨s', rfl, rfl, h⟩

/-- What follows what has been followed. -/
theorem Follows.after {t : ItemTable} {s s' : Post} {r : Except Assert Post}
    {r' : Except Assert EquipPlayer} (h : Relays t s s') (h' : Follows t s' r r') :
    Follows t s r r' := by
  rcases h' with ⟨a, hr, hr'⟩ | ⟨s'', hr, hr', hrelays⟩
  · exact .inl ⟨a, hr, hr'⟩
  · exact .inr ⟨s'', hr, hr', h.trans hrelays⟩

section Giving

variable {t : ItemTable} {s : Post} {item : ItemConfig} {count n : Nat}

theorem Post.append_player (t : ItemTable) (s : Post) (x : InvItem) :
    (s.append t x).player = { s.player with inventory := s.inventory ++ [x] } := by
  unfold Post.append Post.playerSendInvSlot
  split
  · rfl
  · rfl

theorem Post.playerSendInvSlot_player (t : ItemTable) (s : Post) (k : Nat) :
    (s.playerSendInvSlot t k).player = s.player := by
  unfold Post.playerSendInvSlot
  split
  · rfl
  · rfl

theorem giveUnits_relays (hc : t.byId item.id = some item) :
    ∀ {n : Nat} {s : Post}, Ready t s →
      (s.inventory.length < maxInvSize → 0 < n → item.id < 0x8000) →
      Relays t s (Post.giveUnits t item.id n s) ∧ (Post.giveUnits t item.id n s).player =
        { s.player with inventory := (giveUnits item.id n s.inventory).1 } := by
  intro n
  induction n with
  | zero => exact fun h _ => ⟨.refl h, rfl⟩
  | succ n ih =>
      intro s h hid
      unfold Post.giveUnits giveUnits
      by_cases hroom : s.inventory.length < maxInvSize
      · rw [if_pos hroom, if_pos hroom]
        have hslot : SlotTold t { id := item.id, stack := 1 } :=
          ⟨by rw [hc]; rfl, fun _ => rfl, ⟨hid hroom (Nat.succ_pos n), show 1 ≤ maxStackSize by decide⟩⟩
        have happend := relays_append h hslot hroom
        obtain ⟨hrest, hplayer⟩ := ih happend.ready fun _ _ => hid hroom (Nat.succ_pos n)
        refine ⟨happend.trans hrest, hplayer.trans ?_⟩
        rw [Post.inventory, Post.append_player]
      · rw [if_neg hroom, if_neg hroom]
        exact ih h fun hroom' => absurd hroom' hroom

theorem playerInvGive_relays (h : Ready t s) (hc : t.byId item.id = some item)
    (hcount : count < u32Size) (hgive : GiveFits item count s.inventory) :
    Relays t s (s.playerInvGive t item count) ∧
      (s.playerInvGive t item count).player = equipGive s.player item count := by
  have hst := ItemTable.stackable_of_byId hc
  unfold Post.playerInvGive equipGive invGive
  by_cases hweight : item.weight = 0
  · rw [if_pos hweight]
    simp only [if_pos hweight]
    cases hfind : s.inventory.findIdx? (·.id == item.id) with
    | some k =>
        have hfind' : s.player.inventory.findIdx? (·.id == item.id) = some k := hfind
        refine ⟨relays_modify h ⟨fun y hy => ?_, ?_⟩, ?_⟩
        · rcases mem_modify hy with hy | ⟨x, hx, rfl⟩
          · exact h.tellable.slots y hy
          · obtain ⟨hconfigured, hone, hfits⟩ := h.tellable.slots x (List.mem_of_getElem? hx)
            have hxid : x.id = item.id := by
              obtain ⟨hk, hhit, -⟩ := List.findIdx?_eq_some_iff_getElem.1 hfind
              rw [List.getElem?_eq_getElem hk] at hx
              obtain rfl := Option.some.inj hx
              simpa using hhit
            rw [addStack_eq hcount]
            refine ⟨hconfigured, fun hst' => ?_, ⟨hfits.id, Nat.min_le_right _ _⟩⟩
            rw [InvItem.setStack_id, hxid, hst] at hst'
            simp [hweight] at hst'
        · rw [List.length_modify]
          exact h.tellable.size
        · rw [Post.playerSendInvSlot_player, hfind']
          rfl
    | none =>
        have hfind' : s.player.inventory.findIdx? (·.id == item.id) = none := hfind
        simp only [hfind']
        by_cases hfull : maxInvSize ≤ s.inventory.length
        · have hfull' : maxInvSize ≤ s.player.inventory.length := hfull
          rw [if_pos hfull, if_pos hfull']
          exact ⟨.refl h, rfl⟩
        · have hfull' : ¬ maxInvSize ≤ s.player.inventory.length := hfull
          rw [if_neg hfull, if_neg hfull']
          have hnone : ∀ x ∈ s.inventory, x.id ≠ item.id := fun x hx he => by
            simpa [he] using not_mem_of_findIdx hfind x hx
          obtain ⟨hid, hstack⟩ := hgive hnone (by omega) (.inl hweight)
          have hslot : SlotTold t { id := item.id, stack := count } := by
            refine ⟨by rw [hc]; rfl, fun hst' => ?_, ⟨hid, hstack hweight⟩⟩
            rw [hst] at hst'
            simp [hweight] at hst'
          exact ⟨relays_append h hslot (by omega), Post.append_player ..⟩
  · rw [if_neg hweight]
    simp only [if_neg hweight]
    refine giveUnits_relays hc h fun hroom hpos => ?_
    by_cases hheld : ∃ x ∈ s.inventory, x.id = item.id
    · obtain ⟨x, hx, hid⟩ := hheld
      exact hid ▸ (h.tellable.slots x hx).fits.id
    · exact (hgive (fun x hx he => hheld ⟨x, hx, he⟩) hroom (.inr hpos)).1

end Giving

section Removing

variable {t : GearTable} {s : Post} {hit : InvItem → Except Assert Bool}

theorem findSlot_lt {inv : List InvItem} {k : Nat} (h : findSlot hit inv = .ok (some k)) :
    k < inv.length := by
  induction inv generalizing k with
  | nil => cases h
  | cons x inv ih =>
      unfold findSlot at h
      split at h
      · cases h
      · obtain rfl := Option.some.inj (Except.ok.inj h)
        exact Nat.succ_pos _
      · cases hrest : findSlot hit inv with
        | error a =>
            rw [hrest] at h
            cases h
        | ok found =>
            rw [hrest] at h
            obtain ⟨j, rfl, rfl⟩ := Option.map_eq_some_iff.1 (Except.ok.inj h)
            exact Nat.succ_lt_succ (ih hrest)

theorem removeSlot_follows (h : Ready t.toItemTable s) {k : Nat} (hk : k < s.inventory.length) :
    Follows t.toItemTable s (s.removeSlot t k) (removeSlot t s.player k) := by
  have herase := relays_erase h hk
  refine .after herase ?_
  unfold Post.removeSlot removeSlot
  dsimp only [Post.inventory] at herase ⊢
  by_cases hworn : s.player.inventory[k]?.any (·.worn) = true
  · rw [if_pos hworn, if_pos hworn]
    have hplayer : ((s.setInventory (s.player.inventory.eraseIdx k)).playerSendInvRemove k).player =
        { s.player with inventory := s.player.inventory.eraseIdx k } := rfl
    rw [hplayer]
    cases hrecalc : playerRecalculateEquip t
        { s.player with inventory := s.player.inventory.eraseIdx k } with
    | error a => exact .inl ⟨a, rfl, rfl⟩
    | ok p =>
        exact .of_relays (relays_player herase.ready (playerRecalculateEquip_ok hrecalc).2.1)
  · rw [if_neg hworn, if_neg hworn]
    exact .of_relays (.refl herase.ready)

theorem removeSlots_follows {left : Nat} : ∀ {i : Nat} {s : Post}, Ready t.toItemTable s →
    Follows t.toItemTable s (Post.removeSlots t hit left i s)
      (equipRemoveSlots t hit left i s.player) := by
  induction left with
  | zero => exact fun h => .of_relays (.refl h)
  | succ left ih =>
      intro i s h
      unfold Post.removeSlots equipRemoveSlots
      have hsame : s.inventory = s.player.inventory := rfl
      rw [hsame]
      cases hfind : findSlot hit (s.player.inventory.drop i) with
      | error a => exact .inl ⟨a, rfl, rfl⟩
      | ok found =>
          cases found with
          | none => exact .of_relays (.refl h)
          | some k =>
              have hk := findSlot_lt hfind
              rw [List.length_drop] at hk
              have hremove := removeSlot_follows h (k := i + k) (by
                rw [hsame]
                omega)
              dsimp only
              rcases hremove with ⟨a, hr, hr'⟩ | ⟨s', hr, hr', hrelays⟩
              · rw [hr, hr']
                exact .inl ⟨a, rfl, rfl⟩
              · rw [hr, hr']
                exact .after hrelays (ih hrelays.ready)

theorem removeHits_follows (h : Ready t.toItemTable s) (weight count : Nat) :
    Follows t.toItemTable s (s.removeHits t hit weight count)
      (equipRemoveHits t hit weight count s.player) := by
  unfold Post.removeHits equipRemoveHits
  have hsame : s.inventory = s.player.inventory := rfl
  rw [hsame]
  split
  · cases hfind : findSlot hit s.player.inventory with
    | error a => exact .inl ⟨a, rfl, rfl⟩
    | ok found =>
        cases found with
        | none => exact removeSlots_follows h
        | some k =>
            dsimp only
            by_cases hmore : s.player.inventory[k]?.any (count < ·.stack) = true
            · rw [if_pos hmore, if_pos hmore]
              have hrelays := relays_modify (k := k)
                (f := fun x => x.setStack (x.stack - count)) h (h.tellable.mono ?_ ?_)
              · have hplayer := Post.playerSendInvSlot_player t.toItemTable
                  (s.setInventory (s.inventory.modify k fun x => x.setStack (x.stack - count))) k
                exact .inr ⟨_, rfl, congrArg Except.ok hplayer.symm, hrelays⟩
              · rw [List.length_modify]
              · intro y hy
                rcases mem_modify hy with hy | ⟨x, hx, rfl⟩
                · exact ⟨y, hy, rfl, Nat.le_refl _, id⟩
                · have hlt : count < x.stack := by
                    have hx' : s.player.inventory[k]? = some x := hx
                    rw [hx'] at hmore
                    simpa using hmore
                  refine ⟨x, List.mem_of_getElem? hx, rfl, Nat.sub_le _ _, fun hone => ?_⟩
                  show x.stack - count = 1
                  omega
            · rw [if_neg hmore, if_neg hmore]
              exact removeSlots_follows h
  · exact removeSlots_follows h

theorem playerInvRemove_follows (h : Ready t.toItemTable s) (name : List Char) (count : Nat) :
    Follows t.toItemTable s (s.playerInvRemove t name count)
      (equipRemove t s.player name count) := by
  unfold Post.playerInvRemove equipRemove
  cases t.byName name with
  | none => exact .inl ⟨_, rfl, rfl⟩
  | some item => exact removeHits_follows h _ _

theorem playerInvRemoveId_follows (h : Ready t.toItemTable s) (id count : Nat) :
    Follows t.toItemTable s (s.playerInvRemoveId t id count)
      (equipRemoveId t s.player id count) := by
  unfold Post.playerInvRemoveId equipRemoveId
  cases t.byId id with
  | none => exact .inl ⟨_, rfl, rfl⟩
  | some item => exact removeHits_follows h _ _

theorem drop_follows (h : Ready t.toItemTable s) (slot : Nat) :
    Follows t.toItemTable s (s.drop t slot) (equipDrop t s.player slot) := by
  unfold Post.drop equipDrop
  have hsame : s.inventory = s.player.inventory := rfl
  rw [hsame]
  cases s.player.inventory[slot]? with
  | none => exact .of_relays (.refl h)
  | some x => exact playerInvRemoveId_follows h _ _

theorem dropLowest_follows (keptMax : Nat) {n : Nat} : ∀ {s : Post}, Ready t.toItemTable s →
    Follows t.toItemTable s (Post.dropLowest t keptMax n s) (dropLowest t keptMax n s.player) := by
  induction n with
  | zero => exact fun h => .of_relays (.refl h)
  | succ n ih =>
      intro s h
      unfold Post.dropLowest dropLowest
      have hsame : s.inventory = s.player.inventory := rfl
      rw [hsame]
      split
      · exact .of_relays (.refl h)
      · cases (lowestSlot t s.player.inventory).bind (s.player.inventory[·]?) with
        | none => exact .of_relays (.refl h)
        | some x =>
            dsimp only
            rcases playerInvRemoveId_follows h x.id (if t.stackable x.id then x.stack else 1) with
              ⟨a, hr, hr'⟩ | ⟨s', hr, hr', hrelays⟩
            · rw [hr, hr']
              exact .inl ⟨a, rfl, rfl⟩
            · rw [hr, hr']
              exact .after hrelays (ih hrelays.ready)

theorem keepOne_follows {n : Nat} : ∀ {i : Nat} {s : Post}, Ready t.toItemTable s →
    Follows t.toItemTable s (Post.keepOne t n i s) (keepOne t n i s.player) := by
  induction n with
  | zero => exact fun h => .of_relays (.refl h)
  | succ n ih =>
      intro i s h
      unfold Post.keepOne keepOne
      have hsame : s.inventory = s.player.inventory := rfl
      rw [hsame]
      cases s.player.inventory[i]? with
      | none => exact .of_relays (.refl h)
      | some x =>
          dsimp only
          cases t.byId x.id with
          | none => exact .inl ⟨_, rfl, rfl⟩
          | some item =>
              dsimp only
              split
              · rcases playerInvRemoveId_follows h x.id (x.stack - 1) with
                  ⟨a, hr, hr'⟩ | ⟨s', hr, hr', hrelays⟩
                · rw [hr, hr']
                  exact .inl ⟨a, rfl, rfl⟩
                · rw [hr, hr']
                  exact .after hrelays (ih hrelays.ready)
              · exact ih h

theorem playerDie_follows (h : Ready t.toItemTable s) (skulled protectItem : Bool) :
    Follows t.toItemTable s (s.playerDie t skulled protectItem)
      (equipDie t skulled protectItem s.player) := by
  unfold Post.playerDie equipDie
  dsimp only
  rcases dropLowest_follows (t := t) ((if skulled then 0 else 3) + if protectItem then 1 else 0)
    (n := s.inventory.length) h with ⟨a, hr, hr'⟩ | ⟨s', hr, hr', hrelays⟩
  · have hr'' : dropLowest t ((if skulled then 0 else 3) + if protectItem then 1 else 0)
        s.player.inventory.length s.player = .error a := hr'
    rw [hr, hr'']
    exact .inl ⟨a, rfl, rfl⟩
  · have hr'' : dropLowest t ((if skulled then 0 else 3) + if protectItem then 1 else 0)
        s.player.inventory.length s.player = .ok s'.player := hr'
    rw [hr, hr'']
    dsimp only
    have hchanged := relays_player (p := { s'.player with appearanceChanged := true })
      hrelays.ready rfl
    refine .after (hrelays.trans hchanged) ?_
    have hkept := keepOne_follows (t := t) (n := s'.inventory.length) (i := 0) hchanged.ready
    rcases hkept with ⟨a, hk, hk'⟩ | ⟨s'', hk, hk', hrest⟩
    · have hk'' : keepOne t s'.player.inventory.length 0
          { s'.player with appearanceChanged := true } = .error a := hk'
      rw [hk, hk'']
      exact .inl ⟨a, rfl, rfl⟩
    · have hk'' : keepOne t s'.player.inventory.length 0
          { s'.player with appearanceChanged := true } = .ok s''.player := hk'
      rw [hk, hk'']
      exact .of_relays hrest

end Removing

section Wearing

variable {t : GearTable} {s : Post}

theorem clearSlot_cases (t : GearTable) (itemType slot i : Nat) (x : InvItem) :
    clearSlot t itemType slot i x = x ∨
      clearSlot t itemType slot i x = { x with worn := false } := by
  unfold clearSlot
  split
  · exact .inl rfl
  · split
    · exact .inl rfl
    · split
      · exact .inl rfl
      · split
        · exact .inr rfl
        · exact .inl rfl

/-- What is left of the loop of `player_wear`, as a whole. -/
def cleared (t : GearTable) (itemType slot i : Nat) (inv : List InvItem) : List InvItem :=
  inv.mapIdx fun j y => if j < i then y else clearSlot t itemType slot j y

theorem cleared_set (itemType slot : Nat) {i : Nat} {inv : List InvItem} {x : InvItem}
    (hx : inv[i]? = some x) :
    cleared t itemType slot (i + 1) (inv.set i (clearSlot t itemType slot i x)) =
      cleared t itemType slot i inv := by
  obtain ⟨hi, hget⟩ := List.getElem?_eq_some_iff.1 hx
  refine List.ext_getElem (by simp [cleared]) fun j hj hj' => ?_
  simp only [cleared, List.getElem_mapIdx]
  by_cases hij : i = j
  · subst hij
    simp [hget]
  · rw [List.getElem_set_ne hij]
    have hlt : j < i + 1 ↔ j < i := by omega
    simp only [hlt]

theorem cleared_all {itemType slot i : Nat} {inv : List InvItem} (h : inv.length ≤ i) :
    cleared t itemType slot i inv = inv := by
  refine List.ext_getElem (by simp [cleared]) fun j hj hj' => ?_
  simp only [cleared, List.getElem_mapIdx]
  rw [if_pos (by omega)]

/-- The loop of `player_wear` from a slot on. -/
theorem wearLoop_spec (itemType slot : Nat) : ∀ (left : Nat) {i : Nat} {s : Post},
    Ready t.toItemTable s → s.inventory.length ≤ left + i →
    Relays t.toItemTable s (Post.wearLoop t itemType slot left i s) ∧
      (Post.wearLoop t itemType slot left i s).player =
        { s.player with inventory := cleared t itemType slot i s.inventory } := by
  intro left
  induction left with
  | zero =>
      intro i s h hlen
      rw [Nat.zero_add] at hlen
      rw [cleared_all hlen]
      exact ⟨.refl h, rfl⟩
  | succ left ih =>
      intro i s h hlen
      unfold Post.wearLoop
      cases hx : s.inventory[i]? with
      | none =>
          rw [cleared_all (List.getElem?_eq_none_iff.1 hx)]
          exact ⟨.refl h, rfl⟩
      | some x =>
          obtain ⟨hi, hget⟩ := List.getElem?_eq_some_iff.1 hx
          have hset := cleared_set (t := t) itemType slot hx
          dsimp only
          by_cases hy : clearSlot t itemType slot i x = x
          · rw [if_pos hy]
            have hself : s.inventory.set i x = s.inventory := by
              rw [← hget]
              exact List.set_getElem_self hi
            rw [hy, hself] at hset
            rw [← hset]
            exact ih h (by omega)
          · rw [if_neg hy]
            have hworn := (clearSlot_cases t itemType slot i x).resolve_left hy
            have hinv : Tellable t.toItemTable
                (s.inventory.set i (clearSlot t itemType slot i x)) := by
              refine h.tellable.mono List.length_set.le fun y hy => ?_
              rcases List.mem_or_eq_of_mem_set hy with hy | rfl
              · exact ⟨y, hy, rfl, Nat.le_refl _, id⟩
              · rw [hworn]
                exact ⟨x, List.mem_of_getElem? hx, rfl, Nat.le_refl _, id⟩
            have hrelays := relays_slot h hinv (List.getElem?_set_self hi)
              (by rw [putSlot, if_pos hi])
            have hplayer := Post.playerSendInvSlot_player t.toItemTable
              (s.setInventory (s.inventory.set i (clearSlot t itemType slot i x))) i
            have hafter : ((s.setInventory (s.inventory.set i
                (clearSlot t itemType slot i x))).playerSendInvSlot t.toItemTable i).inventory =
                s.inventory.set i (clearSlot t itemType slot i x) :=
              congrArg EquipPlayer.inventory hplayer
            obtain ⟨hrest, hend⟩ := ih (i := i + 1) hrelays.ready (by
              rw [hafter, List.length_set]
              omega)
            refine ⟨hrelays.trans hrest, hend.trans ?_⟩
            rw [hafter, hset, hplayer]
            rfl

theorem Post.playerSendInvSlot_recalculated (p : EquipPlayer) (k : Nat) :
    ({ s with player := p } : Post).playerSendInvSlot t.toItemTable k =
      { (s.setInventory p.inventory).playerSendInvSlot t.toItemTable k with player := p } := by
  have hleft : ({ s with player := p } : Post).inventory = p.inventory := rfl
  have hright : (s.setInventory p.inventory).inventory = p.inventory := rfl
  unfold Post.playerSendInvSlot
  rw [hleft, hright]
  cases p.inventory[k]? with
  | none => rfl
  | some x => rfl

theorem setWorn_follows (h : Ready t.toItemTable s) (slot : Nat) (worn : Bool) :
    Follows t.toItemTable s (s.setWorn t slot worn) (playerRecalculateEquip t
      { s.player with inventory := s.inventory.modify slot fun y => { y with worn := worn } }) := by
  have hinv : Tellable t.toItemTable (s.inventory.modify slot fun y => { y with worn := worn }) := by
    refine h.tellable.mono (List.length_modify ..).le fun y hy => ?_
    rcases mem_modify hy with hy | ⟨x, hx, rfl⟩
    · exact ⟨y, hy, rfl, Nat.le_refl _, id⟩
    · exact ⟨x, List.mem_of_getElem? hx, rfl, Nat.le_refl _, id⟩
  have hrelays := relays_modify (k := slot) h hinv
  unfold Post.setWorn
  dsimp only [Post.setInventory]
  cases hrecalc : playerRecalculateEquip t
      { s.player with inventory := s.inventory.modify slot fun y => { y with worn := worn } } with
  | error a => exact .inl ⟨a, rfl, rfl⟩
  | ok p =>
      obtain ⟨-, hp, -⟩ := playerRecalculateEquip_ok hrecalc
      dsimp only at hp
      have hsend := Post.playerSendInvSlot_recalculated (t := t) (s := s) p slot
      rw [hp] at hsend
      refine .after hrelays (.inr ⟨_, rfl, ?_, ?_⟩)
      · rw [Post.playerSendInvSlot_player]
      · show Relays _ _ (({ s with player := p } : Post).playerSendInvSlot t.toItemTable slot)
        rw [hsend]
        refine relays_player hrelays.ready (hp.trans ?_)
        exact (congrArg EquipPlayer.inventory (Post.playerSendInvSlot_player t.toItemTable
          (s.setInventory (s.inventory.modify slot fun y => { y with worn := worn })) slot)).symm

theorem playerWear_follows (h : Ready t.toItemTable s) (allowed : Bool) (slot : Nat) :
    Follows t.toItemTable s (s.playerWear t allowed slot) (playerWear t allowed s.player slot) := by
  unfold Post.playerWear playerWear
  cases wearable t s.player slot with
  | none => exact .of_relays (.refl h)
  | some x =>
      dsimp only
      by_cases hallowed : allowed = true
      · rw [if_pos hallowed, if_pos hallowed]
        obtain ⟨hrelays, hplayer⟩ := wearLoop_spec (t := t) (t.gear x.id).equipType slot
          s.inventory.length (i := 0) h (Nat.le_refl _)
        have hcleared : cleared t (t.gear x.id).equipType slot 0 s.inventory =
            s.player.inventory.mapIdx fun i y => clearSlot t (t.gear x.id).equipType slot i y := by
          simp only [cleared, Nat.not_lt_zero, if_false]
          rfl
        have hset := setWorn_follows hrelays.ready slot true
        have hinv := congrArg EquipPlayer.inventory hplayer
        rw [hcleared] at hplayer hinv
        rw [hplayer] at hset
        have hinv' : (Post.wearLoop t (t.gear x.id).equipType slot s.inventory.length 0 s).inventory
            = s.player.inventory.mapIdx fun i y => clearSlot t (t.gear x.id).equipType slot i y :=
          hinv
        rw [hinv'] at hset
        exact .after hrelays hset
      · rw [if_neg hallowed, if_neg hallowed]
        exact .of_relays (.refl h)

theorem playerUnwear_follows (h : Ready t.toItemTable s) (slot : Nat) :
    Follows t.toItemTable s (s.playerUnwear t slot) (playerUnwear t s.player slot) := by
  unfold Post.playerUnwear playerUnwear
  cases wearable t s.player slot with
  | none => exact .of_relays (.refl h)
  | some x => exact setWorn_follows h slot false

end Wearing

/-! ## Over a run -/

/-- Nothing has been given yet, and nothing has been sent. -/
def FreshSlots (w : Slots) : Prop :=
  ∃ (tmpbuf : List UInt8) (isaacOut : Nat → UInt32) (out : Outgoing),
    tmpbuf.length = playerBufsize ∧
      w = { post := { tmpbuf := tmpbuf, isaacOut := isaacOut, out := out, invChanged := true } }

/-- A gift is of an item there is, and its stack fits a packet. -/
def GiftTold (t : GearTable) (w : Slots) : SlotEvent → Prop
  | .give item count =>
    t.byId item.id = some item ∧ GiveFits item count.toNat w.post.inventory
  | _ => True

/-- What is kept: the client has the inventory, or the whole of it is due, or a packet
has been refused. -/
structure Followed (t : ItemTable) (w : Slots) : Prop where
  ready : Ready t w.post
  saved : Tellable t w.savedInventory
  delivered : w.post.sent = []
  client : w.post.invChanged = false → w.post.lost = false → w.client = w.post.inventory

theorem Followed.deliver {t : ItemTable} {w w' : Slots} {s : Post} (h : Followed t w)
    (hrelays : Relays t w.post s) (hstep : w.deliver t (.ok s) = .ok w') : Followed t w' := by
  obtain ⟨new, hsent, hread⟩ := hrelays.sent
  rw [h.delivered, List.nil_append] at hsent
  cases hstep
  refine ⟨⟨hrelays.ready.tellable, hrelays.ready.buf⟩, h.saved, rfl, fun hflag hlost => ?_⟩
  show readUpdates t.stackable w.client s.sent = s.inventory
  rw [h.client (hrelays.flag ▸ hflag) (hrelays.lost hlost), hsent]
  exact hread hlost

theorem Followed.follows {t : ItemTable} {w w' : Slots} {r : Except Assert Post}
    {r' : Except Assert EquipPlayer} (h : Followed t w) (hr : Follows t w.post r r')
    (hstep : w.deliver t r = .ok w') : Followed t w' := by
  rcases hr with ⟨a, rfl, -⟩ | ⟨s, rfl, -, hrelays⟩
  · cases hstep
  · exact h.deliver hrelays hstep

theorem slotStep_followed {t : GearTable} {w w' : Slots} {e : SlotEvent}
    (h : Followed t.toItemTable w) (he : GiftTold t w e) (hstep : slotStep t w e = .ok w') :
    Followed t.toItemTable w' := by
  cases e with
  | wear slot allowed => exact h.follows (playerWear_follows h.ready allowed slot) hstep
  | unwear slot => exact h.follows (playerUnwear_follows h.ready slot) hstep
  | give item count =>
      exact h.deliver (playerInvGive_relays h.ready he.1 (UInt32.toNat_lt count) he.2).1 hstep
  | remove name count => exact h.follows (playerInvRemove_follows h.ready name count.toNat) hstep
  | removeId id count => exact h.follows (playerInvRemoveId_follows h.ready id count.toNat) hstep
  | drop slot => exact h.follows (drop_follows h.ready slot) hstep
  | die skulled protectItem =>
      exact h.follows (playerDie_follows h.ready skulled protectItem) hstep
  | clear =>
      cases hstep
      refine ⟨⟨⟨fun x hx => absurd hx List.not_mem_nil, Nat.zero_le _⟩, h.ready.buf⟩, h.saved,
        rfl, fun hflag => ?_⟩
      cases hflag
  | tick =>
      cases hstep
      have hclient := h.client
      unfold Post.tick
      cases hflag : w.post.invChanged with
      | true =>
          obtain ⟨hready, hinv, new, hsent, hread⟩ := playerSendInv_told h.ready w.client
          rw [h.delivered, List.nil_append] at hsent
          refine ⟨⟨hready.tellable, hready.buf⟩, h.saved, rfl, fun _ hlost => ?_⟩
          show readUpdates _ w.client (w.post.playerSendInv t.toItemTable).sent =
            (w.post.playerSendInv t.toItemTable).inventory
          rw [hsent, hinv]
          exact hread hlost
      | false =>
          refine ⟨⟨h.ready.tellable, h.ready.buf⟩, h.saved, rfl, fun _ hlost => ?_⟩
          show readUpdates _ w.client w.post.sent = w.post.inventory
          rw [h.delivered]
          exact hclient hflag hlost
  | save =>
      cases hstep
      exact ⟨h.ready, h.ready.tellable, h.delivered, h.client⟩
  | login =>
      cases hstep
      refine ⟨⟨h.saved, h.ready.buf⟩, h.saved, rfl, fun hflag => ?_⟩
      cases hflag
  | output isaacOut out =>
      cases hstep
      exact ⟨⟨h.ready.tellable, h.ready.buf⟩, h.saved, h.delivered, h.client⟩

theorem deliver_set {t : ItemTable} {w w' : Slots} {v : Wardrobe} {r : Except Assert Post}
    {r' : Except Assert EquipPlayer} (hr : Follows t w.post r r')
    (hstep : w.deliver t r = .ok w') : v.set r' = .ok { v with player := w'.post.player } := by
  rcases hr with ⟨a, rfl, -⟩ | ⟨s, rfl, rfl, -⟩
  · cases hstep
  · cases hstep
    rfl

/-- A step does to the player what it does without the packets. -/
theorem slotStep_equips {t : GearTable} {w w' : Slots} {e : SlotEvent} {e' : EquipEvent}
    (h : Followed t.toItemTable w) (he : GiftTold t w e) (hstep : slotStep t w e = .ok w')
    (hequip : e.equip = some e') (v : Wardrobe) (hv : v.player = w.post.player) :
    equipStep t v e' = .ok { v with player := w'.post.player } := by
  cases e with
  | wear slot allowed =>
      cases hequip
      rw [equipStep, hv]
      exact deliver_set (playerWear_follows h.ready allowed slot) hstep
  | unwear slot =>
      cases hequip
      rw [equipStep, hv]
      exact deliver_set (playerUnwear_follows h.ready slot) hstep
  | give item count =>
      cases hequip
      cases hstep
      rw [equipStep, hv, ← (playerInvGive_relays h.ready he.1 (UInt32.toNat_lt count) he.2).2]
  | remove name count =>
      cases hequip
      rw [equipStep, hv]
      exact deliver_set (playerInvRemove_follows h.ready name count.toNat) hstep
  | removeId id count =>
      cases hequip
      rw [equipStep, hv]
      exact deliver_set (playerInvRemoveId_follows h.ready id count.toNat) hstep
  | drop slot =>
      cases hequip
      rw [equipStep, hv]
      exact deliver_set (drop_follows h.ready slot) hstep
  | die skulled protectItem =>
      cases hequip
      rw [equipStep, hv]
      exact deliver_set (playerDie_follows h.ready skulled protectItem) hstep
  | clear => cases hequip
  | tick => cases hequip
  | save => cases hequip
  | login => cases hequip
  | output isaacOut out => cases hequip

/-- After every tick, and whenever nothing has been changed in bulk since, the client
of a player has just the inventory the server has, unless a packet was refused since
the whole of it was written: the packets of single slots keep up with gifts that can
be told, removals, wearing, dying and dropping in any order. -/
theorem slots_followed {t : GearTable} {tr : List (Slots × SlotEvent)} {w : Slots}
    (hrun : Run FreshSlots (slotStep t) tr w) (hok : ∀ x ∈ tr, GiftTold t x.1 x.2)
    (hflag : w.post.invChanged = false) (hlost : w.post.lost = false) :
    w.client = w.post.inventory := by
  refine Followed.client (t := t.toItemTable) (hrun.invariant (fun w hw => ?_)
    (fun w e w' h he hstep => slotStep_followed h he hstep) hok) hflag hlost
  obtain ⟨tmpbuf, isaacOut, out, hlen, rfl⟩ := hw
  have hnone : Tellable t.toItemTable [] :=
    ⟨fun x hx => absurd hx List.not_mem_nil, Nat.zero_le _⟩
  refine ⟨⟨hnone, hlen⟩, hnone, rfl, fun hflag => ?_⟩
  cases hflag

/-- A sword is put on, a shield given, the sword dropped, and the tick ends. -/
theorem slots_followed_sword : ∃ tr w, Run FreshSlots (slotStep swordTable) tr w ∧
    w.client = w.post.inventory ∧ w.client = [⟨2, 1, false⟩] := by
  let go := after (slotStep swordTable)
  let c₀ : Slots := { post := {
    tmpbuf := List.replicate playerBufsize 0, isaacOut := fun _ => 0
    out := { outbuf := List.replicate playerBufsize 0 }, invChanged := true } }
  let c₁ := go c₀ .tick
  let c₂ := go c₁ (.give ⟨0, [['s']], 1, 0⟩ 1)
  let c₃ := go c₂ (.wear 0 true)
  let c₄ := go c₃ (.give ⟨2, [['h']], 1, 0⟩ 1)
  have hrun : Run FreshSlots (slotStep swordTable) [(c₀, .tick), (c₁, .give ⟨0, [['s']], 1, 0⟩ 1),
      (c₂, .wear 0 true), (c₃, .give ⟨2, [['h']], 1, 0⟩ 1), (c₄, .drop 0)] (go c₄ (.drop 0)) :=
    (((((Run.start ⟨_, _, _, List.length_replicate, rfl⟩).step
      (step_after (by decide +kernel))).step (step_after (by decide +kernel))).step
        (step_after (by decide +kernel))).step (step_after (by decide +kernel))).step
          (step_after (by decide +kernel))
  refine ⟨_, _, hrun, slots_followed hrun ?_ (by decide +kernel) (by decide +kernel),
    by decide +kernel⟩
  intro x hx
  simp only [List.mem_cons, List.not_mem_nil, or_false] at hx
  rcases hx with rfl | rfl | rfl | rfl | rfl
  · trivial
  · exact ⟨rfl, fun _ _ _ => ⟨by decide, fun h => absurd h (by decide)⟩⟩
  · trivial
  · exact ⟨rfl, fun _ _ _ => ⟨by decide, fun h => absurd h (by decide)⟩⟩
  · trivial

end Sundae.Proofs
