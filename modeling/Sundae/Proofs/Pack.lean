import Sundae.Proofs.Bank
import Sundae.Proofs.Sight
import Sundae.Ref.Pack

/-!
# What a client is told it has

The packets of the inventory and of the bank have fifteen bits for the id of an
item and 31 for a quantity. `packets_faithful_iff` says which gifts keep every slot
within that: a new stack is put in a slot as large as it comes.
-/

namespace Sundae.Proofs

open Sundae.Lib Sundae.Ref

variable {t : ItemTable} {d : Draft}

/-! ## The bytes of the packets -/

theorem putsmartu32_puts (d : Draft) (n : Nat) : PutsBytes (smartBytes n) d (d.putsmartu32 n) := by
  unfold Draft.putsmartu32 bufPutsmartu32 smartBytes
  by_cases hsmall : n < 128
  · rw [if_pos hsmall, if_pos hsmall]
    have hput := putu8_puts d (UInt8.ofNat n)
    unfold Draft.putu8 at hput
    cases hb : bufPutu8 d.tmpbuf d.offset playerBufsize (UInt8.ofNat n) with
    | none => simpa [hb] using hput
    | some b => simpa [hb] using hput
  · rw [if_neg hsmall, if_neg hsmall]
    by_cases h : playerBufsize < d.offset + 4
    · exact .inl ⟨h, by rw [if_pos h]; rfl⟩
    · rw [if_neg h]
      refine .inr ⟨_, rfl, ?_⟩
      refine ⟨by simp, fun hd => ?_, rfl, rfl, Nat.not_lt.1 h, fun hlen => ?_⟩
      · dsimp only
        rw [head?_set (by omega), head?_set (by omega), head?_set (by omega), head?_set hd]
      · unfold Draft.payload
        dsimp only
        have htake : ∀ {b : List UInt8} {k : Nat} (x : UInt8), k < b.length →
            (b.set k x).take (k + 1) = b.take k ++ [x] := fun x hk => take_set_succ hk x
        rw [htake _ (by simp; omega), htake _ (by simp; omega), htake _ (by simp; omega),
          htake _ (by omega)]
        simp

/-- What is written of a slot. -/
def invBytes (t : ItemTable) (x : InvItem) : List UInt8 :=
  let id := if x.worn then x.id + 0x8000 else x.id
  [UInt8.ofNat (id / 256), UInt8.ofNat id] ++
    if t.stackable x.id then smartBytes x.stack else []

/-- What is written of an entry of the bank. -/
def bankBytes (b : BankItem) : List UInt8 :=
  [UInt8.ofNat (b.id / 256), UInt8.ofNat b.id] ++ smartBytes b.amount

theorem puts_nothing (h : d.offset ≤ playerBufsize) : PutsBytes [] d (some d) := by
  refine .inr ⟨d, rfl, rfl, fun _ => rfl, rfl, rfl, h, fun _ => ?_⟩
  rw [List.append_nil]

/-- An item with a config is put, or does not fit. -/
theorem putInvItem_puts {x : InvItem} (hknown : (t.byId x.id).isSome = true) (d : Draft) :
    PutsBytes (invBytes t x) d (putInvItem t d x) := by
  obtain ⟨item, hc⟩ := Option.isSome_iff_exists.1 hknown
  have hst := ItemTable.stackable_of_byId hc
  unfold invBytes putInvItem
  dsimp only
  rcases putu16_puts d (if x.worn then x.id + 0x8000 else x.id) with
    ⟨hfull, heq⟩ | ⟨d', heq, hgrows⟩
  · rw [heq]
    refine .inl ⟨?_, rfl⟩
    simp only [List.length_append, List.length_cons, List.length_nil] at hfull ⊢
    omega
  · rw [heq, hc]
    dsimp only
    have hnext : PutsBytes (if t.stackable x.id then smartBytes x.stack else []) d'
        (if item.weight = 0 then d'.putsmartu32 x.stack else some d') := by
      by_cases hw : item.weight = 0
      · rw [if_pos hw, if_pos (by simp [hst, hw])]
        exact putsmartu32_puts d' x.stack
      · rw [if_neg hw, if_neg (by simp [hst, hw])]
        exact puts_nothing hgrows.room
    exact hgrows.puts hnext

theorem putBankItem_puts (b : BankItem) (d : Draft) :
    PutsBytes (bankBytes b) d (putBankItem d b) := by
  unfold bankBytes putBankItem
  rcases putu16_puts d b.id with ⟨hfull, heq⟩ | ⟨d', heq, hgrows⟩
  · rw [heq]
    refine .inl ⟨?_, rfl⟩
    simp only [List.length_append, List.length_cons, List.length_nil] at hfull ⊢
    omega
  · rw [heq]
    exact hgrows.puts (putsmartu32_puts d' b.amount)

/-- The loop puts one after the other, until one does not fit. -/
theorem putEach_puts {α : Type} {put : Draft → α → Option Draft} {enc : α → List UInt8}
    {l : List α} (h : ∀ a ∈ l, ∀ d, PutsBytes (enc a) d (put d a))
    (hroom : d.offset ≤ playerBufsize) : PutsBytes (l.flatMap enc) d (putEach put d l) := by
  induction l generalizing d with
  | nil => exact puts_nothing hroom
  | cons a l ih =>
      rw [List.flatMap_cons, putEach]
      rcases h a List.mem_cons_self d with ⟨hfull, heq⟩ | ⟨d', heq, hgrows⟩
      · rw [heq]
        refine .inl ⟨?_, rfl⟩
        rw [List.length_append]
        omega
      · rw [heq]
        exact hgrows.puts (ih (fun b hb => h b (List.mem_cons_of_mem a hb)) hgrows.room)

/-- What fits is written. -/
theorem PutsBytes.written {bytes : List UInt8} {result : Option Draft}
    (h : PutsBytes bytes d result) (hfit : d.offset + bytes.length ≤ playerBufsize)
    (hlen : d.tmpbuf.length = playerBufsize) :
    result.map Draft.payload = some (d.payload ++ bytes) := by
  rcases h with ⟨hfull, -⟩ | ⟨d', rfl, hgrows⟩
  · omega
  · exact congrArg some (hgrows.payload hlen)

theorem putHeader_grows (hroom : d.offset < playerBufsize) (x : UInt8) :
    Grows [x] d (d.putHeader x) := by
  unfold Draft.putHeader
  rcases putu8_puts d x with ⟨hfull, -⟩ | ⟨d', heq, hgrows⟩
  · rw [List.length_singleton] at hfull
    omega
  · rw [heq]
    exact hgrows

/-- The opcode and a byte behind it. -/
theorem header_grows {tmpbuf : List UInt8} (hlen : tmpbuf.length = playerBufsize)
    (opcode x : UInt8) :
    let d := (Draft.opened tmpbuf opcode).putHeader x
    d.tmpbuf.length = playerBufsize ∧ d.offset = 2 ∧ d.payload = [opcode, x] := by
  have hopened : (Draft.opened tmpbuf opcode).tmpbuf.length = playerBufsize := by
    rw [Draft.opened, List.length_set, hlen]
  have hone : 1 < playerBufsize := by decide
  have hgrows := putHeader_grows (d := .opened tmpbuf opcode) hone x
  refine ⟨hgrows.length.trans hopened, hgrows.offset, ?_⟩
  rw [hgrows.payload hopened, payload_opened hlen]
  rfl

theorem invPacket_eq {tmpbuf : List UInt8} {inv : List InvItem}
    (hlen : tmpbuf.length = playerBufsize) (hok : InvOk t inv) :
    invPacket t tmpbuf inv = some ([opSrvInventory, UInt8.ofNat inv.length] ++
      inv.flatMap (invBytes t)) := by
  obtain ⟨hbuf, hoffset, hpayload⟩ := header_grows hlen opSrvInventory (UInt8.ofNat inv.length)
  have hbytes : (inv.flatMap (invBytes t)).length ≤ inv.length * 6 := by
    refine length_flatMap_le inv fun x => ?_
    have hsmart := length_smartBytes_le x.stack
    unfold invBytes
    rw [List.length_append, List.length_cons, List.length_singleton]
    split
    · omega
    · rw [List.length_nil]
      omega
  have hsize := hok.size
  have hmax : maxInvSize = 30 := rfl
  have hroom : playerBufsize = 5000 := rfl
  have hputs : PutsBytes (inv.flatMap (invBytes t))
      ((Draft.opened tmpbuf opSrvInventory).putHeader (UInt8.ofNat inv.length)) _ :=
    putEach_puts (fun x hx => putInvItem_puts (hok.configured x hx)) (by omega)
  rw [← hpayload]
  exact hputs.written (by omega) hbuf

theorem bankPacket_eq {tmpbuf : List UInt8} {bank : List BankItem} (protocolRev : Nat)
    (hlen : tmpbuf.length = playerBufsize) (hsize : bank.length ≤ maxBankSize) :
    bankPacket protocolRev tmpbuf bank = some ([opSrvBankShow, UInt8.ofNat bank.length] ++
      (if 124 < protocolRev then [UInt8.ofNat maxBankSize] else []) ++
        bank.flatMap bankBytes) := by
  obtain ⟨hbuf, hoffset, hpayload⟩ := header_grows hlen opSrvBankShow (UInt8.ofNat bank.length)
  have hbytes : (bank.flatMap bankBytes).length ≤ bank.length * 6 := by
    refine length_flatMap_le bank fun b => ?_
    have hsmart := length_smartBytes_le b.amount
    unfold bankBytes
    rw [List.length_append, List.length_cons, List.length_singleton]
    omega
  have hmax : maxBankSize = 48 := rfl
  have hroom : playerBufsize = 5000 := rfl
  unfold bankPacket
  generalize hd : (Draft.opened tmpbuf opSrvBankShow).putHeader (UInt8.ofNat bank.length) = d at *
  dsimp only
  by_cases hrev : 124 < protocolRev
  · have hgrows := putHeader_grows (d := d) (by omega) (UInt8.ofNat maxBankSize)
    have hoffset' := hgrows.offset
    rw [List.length_singleton] at hoffset'
    have hputs : PutsBytes (bank.flatMap bankBytes) _ (putEach putBankItem _ bank) :=
      putEach_puts (fun b _ => putBankItem_puts b) hgrows.room
    rw [if_pos hrev, if_pos hrev, ← hpayload, ← hgrows.payload hbuf]
    exact hputs.written (by omega) (hgrows.length.trans hbuf)
  · have hputs : PutsBytes (bank.flatMap bankBytes) d (putEach putBankItem d bank) :=
      putEach_puts (fun b _ => putBankItem_puts b) (by omega)
    rw [if_neg hrev, if_neg hrev, ← hpayload, List.append_nil]
    exact hputs.written (by omega) hbuf

/-! ## Read by the client -/

/-- What a slot must be within. -/
structure SlotFits (x : InvItem) : Prop where
  id : x.id < 0x8000
  stack : x.stack ≤ maxStackSize

/-- And an entry of the bank. What is not in the bank in any number cannot be
taken out of it. -/
structure BankFits (b : BankItem) : Prop where
  id : b.id < 65536
  some : 0 < b.amount → b.id < 0x8000
  amount : b.amount ≤ maxStackSize

theorem readInvItem_invBytes {x : InvItem} (hfits : SlotFits x)
    (hunit : t.stackable x.id = false → x.stack = 1) (rest : List UInt8) :
    readInvItem t.stackable (invBytes t x ++ rest) = some (x, rest) := by
  have hid := hfits.id
  have hstack := hfits.stack
  have hmax : maxStackSize = 2147483647 := rfl
  unfold readInvItem invBytes
  dsimp only [List.cons_append, List.nil_append, readU16]
  have hwhole : (if x.worn then x.id + 0x8000 else x.id) < 65536 := by
    split <;> omega
  have htop : decide (0x8000 ≤ if x.worn then x.id + 0x8000 else x.id) = x.worn := by
    cases hw : x.worn
    · simpa using hid
    · simp
  have hrest : (if x.worn then x.id + 0x8000 else x.id) % 0x8000 = x.id := by
    split <;> omega
  rw [read_u16 hwhole, htop, hrest]
  cases hst : t.stackable x.id with
  | true =>
      rw [if_pos rfl, if_pos rfl, readSmart_smartBytes (by omega)]
      rfl
  | false =>
      rw [if_neg Bool.false_ne_true, if_neg Bool.false_ne_true, ← hunit hst]
      rfl

theorem readBankItem_bankBytes {b : BankItem} (hfits : BankFits b) (rest : List UInt8) :
    readBankItem (bankBytes b ++ rest) = some (b, rest) := by
  have hamount := hfits.amount
  have hmax : maxStackSize = 2147483647 := rfl
  unfold readBankItem bankBytes
  dsimp only [List.cons_append, List.nil_append, readU16]
  rw [read_u16 hfits.id, readSmart_smartBytes (by omega)]
  rfl

/-- The client has no id beyond fifteen bits. -/
theorem id_lt_of_readInvItem {stackable : Nat → Bool} {bytes rest : List UInt8} {x : InvItem}
    (h : readInvItem stackable bytes = some (x, rest)) : x.id < 0x8000 := by
  have hlt := fun id : Nat => Nat.mod_lt id (show 0 < 0x8000 by decide)
  unfold readInvItem at h
  split at h
  · cases h
  · next id rest' _ =>
    dsimp only at h
    split at h
    · obtain ⟨⟨n, rest''⟩, -, heq⟩ := Option.map_eq_some_iff.1 h
      obtain ⟨rfl, -⟩ := Prod.mk.inj heq
      exact hlt id
    · obtain ⟨rfl, -⟩ := Prod.mk.inj (Option.some.inj h)
      exact hlt id

/-- The packets as they should be: whatever is in the buffer, each is written and
the client reads from it just what there is. -/
structure PackFaithful (t : ItemTable) (p : Player) : Prop where
  limit : ∀ x ∈ p.inventory, x.stack ≤ maxStackSize
  inventory : ∀ tmpbuf : List UInt8, tmpbuf.length = playerBufsize →
    ∃ payload, invPacket t tmpbuf p.inventory = some payload ∧
      readInv t.stackable payload = some p.inventory
  bankLimit : ∀ b ∈ p.bank, b.amount ≤ maxStackSize
  bank : ∀ (protocolRev : Nat) (tmpbuf : List UInt8), tmpbuf.length = playerBufsize →
    ∃ payload, bankPacket protocolRev tmpbuf p.bank = some payload ∧
      readBank protocolRev payload = some p.bank

theorem packFaithful_of_fits {p : Player} (hok : InvOk t p.inventory)
    (hsize : p.bank.length ≤ maxBankSize) (hslots : ∀ x ∈ p.inventory, SlotFits x)
    (hentries : ∀ b ∈ p.bank, BankFits b) : PackFaithful t p := by
  have hcount : ∀ {n : Nat}, n ≤ 48 → (UInt8.ofNat n).toNat = n := fun {n} h => by
    rw [UInt8.toNat_ofNat']
    omega
  have hmax : maxInvSize = 30 := rfl
  have hbank : maxBankSize = 48 := rfl
  refine ⟨fun x hx => (hslots x hx).stack, fun tmpbuf hlen => ⟨_, invPacket_eq hlen hok, ?_⟩,
    fun b hb => (hentries b hb).amount, fun protocolRev tmpbuf hlen =>
      ⟨_, bankPacket_eq protocolRev hlen hsize, ?_⟩⟩
  · have hread : readMany (readInvItem t.stackable) p.inventory.length
        (p.inventory.flatMap (invBytes t) ++ []) = some (p.inventory, []) :=
      readMany_flatMap (fun x hx => readInvItem_invBytes (hslots x hx) (hok.unit x hx)) []
    have hinv := hok.size
    rw [List.append_nil] at hread
    show (readMany (readInvItem t.stackable) (UInt8.ofNat p.inventory.length).toNat
      (p.inventory.flatMap (invBytes t))).map Prod.fst = _
    rw [hcount (by omega), hread]
    rfl
  · have hread : readMany readBankItem p.bank.length (p.bank.flatMap bankBytes ++ []) =
        some (p.bank, []) :=
      readMany_flatMap (fun b hb => readBankItem_bankBytes (hentries b hb)) []
    rw [List.append_nil] at hread
    rw [List.append_assoc]
    show (readMany readBankItem (UInt8.ofNat p.bank.length).toNat _).map Prod.fst = _
    have hskip : (if 124 < protocolRev then
        ((if 124 < protocolRev then [UInt8.ofNat maxBankSize] else []) ++
          p.bank.flatMap bankBytes).drop 1
        else (if 124 < protocolRev then [UInt8.ofNat maxBankSize] else []) ++
          p.bank.flatMap bankBytes) = p.bank.flatMap bankBytes := by
      by_cases hrev : 124 < protocolRev
      · rw [if_pos hrev, if_pos hrev]
        rfl
      · rw [if_neg hrev, if_neg hrev]
        rfl
    rw [hcount (by omega)]
    refine (congrArg (fun bytes => (readMany readBankItem p.bank.length bytes).map Prod.fst)
      hskip).trans ?_
    rw [hread]
    rfl

/-- Whatever a client is faithfully told of has fifteen bits. -/
theorem PackFaithful.id_lt {p : Player} (h : PackFaithful t p) :
    ∀ x ∈ p.inventory, x.id < 0x8000 := by
  obtain ⟨payload, -, hread⟩ := h.inventory (List.replicate playerBufsize 0)
    List.length_replicate
  unfold readInv at hread
  split at hread
  · obtain ⟨⟨inv, rest⟩, hmany, heq⟩ := Option.map_eq_some_iff.1 hread
    obtain rfl : inv = p.inventory := heq
    exact forall_of_readMany (fun _ _ _ h => id_lt_of_readInvItem h) hmany
  · cases hread

/-! ## What happens -/

/-- A stack that is new to its inventory must be within what a slot holds. -/
def GiveFits (item : ItemConfig) (count : Nat) (inv : List InvItem) : Prop :=
  (∀ x ∈ inv, x.id ≠ item.id) → inv.length < maxInvSize → (item.weight = 0 ∨ 0 < count) →
    item.id < 0x8000 ∧ (item.weight = 0 → count ≤ maxStackSize)

/-- Which gifts are harmless. Nothing else can do any harm. -/
def PackOk (t : ItemTable) (i : Nat) (s : Server) : PackEvent → Prop
  | .give id count => ∀ item, t.byId id = some item →
      GiveFits item count.toNat (s.get i).inventory
  | _ => True

/-- What holds of every player's pack. -/
structure PackWf (t : ItemTable) (p : Player) : Prop where
  ok : InvOk t p.inventory
  size : p.bank.length ≤ maxBankSize

/-- And what is to hold. -/
structure PackFits (p : Player) : Prop where
  slots : ∀ x ∈ p.inventory, SlotFits x
  entries : ∀ b ∈ p.bank, BankFits b

/-- What happens to a pack keeps it well formed, and under `C` within bounds. -/
structure Carried (t : ItemTable) (C : Prop) (p p' : Player) : Prop where
  wf : PackWf t p'
  fits : PackFits p → C → PackFits p'

variable {p : Player} {item : ItemConfig} {id count amount i : Nat} {s : Server}

theorem Carried.refl (h : PackWf t p) (C : Prop) : Carried t C p p := ⟨h, fun hfits _ => hfits⟩

theorem invGive_fits {inv : List InvItem} (hcount : count < u32Size)
    (hfits : ∀ x ∈ inv, SlotFits x) (hgive : GiveFits item count inv) :
    ∀ x ∈ (invGive item count inv).1, SlotFits x := by
  unfold invGive
  by_cases hw : item.weight = 0
  · rw [if_pos hw]
    cases hf : inv.findIdx? (·.id == item.id) with
    | some k =>
        intro y hy
        rcases mem_modify hy with hy | ⟨x, hx, rfl⟩
        · exact hfits y hy
        · rw [addStack_eq hcount]
          exact ⟨(hfits x (List.mem_of_getElem? hx)).id, Nat.min_le_right _ _⟩
    | none =>
        dsimp only
        split
        · exact hfits
        · next hroom =>
          have hnone : ∀ x ∈ inv, x.id ≠ item.id := fun x hx he => by
            simpa [he] using not_mem_of_findIdx hf x hx
          obtain ⟨hid, hstack⟩ := hgive hnone (by omega) (.inl hw)
          intro y hy
          rcases List.mem_append.1 hy with hy | hy
          · exact hfits y hy
          · obtain rfl := List.mem_singleton.1 hy
            exact ⟨hid, hstack hw⟩
  · rw [if_neg hw, giveUnits_eq]
    intro y hy
    rcases List.mem_append.1 hy with hy | hy
    · exact hfits y hy
    · obtain ⟨hsome, rfl⟩ := List.mem_replicate.1 hy
      refine ⟨?_, show 1 ≤ maxStackSize by decide⟩
      show item.id < 0x8000
      by_cases hheld : ∃ x ∈ inv, x.id = item.id
      · obtain ⟨x, hx, hid⟩ := hheld
        rw [← hid]
        exact (hfits x hx).id
      · exact (hgive (fun x hx he => hheld ⟨x, hx, he⟩) (by omega) (.inr (by omega))).1

theorem carried_give (h : PackWf t p) (hc : t.byId id = some item) (hcount : count < u32Size) :
    Carried t (GiveFits item count p.inventory) p
      { p with inventory := (invGive item count p.inventory).1 } :=
  ⟨⟨invGive_ok h.ok hc hcount, h.size⟩, fun hfits hgive =>
    ⟨invGive_fits hcount hfits.slots hgive, hfits.entries⟩⟩

theorem carried_removed (h : PackWf t p) (hit : InvItem → Bool) (weight count : Nat) (C : Prop) :
    Carried t C p { p with inventory := removed hit weight count p.inventory } := by
  refine ⟨⟨removed_ok h.ok, h.size⟩, fun hfits _ => ⟨fun x hx => ?_, hfits.entries⟩⟩
  obtain ⟨y, hy, hid, -, hle, -⟩ := mem_removed hx
  have hslot := hfits.slots y hy
  exact ⟨hid ▸ hslot.id, Nat.le_trans hle hslot.stack⟩

theorem carried_wear (h : PackWf t p) (slot : Nat) (worn : Bool) (C : Prop) :
    Carried t C p
      { p with inventory := p.inventory.modify slot fun x => { x with worn := worn } } := by
  have hmem : ∀ x ∈ p.inventory.modify slot fun x => { x with worn := worn },
      ∃ y ∈ p.inventory, x.id = y.id ∧ x.stack = y.stack := by
    intro x hx
    rcases mem_modify hx with hx | ⟨y, hy, rfl⟩
    · exact ⟨x, hx, rfl, rfl⟩
    · exact ⟨y, List.mem_of_getElem? hy, rfl, rfl⟩
  refine ⟨⟨⟨?_, fun x hx => ?_, fun x hx hid => ?_, ?_⟩, h.size⟩, fun hfits _ =>
    ⟨fun x hx => ?_, hfits.entries⟩⟩
  · dsimp only
    rw [map_modify_of_key InvItem.id fun x => show { x with worn := worn }.id = x.id from rfl]
    exact h.ok.single
  · obtain ⟨y, hy, hid, -⟩ := hmem x hx
    rw [hid]
    exact h.ok.configured y hy
  · obtain ⟨y, hy, hyid, hstack⟩ := hmem x hx
    rw [hstack]
    exact h.ok.unit y hy (hyid ▸ hid)
  · dsimp only
    rw [List.length_modify]
    exact h.ok.size
  · obtain ⟨y, hy, hid, hstack⟩ := hmem x hx
    have hslot := hfits.slots y hy
    exact ⟨hid ▸ hslot.id, hstack ▸ hslot.stack⟩

/-! ## At the bank -/

/-- Nothing comes out, or part of an entry, or all of it. -/
theorem bankRemove_cases (id amount : Nat) (bank : List BankItem) :
    bankRemove id amount bank = (0, bank) ∨
    ∃ b ∈ bank, b.id = id ∧ (bankRemove id amount bank).1 = min amount b.amount ∧
      (bankRemove id amount bank).2.length ≤ bank.length ∧
      ∀ c ∈ (bankRemove id amount bank).2, c ∈ bank ∨ c = b.setAmount (b.amount - amount) := by
  unfold bankRemove
  cases hf : bank.findIdx? (·.id == id) with
  | none => exact .inl rfl
  | some k =>
      obtain ⟨b, hb, hid⟩ := mem_bank_of_findIdx hf
      dsimp only
      rw [hb]
      refine .inr ⟨b, List.mem_of_getElem? hb, hid, ?_⟩
      dsimp only
      split
      · next hle =>
        have hsub : (bank.eraseIdx k).Sublist bank := List.eraseIdx_sublist ..
        exact ⟨(Nat.min_eq_right hle).symm, hsub.length_le, fun c hc => .inl (hsub.subset hc)⟩
      · next hlt =>
        refine ⟨(Nat.min_eq_left (by omega)).symm, by simp, fun c hc => ?_⟩
        rcases mem_modify hc with hc | ⟨d, hd, rfl⟩
        · exact .inl hc
        · obtain rfl := Option.some.inj (hb.symm.trans hd)
          exact .inr rfl

/-- What is taken out of the bank was told of, and so can be in the inventory. -/
theorem carried_withdraw (h : PackWf t p) (hc : t.byId id = some item) (hamount : amount < u32Size)
    (C : Prop) :
    Carried t C p
      { p with
        inventory :=
          (if 0 < (bankRemove id amount p.bank).1 then
            invGive item (bankRemove id amount p.bank).1 p.inventory
          else (p.inventory, [])).1
        bank := (bankRemove id amount p.bank).2 } := by
  have hitem := ItemTable.byId_id hc
  rcases bankRemove_cases id amount p.bank with heq | ⟨b, hb, hid, htaken, hlen, hmem⟩
  · rw [heq]
    exact .refl h C
  · rw [htaken]
    have hcount : min amount b.amount < u32Size := Nat.lt_of_le_of_lt (Nat.min_le_left _ _) hamount
    refine ⟨⟨?_, Nat.le_trans hlen h.size⟩, fun hfits _ => ⟨?_, fun c hc => ?_⟩⟩
    · dsimp only
      split
      · exact invGive_ok h.ok hc hcount
      · exact h.ok
    · have hentry := hfits.entries b hb
      dsimp only
      split
      · next hsome =>
        refine invGive_fits hcount hfits.slots fun _ _ _ => ⟨?_, fun _ => ?_⟩
        · rw [hitem, ← hid]
          exact hentry.some (by omega)
        · exact Nat.le_trans (Nat.min_le_right _ _) hentry.amount
      · exact hfits.slots
    · rcases hmem c hc with hc | rfl
      · exact hfits.entries c hc
      · have hentry := hfits.entries b hb
        exact ⟨hentry.id, fun hsome => hentry.some (by simp at hsome; omega),
          Nat.le_trans (Nat.sub_le _ _) hentry.amount⟩

/-- No more of an item is held than fits in one entry. -/
theorem held_le (hok : InvOk t p.inventory) (hfits : ∀ x ∈ p.inventory, SlotFits x) :
    held t id p.inventory ≤ maxStackSize := by
  cases hst : t.stackable id with
  | true =>
      by_cases hheld : ∃ x ∈ p.inventory, x.id = id
      · obtain ⟨x, hx, hid⟩ := hheld
        obtain ⟨j, hj⟩ := List.mem_iff_getElem?.1 hx
        rw [held_stackable hok.wf hst hj hid]
        exact (hfits x hx).stack
      · rw [held_eq_zero fun x hx he => hheld ⟨x, hx, he⟩]
        exact Nat.zero_le _
  | false =>
      have hcount := List.countP_le_length (p := (·.id == id)) (l := p.inventory)
      have hsize := hok.size
      have hmax : maxInvSize ≤ maxStackSize := by decide
      rw [held_unstackable hst]
      omega

/-- Nothing changes, or what is held moves to an entry that has room, or to a new
one. -/
theorem playerDeposit_moves {s' : Server} (hok : InvOk t (s.get i).inventory)
    (h : playerDeposit t s i id amount = .ok s') :
    s' = s ∨ ∃ (weight : Nat) (bank : List BankItem),
      amount ≤ held t id (s.get i).inventory ∧
      s' = s.modify i (fun p =>
        { p with
          inventory := removed (·.id == id) weight amount (s.get i).inventory
          bank := bank }) ∧
      ((∃ b ∈ (s.get i).bank, b.id = id ∧ amount ≤ stackRoom b.amount ∧
          bank.length = (s.get i).bank.length ∧
          ∀ c ∈ bank, c ∈ (s.get i).bank ∨
            c = b.setAmount ((b.amount + amount) % u32Size)) ∨
        ((s.get i).bank.length < maxBankSize ∧ bank = (s.get i).bank ++ [⟨id, amount⟩])) := by
  unfold playerDeposit at h
  split at h
  · exact .inl (Except.ok.inj h).symm
  · unfold playerInvHeldId at h
    cases hc : t.byId id with
    | none =>
        rw [hc] at h
        cases h
    | some item =>
        rw [hc] at h
        dsimp only at h
        rw [invHeldId_eq hok.wf hc] at h
        by_cases hheld : amount ≤ held t id (s.get i).inventory
        · rw [decide_eq_true hheld] at h
          dsimp only at h
          rw [playerInvRemoveId_eq hok.wf hc] at h
          cases hf : (s.get i).bank.findIdx? (·.id == id) with
          | some k =>
              obtain ⟨b, hb, hid⟩ := mem_bank_of_findIdx hf
              rw [hf] at h
              dsimp only at h
              rw [hb, Option.any_some] at h
              split at h
              · exact .inl (Except.ok.inj h).symm
              · next hroom =>
                have hroom : amount ≤ stackRoom b.amount := by simpa using hroom
                rw [Server.modify_modify] at h
                refine .inr ⟨item.weight, (s.get i).bank.modify k fun b =>
                  b.setAmount ((b.amount + amount) % u32Size), hheld, ?_,
                    .inl ⟨b, List.mem_of_getElem? hb, hid, hroom, List.length_modify ..,
                      fun c hc => ?_⟩⟩
                · exact (Except.ok.inj h).symm.trans (Server.modify_congr rfl)
                · rcases mem_modify hc with hc | ⟨d, hd, rfl⟩
                  · exact .inl hc
                  · obtain rfl := Option.some.inj (hb.symm.trans hd)
                    exact .inr rfl
          | none =>
              rw [hf] at h
              dsimp only at h
              split at h
              · next hroom =>
                rw [Server.modify_modify] at h
                exact .inr ⟨item.weight, _, hheld,
                  (Except.ok.inj h).symm.trans (Server.modify_congr rfl), .inr ⟨hroom, rfl⟩⟩
              · exact .inl (Except.ok.inj h).symm
        · rw [decide_eq_false hheld] at h
          exact .inl (Except.ok.inj h).symm

theorem carried_deposit {s' : Server} (hlive : s.live i) (h : PackWf t (s.get i))
    (hid : id < 65536) (hdeposit : playerDeposit t s i id amount = .ok s') (C : Prop) :
    s'.live i ∧ Carried t C (s.get i) (s'.get i) := by
  rcases playerDeposit_moves h.ok hdeposit with rfl | ⟨weight, bank, hheld, rfl, hbank⟩
  · exact ⟨hlive, .refl h C⟩
  · rw [Server.get_modify_self hlive]
    have hremoved := carried_removed h (·.id == id) weight amount C
    -- What is held in any number is in a slot.
    have hslot : PackFits (s.get i) → 0 < amount → id < 0x8000 := by
      intro hfits hsome
      by_contra hlarge
      have hnone : ∀ x ∈ (s.get i).inventory, x.id ≠ id := by
        intro x hx he
        have hlt := (hfits.slots x hx).id
        omega
      rw [held_eq_zero hnone] at hheld
      omega
    refine ⟨Server.live_modify.2 hlive, ⟨hremoved.wf.ok, ?_⟩, fun hfits hC =>
      ⟨(hremoved.fits hfits hC).slots, fun c hc => ?_⟩⟩
    · rcases hbank with ⟨b, -, -, -, hlen, -⟩ | ⟨hroom, rfl⟩
      · exact hlen ▸ h.size
      · dsimp only
        rw [List.length_append, List.length_singleton]
        omega
    · rcases hbank with ⟨b, hb, hbid, hroom, -, hmem⟩ | ⟨-, rfl⟩
      · have hentry := hfits.entries b hb
        have hamount := hentry.amount
        rw [stackRoom_eq hamount] at hroom
        rw [mod_u32Size (by omega)] at hmem
        rcases hmem c hc with hc | rfl
        · exact hfits.entries c hc
        · refine ⟨hentry.id, fun hsome => ?_, ?_⟩
          · rw [b.setAmount_amount] at hsome
            rw [b.setAmount_id]
            by_cases hold : 0 < b.amount
            · exact hentry.some hold
            · rw [hbid]
              exact hslot hfits (by omega)
          · rw [b.setAmount_amount]
            omega
      · rcases List.mem_append.1 hc with hc | hc
        · exact hfits.entries c hc
        · obtain rfl := List.mem_singleton.1 hc
          exact ⟨hid, hslot hfits, Nat.le_trans hheld (held_le h.ok hfits.slots)⟩

/-! ## Any sequence of them -/

/-- A player who has nothing yet. -/
structure EmptyPack (i : Nat) (s : Server) : Prop where
  live : s.live i
  inventory : (s.get i).inventory = []
  bank : (s.get i).bank = []

theorem packStep_carried {s' : Server} {e : PackEvent} (hlive : s.live i)
    (h : PackWf t (s.get i)) (hs : packStep t i s e = .ok s') :
    s'.live i ∧ Carried t (PackOk t i s e) (s.get i) (s'.get i) := by
  cases e with
  | give id count =>
      dsimp only [packStep] at hs
      cases hc : t.byId id with
      | none =>
          rw [hc] at hs
          obtain rfl := Except.ok.inj hs
          exact ⟨hlive, .refl h _⟩
      | some item =>
          rw [hc] at hs
          obtain rfl := Except.ok.inj hs
          obtain ⟨new, n, heq, -⟩ := playerInvGive_eq s i item count.toNat
          have hgive := carried_give h hc count.toNat_lt
          have hget : (playerInvGive s i item count.toNat).get i =
              { s.get i with inventory := (invGive item count.toNat (s.get i).inventory).1 } := by
            rw [heq]
            exact Server.get_modify_self hlive
          rw [hget]
          refine ⟨?_, hgive.wf, fun hfits hok => hgive.fits hfits (hok item hc)⟩
          rw [heq]
          exact Server.live_modify.2 hlive
  | removeId id count =>
      have hs : playerInvRemoveId t s i id count.toNat = .ok s' := hs
      cases hc : t.byId id with
      | none =>
          rw [playerInvRemoveId, hc] at hs
          cases hs
      | some item =>
          rw [playerInvRemoveId_eq h.ok.wf hc] at hs
          obtain rfl := Except.ok.inj hs
          rw [Server.get_modify_self hlive]
          exact ⟨Server.live_modify.2 hlive, carried_removed h _ _ _ _⟩
  | remove name count =>
      have hs : playerInvRemove t s i name count.toNat = .ok s' := hs
      unfold playerInvRemove at hs
      cases hc : t.byName name with
      | none =>
          rw [hc] at hs
          cases hs
      | some item =>
          rw [hc] at hs
          dsimp only at hs
          rw [invRemove_eq h.ok.wf fun x hx => nameMatch_eq (h.ok.configured x hx)] at hs
          obtain rfl := Except.ok.inj hs
          rw [Server.get_modify_self hlive]
          exact ⟨Server.live_modify.2 hlive, carried_removed h _ _ _ _⟩
  | wear slot worn =>
      obtain rfl := Except.ok.inj hs
      rw [Server.get_modify_self hlive]
      exact ⟨Server.live_modify.2 hlive, carried_wear h slot worn _⟩
  | deposit id amount => exact carried_deposit hlive h id.toNat_lt hs _
  | withdraw id amount =>
      obtain rfl := Except.ok.inj hs
      rcases playerWithdraw_cases t s i id.toNat amount.toNat with ⟨-, heq⟩ | ⟨item, hc, -, heq⟩
      · rw [heq]
        exact ⟨hlive, .refl h _⟩
      · obtain ⟨new, n, hfound, -⟩ := withdrawFound_eq hlive item id.toNat amount.toNat
        rw [heq, hfound]
        refine ⟨Server.live_modify.2 hlive, ?_⟩
        have hget := Server.get_modify_self (s := s)
          (f := fun p : Player => { p with
            inventory :=
              (if 0 < (bankRemove id.toNat amount.toNat (s.get i).bank).1 then
                invGive item (bankRemove id.toNat amount.toNat (s.get i).bank).1
                  (s.get i).inventory
              else ((s.get i).inventory, [])).1
            bank := (bankRemove id.toNat amount.toNat (s.get i).bank).2 }) hlive
        exact hget.symm ▸ carried_withdraw h hc amount.toNat_lt _
  | bankOpen shown =>
      obtain rfl := Except.ok.inj hs
      rw [Server.get_modify_self hlive]
      exact ⟨Server.live_modify.2 hlive, ⟨h.ok, h.size⟩, fun hfits _ =>
        ⟨hfits.slots, hfits.entries⟩⟩

/-- Where there was no slot of an item and there was room for one, there is one. -/
theorem exists_given {inv : List InvItem} (hnone : ∀ x ∈ inv, x.id ≠ item.id)
    (hroom : inv.length < maxInvSize) (hsome : item.weight = 0 ∨ 0 < count) :
    ∃ x ∈ (invGive item count inv).1, x.id = item.id ∧ (item.weight = 0 → x.stack = count) := by
  unfold invGive
  by_cases hw : item.weight = 0
  · have hf : inv.findIdx? (·.id == item.id) = none :=
      List.findIdx?_eq_none_iff.2 fun x hx => beq_false_of_ne (hnone x hx)
    rw [if_pos hw, hf]
    dsimp only
    rw [if_neg (by omega)]
    exact ⟨_, List.mem_append_right _ (List.mem_singleton_self _), rfl, fun _ => rfl⟩
  · have hpos := hsome.resolve_left hw
    rw [if_neg hw, giveUnits_eq]
    refine ⟨_, List.mem_append_right _ (List.mem_replicate.2 ⟨by omega, rfl⟩), rfl, fun h => ?_⟩
    exact absurd h hw

/-- The packets tell a client just what there is, whatever happens, exactly when
no gift makes a slot that does not fit in them. -/
theorem packets_faithful_iff (t : ItemTable) (i : Nat) {tr : List (Server × PackEvent)}
    {s : Server} (hrun : Run (EmptyPack i) (packStep t i) tr s) :
    (∀ c ∈ statesOf tr s, PackFaithful t (c.get i)) ↔ ∀ x ∈ tr, PackOk t i x.1 x.2 := by
  have hstart : ∀ s, EmptyPack i s → s.live i ∧ PackWf t (s.get i) ∧ PackFits (s.get i) := by
    intro s h
    refine ⟨h.live, ⟨?_, ?_⟩, ⟨?_, ?_⟩⟩
    · rw [h.inventory]
      exact ⟨.nil, by simp, by simp, Nat.zero_le _⟩
    · rw [h.bank]
      exact Nat.zero_le _
    · simp [h.inventory]
    · simp [h.bank]
  have hwf : ∀ {tr : List (Server × PackEvent)} {c : Server},
      Run (EmptyPack i) (packStep t i) tr c → c.live i ∧ PackWf t (c.get i) := by
    intro tr c hrun
    refine hrun.always (I := fun c => c.live i ∧ PackWf t (c.get i)) ?_ ?_
    · exact fun s h => ⟨(hstart s h).1, (hstart s h).2.1⟩
    · rintro s e s' ⟨hlive, hwf⟩ hs
      obtain ⟨hlive', hcarried⟩ := packStep_carried hlive hwf hs
      exact ⟨hlive', hcarried.wf⟩
  constructor
  · rintro hall ⟨c, e⟩ hx
    cases e with
    | give id count =>
        intro item hc hnone hroom hsome
        obtain ⟨c', hc', hmem⟩ := hrun.next_mem hx
        obtain ⟨tr', -, hrun'⟩ := hrun.reaches (mem_statesOf.2 (.inl ⟨_, hx⟩))
        have hfaithful := hall c' hmem
        have hgiven : c' = playerInvGive c i item count.toNat := by
          dsimp only [packStep] at hc'
          rw [hc] at hc'
          exact (Except.ok.inj hc').symm
        obtain ⟨new, n, heq, -⟩ := playerInvGive_eq c i item count.toNat
        have hinv : (c'.get i).inventory = (invGive item count.toNat (c.get i).inventory).1 := by
          rw [hgiven, heq]
          exact congrArg Player.inventory (Server.get_modify_self (hwf hrun').1)
        obtain ⟨x, hx, hid, hstack⟩ := exists_given hnone hroom hsome
        rw [← hinv] at hx
        exact ⟨hid ▸ hfaithful.id_lt x hx, fun hw => hstack hw ▸ hfaithful.limit x hx⟩
    | _ => trivial
  · intro hall c hc
    obtain ⟨tr', hpre, hrun'⟩ := hrun.reaches hc
    have hkept : c.live i ∧ PackWf t (c.get i) ∧ PackFits (c.get i) := by
      refine hrun'.invariant (I := fun c => c.live i ∧ PackWf t (c.get i) ∧ PackFits (c.get i))
        (C := PackOk t i) hstart ?_ fun x hx => hall x (hpre.subset hx)
      rintro s e s' ⟨hlive, hwf, hfits⟩ hok hs
      obtain ⟨hlive', hcarried⟩ := packStep_carried hlive hwf hs
      exact ⟨hlive', hcarried.wf, hcarried.fits hfits hok⟩
    obtain ⟨-, ⟨hok, hsize⟩, hslots, hentries⟩ := hkept
    exact packFaithful_of_fits hok hsize hslots hentries

/-- A player who has nothing. -/
def emptyHanded : Server := { players := fun j => if j = 0 then some {} else none }

theorem emptyPack_emptyHanded : EmptyPack 0 emptyHanded := ⟨rfl, rfl, rfl⟩

/-- Five coins and a log: the client is told of five coins and a log. -/
theorem packets_faithful_iff_coins :
    ∃ tr s, exec (packStep smallTable 0) emptyHanded [.give 0 5, .give 1 1] = .ok (tr, s) ∧
      ∀ c ∈ statesOf tr s, PackFaithful smallTable (c.get 0) := by
  have hrun : Run (EmptyPack 0) (packStep smallTable 0) _ _ :=
    Run.of_exec [.give 0 5, .give 1 1] emptyPack_emptyHanded rfl
  refine ⟨_, _, rfl, (packets_faithful_iff smallTable 0 hrun).2 ?_⟩
  intro x hx
  rcases List.mem_cons.1 hx with rfl | hx
  · intro item hc
    obtain rfl := Option.some.inj hc
    exact fun _ _ _ => ⟨by decide, fun _ => by decide⟩
  · obtain rfl := List.mem_singleton.1 hx
    intro item hc
    obtain rfl := Option.some.inj hc
    exact fun _ _ _ => ⟨by decide, fun h => absurd h (by decide)⟩

/-- A gift of 2³¹ coins: a stack above `MAX_STACK_SIZE`. -/
theorem new_stack_too_large :
    ¬ ∀ (t : ItemTable) (i : Nat) (tr : List (Server × PackEvent)) (s : Server),
      Run (EmptyPack i) (packStep t i) tr s →
        ∀ c ∈ statesOf tr s, PackFaithful t (c.get i) := by
  intro hall
  have hrun : Run (EmptyPack 0) (packStep smallTable 0) _ _ :=
    Run.of_exec [.give 0 2147483648] emptyPack_emptyHanded rfl
  have hfaithful := hall _ _ _ _ hrun _ (List.mem_append_right _ (List.mem_singleton_self _))
  exact absurd (hfaithful.limit ⟨0, 2147483648, false⟩ (List.mem_singleton_self _)) (by decide)

end Sundae.Proofs
