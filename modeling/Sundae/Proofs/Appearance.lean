import Mathlib.Data.List.DropRight
import Sundae.Proofs.Pack
import Sundae.Ref.Looks

/-!
# Updates are read as they were meant

Each encoder puts an id, a kind and what the kind asks for, and the client reads just
that. So of a packet it reads the updates that were due, in their order.
-/

namespace Sundae.Proofs

open Sundae.Lib Sundae.Ref

/-! ## Numbers and texts -/

theorem length_beBytes (n x : Nat) : (beBytes n x).length = n := by
  induction n generalizing x with
  | zero => rfl
  | succ n ih => rw [beBytes, List.length_append, ih, List.length_singleton]

theorem beNumber_beBytes {n x : Nat} (h : x < 256 ^ n) : beNumber (beBytes n x) = x := by
  induction n generalizing x with
  | zero => exact (Nat.lt_one_iff.1 h).symm
  | succ n ih =>
      have hhigh : x / 256 < 256 ^ n := Nat.div_lt_of_lt_mul (by rw [pow_succ'] at h; exact h)
      have hrest := ih hhigh
      unfold beNumber at hrest ⊢
      rw [beBytes, List.foldl_append, hrest, List.foldl_cons, List.foldl_nil, UInt8.toNat_ofNat']
      omega

/-- A number of two bytes. -/
def shortBytes (x : Nat) : List UInt8 := [UInt8.ofNat (x / 256), UInt8.ofNat x]

theorem readU16_shortBytes {x : Nat} (h : x < 65536) (rest : List UInt8) :
    readU16 (shortBytes x ++ rest) = some (x, rest) := by
  show some (_, rest) = _
  rw [read_u16 h]

theorem readData_append (data rest : List UInt8) :
    readData data.length (data ++ rest) = some (data, rest) := by
  unfold readData
  rw [if_neg (by rw [List.length_append]; omega), List.take_left, List.drop_left]

/-- A length and a text. -/
def textBytes (text : List UInt8) : List UInt8 := UInt8.ofNat text.length :: text

theorem readText_textBytes {text : List UInt8} (h : text.length < 256) (rest : List UInt8) :
    readText (textBytes text ++ rest) = some (text, rest) := by
  have hlen : (UInt8.ofNat text.length).toNat = text.length := by
    rw [UInt8.toNat_ofNat']
    exact Nat.mod_eq_of_lt h
  show readData (UInt8.ofNat text.length).toNat (text ++ rest) = _
  rw [hlen, readData_append]

/-! ## What a player looks like -/

/-- The sprites that are sent. -/
def sentSprites (sprites : AnimSlot → UInt8) : List UInt8 :=
  (AnimSlot.all.take (animCount sprites)).map sprites

theorem animCount_le (sprites : AnimSlot → UInt8) : animCount sprites ≤ 12 :=
  (List.dropWhile_suffix _).length_le.trans (Nat.le_refl 12)

theorem length_sentSprites (sprites : AnimSlot → UInt8) :
    (sentSprites sprites).length = animCount sprites := by
  rw [sentSprites, List.length_map, List.length_take]
  exact Nat.min_eq_left (animCount_le sprites)

/-- There is nothing in the slots above. -/
theorem sprite_above {sprites : AnimSlot → UInt8} {slot : AnimSlot}
    (h : animCount sprites ≤ AnimSlot.all.idxOf slot) : sprites slot = 0 := by
  let bare : AnimSlot → Bool := fun slot => sprites slot = 0
  have hcount : (AnimSlot.all.rdropWhile bare).length = animCount sprites := List.length_reverse
  have hsplit : AnimSlot.all.rdropWhile bare ++ AnimSlot.all.rtakeWhile bare = AnimSlot.all :=
    List.rdropWhile_append_rtakeWhile
  have hslot : slot ∈ AnimSlot.all := by cases slot <;> decide
  rw [← hsplit, List.mem_append] at hslot
  rcases hslot with hmem | hmem
  · rw [← hsplit, List.idxOf_append_of_mem hmem] at h
    exact absurd (List.idxOf_lt_length_iff.2 hmem) (Nat.not_lt.2 (hcount ▸ h))
  · have hbare : bare slot = true := List.mem_rtakeWhile_imp hmem
    exact of_decide_eq_true hbare

theorem getD_sentSprites (sprites : AnimSlot → UInt8) (slot : AnimSlot) :
    (sentSprites sprites).getD (AnimSlot.all.idxOf slot) 0 = sprites slot := by
  have hget : AnimSlot.all[AnimSlot.all.idxOf slot]? = some slot := by cases slot <;> rfl
  rw [List.getD_eq_getElem?_getD, sentSprites, List.getElem?_map, List.getElem?_take]
  by_cases h : AnimSlot.all.idxOf slot < animCount sprites
  · rw [if_pos h, hget]
    rfl
  · rw [if_neg h, sprite_above (Nat.not_lt.1 h)]
    rfl

/-- The bytes of an appearance behind its kind. -/
def lookBytes (id : Nat) (l : Look) : List UInt8 :=
  shortBytes id ++ (beBytes 8 l.name ++ (textBytes (sentSprites l.figure.sprites) ++
    [l.figure.hairColour, l.figure.topColour, l.figure.legColour, l.figure.skinColour,
      l.figure.combatLevel, if l.figure.skulled then 1 else 0]))

theorem readLook_lookBytes {id : Nat} {l : Look} (hid : id < 65536) (hname : l.name < 2 ^ 64)
    (rest : List UInt8) : readLook (lookBytes id l ++ rest) = some (l, rest) := by
  have hshort : (sentSprites l.figure.sprites).length < 256 := by
    rw [length_sentSprites]
    exact Nat.lt_of_le_of_lt (animCount_le _) (by decide)
  have hdata := readData_append (beBytes 8 l.name)
  rw [length_beBytes] at hdata
  have hnumber : beNumber (beBytes 8 l.name) = l.name :=
    beNumber_beBytes (Nat.lt_of_lt_of_eq hname (by decide))
  have hskull : ((if l.figure.skulled then 1 else 0 : UInt8) != 0) = l.figure.skulled := by
    cases l.figure.skulled <;> rfl
  unfold readLook lookBytes
  simp only [List.append_assoc, readU16_shortBytes hid, hdata, readText_textBytes hshort,
    Option.bind_eq_bind, Option.bind_some, List.cons_append, List.nil_append, readU8, hnumber,
    getD_sentSprites, hskull, Option.pure_def]

/-! ## Updates -/

def updateKind : Update → UInt8
  | .bubble _ => playerUpdateBubble
  | .chat quest _ => if quest then playerUpdateChatQuest else playerUpdateChatPublic
  | .damage .. => playerUpdateDamage
  | .shoot player _ _ => if player then playerUpdateShootPlayer else playerUpdateShootMonster
  | .look _ => playerUpdateAppearance
  | .npcChat .. => playerUpdateChatPublic

/-- The bytes of an update behind its kind. -/
def updateBody (id : Nat) : Update → List UInt8
  | .bubble item => shortBytes item
  | .chat _ text => textBytes text
  | .damage damage hits maxHits => [damage, hits, maxHits]
  | .shoot _ sprite target => shortBytes sprite ++ shortBytes target
  | .look l => lookBytes id l
  | .npcChat target text => shortBytes target ++ textBytes text

def updateBytes (id : Nat) (u : Update) : List UInt8 :=
  shortBytes id ++ updateKind u :: updateBody id u

/-- What fits into the fields of an update, of a player or of an NPC. -/
def UpdateFits (npc : Bool) : Update → Prop
  | .bubble item => item < 65536
  | .chat _ text => text.length < 256 ∧ npc = false
  | .damage .. => True
  | .shoot _ sprite target => sprite < 65536 ∧ target < 65536
  | .look l => l.name < 2 ^ 64
  | .npcChat target text => target < 65536 ∧ text.length < 256 ∧ npc = true

theorem readUpdateOf_body {npc : Bool} {id : Nat} {u : Update} (hid : id < 65536)
    (hu : UpdateFits npc u) (rest : List UInt8) :
    readUpdateOf npc (updateKind u) (updateBody id u ++ rest) = some (u, rest) := by
  unfold readUpdateOf updateKind updateBody playerUpdateBubble playerUpdateChatPublic
    playerUpdateChatQuest playerUpdateDamage playerUpdateShootMonster playerUpdateShootPlayer
    playerUpdateAppearance
  cases u with
  | bubble item => simp [readU16_shortBytes hu]
  | chat quest text =>
      obtain ⟨hshort, rfl⟩ := hu
      cases quest with
      | false => simp [readText_textBytes hshort]
      | true => simp [readText_textBytes hshort]
  | damage damage hits maxHits => simp [readU8]
  | shoot player sprite target =>
      obtain ⟨hsprite, htarget⟩ := hu
      cases player with
      | false => simp [readU16_shortBytes hsprite, readU16_shortBytes htarget]
      | true => simp [readU16_shortBytes hsprite, readU16_shortBytes htarget]
  | look l => simp [readLook_lookBytes hid hu]
  | npcChat target text =>
      obtain ⟨htarget, hshort, rfl⟩ := hu
      simp [readU16_shortBytes htarget, readText_textBytes hshort]

theorem readUpdateRecord_updateBytes {npc : Bool} {id : Nat} {u : Update} (hid : id < 65536)
    (hu : UpdateFits npc u) (rest : List UInt8) :
    readUpdateRecord npc (updateBytes id u ++ rest) = some ((id, u), rest) := by
  unfold readUpdateRecord updateBytes
  rw [List.append_assoc, readU16_shortBytes hid]
  dsimp only [Option.bind_eq_bind, Option.bind_some, List.cons_append, readU8]
  rw [readUpdateOf_body hid hu]
  rfl

/-- The bytes of updates, one after the other. -/
def recordsBytes (us : List (Nat × Update)) : List UInt8 :=
  us.flatMap fun u => updateBytes u.1 u.2

/-- A packet of updates is read as those updates. -/
theorem readAppearance_records {npc : Bool} {opcode : UInt8} {us : List (Nat × Update)}
    (hcount : us.length < 65536) (hus : ∀ u ∈ us, u.1 < 65536 ∧ UpdateFits npc u.2) :
    readAppearance npc (opcode :: shortBytes us.length ++ recordsBytes us) = some us := by
  have hmany : readMany (readUpdateRecord npc) us.length (recordsBytes us ++ []) = some (us, []) :=
    readMany_flatMap
      (fun u hu rest => readUpdateRecord_updateBytes (hus u hu).1 (hus u hu).2 rest) []
  unfold readAppearance
  rw [List.cons_append, List.drop_one, List.tail_cons, readU16_shortBytes hcount]
  dsimp only [Option.bind_eq_bind, Option.bind_some]
  rw [List.append_nil] at hmany
  rw [hmany]
  rfl

/-! ## The encoders -/

variable {d d' : Draft} {id : Nat}

theorem PutsBytes.before {bytes more : List UInt8} {result : Option Draft}
    {next : Draft → Option Draft} (h : PutsBytes bytes d result)
    (hnext : ∀ d', d'.offset ≤ playerBufsize → PutsBytes more d' (next d')) :
    PutsBytes (bytes ++ more) d (result.bind next) := by
  rcases h with ⟨hfull, rfl⟩ | ⟨d', rfl, h⟩
  · refine .inl ⟨?_, rfl⟩
    rw [List.length_append]
    omega
  · exact h.puts (hnext d' h.room)

theorem copyBytes_grows (data : List UInt8) : ∀ {d : Draft},
    d.offset + data.length ≤ playerBufsize →
    Grows data d { d with
      tmpbuf := copyBytes d.tmpbuf d.offset data
      offset := d.offset + data.length } := by
  induction data with
  | nil => exact fun h => ⟨rfl, fun _ => rfl, rfl, rfl, h, fun _ => (List.append_nil _).symm⟩
  | cons x data ih =>
      intro d h
      rw [List.length_cons] at h
      let d₁ : Draft := { d with tmpbuf := d.tmpbuf.set d.offset x, offset := d.offset + 1 }
      have hfirst : Grows [x] d d₁ :=
        ⟨List.length_set, fun hd => head?_set hd x, rfl, rfl, by show d.offset + 1 ≤ _; omega,
          fun hlen => take_set_succ (by omega) x⟩
      have hrest : Grows data d₁ _ := ih (by show d.offset + 1 + data.length ≤ _; omega)
      have hboth := hfirst.trans hrest
      rw [show d₁.offset + data.length = d.offset + (x :: data).length by
        show d.offset + 1 + data.length = d.offset + (data.length + 1)
        omega] at hboth
      exact hboth

theorem putdata_puts (d : Draft) (data : List UInt8) : PutsBytes data d (d.putdata data) := by
  unfold Draft.putdata bufPutdata
  by_cases h : playerBufsize < d.offset + data.length
  · exact .inl ⟨h, by rw [if_pos h]; rfl⟩
  · rw [if_neg h]
    exact .inr ⟨_, rfl, copyBytes_grows data (Nat.not_lt.1 h)⟩

theorem putAppearance_puts (id : Nat) (b : Body) (d : Draft) :
    PutsBytes (updateBytes id (.look b.look)) d (d.putAppearance id b) := by
  have hcount : UInt8.ofNat (animCount b.figure.sprites) =
      UInt8.ofNat (sentSprites b.figure.sprites).length := by rw [length_sentSprites]
  have hsprites : sentSprites b.figure.sprites =
      (AnimSlot.all.take (animCount b.figure.sprites)).flatMap fun slot =>
        [b.figure.sprites slot] := List.map_eq_flatMap
  show PutsBytes (shortBytes id ++ ([playerUpdateAppearance] ++ (shortBytes id ++
    (beBytes 8 (nameBits b.name) ++ ([UInt8.ofNat (sentSprites b.figure.sprites).length] ++
      (sentSprites b.figure.sprites ++ ([b.figure.hairColour] ++ ([b.figure.topColour] ++
        ([b.figure.legColour] ++ ([b.figure.skinColour] ++ ([b.figure.combatLevel] ++
          [if b.figure.skulled then 1 else 0]))))))))))) d _
  refine (putu16_puts d id).bind fun d => (putu8_puts d _).bind fun d =>
    (putu16_puts d id).bind fun d => (putdata_puts d _).bind fun d => ?_
  rw [← hcount, hsprites]
  refine (putu8_puts d _).before fun d hroom => ?_
  refine (putEach_puts (fun slot _ d => putu8_puts d (b.figure.sprites slot)) hroom).bind
    fun d => ?_
  exact (putu8_puts d _).bind fun d => (putu8_puts d _).bind fun d => (putu8_puts d _).bind
    fun d => (putu8_puts d _).bind fun d => (putu8_puts d _).bind fun d => putu8_puts d _

theorem putDamage_puts (id : Nat) (damage hits maxHits : UInt8) (d : Draft) :
    PutsBytes (updateBytes id (.damage damage hits maxHits)) d
      (d.putDamage id damage hits maxHits) :=
  (putu16_puts d id).bind fun d => (putu8_puts d playerUpdateDamage).bind fun d =>
    (putu8_puts d damage).bind fun d => (putu8_puts d hits).bind fun d => putu8_puts d maxHits

theorem putBubble_puts (protocolRev id : Nat) (item : UInt16) (d : Draft) :
    PutsBytes (updateBytes id (.bubble (encodeBubbleId protocolRev item).toNat)) d
      (d.putBubble protocolRev id item) :=
  (putu16_puts d id).bind fun d => (putu8_puts d playerUpdateBubble).bind fun d =>
    putu16_puts d _

theorem putProjectile_puts (player : Bool) (id : Nat) (sprite target : UInt16) (d : Draft) :
    PutsBytes (updateBytes id (.shoot player sprite.toNat target.toNat)) d
      (d.putProjectile (updateKind (.shoot player 0 0)) id sprite target) :=
  (putu16_puts d id).bind fun d => (putu8_puts d (updateKind (.shoot player 0 0))).bind fun d =>
    (putu16_puts d sprite.toNat).bind fun d => putu16_puts d target.toNat

/-- The text that a client of this version is sent. -/
def textFor (protocolRev : Nat) (chat chatCompressed : Speech) : List UInt8 :=
  (if 163 < protocolRev then chatCompressed else chat).text

theorem textFor_short (protocolRev : Nat) (chat chatCompressed : Speech) :
    (textFor protocolRev chat chatCompressed).length < 256 :=
  (if 163 < protocolRev then chatCompressed else chat).short

theorem putChat_puts (protocolRev : Nat) (chat chatCompressed : Speech) (d : Draft) :
    PutsBytes (textBytes (textFor protocolRev chat chatCompressed)) d
      (d.putChat protocolRev chat chatCompressed) :=
  (putu8_puts d _).bind fun d => putdata_puts d _

/-! ## Updates that are due -/

/-- A draft to which the records of updates have been added. -/
structure Augments (us : List (Nat × Update)) (d d' : Draft) : Prop where
  length : d'.tmpbuf.length = d.tmpbuf.length
  offset : d'.offset = d.offset + (recordsBytes us).length
  count : d'.updateCount = d.updateCount + us.length
  room : d.offset ≤ playerBufsize → d'.offset ≤ playerBufsize
  head : 0 < d.offset → d'.tmpbuf.head? = d.tmpbuf.head?
  payload : d.tmpbuf.length = playerBufsize → d'.payload = d.payload ++ recordsBytes us

theorem Augments.refl (d : Draft) : Augments [] d d :=
  ⟨rfl, rfl, rfl, id, fun _ => rfl, fun _ => (List.append_nil _).symm⟩

theorem recordsBytes_append (us us' : List (Nat × Update)) :
    recordsBytes (us ++ us') = recordsBytes us ++ recordsBytes us' := List.flatMap_append

theorem Augments.trans {us us' : List (Nat × Update)} {d'' : Draft} (h : Augments us d d')
    (h' : Augments us' d' d'') : Augments (us ++ us') d d'' where
  length := h'.length.trans h.length
  offset := by rw [h'.offset, h.offset, recordsBytes_append, List.length_append, Nat.add_assoc]
  count := by rw [h'.count, h.count, List.length_append, Nat.add_assoc]
  room hroom := h'.room (h.room hroom)
  head hd := (h'.head (by rw [h.offset]; omega)).trans (h.head hd)
  payload hlen := by
    rw [h'.payload (h.length.trans hlen), h.payload hlen, recordsBytes_append, List.append_assoc]

/-- One update, if it is due. -/
def due (c : Bool) (id : Nat) (u : Update) : List (Nat × Update) := if c then [(id, u)] else []

/-- The records are added if they fit. -/
def PutsRecords (us : List (Nat × Update)) (d : Draft) (result : Option Draft) : Prop :=
  (playerBufsize < d.offset + (recordsBytes us).length ∧ result = none) ∨
    ∃ d', result = some d' ∧ Augments us d d'

theorem PutsRecords.nothing (d : Draft) : PutsRecords [] d (some d) := .inr ⟨d, rfl, .refl d⟩

theorem Augments.puts {us us' : List (Nat × Update)} {result : Option Draft} (h : Augments us d d')
    (h' : PutsRecords us' d' result) : PutsRecords (us ++ us') d result := by
  rcases h' with ⟨hfull, rfl⟩ | ⟨d'', rfl, h'⟩
  · refine .inl ⟨?_, rfl⟩
    rw [h.offset] at hfull
    rw [recordsBytes_append, List.length_append]
    omega
  · exact .inr ⟨d'', rfl, h.trans h'⟩

theorem PutsRecords.bind {us us' : List (Nat × Update)} {result : Option Draft}
    {next : Draft → Option Draft} (h : PutsRecords us d result)
    (hnext : ∀ d', PutsRecords us' d' (next d')) :
    PutsRecords (us ++ us') d (result.bind next) := by
  rcases h with ⟨hfull, rfl⟩ | ⟨d', rfl, h⟩
  · refine .inl ⟨?_, rfl⟩
    rw [recordsBytes_append, List.length_append]
    omega
  · exact h.puts (hnext d')

theorem putIf_puts {u : Update} {put : Draft → Option Draft}
    (hput : ∀ d, PutsBytes (updateBytes id u) d (put d)) (c : Bool) (d : Draft) :
    PutsRecords (due c id u) d (d.putIf c put) := by
  have hbytes : recordsBytes (due true id u) = updateBytes id u := List.append_nil _
  cases c with
  | false => exact .nothing d
  | true =>
      show PutsRecords _ d ((put d).map Draft.counted)
      rcases hput d with ⟨hfull, heq⟩ | ⟨d', heq, hgrows⟩
      · exact .inl ⟨hbytes.symm ▸ hfull, by rw [heq]; rfl⟩
      · refine .inr ⟨d'.counted, by rw [heq]; rfl, hgrows.length, hbytes.symm ▸ hgrows.offset, ?_,
          fun _ => hgrows.room, hgrows.opcode, hbytes.symm ▸ hgrows.payload⟩
        show d'.updateCount + 1 = _
        rw [hgrows.count]
        rfl

/-- What a client is to be told of its own player. -/
def ownDue (v : Viewer) (b : Body) : List (Nat × Update) :=
  due (b.bubbleId != 65535) v.id
    (.bubble (encodeBubbleId v.out.protocolRev b.bubbleId).toNat) ++
  (due b.appearanceChanged v.id (.look b.look) ++
  (due (b.damage != 255) v.id (.damage b.damage b.hits b.maxHits) ++
  (due (b.projectileTargetPlayer != 65535) v.id
    (.shoot true b.projectileSprite.toNat b.projectileTargetPlayer.toNat) ++
  (due (b.projectileTargetNpc != 65535) v.id
    (.shoot false b.projectileSprite.toNat b.projectileTargetNpc.toNat) ++
  due (b.chatType = .questChat) v.id
    (.chat true (textFor v.out.protocolRev b.chat b.chatCompressed))))))

/-- And of a player it knows. -/
def knownDue (v : Viewer) (blocked seen : Bool) (id : Nat) (b : Body) : List (Nat × Update) :=
  due (b.bubbleId != 65535) id
    (.bubble (encodeBubbleId v.out.protocolRev b.bubbleId).toNat) ++
  (due (!b.chat.text.isEmpty && !blocked) id
    (.chat (b.chatType != .publicChat) (textFor v.out.protocolRev b.chat b.chatCompressed)) ++
  (due (b.damage != 255) id (.damage b.damage b.hits b.maxHits) ++
  (due (b.projectileTargetPlayer != 65535) id
    (.shoot true b.projectileSprite.toNat b.projectileTargetPlayer.toNat) ++
  (due (b.projectileTargetNpc != 65535) id
    (.shoot false b.projectileSprite.toNat b.projectileTargetNpc.toNat) ++
  due (b.appearanceChanged || !seen) id (.look b.look)))))

/-- And of all of them, from entry `k` of its list on. -/
def knownListDue (v : Viewer) (w : World) (bodies : Nat → Body) (blocked : Int → Bool)
    (seen : List Bool) : List (Option Nat) → Nat → List (Nat × Update)
  | [], _ => []
  | none :: rest, k => knownListDue v w bodies blocked seen rest (k + 1)
  | some id :: rest, k =>
    (if presentPlayer w id then
      knownDue v (blocked (bodies id).name) (seen.getD k false) id (bodies id)
    else []) ++ knownListDue v w bodies blocked seen rest (k + 1)

/-- A text said in public, or in a quest. -/
theorem putSpoken_puts (v : Viewer) (quest : Bool) (id : Nat) (b : Body) (d : Draft) :
    PutsBytes (updateBytes id (.chat quest (textFor v.out.protocolRev b.chat b.chatCompressed))) d
      ((d.putu16 id).bind fun d => (d.putu8 (updateKind (.chat quest []))).bind fun d =>
        d.putChat v.out.protocolRev b.chat b.chatCompressed) :=
  (putu16_puts d id).bind fun d => (putu8_puts d (updateKind (.chat quest []))).bind fun d =>
    putChat_puts _ _ _ d

theorem putOwnUpdates_puts (v : Viewer) (b : Body) (d : Draft) :
    PutsRecords (ownDue v b) d (putOwnUpdates v b d) :=
  (putIf_puts (putBubble_puts _ v.id _) _ d).bind fun d =>
    (putIf_puts (putAppearance_puts v.id b) _ d).bind fun d =>
    (putIf_puts (putDamage_puts v.id _ _ _) _ d).bind fun d =>
    (putIf_puts (putProjectile_puts true v.id _ _) _ d).bind fun d =>
    (putIf_puts (putProjectile_puts false v.id _ _) _ d).bind fun d =>
    putIf_puts (putSpoken_puts v true v.id b) _ d

theorem putKnownUpdates_puts (v : Viewer) (blocked seen : Bool) (id : Nat) (b : Body)
    (d : Draft) : PutsRecords (knownDue v blocked seen id b) d
      (putKnownUpdates v blocked seen id b d) := by
  have hkind : (if b.chatType = .publicChat then playerUpdateChatPublic
      else playerUpdateChatQuest) = updateKind (.chat (b.chatType != .publicChat) []) := by
    cases b.chatType <;> rfl
  unfold putKnownUpdates
  rw [hkind]
  exact (putIf_puts (putBubble_puts _ id _) _ d).bind fun d =>
    (putIf_puts (putSpoken_puts v _ id b) _ d).bind fun d =>
    (putIf_puts (putDamage_puts id _ _ _) _ d).bind fun d =>
    (putIf_puts (putProjectile_puts true id _ _) _ d).bind fun d =>
    (putIf_puts (putProjectile_puts false id _ _) _ d).bind fun d =>
    putIf_puts (putAppearance_puts id b) _ d

/-- The loop writes over the flags it has passed only. -/
theorem sendKnownUpdates_puts {v : Viewer} {w : World} {bodies : Nat → Body}
    {blocked : Int → Bool} {seen₀ : List Bool} (known : List (Option Nat)) :
    ∀ {k : Nat} {seen : List Bool} {d : Draft},
      (∀ j, k ≤ j → seen.getD j false = seen₀.getD j false) →
      PutsRecords (knownListDue v w bodies blocked seen₀ known k) d
        (sendKnownUpdates v w bodies blocked known k seen d).2 := by
  induction known with
  | nil => exact fun _ => .nothing _
  | cons entry rest ih =>
      intro k seen d hseen
      have hlater : ∀ j, k + 1 ≤ j → seen.getD j false = seen₀.getD j false :=
        fun j hj => hseen j (Nat.le_of_succ_le hj)
      cases entry with
      | none => exact ih hlater
      | some id =>
          unfold sendKnownUpdates knownListDue
          by_cases hpresent : presentPlayer w id = true
          · have hset : ∀ j, k + 1 ≤ j → (seen.set k true).getD j false = seen₀.getD j false := by
              intro j hj
              rw [← hlater j hj, List.getD_eq_getElem?_getD, List.getD_eq_getElem?_getD,
                List.getElem?_set_ne (by omega)]
            rw [if_pos hpresent, if_pos hpresent, ← hseen k (Nat.le_refl k)]
            rcases putKnownUpdates_puts v (blocked (bodies id).name) (seen.getD k false) id
              (bodies id) d with ⟨hfull, heq⟩ | ⟨d', heq, haugments⟩
            · rw [heq]
              refine .inl ⟨?_, rfl⟩
              rw [recordsBytes_append, List.length_append]
              omega
            · rw [heq]
              exact haugments.puts (ih hset)
          · rw [if_neg hpresent, if_neg hpresent]
            exact ih hlater

/-- What an NPC says and suffers. -/
def npcDue (v : Viewer) (id : Nat) (b : NpcBody) : List (Nat × Update) :=
  due (!b.chat.text.isEmpty) id
    (.npcChat b.talkTarget.toNat (textFor v.out.protocolRev b.chat b.chatCompressed)) ++
  due (b.damage != 255) id (.damage b.damage b.hits b.maxHits)

def npcListDue (v : Viewer) (w : World) (bodies : Nat → NpcBody) :
    List (Option Nat) → List (Nat × Update)
  | [] => []
  | none :: rest => npcListDue v w bodies rest
  | some id :: rest =>
    (if (w.npcs id).isSome then npcDue v id (bodies id) else []) ++ npcListDue v w bodies rest

theorem putNpcUpdates_puts (v : Viewer) (id : Nat) (b : NpcBody) (d : Draft) :
    PutsRecords (npcDue v id b) d (putNpcUpdates v id b d) := by
  have hchat : ∀ d, PutsBytes (updateBytes id (.npcChat b.talkTarget.toNat
      (textFor v.out.protocolRev b.chat b.chatCompressed))) d
      ((d.putu16 id).bind fun d => (d.putu8 playerUpdateChatPublic).bind fun d =>
        (d.putu16 b.talkTarget.toNat).bind fun d =>
        d.putChat v.out.protocolRev b.chat b.chatCompressed) := fun d =>
    (putu16_puts d id).bind fun d => (putu8_puts d playerUpdateChatPublic).bind fun d =>
      (putu16_puts d b.talkTarget.toNat).bind fun d => putChat_puts _ _ _ d
  exact (putIf_puts hchat _ d).bind fun d => putIf_puts (putDamage_puts id _ _ _) _ d

theorem sendNpcUpdates_puts {v : Viewer} {w : World} {bodies : Nat → NpcBody}
    (known : List (Option Nat)) : ∀ {d : Draft},
      PutsRecords (npcListDue v w bodies known) d (sendNpcUpdates v w bodies known d) := by
  induction known with
  | nil => exact .nothing _
  | cons entry rest ih =>
      intro d
      cases entry with
      | none => exact ih
      | some id =>
          unfold sendNpcUpdates npcListDue
          split
          · rcases putNpcUpdates_puts v id (bodies id) d with ⟨hfull, heq⟩ | ⟨d', heq, haugments⟩
            · rw [heq]
              refine .inl ⟨?_, rfl⟩
              rw [recordsBytes_append, List.length_append]
              omega
            · rw [heq]
              exact haugments.puts ih
          · exact ih

/-! ## Packets -/

/-- The updates are few, and each can be read. -/
structure Readable (npc : Bool) (most : Nat) (us : List (Nat × Update)) : Prop where
  few : us.length ≤ most
  fits : ∀ u ∈ us, u.1 < 65536 ∧ UpdateFits npc u.2

theorem Readable.nothing (npc : Bool) : Readable npc 0 [] :=
  ⟨Nat.le_refl 0, fun _ h => absurd h List.not_mem_nil⟩

theorem Readable.append {npc : Bool} {n m : Nat} {us us' : List (Nat × Update)}
    (h : Readable npc n us) (h' : Readable npc m us') : Readable npc (n + m) (us ++ us') where
  few := by
    rw [List.length_append]
    exact Nat.add_le_add h.few h'.few
  fits u hu := (List.mem_append.1 hu).elim (h.fits u) (h'.fits u)

theorem Readable.mono {npc : Bool} {n m : Nat} {us : List (Nat × Update)}
    (h : Readable npc n us) (hle : n ≤ m) : Readable npc m us := ⟨h.few.trans hle, h.fits⟩

theorem due_readable {npc : Bool} {u : Update} (hid : id < 65536) (hu : UpdateFits npc u)
    (c : Bool) : Readable npc 1 (due c id u) := by
  cases c with
  | false => exact (Readable.nothing npc).mono (Nat.zero_le 1)
  | true =>
      refine ⟨Nat.le_refl 1, fun x hx => ?_⟩
      obtain rfl := List.mem_singleton.1 hx
      exact ⟨hid, hu⟩

theorem nameBits_lt (name : Int) : nameBits name < 2 ^ 64 := by
  unfold nameBits
  omega

theorem bubble_fits (npc : Bool) (item : UInt16) : UpdateFits npc (.bubble item.toNat) :=
  UInt16.toNat_lt item

theorem look_fits (npc : Bool) (b : Body) : UpdateFits npc (.look b.look) := nameBits_lt b.name

theorem damage_fits (npc : Bool) (damage hits maxHits : UInt8) :
    UpdateFits npc (.damage damage hits maxHits) := trivial

theorem shoot_fits (npc player : Bool) (sprite target : UInt16) :
    UpdateFits npc (.shoot player sprite.toNat target.toNat) :=
  ⟨UInt16.toNat_lt sprite, UInt16.toNat_lt target⟩

theorem chat_fits (quest : Bool) (protocolRev : Nat) (chat chatCompressed : Speech) :
    UpdateFits false (.chat quest (textFor protocolRev chat chatCompressed)) :=
  ⟨textFor_short .., rfl⟩

theorem npcChat_fits (target : UInt16) (protocolRev : Nat) (chat chatCompressed : Speech) :
    UpdateFits true (.npcChat target.toNat (textFor protocolRev chat chatCompressed)) :=
  ⟨UInt16.toNat_lt target, textFor_short .., rfl⟩

theorem ownDue_readable {v : Viewer} (hid : v.id < 65536) (b : Body) :
    Readable false 6 (ownDue v b) :=
  (due_readable hid (bubble_fits _ _) _).append <|
    (due_readable hid (look_fits _ b) _).append <|
    (due_readable hid (damage_fits _ _ _ _) _).append <|
    (due_readable hid (shoot_fits _ _ _ _) _).append <|
    (due_readable hid (shoot_fits _ _ _ _) _).append <|
    due_readable hid (chat_fits _ _ _ _) _

theorem knownDue_readable (v : Viewer) (blocked seen : Bool) (hid : id < 65536) (b : Body) :
    Readable false 6 (knownDue v blocked seen id b) :=
  (due_readable hid (bubble_fits _ _) _).append <|
    (due_readable hid (chat_fits _ _ _ _) _).append <|
    (due_readable hid (damage_fits _ _ _ _) _).append <|
    (due_readable hid (shoot_fits _ _ _ _) _).append <|
    (due_readable hid (shoot_fits _ _ _ _) _).append <|
    due_readable hid (look_fits _ b) _

theorem knownListDue_readable {v : Viewer} {w : World} {bodies : Nat → Body}
    {blocked : Int → Bool} {seen : List Bool} {known : List (Option Nat)}
    (h : ∀ id, some id ∈ known → id < 65536) (k : Nat) :
    Readable false (6 * known.length) (knownListDue v w bodies blocked seen known k) := by
  induction known generalizing k with
  | nil => exact .nothing false
  | cons entry rest ih =>
      have hrest := ih (fun id hid => h id (List.mem_cons_of_mem entry hid)) (k + 1)
      rw [List.length_cons, Nat.mul_succ, Nat.add_comm]
      cases entry with
      | none => exact hrest.mono (Nat.le_add_left ..)
      | some id =>
          unfold knownListDue
          split
          · exact (knownDue_readable v _ _ (h id List.mem_cons_self) _).append hrest
          · exact hrest.mono (Nat.le_add_left ..)

theorem npcListDue_readable {v : Viewer} {w : World} {bodies : Nat → NpcBody}
    {known : List (Option Nat)} (h : ∀ id, some id ∈ known → id < 65536) :
    Readable true (6 * known.length) (npcListDue v w bodies known) := by
  induction known with
  | nil => exact .nothing true
  | cons entry rest ih =>
      have hrest := ih fun id hid => h id (List.mem_cons_of_mem entry hid)
      rw [List.length_cons, Nat.mul_succ, Nat.add_comm]
      cases entry with
      | none => exact hrest.mono (Nat.le_add_left ..)
      | some id =>
          have hid := h id List.mem_cons_self
          unfold npcListDue
          split
          · have hnpc : Readable true 2 (npcDue v id (bodies id)) :=
              (due_readable hid (npcChat_fits _ _ _ _) _).append
                (due_readable hid (damage_fits _ _ _ _) _)
            exact (hnpc.mono (by decide)).append hrest
          · exact hrest.mono (Nat.le_add_left ..)

/-- Nothing is due and nothing is written; or the client reads just the updates that
were due; or their frame does not fit. -/
def Delivers (npc : Bool) (v : Viewer) (us : List (Nat × Update)) (sent : Ref.Sent) : Prop :=
  (us = [] ∧ sent = .nothing) ∨
  (us ≠ [] ∧ FrameFits v (3 + (recordsBytes us).length) ∧
    ∃ payload, sent = .packet payload ∧ readAppearance npc payload = some us) ∨
  (us ≠ [] ∧ ¬ FrameFits v (3 + (recordsBytes us).length) ∧ sent = .failed)

/-- A packet that begins with an opcode and a place for the count. -/
def begun (tmpbuf : List UInt8) (opcode : UInt8) : Draft :=
  { Draft.opened tmpbuf opcode with offset := 3 }

variable {us : List (Nat × Update)} {tmpbuf : List UInt8} {opcode : UInt8}

/-- With the count in its place, the packet is the one that is read. -/
theorem counts_payload (htmp : tmpbuf.length = playerBufsize)
    (h : Augments us (begun tmpbuf opcode) d) :
    d.counts.payload = opcode :: shortBytes us.length ++ recordsBytes us ∧
      d.counts.tmpbuf.length = playerBufsize ∧ d.counts.tmpbuf.head? = some opcode := by
  have hlen : (begun tmpbuf opcode).tmpbuf.length = playerBufsize := by
    rw [← htmp]
    exact List.length_set
  have hcount : d.updateCount = us.length := h.count.trans (Nat.zero_add _)
  have hput : d.counts.tmpbuf =
      (d.tmpbuf.set 1 (UInt8.ofNat (us.length / 256))).set 2 (UInt8.ofNat us.length) := by
    unfold Draft.counts bufPutu16
    rw [if_neg (by decide), hcount]
    rfl
  obtain ⟨x, y, z, rest, rfl⟩ : ∃ x y z rest, tmpbuf = x :: y :: z :: rest := by
    match tmpbuf, htmp with
    | x :: y :: z :: rest, _ => exact ⟨x, y, z, rest, rfl⟩
  have hpayload : d.tmpbuf.take d.offset = opcode :: y :: z :: recordsBytes us := h.payload hlen
  have hhead : d.tmpbuf.head? = some opcode := h.head (Nat.zero_lt_succ 2)
  refine ⟨?_, ?_, ?_⟩
  · show d.counts.tmpbuf.take d.offset = _
    rw [hput, List.take_set, List.take_set, hpayload]
    rfl
  · rw [hput, List.length_set, List.length_set, h.length, hlen]
  · rw [hput, head?_set (by decide), head?_set (by decide), hhead]

theorem writeUpdates_delivers {npc : Bool} {v : Viewer} (isaacOut : Nat → UInt32)
    (htmp : tmpbuf.length = playerBufsize) (hop : opcodesOut203 opcode ≠ 0)
    (hread : Readable npc 2000 us) (h : Augments us (begun tmpbuf opcode) d) :
    Delivers npc v us (v.writeUpdates isaacOut d.counts).2 := by
  obtain ⟨hpayload, hlen, hhead⟩ := counts_payload htmp h
  have hcount : d.counts.updateCount = us.length := h.count.trans (Nat.zero_add _)
  have hoffset : d.counts.offset = 3 + (recordsBytes us).length := h.offset
  have hroom : d.counts.offset ≤ playerBufsize := h.room (show 3 ≤ 5000 by decide)
  by_cases hus : us = []
  · refine .inl ⟨hus, ?_⟩
    unfold Viewer.writeUpdates
    rw [if_pos (by rw [hcount, hus]; rfl)]
  · have hsome : d.counts.updateCount ≠ 0 := by
      rw [hcount]
      exact fun h0 => hus (List.eq_nil_of_length_eq_zero h0)
    have hfailed : (v.writeUpdates isaacOut d.counts).2 = .failed ↔
        ¬ FrameFits v (3 + (recordsBytes us).length) := by
      unfold Viewer.writeUpdates
      rw [if_neg hsome, write_failed_iff isaacOut v (by omega) (by omega) hhead hop, hoffset]
    by_cases hfits : FrameFits v (3 + (recordsBytes us).length)
    · obtain ⟨out, hsent⟩ := writeUpdates_sent isaacOut v hsome
        fun hfail => absurd hfits (hfailed.1 hfail)
      have hcount' : us.length < 65536 := Nat.lt_of_le_of_lt hread.few (by decide)
      refine .inr (.inl ⟨hus, hfits, d.counts.payload, by rw [hsent], ?_⟩)
      rw [hpayload, readAppearance_records hcount' hread.fits]
    · exact .inr (.inr ⟨hus, hfits, hfailed.2 hfits⟩)

/-- Records that do not fit do not fit with their frame. -/
theorem failed_delivers {npc : Bool} {v : Viewer}
    (h : playerBufsize < 3 + (recordsBytes us).length) : Delivers npc v us .failed := by
  refine .inr (.inr ⟨fun hus => ?_, fun hfits => ?_, rfl⟩)
  · rw [hus] at h
    exact absurd h (by decide)
  · exact absurd hfits.le (Nat.not_le.2 h)

/-- All that is due of players. -/
def updatesDue (v : Viewer) (w : World) (bodies : Nat → Body) (self : Player)
    (blockPublic : Bool) (seen : List Bool) : List (Nat × Update) :=
  ownDue v (bodies v.id) ++
    knownListDue v w bodies (fun name => playerIsBlocked self name blockPublic) seen
      v.knownPlayers 0

/-- A list within its array, of ids that have two bytes. -/
structure IdsFit (known : List (Option Nat)) : Prop where
  size : known.length ≤ World.maxKnown
  ids : ∀ i, some i ∈ known → i < 65536

/-- The packet as it is built, and how it ends. -/
theorem playerSendAppearanceUpdate_sent (isaacOut : Nat → UInt32) (w : World)
    (bodies : Nat → Body) (self : Player) (blockPublic : Bool) (v : Viewer) (seen : List Bool) :
    (playerSendAppearanceUpdate isaacOut w bodies self blockPublic tmpbuf v seen).2.2 =
      ((putOwnUpdates v (bodies v.id) (begun tmpbuf opSrvPlayerAppearance)).bind fun d =>
        (sendKnownUpdates v w bodies (fun name => playerIsBlocked self name blockPublic)
          v.knownPlayers 0 seen d).2).elim .failed
        fun d => (v.writeUpdates isaacOut d.counts).2 := by
  unfold playerSendAppearanceUpdate begun
  dsimp only
  cases putOwnUpdates v (bodies v.id) _ with
  | none => rfl
  | some d =>
      dsimp only [Option.bind_some]
      generalize sendKnownUpdates v w bodies _ v.knownPlayers 0 seen d = result
      obtain ⟨seen', d'⟩ := result
      cases d' <;> rfl

theorem records_delivers {npc : Bool} {v : Viewer} {result : Option Draft}
    (isaacOut : Nat → UInt32) (htmp : tmpbuf.length = playerBufsize)
    (hop : opcodesOut203 opcode ≠ 0) (hread : Readable npc 2000 us)
    (h : PutsRecords us (begun tmpbuf opcode) result) :
    Delivers npc v us (result.elim .failed fun d => (v.writeUpdates isaacOut d.counts).2) := by
  rcases h with ⟨hfull, rfl⟩ | ⟨d, rfl, haugments⟩
  · exact failed_delivers hfull
  · exact writeUpdates_delivers isaacOut htmp hop hread haugments

theorem appearance_delivers (isaacOut : Nat → UInt32) (w : World) (bodies : Nat → Body)
    (self : Player) (blockPublic : Bool) (htmp : tmpbuf.length = playerBufsize) {v : Viewer}
    (hid : v.id < 65536) (hplayers : IdsFit v.knownPlayers) (seen : List Bool) :
    Delivers false v (updatesDue v w bodies self blockPublic seen)
      (playerSendAppearanceUpdate isaacOut w bodies self blockPublic tmpbuf v seen).2.2 := by
  have hmax : World.maxKnown = 255 := rfl
  have hsize := hplayers.size
  have hread : Readable false 2000 (updatesDue v w bodies self blockPublic seen) :=
    ((ownDue_readable hid _).append (knownListDue_readable hplayers.ids 0)).mono (by omega)
  rw [playerSendAppearanceUpdate_sent]
  exact records_delivers isaacOut htmp (by decide) hread
    ((putOwnUpdates_puts v _ _).bind fun d => sendKnownUpdates_puts _ fun _ _ => rfl)

theorem npcAppearance_delivers (isaacOut : Nat → UInt32) (w : World) (bodies : Nat → NpcBody)
    (htmp : tmpbuf.length = playerBufsize) {v : Viewer} (hnpcs : IdsFit v.knownNpcs) :
    Delivers true v (npcListDue v w bodies v.knownNpcs)
      (playerSendNpcAppearanceUpdate isaacOut w bodies tmpbuf v).2 := by
  have hmax : World.maxKnown = 255 := rfl
  have hsize := hnpcs.size
  have hread : Readable true 2000 (npcListDue v w bodies v.knownNpcs) :=
    (npcListDue_readable hnpcs.ids).mono (by omega)
  have hsent : (playerSendNpcAppearanceUpdate isaacOut w bodies tmpbuf v).2 =
      (sendNpcUpdates v w bodies v.knownNpcs (begun tmpbuf opSrvNpcAppearance)).elim .failed
        fun d => (v.writeUpdates isaacOut d.counts).2 := by
    unfold playerSendNpcAppearanceUpdate begun
    dsimp only
    cases sendNpcUpdates v w bodies v.knownNpcs _ <;> rfl
  rw [hsent]
  exact records_delivers isaacOut htmp (by decide) hread (sendNpcUpdates_puts _)

/-- Both packets: unless nothing is due, or its frame finds no room in the output
buffer, the client reads of it just what was due of the player and of everyone it
knows, each with its own id, in their order. -/
theorem updates_read_back (isaacOut : Nat → UInt32) (w : World) (bodies : Nat → Body)
    (npcBodies : Nat → NpcBody) (self : Player) (blockPublic : Bool)
    (tmpbuf tmpbuf' : Vector UInt8 playerBufsize) {v : Viewer} (hid : v.id < 65536)
    (hplayers : IdsFit v.knownPlayers) (hnpcs : IdsFit v.knownNpcs) (seen : List Bool) :
    Delivers false v (updatesDue v w bodies self blockPublic seen)
        (playerSendAppearanceUpdate isaacOut w bodies self blockPublic tmpbuf.toList v seen).2.2 ∧
      Delivers true v (npcListDue v w npcBodies v.knownNpcs)
        (playerSendNpcAppearanceUpdate isaacOut w npcBodies tmpbuf'.toList v).2 :=
  ⟨appearance_delivers isaacOut w bodies self blockPublic tmpbuf.length_toList hid hplayers seen,
    npcAppearance_delivers isaacOut w npcBodies tmpbuf'.length_toList hnpcs⟩

/-- A player that says something in a quest. -/
def questBody : Body where
  figure := {
    sprites := fun _ => 0
    hairColour := 2
    topColour := 8
    legColour := 14
    skinColour := 0
    combatLevel := 3
    skulled := false }
  chatType := .questChat
  chat := ⟨[1, 2], by decide⟩

def questViewer : Viewer := { id := 7, x := 0, y := 0, out := { outbuf := [] } }

/-- A client that knows no one is told what its own player says. -/
theorem updates_read_back_quest : ∃ payload,
    (playerSendAppearanceUpdate (fun _ => 0) {} (fun _ => questBody) {} false
      (Vector.replicate playerBufsize 0).toList questViewer []).2.2 = .packet payload ∧
    readAppearance false payload = some [(7, .chat true [1, 2])] := by
  have hnobody : IdsFit [] := ⟨by decide, fun _ h => absurd h List.not_mem_nil⟩
  have hfits : FrameFits questViewer
      (3 + (recordsBytes (updatesDue questViewer {} (fun _ => questBody) {} false [])).length) := by
    unfold FrameFits
    decide +kernel
  obtain ⟨h, -⟩ := updates_read_back (fun _ => 0) {} (fun _ => questBody)
    (fun _ => { hits := 3, maxHits := 3 }) {} false (Vector.replicate playerBufsize 0)
    (Vector.replicate playerBufsize 0) (v := questViewer) (by decide) hnobody hnobody []
  rcases h with ⟨hnone, -⟩ | ⟨-, -, payload, hsent, hread⟩ | ⟨-, hfull, -⟩
  · exact absurd hnone (by decide)
  · exact ⟨payload, hsent, hread⟩
  · exact absurd hfits hfull

end Sundae.Proofs
