import Mathlib.Data.List.GetD
import Sundae.Ref.Chat

/-!
# The old chat encoding

A message is a row of references: a colour, a letter, a word of the dictionary
by one byte or by two. Each is decoded or ends the loop, in the room there is
for it. What is not there is the second byte of a reference that the message
ends in, and the loop reads it unless the output is full before.
-/

namespace Sundae.Proofs

open Sundae.Ref Sundae.Lib

/-! ## References -/

inductive Token where
  | colour (colour : Nat)
  | letter (b : Nat)
  /-- A word and a blank, by two bytes. -/
  | phrase (b low : Nat)
  /-- A word without a blank. -/
  | stem (b low : Nat)
  /-- A word and a blank, by one byte. -/
  | word (b : Nat)
  deriving DecidableEq, Repr

namespace Token

def bytes : Token → List Nat
  | colour c => [0xff, c]
  | letter b => [b]
  | phrase b low => [b, low]
  | stem b low => [b, low]
  | word b => [b]

def Valid : Token → Prop
  | colour _ => True
  | letter b => b < 50
  | phrase b _ => 50 ≤ b ∧ b < 70
  | stem b _ => 70 ≤ b ∧ b < 90
  | word b => 90 ≤ b ∧ b ≠ 0xff

/-- The index into the dictionary of a reference of two bytes. -/
def entry (high low : Nat) : Nat := (high <<< 8) ||| low

variable (dict : List (List Nat))

/-- An entry of the dictionary, with or without a blank, or nothing. -/
def wordText (i : Nat) (space : Bool) : List Nat :=
  match dict[i]? with
  | some w => if space then w ++ [' '.toNat] else w
  | none => []

/-- The room that is asked for, which may be more than is taken. -/
def wordRoom (i : Nat) (space : Bool) : Nat :=
  match dict[i]? with
  | some w => if space then w.length + 1 else max 1 w.length
  | none => 1

/-- What a reference stands for. The words of one byte are looked for at the
byte and found 90 entries before. -/
def text : Token → List Nat
  | colour c => colourCode c
  | letter b => [tolower (legacyChartab.getD b 0)]
  | phrase b low => wordText dict (entry (b - 50) low) true
  | stem b low => wordText dict (entry (b - 70) low) false
  | word b => if dict.length ≤ b then [] else wordText dict (b - 90) true

def room : Token → Nat
  | colour _ => 5
  | letter _ => 1
  | phrase b low => wordRoom dict (entry (b - 50) low) true
  | stem b low => wordRoom dict (entry (b - 70) low) false
  | word b => if dict.length ≤ b then 0 else wordRoom dict (b - 90) true

end Token

/-- From `off` on in an output of `outlen` bytes: whole references that have
room, and then the first byte of one that has two, with room left. -/
inductive Cut (dict : List (List Nat)) (outlen : Nat) : Nat → List Nat → Prop
  | last {off b : Nat} (hb : 50 ≤ b ∧ b < 90) (hroom : off + 1 < outlen) : Cut dict outlen off [b]
  | token {off : Nat} {t : Token} {rest : List Nat} (hvalid : t.Valid)
      (hroom : off + t.room dict < outlen) (hrest : Cut dict outlen (off + (t.text dict).length) rest) :
      Cut dict outlen off (t.bytes ++ rest)

/-- A message starts with a reference, or is the first byte of one. -/
theorem token_cases {mes : List Nat} (hne : mes ≠ []) :
    (∃ t rest, Token.Valid t ∧ mes = t.bytes ++ rest) ∨ mes = [0xff] ∨
      ∃ b, mes = [b] ∧ 50 ≤ b ∧ b < 90 := by
  cases mes with
  | nil => exact absurd rfl hne
  | cons b rest =>
      by_cases hcolour : b = 0xff
      · subst hcolour
        cases rest with
        | nil => exact .inr (.inl rfl)
        | cons c rest => exact .inl ⟨.colour c, rest, trivial, rfl⟩
      by_cases hletter : b < 50
      · exact .inl ⟨.letter b, rest, hletter, rfl⟩
      by_cases hlong : b < 90
      · cases rest with
        | nil => exact .inr (.inr ⟨b, rfl, by omega, hlong⟩)
        | cons low rest =>
            by_cases hphrase : b < 70
            · exact .inl ⟨.phrase b low, rest, ⟨by omega, hphrase⟩, rfl⟩
            · exact .inl ⟨.stem b low, rest, ⟨by omega, hlong⟩, rfl⟩
      · exact .inl ⟨.word b, rest, ⟨by omega, hcolour⟩, rfl⟩

/-! ## One turn of the loop -/

/-- The loop with the text `cs` behind it and room for the zero. -/
structure Decoding (outlen : Nat) (s : Legacy) (cs : List Nat) : Prop where
  text : cs <+: s.out
  length : s.off = cs.length
  size : s.out.length = outlen
  room : s.off < outlen

section

variable {dict : List (List Nat)} {mes pre rest cs : List Nat} {outlen : Nat} {s : Legacy}

/-- What a turn makes of a reference: its text, or the end of the loop where
there is no room. -/
def TurnsTo (outlen : Nat) (i : Nat) (cs text : List Nat) (room : Nat)
    (res : Except OutOfBounds Turn) : Prop :=
  if cs.length + room < outlen then
    ∃ s, res = .ok (.next s) ∧ s.i + 1 = i ∧ Decoding outlen s (cs ++ text)
  else ∃ s cs, res = .ok (.stop s) ∧ Decoding outlen s cs

theorem Decoding.stop (h : Decoding outlen s cs) {i room : Nat} {text : List Nat}
    (hroom : ¬ cs.length + room < outlen) : TurnsTo outlen i cs text room (.ok (.stop s)) := by
  rw [TurnsTo, if_neg hroom]
  exact ⟨s, cs, rfl, h⟩

theorem Decoding.skip (h : Decoding outlen s cs) {room : Nat}
    (hroom : cs.length + room < outlen) :
    TurnsTo outlen (s.i + 1) cs [] room (.ok (.next s)) := by
  rw [TurnsTo, if_pos hroom]
  exact ⟨s, rfl, rfl, by rwa [List.append_nil]⟩

/-- Text that fits is written behind the text there is. -/
theorem Decoding.copy (h : Decoding outlen s cs) {text : List Nat}
    (hroom : cs.length + text.length < outlen) :
    ∃ out, Lib.copy s.out s.off text = .ok out ∧
      ∀ i, Decoding outlen ⟨i, s.off + text.length, out⟩ (cs ++ text) := by
  have hsize := h.size
  have hlength := h.length
  have hfit : cs.length + text.length ≤ s.out.length := by omega
  obtain ⟨out, hcopy, hpre, hlen⟩ := copy_prefix h.text hfit
  rw [← hlength] at hcopy
  refine ⟨out, hcopy, ?_⟩
  intro i
  exact ⟨hpre, by simp [hlength], hlen.trans hsize, by simp only; omega⟩

theorem Decoding.store (h : Decoding outlen s cs) (hroom : cs.length + 1 < outlen) (ch : Nat) :
    ∃ out, Lib.store s.out s.off ch = .ok out ∧
      ∀ i, Decoding outlen ⟨i, s.off + 1, out⟩ (cs ++ [ch]) := by
  have hsize := h.size
  have hlength := h.length
  obtain ⟨out, hstore, hpre, hlen⟩ := store_prefix (x := ch) h.text (by omega)
  rw [← hlength] at hstore
  refine ⟨out, hstore, ?_⟩
  intro i
  exact ⟨hpre, by simp [hlength], hlen.trans hsize, by simp only; omega⟩

theorem Decoding.word (h : Decoding outlen s cs) {i : Nat} {w : List Nat}
    (hw : dict[i]? = some w) {space : Bool} (hroom : space = false → cs.length + 1 < outlen) :
    TurnsTo outlen (s.i + 1) cs (Token.wordText dict i space) (Token.wordRoom dict i space)
      (legacyWord dict i space s) := by
  have hsize := h.size
  have hlength := h.length
  unfold legacyWord Token.wordText Token.wordRoom
  rw [load_of_getElem? hw, ok_bind, hw]
  by_cases hfit : s.out.length - s.off ≤ w.length
  · rw [if_pos hfit]
    cases space with
    | true => exact h.stop (by simp only [if_true]; omega)
    | false => exact h.stop (by simp only [Bool.false_eq_true, if_false]; omega)
  obtain ⟨out, hcopy, hnext⟩ := h.copy (show cs.length + w.length < outlen by omega)
  have hword := hnext s.i
  simp only [if_neg hfit, hcopy, ok_bind]
  cases space with
  | false =>
      have hone := hroom rfl
      simp only [Bool.false_eq_true, if_false]
      rw [TurnsTo, if_pos (by omega)]
      exact ⟨_, rfl, rfl, hword⟩
  | true =>
      have hsize' : out.length = outlen := hword.size
      have hroom' : s.off + w.length < outlen := hword.room
      simp only [if_true]
      by_cases hfull : s.off + w.length = out.length - 1
      · rw [if_pos hfull, TurnsTo, if_neg (by omega)]
        exact ⟨_, _, rfl, hword⟩
      · obtain ⟨out', hstore, hnext'⟩ := hword.store (by rw [List.length_append]; omega) ' '.toNat
        rw [if_neg hfull, hstore, TurnsTo, if_pos (by omega), ← List.append_assoc]
        exact ⟨_, rfl, rfl, hnext' s.i⟩

theorem wordRoom_pos (i : Nat) (space : Bool) : 0 < Token.wordRoom dict i space := by
  unfold Token.wordRoom
  cases dict[i]? with
  | none => exact Nat.one_pos
  | some w =>
      cases space with
      | true => exact Nat.succ_pos _
      | false => exact Nat.lt_of_lt_of_le Nat.one_pos (Nat.le_max_left 1 w.length)

theorem Decoding.pointer (h : Decoding outlen s cs) {low : Nat} (hlow : mes[s.i + 1]? = some low)
    (high : Nat) (space : Bool) :
    TurnsTo outlen (s.i + 2) cs (Token.wordText dict (Token.entry high low) space)
      (Token.wordRoom dict (Token.entry high low) space)
      (legacyPointer dict mes high space s) := by
  have hsize := h.size
  have hlength := h.length
  have hoff := h.room
  have hpos : 0 < Token.wordRoom dict (Token.entry high low) space := wordRoom_pos _ space
  unfold legacyPointer
  by_cases hfull : s.off = s.out.length - 1
  · rw [if_pos hfull]
    exact h.stop (by omega)
  have hroom : cs.length + 1 < outlen := by omega
  rw [if_neg hfull, load_of_getElem? hlow, ok_bind]
  have hnext : Decoding outlen { s with i := s.i + 1 } cs := ⟨h.text, hlength, hsize, hoff⟩
  by_cases hmissing : dict.length ≤ Token.entry high low
  · have hnone : dict[Token.entry high low]? = none := List.getElem?_eq_none hmissing
    have htext : Token.wordText dict (Token.entry high low) space = [] := by
      simp [Token.wordText, hnone]
    have hneed : Token.wordRoom dict (Token.entry high low) space = 1 := by
      simp [Token.wordRoom, hnone]
    rw [htext, hneed]
    show TurnsTo _ _ _ _ _ (if dict.length ≤ Token.entry high low then _ else _)
    rw [if_pos hmissing]
    exact hnext.skip hroom
  · have hentry := List.getElem?_eq_getElem (show Token.entry high low < dict.length by omega)
    show TurnsTo _ _ _ _ _ (if dict.length ≤ Token.entry high low then _ else _)
    rw [if_neg hmissing]
    exact hnext.word hentry fun _ => hroom

theorem length_colourCode (c : Nat) : (colourCode c).length ≤ 5 := by
  unfold colourCode
  split <;> decide

/-- A whole reference. -/
theorem Decoding.turn (h : Decoding outlen s cs) {t : Token} (hvalid : t.Valid)
    (hmes : mes.drop s.i = t.bytes ++ rest) :
    TurnsTo outlen (s.i + t.bytes.length) cs (t.text dict) (t.room dict)
      (legacyTurn dict mes s) := by
  have hsize := h.size
  have hlength := h.length
  have hoff := h.room
  have hget : ∀ j, mes[s.i + j]? = (t.bytes ++ rest)[j]? := by
    intro j
    rw [← hmes, List.getElem?_drop]
  have hfirst := hget 0
  have hsecond := hget 1
  rw [Nat.add_zero] at hfirst
  unfold legacyTurn
  cases t with
  | colour c =>
      have hcode := length_colourCode c
      have hlong : s.i + 1 < mes.length := (List.getElem?_eq_some_iff.1 hsecond).1
      rw [load_of_getElem? hfirst, ok_bind, if_pos rfl]
      by_cases hend : s.out.length - s.off < 6
      · rw [if_pos (.inr hend)]
        exact h.stop (by simp only [Token.room]; omega)
      · obtain ⟨out, hcopy, hnext⟩ := h.copy (show cs.length + (colourCode c).length < outlen by omega)
        rw [if_neg (by omega), load_of_getElem? hsecond, ok_bind, hcopy, TurnsTo,
          if_pos (by simp only [Token.room]; omega)]
        exact ⟨_, rfl, rfl, hnext (s.i + 1)⟩
  | letter b =>
      have hb : b < 50 := hvalid
      rw [load_of_getElem? hfirst, ok_bind, if_neg (by omega), if_pos hb]
      by_cases hfull : s.off = s.out.length - 1
      · rw [if_pos hfull]
        exact h.stop (by simp only [Token.room]; omega)
      · have hroom : cs.length + 1 < outlen := by omega
        have hsize' : legacyChartab.length = 51 := by decide
        have htab : b < legacyChartab.length := by omega
        obtain ⟨out, hstore, hnext⟩ := h.store hroom (tolower (legacyChartab.getD b 0))
        rw [List.getD_eq_getElem _ _ htab] at hstore
        rw [if_neg hfull, load_lt htab, ok_bind, hstore, TurnsTo,
          if_pos (show cs.length + Token.room dict (.letter b) < outlen from hroom)]
        exact ⟨_, rfl, rfl, hnext s.i⟩
  | phrase b low =>
      obtain ⟨hlow, hhigh⟩ : 50 ≤ b ∧ b < 70 := hvalid
      rw [load_of_getElem? hfirst, ok_bind, if_neg (by omega), if_neg (by omega), if_pos hhigh]
      exact h.pointer hsecond (b - 50) true
  | stem b low =>
      obtain ⟨hlow, hhigh⟩ : 70 ≤ b ∧ b < 90 := hvalid
      rw [load_of_getElem? hfirst, ok_bind, if_neg (by omega), if_neg (by omega),
        if_neg (by omega), if_pos hhigh]
      exact h.pointer hsecond (b - 70) false
  | word b =>
      obtain ⟨hlow, hheader⟩ : 90 ≤ b ∧ b ≠ 0xff := hvalid
      rw [load_of_getElem? hfirst, ok_bind, if_neg hheader, if_neg (by omega), if_neg (by omega),
        if_neg (by omega)]
      by_cases hmissing : dict.length ≤ b
      · rw [if_pos hmissing, Token.text, if_pos hmissing, Token.room, if_pos hmissing]
        exact h.skip (by omega)
      · have hentry := List.getElem?_eq_getElem (show b - 90 < dict.length by omega)
        rw [if_neg hmissing, Token.text, if_neg hmissing, Token.room, if_neg hmissing]
        exact h.word hentry (by simp)

/-- A colour that is not there ends the loop. -/
theorem legacyTurn_header_end (hmes : mes.drop s.i = [0xff]) :
    legacyTurn dict mes s = .ok (.stop s) := by
  have hfirst : mes[s.i]? = some 0xff := by
    rw [← Nat.add_zero s.i, ← List.getElem?_drop, hmes]
    rfl
  have hend := congrArg List.length hmes
  rw [List.length_drop, List.length_singleton] at hend
  unfold legacyTurn
  rw [load_of_getElem? hfirst, ok_bind, if_pos rfl, if_pos (.inl (by omega))]
  rfl

/-- A second byte that is not there is read, unless the output is full. -/
theorem Decoding.pointer_end (h : Decoding outlen s cs) {b : Nat} (hmes : mes.drop s.i = [b])
    (hb : 50 ≤ b ∧ b < 90) :
    legacyTurn dict mes s =
      if s.off + 1 < outlen then .error (.read mes.length) else .ok (.stop s) := by
  have hsize := h.size
  have hoff := h.room
  have hfirst : mes[s.i]? = some b := by
    rw [← Nat.add_zero s.i, ← List.getElem?_drop, hmes]
    rfl
  have hend := congrArg List.length hmes
  rw [List.length_drop, List.length_singleton] at hend
  have hpointer : ∀ high space, legacyPointer dict mes high space s =
      if s.off + 1 < outlen then .error (.read mes.length) else .ok (.stop s) := by
    intro high space
    unfold legacyPointer
    by_cases hfull : s.off = s.out.length - 1
    · rw [if_pos hfull, if_neg (by omega)]
      rfl
    · have hlast : s.i + 1 = mes.length := by omega
      rw [if_neg hfull, if_pos (by omega), hlast, load_ge (Nat.le_refl _)]
      rfl
  unfold legacyTurn
  rw [load_of_getElem? hfirst, ok_bind, if_neg (by omega), if_neg (by omega)]
  by_cases hphrase : b < 70
  · rw [if_pos hphrase]
    exact hpointer _ _
  · rw [if_neg hphrase, if_pos hb.2]
    exact hpointer _ _

end

/-! ## The whole message -/

section

variable (dict : List (List Nat)) (mes : List Nat) {outlen : Nat}

/-- The loop ends with room for the zero, or where the message is cut off. -/
theorem Decoding.loop (n : Nat) {s : Legacy} {cs : List Nat} (h : Decoding outlen s cs)
    (hn : mes.length ≤ s.i + n) :
    (∃ s' cs', legacyLoop dict mes n s = .ok s' ∧ Decoding outlen s' cs') ∨
      (legacyLoop dict mes n s = .error (.read mes.length) ∧
        Cut dict outlen s.off (mes.drop s.i)) := by
  induction n generalizing s cs with
  | zero => exact .inl ⟨s, cs, rfl, h⟩
  | succ n ih =>
      rw [legacyLoop]
      by_cases hin : s.i < mes.length
      · rw [if_pos hin]
        have hne : mes.drop s.i ≠ [] := by
          rw [ne_eq, List.drop_eq_nil_iff]
          omega
        obtain ⟨t, rest, hvalid, hmes⟩ | hmes | ⟨b, hmes, hb⟩ := token_cases hne
        · have hturn : TurnsTo _ _ _ (t.text dict) _ _ := h.turn hvalid hmes
          by_cases hroom : cs.length + t.room dict < outlen
          · rw [TurnsTo, if_pos hroom] at hturn
            obtain ⟨s', hnext, hi, h'⟩ := hturn
            have hrest : mes.drop (s'.i + 1) = rest := by
              rw [hi, ← List.drop_drop, hmes, List.drop_left]
            have hpos : 0 < t.bytes.length := by cases t <;> simp [Token.bytes]
            have hstep : Decoding outlen { s' with i := s'.i + 1 } (cs ++ t.text dict) :=
              ⟨h'.text, h'.length, h'.size, h'.room⟩
            rw [hnext, ok_bind]
            obtain hdone | ⟨herror, hcut⟩ := ih hstep (by simp only; omega)
            · exact .inl hdone
            · refine .inr ⟨herror, ?_⟩
              simp only [hrest, h'.length, List.length_append, ← h.length] at hcut
              rw [hmes]
              exact .token hvalid (by rwa [h.length]) hcut
          · rw [TurnsTo, if_neg hroom] at hturn
            obtain ⟨s', cs', hstop, h'⟩ := hturn
            rw [hstop]
            exact .inl ⟨s', cs', rfl, h'⟩
        · rw [legacyTurn_header_end hmes]
          exact .inl ⟨s, cs, rfl, h⟩
        · rw [h.pointer_end hmes hb]
          by_cases hroom : s.off + 1 < outlen
          · rw [if_pos hroom, hmes]
            exact .inr ⟨rfl, .last hb hroom⟩
          · rw [if_neg hroom]
            exact .inl ⟨s, cs, rfl, h⟩
      · rw [if_neg hin]
        exact .inl ⟨s, cs, rfl, h⟩

/-- Where the message is cut off the loop does read on. -/
theorem Cut.loop {off : Nat} {rest : List Nat} (hcut : Cut dict outlen off rest) (n : Nat)
    {s : Legacy} {cs : List Nat} (h : Decoding outlen s cs) (hoff : s.off = off)
    (hmes : mes.drop s.i = rest) (hn : mes.length ≤ s.i + n) :
    legacyLoop dict mes n s = .error (.read mes.length) := by
  induction hcut generalizing n s cs with
  | last hb hroom =>
      have hend := congrArg List.length hmes
      rw [List.length_drop, List.length_singleton] at hend
      obtain ⟨n, rfl⟩ : ∃ m, n = m + 1 := ⟨n - 1, by omega⟩
      rw [legacyLoop, if_pos (by omega), h.pointer_end hmes hb, hoff, if_pos hroom]
      rfl
  | @token off t rest hvalid hroom hrest ih =>
      have hpos : 0 < t.bytes.length := by cases t <;> simp [Token.bytes]
      have hend := congrArg List.length hmes
      rw [List.length_drop, List.length_append] at hend
      obtain ⟨n, rfl⟩ : ∃ m, n = m + 1 := ⟨n - 1, by omega⟩
      have hturn : TurnsTo _ _ _ (t.text dict) _ _ := h.turn hvalid hmes
      rw [TurnsTo, if_pos (by rwa [← h.length, hoff])] at hturn
      obtain ⟨s', hnext, hi, h'⟩ := hturn
      rw [legacyLoop, if_pos (by omega), hnext, ok_bind]
      have hstep : Decoding outlen { s' with i := s'.i + 1 } (cs ++ t.text dict) :=
        ⟨h'.text, h'.length, h'.size, h'.room⟩
      apply ih n hstep
      · simp only [h'.length, List.length_append, ← h.length, hoff]
      · simp only [hi]
        rw [← List.drop_drop, hmes, List.drop_left]
      · simp only
        omega

end

/-- `decode_chat_legacy` stays inside its arrays unless the message is cut off
in a reference of two bytes, and then the byte it reads is the one behind the
message. -/
theorem decode_chat_legacy_safe_iff (dict : List (List Nat)) (mes out : List Nat)
    (hout : 0 < out.length) :
    ((∃ res, decodeChatLegacy dict mes out = .ok res) ↔ ¬ Cut dict out.length 0 mes) ∧
      ∀ e, decodeChatLegacy dict mes out = .error e → e = .read mes.length := by
  have hstart : Decoding out.length { out := out } [] := ⟨List.nil_prefix, rfl, rfl, hout⟩
  unfold decodeChatLegacy
  obtain ⟨s, cs, hloop, h⟩ | ⟨hloop, hcut⟩ :=
    hstart.loop dict mes mes.length (by simp)
  · have hnot : ¬ Cut dict out.length 0 mes := by
      intro hcut
      have herror := hcut.loop dict mes mes.length hstart rfl rfl (by simp)
      rw [hloop] at herror
      cases herror
    have hroom : s.off < s.out.length := by
      rw [h.size]
      exact h.room
    rw [hloop, ok_bind, store_lt hroom]
    refine ⟨iff_of_true ⟨_, rfl⟩ hnot, ?_⟩
    intro e herror
    cases herror
  · rw [hloop, error_bind]
    refine ⟨iff_of_false ?_ (not_not_intro hcut), ?_⟩
    · intro ⟨res, hres⟩
      cases hres
    · intro e herror
      cases herror
      rfl

theorem decode_chat_legacy_safe_word :
    ((∃ res, decodeChatLegacy [[110, 111]] [50, 0, 20] [0, 0, 0, 0, 0, 0] = .ok res) ↔
        ¬ Cut [[110, 111]] 6 0 [50, 0, 20]) ∧
      ∀ e, decodeChatLegacy [[110, 111]] [50, 0, 20] [0, 0, 0, 0, 0, 0] = .error e → e = .read 3 :=
  decode_chat_legacy_safe_iff [[110, 111]] [50, 0, 20] [0, 0, 0, 0, 0, 0] (by decide)

/-- A message that is the first byte of a reference and nothing else. -/
theorem cut_message_overread :
    decodeChatLegacy [[110, 111]] [50] (List.replicate 80 0) = .error (.read 1) := by decide

end Sundae.Proofs
