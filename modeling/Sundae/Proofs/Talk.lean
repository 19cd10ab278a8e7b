import Mathlib.Data.List.DropRight
import Sundae.Ref.Talk
import Sundae.Proofs.Appearance
import Sundae.Proofs.Chat
import Sundae.Proofs.Legacy

/-!
# What is heard

The old encoding has a code for what `legacyChar` keeps, the other for what
`chatChar` keeps, which is more, and its reader writes whole sentences. So a
message between clients of the two kinds is the same but for capitals, for
characters that the old clients do not have and for a blank at the end, and
between clients of one kind nobody touches it.
-/

namespace Sundae.Proofs

open Sundae.Ref Sundae.Lib

/-! ## Characters -/

/-- What an old client shows of a character. -/
def legacyChar (ch : Nat) : Nat :=
  if toupper ch ∈ legacyChartab.takeWhile (· != 0) then tolower ch else ' '.toNat

theorem toupper_of_isalpha (ch : Nat) : (if isalpha ch then toupper ch else ch) = toupper ch := by
  unfold isalpha toupper
  grind

theorem tolower_toupper (ch : Nat) : tolower (toupper ch) = tolower ch := by
  unfold tolower toupper
  grind

theorem toupper_tolower (ch : Nat) : toupper (tolower ch) = toupper ch := by
  unfold tolower toupper
  grind

theorem tolower_tolower (ch : Nat) : tolower (tolower ch) = tolower ch := by
  unfold tolower
  grind

theorem legacyIndex_cases (ch : Nat) :
    (∃ i, legacyIndex ch = some i ∧ i < 50 ∧ legacyChartab.getD i 0 = ch ∧
        ch ∈ legacyChartab.takeWhile (· != 0)) ∨
      legacyIndex ch = none ∧ ch ∉ legacyChartab.takeWhile (· != 0) := by
  have hlen : (legacyChartab.takeWhile (· != 0)).length = 50 := by decide
  have hpre : legacyChartab.takeWhile (· != 0) <+: legacyChartab := List.takeWhile_prefix _
  unfold legacyIndex
  cases h : (legacyChartab.takeWhile (· != 0)).findIdx? (· == ch) with
  | none =>
      refine .inr ⟨rfl, fun hmem => ?_⟩
      have hne := List.findIdx?_eq_none_iff.1 h ch hmem
      simp at hne
  | some i =>
      obtain ⟨hi, heq, -⟩ := List.findIdx?_eq_some_iff_getElem.1 h
      have hch : (legacyChartab.takeWhile (· != 0))[i] = ch := by simpa using heq
      refine .inl ⟨i, rfl, by omega, ?_, hch ▸ List.getElem_mem hi⟩
      rw [List.getD_eq_getElem _ _ (Nat.lt_of_lt_of_le hi hpre.length_le), ← hpre.getElem hi]
      exact hch

theorem encodeCharLegacy_eq (ch : Nat) :
    encodeCharLegacy ch = (legacyIndex (toupper ch)).getD 36 := by
  rw [← toupper_of_isalpha ch]
  rfl

theorem encodeCharLegacy_lt (ch : Nat) : encodeCharLegacy ch < 50 := by
  rw [encodeCharLegacy_eq]
  obtain ⟨i, h, hi, -⟩ | ⟨h, -⟩ := legacyIndex_cases (toupper ch) <;> rw [h]
  · exact hi
  · decide

/-- The code of a character stands for what an old client shows of it. -/
theorem legacyChartab_encode (ch : Nat) :
    tolower (legacyChartab.getD (encodeCharLegacy ch) 0) = legacyChar ch := by
  rw [encodeCharLegacy_eq, legacyChar]
  obtain ⟨i, h, -, hch, hmem⟩ | ⟨h, hnot⟩ := legacyIndex_cases (toupper ch) <;> rw [h]
  · rw [if_pos hmem, Option.getD_some, hch, tolower_toupper]
  · rw [if_neg hnot]
    decide

theorem legacyChar_congr {ch ch' : Nat} (h : tolower ch = tolower ch') :
    legacyChar ch = legacyChar ch' := by
  have hup : toupper ch = toupper ch' := by rw [← toupper_tolower ch, h, toupper_tolower]
  unfold legacyChar
  rw [hup, h]

theorem legacyChar_legacyChar (ch : Nat) : legacyChar (legacyChar ch) = legacyChar ch := by
  by_cases h : toupper ch ∈ legacyChartab.takeWhile (· != 0)
  · have heq : legacyChar ch = tolower ch := if_pos h
    rw [heq, legacyChar_congr (tolower_tolower ch), heq]
  · have heq : legacyChar ch = ' '.toNat := if_neg h
    rw [heq]
    decide

theorem legacyChar_ne_zero (ch : Nat) : legacyChar ch ≠ 0 := by
  have hall : ∀ c ∈ legacyChartab.takeWhile (· != 0), tolower c ≠ 0 := by decide
  unfold legacyChar
  split
  · next h =>
    rw [← tolower_toupper ch]
    exact hall _ h
  · decide

/-- Whatever an old client shows, a new one has. -/
theorem legacyChar_chatChar (ch : Nat) : legacyChar (chatChar ch) = legacyChar ch := by
  have hall : ∀ c ∈ legacyChartab.takeWhile (· != 0), tolower c ∈ compressionTab := by decide
  unfold chatChar
  by_cases h : tolower ch ∈ compressionTab
  · rw [if_pos h]
    exact legacyChar_congr (tolower_tolower ch)
  · have hnot : toupper ch ∉ legacyChartab.takeWhile (· != 0) := by
      intro hmem
      have hin := hall _ hmem
      rw [tolower_toupper] at hin
      exact h hin
    have heq : legacyChar ch = ' '.toNat := if_neg hnot
    rw [if_neg h, heq]
    decide

/-! ## Sentences -/

/-- What the second loop of `chat_decompress` makes of a text from its `i`-th
character on. -/
def sentences : Nat → Bool → List Nat → List Nat
  | _, _, [] => []
  | i, newSentence, ch :: text =>
    let first := newSentence && decide ('a'.toNat ≤ ch) && decide (ch ≤ 'z'.toNat)
    let shown := if (4 < i ∧ ch = '@'.toNat) ∨ ch = '%'.toNat then ' '.toNat else ch
    (if first then toupper ch else shown) ::
      sentences (i + 1) (newSentence && !first || ch == '.'.toNat || ch == '!'.toNat) text

theorem length_sentences (i : Nat) (newSentence : Bool) (text : List Nat) :
    (sentences i newSentence text).length = text.length := by
  induction text generalizing i newSentence with
  | nil => rfl
  | cons ch text ih => rw [sentences, List.length_cons, ih, List.length_cons]

/-- Old clients see no difference. -/
theorem sentences_legacyChar (i : Nat) (newSentence : Bool) (text : List Nat) :
    (sentences i newSentence text).map legacyChar = text.map legacyChar := by
  induction text generalizing i newSentence with
  | nil => rfl
  | cons ch text ih =>
      rw [sentences, List.map_cons, ih, List.map_cons]
      congr 1
      split
      · exact legacyChar_congr (tolower_toupper ch)
      · split
        · next h =>
          obtain ⟨-, rfl⟩ | rfl := h <;> decide
        · rfl

theorem toupper_ne_zero {ch : Nat} (h : ch ≠ 0) : toupper ch ≠ 0 := by
  unfold toupper
  split <;> omega

theorem sentences_ne_zero (i : Nat) (newSentence : Bool) {text : List Nat}
    (h : ∀ ch ∈ text, ch ≠ 0) : ∀ ch ∈ sentences i newSentence text, ch ≠ 0 := by
  induction text generalizing i newSentence with
  | nil => exact h
  | cons ch text ih =>
      obtain ⟨hch, hrest⟩ := List.forall_mem_cons.1 h
      rw [sentences]
      refine List.forall_mem_cons.2 ⟨?_, ih _ _ hrest⟩
      split
      · exact toupper_ne_zero hch
      · split
        · decide
        · exact hch

theorem storeIf_lt {c : Bool} {out : List Nat} {i : Nat} (h : i < out.length) (x : Nat) :
    storeIf c out i x = .ok (out.set i (if c then x else out[i])) := by
  cases c with
  | false =>
      simp only [Bool.false_eq_true, if_false, List.set_getElem_self]
      rfl
  | true => exact store_lt h

/-- One turn writes the character of its place, and says whether a sentence ended. -/
theorem capitalise_eq {out : List Nat} {i : Nat} (h : i < out.length) (newSentence : Bool)
    (text : List Nat) :
    ∃ ch next, capitalise i out newSentence = .ok (out.set i ch, next) ∧
      sentences i newSentence (out[i] :: text) = ch :: sentences (i + 1) next text := by
  refine ⟨_, _, ?_, rfl⟩
  unfold capitalise
  simp only [load_lt h, ok_bind, storeIf_lt h, List.length_set, h, load_lt, storeIf_lt,
    List.getElem_set_self, List.set_set]
  congr 3
  grind

theorem capitaliseLoop_eq (n i : Nat) {out : List Nat} (h : i + n ≤ out.length)
    (newSentence : Bool) :
    capitaliseLoop n i out newSentence =
      .ok (out.take i ++ sentences i newSentence ((out.drop i).take n) ++ out.drop (i + n)) := by
  induction n generalizing i out newSentence with
  | zero =>
      rw [List.take_zero, sentences, List.append_nil, Nat.add_zero, List.take_append_drop]
      rfl
  | succ n ih =>
      have hi : i < out.length := by omega
      obtain ⟨ch, next, hturn, htext⟩ := capitalise_eq hi newSentence ((out.drop (i + 1)).take n)
      have hrest := ih (i + 1) (show i + 1 + n ≤ (out.set i ch).length by
        rw [List.length_set]
        omega) next
      rw [capitaliseLoop, hturn, ok_bind]
      show capitaliseLoop n (i + 1) (out.set i ch) next = _
      rw [hrest, List.drop_eq_getElem_cons hi, List.take_succ_cons, htext]
      congr 1
      have htake : (out.set i ch).take (i + 1) = out.take i ++ [ch] := by
        rw [List.take_succ_eq_append_getElem (by rwa [List.length_set]), List.getElem_set_self,
          List.take_set_of_le (Nat.le_refl i)]
      rw [htake, List.drop_set_of_lt (Nat.lt_succ_self i), List.drop_set_of_lt (by omega),
        show i + 1 + n = i + (n + 1) by omega]
      simp

/-! ## Reading -/

/-- The same reader with more room. -/
def widen (more : List Nat) (r : Decompressor) : Decompressor := { r with out := r.out ++ more }

theorem decompressHalf_widen {i : Nat} {r r' : Decompressor} (h : decompressHalf i r = .ok r')
    (more : List Nat) : decompressHalf i (widen more r) = .ok (widen more r') := by
  obtain ⟨out, newLength, leftShift⟩ := r
  unfold decompressHalf at h ⊢
  cases leftShift with
  | none =>
      by_cases hi : i < 13
      · simp only [widen, hi, if_true, bind_eq_ok] at h ⊢
        obtain ⟨ch, hload, out', hstore, hr⟩ := h
        cases hr
        exact ⟨ch, hload, out' ++ more, store_append hstore more, rfl⟩
      · simp only [widen, hi, if_false] at h ⊢
        cases h
        rfl
  | some left =>
      simp only [widen, bind_eq_ok] at h ⊢
      obtain ⟨ch, hload, out', hstore, hr⟩ := h
      cases hr
      exact ⟨ch, hload, out' ++ more, store_append hstore more, rfl⟩

theorem decompressLoop_widen {buffer : List Nat} (more : List Nat) (n offset : Nat)
    {r r' : Decompressor} (h : decompressLoop buffer n offset r = .ok r') :
    decompressLoop buffer n offset (widen more r) = .ok (widen more r') := by
  -- the bound is of the code and not of the buffer
  have hbound : ∀ r, (widen more r).newLength = r.newLength := fun _ => rfl
  induction n generalizing offset r with
  | zero =>
      cases h
      rfl
  | succ n ih =>
      simp only [decompressLoop, bind_eq_ok, hbound] at h ⊢
      obtain ⟨cur, hload, h⟩ := h
      refine ⟨cur, hload, ?_⟩
      by_cases hend : maxChatLen ≤ r.newLength
      · rw [if_pos hend] at h ⊢
        cases h
        rfl
      rw [if_neg hend, bind_eq_ok] at h ⊢
      obtain ⟨r₁, hhigh, h⟩ := h
      refine ⟨widen more r₁, decompressHalf_widen hhigh more, ?_⟩
      rw [hbound]
      by_cases hend₁ : maxChatLen ≤ r₁.newLength
      · rw [if_pos hend₁] at h ⊢
        cases h
        rfl
      rw [if_neg hend₁, bind_eq_ok] at h ⊢
      obtain ⟨r₂, hlow, h⟩ := h
      exact ⟨widen more r₂, decompressHalf_widen hlow more, ih (offset + 1) h⟩

/-- The text that bytes spell, up to where the reader stops. -/
def spelled (bytes : List Nat) : List Nat := (chatChars none (nibbles bytes)).take maxChatLen

theorem nibbles_lt {bytes : List Nat} (h : ∀ b ∈ bytes, b < 256) : ∀ n ∈ nibbles bytes, n < 16 := by
  induction bytes with
  | nil => exact fun n hn => absurd hn List.not_mem_nil
  | cons b bytes ih =>
      obtain ⟨hb, hrest⟩ := List.forall_mem_cons.1 h
      rw [nibbles]
      exact List.forall_mem_cons.2 ⟨by omega, List.forall_mem_cons.2 ⟨by omega, ih hrest⟩⟩

theorem chatChars_ne_zero {ns : List Nat} (hns : ∀ n ∈ ns, n < 16) {left : Option Nat}
    (hleft : ∀ l ∈ left, l < 16) : ∀ ch ∈ chatChars left ns, ch ≠ 0 := by
  have htab : ∀ i < 61, compressionTab.getD i 0 ≠ 0 := by decide
  induction ns generalizing left with
  | nil => cases left <;> exact fun ch hch => absurd hch List.not_mem_nil
  | cons n ns ih =>
      obtain ⟨hn, hrest⟩ := List.forall_mem_cons.1 hns
      cases left with
      | none =>
          rw [chatChars]
          split
          · exact List.forall_mem_cons.2 ⟨htab n (by omega), ih hrest (by simp)⟩
          · exact ih hrest (by simpa using hn)
      | some l =>
          have hl : l < 16 := hleft l rfl
          rw [chatChars]
          exact List.forall_mem_cons.2 ⟨htab _ (by omega), ih hrest (by simp)⟩

theorem spelled_ne_zero {bytes : List Nat} (h : ∀ b ∈ bytes, b < 256) :
    ∀ ch ∈ spelled bytes, ch ≠ 0 := fun ch hch =>
  chatChars_ne_zero (nibbles_lt h) (by simp) ch (List.mem_of_mem_take hch)

theorem untilNul_append {text : List Nat} (h : ∀ ch ∈ text, ch ≠ 0) (rest : List Nat) :
    untilNul (text ++ 0 :: rest) = text := by
  unfold untilNul
  rw [List.takeWhile_append_of_pos (by simpa using h)]
  simp

/-- A buffer with room for the zero is left with the sentences that the bytes spell. -/
theorem chatDecompress_reads {buffer out : List Nat} {offset len : Nat}
    (hbytes : ∀ b ∈ buffer, b < 256) (hin : offset + len ≤ buffer.length)
    (hout : maxChatLen ≤ out.length)
    (hroom : (spelled ((buffer.drop offset).take len)).length < out.length) :
    ∃ out', chatDecompress buffer offset len out =
        .ok (out', (spelled ((buffer.drop offset).take len)).length) ∧
      out'.length = out.length ∧
      untilNul out' = sentences 0 true (spelled ((buffer.drop offset).take len)) := by
  have hnonzero := spelled_ne_zero fun b hb =>
    hbytes b (List.mem_of_mem_drop (List.mem_of_mem_take (i := len) (l := buffer.drop offset) hb))
  obtain ⟨r, hloop, hr⟩ := (holding_start (List.length_take_of_le hout)).loop hbytes len offset hin
  have hwide := decompressLoop_widen (out.drop maxChatLen) len offset hloop
  have hstart : widen (out.drop maxChatLen) { out := out.take maxChatLen } = { out := out } := by
    rw [widen, List.take_append_drop]
  rw [hstart] at hwide
  rw [List.nil_append] at hr
  change Decoded r (spelled ((buffer.drop offset).take len)) at hr
  generalize spelled ((buffer.drop offset).take len) = text at hr hroom hnonzero
  have hsize : (widen (out.drop maxChatLen) r).out.length = out.length := by
    rw [widen, List.length_append, hr.size, List.length_drop]
    omega
  have htext : (widen (out.drop maxChatLen) r).out.take text.length = text := by
    have hpre : text <+: (widen (out.drop maxChatLen) r).out :=
      hr.text.trans (List.prefix_append _ _)
    exact (List.prefix_iff_eq_take.1 hpre).symm
  have hcount : (widen (out.drop maxChatLen) r).newLength = text.length := hr.length
  generalize widen (out.drop maxChatLen) r = r' at hwide hsize htext hcount
  have hcaps := capitaliseLoop_eq text.length 0 (show 0 + text.length ≤ r'.out.length by omega) true
  have hlt : text.length < r'.out.length := by omega
  rw [List.take_zero, List.nil_append, List.drop_zero, htext, Nat.zero_add,
    List.drop_eq_getElem_cons hlt] at hcaps
  have hend := store_append_cons (sentences 0 true text) r'.out[text.length] 0
    (r'.out.drop (text.length + 1))
  rw [length_sentences] at hend
  refine ⟨sentences 0 true text ++ 0 :: r'.out.drop (text.length + 1), ?_, ?_,
    untilNul_append (sentences_ne_zero 0 true hnonzero) _⟩
  · unfold chatDecompress
    rw [hwide, ok_bind, hcount, hcaps, ok_bind, hend, ok_bind]
    rfl
  · rw [List.length_append, List.length_cons, List.length_drop, length_sentences]
    omega

/-- Letters that have room are all decoded. -/
theorem legacyLoop_letters {dict : List (List Nat)} {mes : List Nat} {outlen : Nat}
    {text : List Nat} (n : Nat) {s : Legacy} {cs : List Nat} (h : Decoding outlen s cs)
    (hmes : mes.drop s.i = text.map encodeCharLegacy) (hroom : cs.length + text.length < outlen)
    (hn : mes.length ≤ s.i + n) :
    ∃ s', legacyLoop dict mes n s = .ok s' ∧
      Decoding outlen s' (cs ++ text.map legacyChar) := by
  induction text generalizing n s cs with
  | nil =>
      have hend : ¬ s.i < mes.length := by
        rw [List.map_nil, List.drop_eq_nil_iff] at hmes
        omega
      rw [List.map_nil, List.append_nil]
      cases n with
      | zero => exact ⟨s, rfl, h⟩
      | succ n =>
          rw [legacyLoop, if_neg hend]
          exact ⟨s, rfl, h⟩
  | cons ch text ih =>
      rw [List.length_cons] at hroom
      have hin : s.i < mes.length := by
        have hne : mes.drop s.i ≠ [] := by simp [hmes]
        rw [ne_eq, List.drop_eq_nil_iff] at hne
        omega
      obtain ⟨n, rfl⟩ : ∃ m, n = m + 1 := ⟨n - 1, by omega⟩
      have hturn : TurnsTo outlen (s.i + 1) cs
          (Token.text dict (.letter (encodeCharLegacy ch))) 1 (legacyTurn dict mes s) :=
        h.turn (show Token.Valid (.letter (encodeCharLegacy ch)) from encodeCharLegacy_lt ch) hmes
      rw [Token.text, legacyChartab_encode] at hturn
      rw [TurnsTo, if_pos (by omega)] at hturn
      obtain ⟨s₁, hnext, hi, h₁⟩ := hturn
      have hstep : Decoding outlen { s₁ with i := s₁.i + 1 } (cs ++ [legacyChar ch]) :=
        ⟨h₁.text, h₁.length, h₁.size, h₁.room⟩
      have hrest : mes.drop (s₁.i + 1) = text.map encodeCharLegacy := by
        rw [hi, ← List.drop_drop, hmes, List.map_cons, List.drop_one, List.tail_cons]
      obtain ⟨s', hloop, h'⟩ := ih n hstep hrest
        (by rw [List.length_append, List.length_singleton]; omega) (by simp only; omega)
      refine ⟨s', ?_, ?_⟩
      · rw [legacyLoop, if_pos hin, hnext, ok_bind]
        exact hloop
      · rw [List.map_cons]
        rwa [List.append_assoc, List.singleton_append] at h'

theorem length_untilNul_set (mes : List Nat) (i : Nat) :
    (untilNul (mes.set i 0)).length ≤ i := by
  by_contra hlong
  have hpre : untilNul (mes.set i 0) <+: mes.set i 0 := List.takeWhile_prefix _
  have hi : i < (untilNul (mes.set i 0)).length := by omega
  have hzero : (untilNul (mes.set i 0))[i] = 0 := by rw [hpre.getElem, List.getElem_set_self]
  have hne := List.mem_takeWhile_imp (List.getElem_mem hi)
  simp [hzero] at hne

/-- What was read ends before the last byte of its buffer. -/
theorem readChat_short {words : List (List Nat)} {protocolRev : Nat} {data : List UInt8}
    {offset len : Nat} {mes mes' : List Nat} (hin : offset + len ≤ data.length)
    (hmes : mes.length = maxChatLen)
    (h : readChat words protocolRev data offset len mes = .ok mes') :
    (untilNul mes').length < maxChatLen := by
  unfold readChat at h
  by_cases hold : protocolRev ≤ 163
  · rw [if_pos hold, decodeChatLegacy, bind_eq_ok] at h
    obtain ⟨s, hloop, hstore⟩ := h
    generalize ((data.drop offset).take len).map UInt8.toNat = bytes at hloop
    have hstart : Decoding maxChatLen { out := mes } [] :=
      ⟨List.nil_prefix, rfl, hmes, show 0 < maxChatLen by decide⟩
    obtain ⟨s', cs, hloop', hs⟩ | ⟨herror, -⟩ := hstart.loop words bytes bytes.length (by simp)
    · obtain rfl := Except.ok.inj (hloop'.symm.trans hloop)
      have hroom := hs.room
      have hoff : s'.off < s'.out.length := by rwa [hs.size]
      rw [store_lt hoff] at hstore
      cases hstore
      exact Nat.lt_of_le_of_lt (length_untilNul_set _ _) hroom
    · rw [herror] at hloop
      cases hloop
  · rw [if_neg hold] at h
    have hbytes : ∀ b ∈ data.map UInt8.toNat, b < 256 := by
      intro b hb
      obtain ⟨x, -, rfl⟩ := List.mem_map.1 hb
      exact x.toNat_lt
    have hin' : offset + len ≤ (data.map UInt8.toNat).length := by rwa [List.length_map]
    generalize data.map UInt8.toNat = buffer at h hbytes hin'
    have hcount : (spelled ((buffer.drop offset).take len)).length =
        min maxChatLen (symbolCount (nibbles ((buffer.drop offset).take len))) := by
      rw [spelled, List.length_take, length_chatChars]
    by_cases hfew : (spelled ((buffer.drop offset).take len)).length < maxChatLen
    · obtain ⟨out', hread, -, htext⟩ := chatDecompress_reads hbytes hin' (Nat.le_of_eq hmes.symm)
        (by rwa [hmes])
      rw [hread] at h
      cases h
      rwa [htext, length_sentences]
    · have herror := (chatDecompress_eq hbytes hin' hmes).2 (by omega)
      rw [herror] at h
      cases h

/-! ## What reaches a client -/

/-- What a client of this version shows of a text that is said to it. -/
def Heard (protocolRev : Nat) (text heard : List Nat) : Prop :=
  if protocolRev ≤ 163 then heard = text.map legacyChar
  else ∃ pad, (pad = [] ∨ pad = [' '.toNat]) ∧
    heard = sentences 0 true (text.map chatChar ++ pad)

/-- A text as far as clients of all versions agree on it. -/
def legible (text : List Nat) : List Nat := (text.map legacyChar).rdropWhile (· == ' '.toNat)

theorem Heard.legible {protocolRev : Nat} {text heard : List Nat}
    (h : Heard protocolRev text heard) : legible heard = legible text := by
  unfold Heard at h
  unfold Proofs.legible
  split at h
  · rw [h, List.map_map]
    congr 1
    exact List.map_congr_left fun ch _ => legacyChar_legacyChar ch
  · obtain ⟨pad, hpad, rfl⟩ := h
    have hchars : (text.map chatChar).map legacyChar = text.map legacyChar := by
      rw [List.map_map]
      exact List.map_congr_left fun ch _ => legacyChar_chatChar ch
    rw [sentences_legacyChar, List.map_append, hchars]
    obtain rfl | rfl := hpad
    · rw [List.map_nil, List.append_nil]
    · exact List.rdropWhile_concat_pos _ _ _ (by decide)

/-- A client with room for `MAX_CHAT_LEN` characters and the zero reads of the bytes,
with any dictionary, what is to be heard of the text. -/
def Understood (protocolRev : Nat) (bytes : List UInt8) (text : List Nat) : Prop :=
  ∀ words buffer, buffer.length = maxChatLen + 1 →
    ∃ mes, readChat words protocolRev bytes 0 bytes.length buffer = .ok mes ∧
      Heard protocolRev text (untilNul mes) ∧ legible (untilNul mes) = legible text

theorem toNat_ofNat_bytes {bytes : List Nat} (h : ∀ b ∈ bytes, b < 256) :
    (bytes.map UInt8.ofNat).map UInt8.toNat = bytes := by
  rw [List.map_map]
  refine (List.map_congr_left fun b hb => ?_).trans (List.map_id bytes)
  exact UInt8.toNat_ofNat_of_lt' (h b hb)

/-- The zero behind the text is the first of the buffer. -/
theorem Decoding.ends {outlen : Nat} {s : Legacy} {cs : List Nat} (h : Decoding outlen s cs)
    (hcs : ∀ ch ∈ cs, ch ≠ 0) :
    ∃ out, Lib.store s.out s.off 0 = .ok out ∧ untilNul out = cs := by
  obtain ⟨rest, hout⟩ := h.text
  have hroom := h.room
  rw [← h.size, h.length] at hroom
  rw [h.length]
  cases rest with
  | nil =>
      rw [List.append_nil] at hout
      rw [hout] at hroom
      exact absurd hroom (Nat.lt_irrefl _)
  | cons r rest =>
      rw [← hout]
      exact ⟨cs ++ 0 :: rest, store_append_cons cs r 0 rest, untilNul_append hcs rest⟩

theorem legacy_understood {protocolRev : Nat} (hold : protocolRev ≤ 163) {text : List Nat}
    (hlen : text.length ≤ maxChatLen) :
    Understood protocolRev ((text.map encodeCharLegacy).map UInt8.ofNat) text := by
  intro words buffer hbuffer
  have hbytes : ((text.map encodeCharLegacy).map UInt8.ofNat).map UInt8.toNat =
      text.map encodeCharLegacy := by
    refine toNat_ofNat_bytes fun b hb => ?_
    obtain ⟨ch, -, rfl⟩ := List.mem_map.1 hb
    exact Nat.lt_trans (encodeCharLegacy_lt ch) (by decide)
  have hstart : Decoding (maxChatLen + 1) { out := buffer } [] :=
    ⟨List.nil_prefix, rfl, hbuffer, Nat.succ_pos _⟩
  obtain ⟨s, hloop, hs⟩ : ∃ s, legacyLoop words (text.map encodeCharLegacy)
      (text.map encodeCharLegacy).length { out := buffer } = .ok s ∧
        Decoding (maxChatLen + 1) s ([] ++ text.map legacyChar) :=
    legacyLoop_letters _ hstart rfl (by rw [List.length_nil]; omega) (by simp)
  rw [List.nil_append] at hs
  have hnonzero : ∀ ch ∈ text.map legacyChar, ch ≠ 0 := by
    intro ch hch
    obtain ⟨c, -, rfl⟩ := List.mem_map.1 hch
    exact legacyChar_ne_zero c
  obtain ⟨mes, hstore, htext⟩ := hs.ends hnonzero
  have hheard : Heard protocolRev text (untilNul mes) := by rw [Heard, if_pos hold, htext]
  refine ⟨mes, ?_, hheard, hheard.legible⟩
  rw [readChat, if_pos hold, List.drop_zero, List.take_length, hbytes, decodeChatLegacy, hloop,
    ok_bind]
  exact hstore

/-- The bytes written spell the text, perhaps with a blank behind it. -/
theorem spelled_chatCompress {text : List Nat} (hlen : text.length ≤ maxChatLen) :
    ∃ pad, (pad = [] ∨ pad = [' '.toNat]) ∧
      spelled (chatCompress text) = text.map chatChar ++ pad := by
  obtain ⟨-, pad, hnibbles, hpad⟩ := nibbles_chatCompress hlen
  have hfits : (text.map chatChar).length ≤ maxChatLen := by rwa [List.length_map]
  have hwhole : (text.map chatChar).take maxChatLen = text.map chatChar ++ [] := by
    rw [List.append_nil, List.take_of_length_le hfits]
  rw [spelled, hnibbles, chatChars_chatHalves]
  obtain rfl | ⟨rfl, -⟩ := hpad
  · refine ⟨[], .inl rfl, ?_⟩
    rw [← hwhole, chatChars, List.append_nil]
  · have hblank : chatChars none [0] = [' '.toNat] := by decide
    rw [hblank]
    by_cases hfull : (text.map chatChar).length = maxChatLen
    · refine ⟨[], .inl rfl, ?_⟩
      rw [List.take_append_of_le_length (Nat.le_of_eq hfull.symm), hwhole]
    · refine ⟨[' '.toNat], .inr rfl, List.take_of_length_le ?_⟩
      rw [List.length_append, List.length_singleton]
      omega

theorem compressed_understood {protocolRev : Nat} (hnew : 163 < protocolRev) {text : List Nat}
    (hlen : text.length ≤ maxChatLen) :
    Understood protocolRev ((chatCompress text).map UInt8.ofNat) text := by
  intro words buffer hbuffer
  obtain ⟨hbytes, -⟩ := nibbles_chatCompress hlen
  have hback := toNat_ofNat_bytes hbytes
  obtain ⟨pad, hpad, hspelled⟩ := spelled_chatCompress hlen
  have hshort : (spelled (chatCompress text)).length < buffer.length := by
    rw [hbuffer]
    exact Nat.lt_succ_of_le (List.length_take_le ..)
  have hwhole : ((chatCompress text).drop 0).take (chatCompress text).length =
      chatCompress text := by
    rw [List.drop_zero, List.take_length]
  rw [← hwhole] at hshort
  obtain ⟨mes, hmes, -, htext⟩ := chatDecompress_reads hbytes
    (show 0 + (chatCompress text).length ≤ (chatCompress text).length by omega)
    (show maxChatLen ≤ buffer.length by omega) hshort
  rw [hwhole] at htext
  have hheard : Heard protocolRev text (untilNul mes) := by
    rw [Heard, if_neg (by omega)]
    exact ⟨pad, hpad, htext.trans (congrArg _ hspelled)⟩
  refine ⟨mes, ?_, hheard, hheard.legible⟩
  rw [readChat, if_neg (by omega), hback, List.length_map, hmes]
  rfl

/-! ## Public chat -/

section

variable {m : Mouth}

/-- Bytes that fit are the first of the array they are copied to. -/
theorem copy_take {out bytes : List UInt8} (h : bytes.length ≤ out.length) :
    ∃ out', copy out 0 bytes = .ok out' ∧ out'.length = out.length ∧
      out'.take bytes.length = bytes := by
  obtain ⟨out', hcopy, hpre, hlen⟩ : ∃ out', copy out ([] : List UInt8).length bytes = .ok out' ∧
      [] ++ bytes <+: out' ∧ out'.length = out.length :=
    copy_prefix List.nil_prefix (by rwa [List.length_nil, Nat.zero_add])
  exact ⟨out', hcopy, hlen, (List.prefix_iff_eq_take.1 hpre).symm⟩

theorem toNat_ofNat_short {n : Nat} (h : n ≤ maxChatLen) : (UInt8.ofNat n).toNat = n :=
  UInt8.toNat_ofNat_of_lt' (Nat.lt_of_le_of_lt h (by decide))

theorem encode_take {text : List Nat} {out : List UInt8} (h : text.length ≤ out.length) {n : Nat}
    (hn : text.length ≤ n) :
    ∃ out', encodeChatLegacy text out n = .ok out' ∧ out'.length = out.length ∧
      out'.take text.length = (text.map encodeCharLegacy).map UInt8.ofNat := by
  have hlen : ((text.map encodeCharLegacy).map UInt8.ofNat).length = text.length := by
    rw [List.length_map, List.length_map]
  obtain ⟨out', hcopy, hsize, htake⟩ := copy_take (show
    ((text.map encodeCharLegacy).map UInt8.ofNat).length ≤ out.length by rwa [hlen])
  rw [hlen] at htake
  refine ⟨out', ?_, hsize, htake⟩
  rw [encodeChatLegacy, List.take_of_length_le hn]
  exact hcopy

theorem compress_take {text : List Nat} (htext : text.length ≤ maxChatLen) {out : List UInt8}
    (h : out.length = maxChatLen) :
    ∃ out', copy out 0 ((chatCompress text).map UInt8.ofNat) = .ok out' ∧
      out'.length = out.length ∧
      out'.take (chatCompress text).length = (chatCompress text).map UInt8.ofNat := by
  have hlen := length_chatCompress htext
  obtain ⟨out', hcopy, hsize, htake⟩ := copy_take (show
    ((chatCompress text).map UInt8.ofNat).length ≤ out.length by rwa [List.length_map, h])
  rw [List.length_map] at htake
  exact ⟨out', hcopy, hsize, htake⟩

theorem textFor_old {protocolRev : Nat} (h : protocolRev ≤ 163) :
    textFor protocolRev m.chat m.compressed = m.chatEnc.take m.chatLen.toNat := by
  rw [textFor, if_neg (by omega)]
  rfl

theorem textFor_new {protocolRev : Nat} (h : 163 < protocolRev) :
    textFor protocolRev m.chat m.compressed = m.chatCompressed.take m.chatCompressedLen.toNat := by
  rw [textFor, if_pos h]
  rfl

/-- A message that can be read is passed on as it is to the clients of the encoding that
it is in, and reaches the others. -/
theorem public_chat_heard (words : List (List Nat)) (protocolRev : Nat) {data : List UInt8}
    (hdata : data ≠ []) {mes : List Nat} (hmes : mes.length = maxChatLen) (hm : m.Sized) :
    (∀ e, readChat words protocolRev data 1 (min (data.length - 1) maxChatLen) mes = .error e →
      publicChat words protocolRev data mes m = .error e) ∧
    ∀ mes', readChat words protocolRev data 1 (min (data.length - 1) maxChatLen) mes = .ok mes' →
      ∃ m', publicChat words protocolRev data mes m = .ok m' ∧ m'.Sized ∧
        ∀ rev, if (protocolRev ≤ 163 ↔ rev ≤ 163) then
            textFor rev m'.chat m'.compressed = (data.drop 1).take maxChatLen
          else Understood rev (textFor rev m'.chat m'.compressed) (untilNul mes') := by
  have hpos : 0 < data.length := List.length_pos_iff.2 hdata
  have hin : 1 + min (data.length - 1) maxChatLen ≤ data.length := by omega
  have hle : min (data.length - 1) maxChatLen ≤ maxChatLen := Nat.min_le_right ..
  have hgiven : (data.drop 1).take (min (data.length - 1) maxChatLen) =
      (data.drop 1).take maxChatLen :=
    List.take_eq_take_iff.2 (by rw [List.length_drop]; omega)
  have hsize : ((data.drop 1).take maxChatLen).length = min (data.length - 1) maxChatLen := by
    rw [List.length_take, List.length_drop, Nat.min_comm]
  unfold publicChat
  simp only [hgiven]
  by_cases hold : protocolRev ≤ 163
  · obtain ⟨chatEnc, henc, hencLen, hencTake⟩ := copy_take (show
      ((data.drop 1).take maxChatLen).length ≤ m.chatEnc.length by rw [hm.chatEnc]; omega)
    simp only [if_pos hold, henc, ok_bind]
    refine ⟨fun e h => by rw [h]; rfl, fun mes' h => ?_⟩
    have hshort := readChat_short hin hmes h
    obtain ⟨chatCompressed, hcomp, hcompLen, hcompTake⟩ :=
      compress_take (Nat.le_of_lt hshort) hm.chatCompressed
    rw [h, ok_bind, hcomp, ok_bind]
    refine ⟨_, rfl, ⟨hencLen.trans hm.chatEnc, hcompLen.trans hm.chatCompressed⟩, fun rev => ?_⟩
    by_cases hrev : rev ≤ 163
    · rw [if_pos (by omega), textFor_old hrev]
      simp only [toNat_ofNat_short hle]
      rwa [hsize] at hencTake
    · rw [if_neg (by omega), textFor_new (by omega)]
      simp only [List.length_map, toNat_ofNat_short (length_chatCompress (Nat.le_of_lt hshort)),
        hcompTake]
      exact compressed_understood (by omega) (Nat.le_of_lt hshort)
  · obtain ⟨chatCompressed, hcomp, hcompLen, hcompTake⟩ := copy_take (show
      ((data.drop 1).take maxChatLen).length ≤ m.chatCompressed.length by
        rw [hm.chatCompressed]; omega)
    simp only [if_neg hold, hcomp, ok_bind]
    refine ⟨fun e h => by rw [h]; rfl, fun mes' h => ?_⟩
    have hshort := readChat_short hin hmes h
    obtain ⟨chatEnc, henc, hencLen, hencTake⟩ := encode_take (show
      (untilNul mes').length ≤ m.chatEnc.length by rw [hm.chatEnc]; omega)
      (Nat.le_refl (untilNul mes').length)
    rw [h, ok_bind, henc, ok_bind]
    refine ⟨_, rfl, ⟨hencLen.trans hm.chatEnc, hcompLen.trans hm.chatCompressed⟩, fun rev => ?_⟩
    by_cases hrev : rev ≤ 163
    · rw [if_neg (by omega), textFor_old hrev]
      simp only [toNat_ofNat_short (Nat.le_of_lt hshort), hencTake]
      exact legacy_understood hrev (Nat.le_of_lt hshort)
    · rw [if_pos (by omega), textFor_new (by omega)]
      simp only [toNat_ofNat_short hle]
      rwa [hsize] at hcompTake

/-- A mouth that has said nothing. -/
def closedMouth : Mouth where
  chatEnc := List.replicate 80 0
  chatCompressed := List.replicate 80 0

theorem closedMouth_sized : closedMouth.Sized := ⟨List.length_replicate, List.length_replicate⟩

/-- `Hi.` from a new client. -/
def hiPacket : List UInt8 := [3, 101, 235]

theorem public_chat_heard_hi :
    (∀ e, readChat [] 204 hiPacket 1 (min (hiPacket.length - 1) maxChatLen)
        (List.replicate 80 0) = .error e →
      publicChat [] 204 hiPacket (List.replicate 80 0) closedMouth = .error e) ∧
    ∀ mes', readChat [] 204 hiPacket 1 (min (hiPacket.length - 1) maxChatLen)
        (List.replicate 80 0) = .ok mes' →
      ∃ m', publicChat [] 204 hiPacket (List.replicate 80 0) closedMouth = .ok m' ∧ m'.Sized ∧
        ∀ rev, if (204 ≤ 163 ↔ rev ≤ 163) then
            textFor rev m'.chat m'.compressed = (hiPacket.drop 1).take maxChatLen
          else Understood rev (textFor rev m'.chat m'.compressed) (untilNul mes') :=
  public_chat_heard [] 204 (List.cons_ne_nil _ _) List.length_replicate closedMouth_sized

theorem encode_cut (text : List Nat) (out : List UInt8) :
    encodeChatLegacy text out (min text.length maxChatLen) =
      encodeChatLegacy (text.take maxChatLen) out (min text.length maxChatLen) := by
  rw [encodeChatLegacy, encodeChatLegacy, List.take_take,
    Nat.min_eq_left (Nat.min_le_right text.length maxChatLen)]

theorem compress_cut (text : List Nat) :
    chatCompress (text.take maxChatLen) = chatCompress text := by
  unfold chatCompress
  rw [List.take_take, Nat.min_self]

/-- What a script says reaches the clients of every version, as far as it fits. -/
theorem script_say_heard (text : List Nat) (hm : m.Sized) :
    ∃ m', scriptSay text m = .ok m' ∧ m'.Sized ∧
      ∀ rev, Understood rev (textFor rev m'.chat m'.compressed) (text.take maxChatLen) := by
  have hle : min text.length maxChatLen ≤ maxChatLen := Nat.min_le_right ..
  have hshort : (text.take maxChatLen).length ≤ maxChatLen := List.length_take_le ..
  have hlen : (text.take maxChatLen).length = min text.length maxChatLen := by
    rw [List.length_take, Nat.min_comm]
  obtain ⟨chatEnc, henc, hencLen, hencTake⟩ := encode_take (show
    (text.take maxChatLen).length ≤ m.chatEnc.length by rwa [hm.chatEnc]) (Nat.le_of_eq hlen)
  obtain ⟨chatCompressed, hcomp, hcompLen, hcompTake⟩ := compress_take hshort hm.chatCompressed
  have hcompressed := length_chatCompress hshort
  rw [compress_cut] at hcomp hcompTake hcompressed
  simp only [scriptSay, encode_cut, henc, hcomp, ok_bind]
  refine ⟨_, rfl, ⟨hencLen.trans hm.chatEnc, hcompLen.trans hm.chatCompressed⟩, fun rev => ?_⟩
  by_cases hrev : rev ≤ 163
  · rw [textFor_old hrev]
    simp only [toNat_ofNat_short hle]
    rw [← hlen, hencTake]
    exact legacy_understood hrev hshort
  · have hreach := compressed_understood (show 163 < rev by omega) hshort
    rw [compress_cut] at hreach
    rw [textFor_new (by omega)]
    simp only [List.length_map, toNat_ofNat_short hcompressed, hcompTake]
    exact hreach

end

/-! ## Private messages -/

/-- A private message that can be read reaches whoever it goes to, whatever the versions
of the two. -/
theorem private_message_heard (words : List (List Nat)) (fromRev toRev privmesNum : Nat)
    (sender : Int) {data : List UInt8} (hdata : 9 < data.length) {mes : List Nat}
    (hmes : mes.length = maxChatLen) {encoded : List UInt8}
    (hencoded : encoded.length = maxChatLen) :
    (∀ e, readChat words fromRev data 9 (data.length - 9) mes = .error e →
      privateMessage words fromRev toRev privmesNum sender data mes encoded = .error e) ∧
    ∀ mes', readChat words fromRev data 9 (data.length - 9) mes = .ok mes' →
      ∃ bytes, privateMessage words fromRev toRev privmesNum sender data mes encoded =
          .ok (some (pmHeader toRev privmesNum sender ++ bytes)) ∧
        Understood toRev bytes (untilNul mes') := by
  unfold privateMessage
  rw [if_neg (by omega)]
  refine ⟨fun e h => by rw [h]; rfl, fun mes' h => ?_⟩
  have hshort := readChat_short (by omega) hmes h
  rw [h, ok_bind, playerSendPm]
  by_cases hrev : toRev ≤ 163
  · obtain ⟨out, henc, -, htake⟩ := encode_take (show
      (untilNul mes').length ≤ encoded.length by omega) (Nat.le_of_lt hshort)
    refine ⟨_, ?_, legacy_understood hrev (Nat.le_of_lt hshort)⟩
    rw [if_pos hrev, henc, ← htake]
    rfl
  · obtain ⟨out, hcomp, -, htake⟩ := compress_take (Nat.le_of_lt hshort) hencoded
    refine ⟨_, ?_, compressed_understood (by omega) (Nat.le_of_lt hshort)⟩
    simp only [if_neg hrev, List.length_map, hcomp, ok_bind, htake]
    rfl

/-- `Hi.` to a friend. -/
def hiMessage : List UInt8 := [28, 0, 0, 0, 0, 0, 0, 0, 1, 101, 235]

theorem private_message_heard_hi :
    (∀ e, readChat [] 204 hiMessage 9 (hiMessage.length - 9) (List.replicate 80 0) = .error e →
      privateMessage [] 204 110 0 2 hiMessage (List.replicate 80 0) (List.replicate 80 0) =
        .error e) ∧
    ∀ mes', readChat [] 204 hiMessage 9 (hiMessage.length - 9) (List.replicate 80 0) = .ok mes' →
      ∃ bytes, privateMessage [] 204 110 0 2 hiMessage (List.replicate 80 0)
          (List.replicate 80 0) = .ok (some (pmHeader 110 0 2 ++ bytes)) ∧
        Understood 110 bytes (untilNul mes') :=
  private_message_heard [] 204 110 0 2 (by decide) List.length_replicate List.length_replicate

end Sundae.Proofs
