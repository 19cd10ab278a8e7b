import Mathlib.Data.List.GetD
import Sundae.Lib.Nibble
import Sundae.Ref.Chat

/-!
# Chat in half bytes

The commonest characters take half a byte and the others two halves. The
writer puts the halves of one character after those of the other, whatever it
holds back of a byte, and the reader takes them off again, so they agree but
for the half that fills the last byte. The reader keeps what it reads below 80
characters with one exception: the zero behind them.
-/

namespace Sundae.Proofs

open Sundae.Ref Sundae.Lib

/-! ## What the half bytes say -/

/-- The characters spelled by half bytes, with `left` the first half of one. -/
def chatChars : Option Nat → List Nat → List Nat
  | _, [] => []
  | none, n :: ns =>
    if n < 13 then compressionTab.getD n 0 :: chatChars none ns else chatChars (some n) ns
  | some left, n :: ns => compressionTab.getD (left * 16 + n - 195) 0 :: chatChars none ns

/-- How many there are: a half below 13 is one, and any other takes the next
half with it. -/
def symbolCount : List Nat → Nat
  | [] => 0
  | [n] => if n < 13 then 1 else 0
  | m :: n :: ns => if m < 13 then 1 + symbolCount (n :: ns) else 1 + symbolCount ns

theorem length_chatChars (ns : List Nat) : (chatChars none ns).length = symbolCount ns := by
  fun_induction symbolCount ns with
  | case1 => rfl
  | case2 n h => simp [chatChars, h]
  | case3 n h => simp [chatChars, h]
  | case4 m n ns h ih => rw [chatChars, if_pos h, List.length_cons, ih, Nat.add_comm]
  | case5 m n ns h ih => rw [chatChars, if_neg h, chatChars, List.length_cons, ih, Nat.add_comm]

/-! ## The writer -/

/-- The half bytes of one code. -/
def halves (code : Nat) : List Nat := if code < 13 then [code] else [code / 16, code % 16]

/-- The half bytes of a text. -/
def chatHalves (s : List Nat) : List Nat := s.flatMap fun ch => halves (tabIndex (tolower ch))

/-- What becomes of a character on the way. -/
def chatChar (ch : Nat) : Nat :=
  if tolower ch ∈ compressionTab then tolower ch else ' '.toNat

theorem length_compressionTab : compressionTab.length = 61 := by decide

/-- A code is the index of the character, moved up behind the short ones. -/
theorem tabIndex_cases (ch : Nat) :
    ∃ j, j < 61 ∧ tabIndex ch = (if 12 < j then j + 195 else j) ∧
      compressionTab.getD j 0 = if ch ∈ compressionTab then ch else ' '.toNat := by
  cases h : compressionTab.findIdx? (· == ch) with
  | none =>
      have hnot : ch ∉ compressionTab := by
        intro hmem
        have hall := List.findIdx?_eq_none_iff.1 h ch hmem
        simp at hall
      refine ⟨0, by omega, ?_, ?_⟩
      · simp [tabIndex, h]
      · rw [if_neg hnot]
        decide
  | some j =>
      obtain ⟨hj, heq, -⟩ := List.findIdx?_eq_some_iff_getElem.1 h
      have hch : compressionTab[j] = ch := by simpa using heq
      have hmem : ch ∈ compressionTab := hch ▸ List.getElem_mem hj
      refine ⟨j, by rwa [length_compressionTab] at hj, ?_, ?_⟩
      · simp [tabIndex, h]
      · rw [if_pos hmem, List.getD_eq_getElem _ _ hj, hch]

theorem tabIndex_lt (ch : Nat) : tabIndex ch < 256 := by
  obtain ⟨j, hj, heq, -⟩ := tabIndex_cases ch
  rw [heq]
  split <;> omega

/-- The reader takes the halves of a character for that character. -/
theorem chatChars_halves (ch : Nat) (ns : List Nat) :
    chatChars none (halves (tabIndex (tolower ch)) ++ ns) = chatChar ch :: chatChars none ns := by
  obtain ⟨j, hj, heq, hchar⟩ := tabIndex_cases (tolower ch)
  rw [chatChar, ← hchar, heq, halves]
  by_cases h : 12 < j
  · have hlong : ¬ j + 195 < 13 := by omega
    have hhigh : ¬ (j + 195) / 16 < 13 := by omega
    have hback : (j + 195) / 16 * 16 + (j + 195) % 16 - 195 = j := by omega
    simp [h, hlong, hhigh, hback, chatChars]
  · have hshort : j < 13 := by omega
    simp [h, hshort, chatChars]

theorem chatChars_chatHalves (s ns : List Nat) :
    chatChars none (chatHalves s ++ ns) = s.map chatChar ++ chatChars none ns := by
  induction s with
  | nil => rfl
  | cons ch s ih =>
      rw [chatHalves, List.flatMap_cons, List.append_assoc, chatChars_halves]
      exact congrArg (chatChar ch :: ·) ih

theorem and_ff {n : Nat} (h : n < 256) : n &&& 0xff = n := by
  rw [show (0xff : Nat) = 2 ^ 8 - 1 from rfl, Nat.and_two_pow_sub_one_eq_mod]
  omega

theorem and_f (n : Nat) : n &&& 0xf = n % 16 := by
  rw [show (0xf : Nat) = 2 ^ 4 - 1 from rfl, Nat.and_two_pow_sub_one_eq_mod]

theorem shiftLeft_four (n : Nat) : n <<< 4 = n * 16 := Nat.shiftLeft_eq n 4

theorem shiftRight_four (n : Nat) : n >>> 4 = n / 16 := Nat.shiftRight_eq_div_pow n 4

/-- The writer with the half bytes `ns` behind it. -/
structure Packed (w : Compressor) (ns : List Nat) : Prop where
  written : pending w.output w.leftShift = ns
  half : ∀ l ∈ w.leftShift, l < 16
  byte : ∀ b ∈ w.output, b < 256

theorem Packed.char {w : Compressor} {ns : List Nat} (h : Packed w ns) (ch : Nat) :
    Packed (compressChar w ch) (ns ++ halves (tabIndex (tolower ch))) := by
  obtain ⟨rfl, hhalf, hbyte⟩ := h
  obtain ⟨output, leftShift⟩ := w
  have hcode := tabIndex_lt (tolower ch)
  unfold compressChar
  generalize tabIndex (tolower ch) = code at hcode
  cases leftShift with
  | none =>
      by_cases hshort : code < 13
      · simp only [hshort, if_true, halves]
        exact ⟨pending_first, by simpa using by omega, hbyte⟩
      · simp only [hshort, if_false, halves, and_ff hcode]
        refine ⟨?_, by simp, ?_⟩
        · have hsplit : code = code / 16 * 16 + code % 16 := by omega
          conv => lhs; rw [hsplit]
          exact pending_byte (by omega)
        · simpa [or_imp, forall_and] using ⟨hbyte, hcode⟩
  | some left =>
      have hleft : left < 16 := hhalf left rfl
      by_cases hshort : code < 13
      · have hsum : left * 16 + code < 256 := by omega
        simp only [hshort, if_true, halves, shiftLeft_four, and_ff hsum]
        refine ⟨pending_second (by omega), by simp, ?_⟩
        simpa [or_imp, forall_and] using ⟨hbyte, hsum⟩
      · have hsum : left * 16 + code / 16 < 256 := by omega
        simp only [hshort, if_false, halves, shiftLeft_four, shiftRight_four, and_f, and_ff hsum]
        refine ⟨pending_cross (by omega), by simpa using by omega, ?_⟩
        simpa [or_imp, forall_and] using ⟨hbyte, hsum⟩

theorem Packed.text {w : Compressor} {ns : List Nat} (h : Packed w ns) (s : List Nat) :
    Packed (s.foldl compressChar w) (ns ++ chatHalves s) := by
  induction s generalizing w ns with
  | nil => simpa [chatHalves] using h
  | cons ch s ih =>
      have hrest := ih (h.char ch)
      rwa [List.append_assoc] at hrest

/-- What is written is the half bytes of the text, and a zero where one is
needed to fill the last byte. -/
theorem nibbles_chatCompress {s : List Nat} (hs : s.length ≤ maxChatLen) :
    (∀ b ∈ chatCompress s, b < 256) ∧ ∃ pad, nibbles (chatCompress s) = chatHalves s ++ pad ∧
      (pad = [] ∨ pad = [0] ∧ (chatHalves s).length % 2 = 1) := by
  have hstart : Packed {} [] := ⟨rfl, by simp, by simp⟩
  have hpacked := hstart.text s
  rw [List.nil_append] at hpacked
  unfold chatCompress
  rw [List.take_of_length_le hs]
  generalize s.foldl compressChar {} = w at hpacked
  obtain ⟨output, leftShift⟩ := w
  obtain ⟨hwritten, hhalf, hbyte⟩ := hpacked
  cases leftShift with
  | none =>
      refine ⟨hbyte, [], ?_, .inl rfl⟩
      rw [← hwritten]
      simp [pending]
  | some left =>
      have hlt : left < 16 := hhalf left rfl
      have hsum : left * 16 < 256 := by omega
      simp only [shiftLeft_four, and_ff hsum]
      refine ⟨by simpa [or_imp, forall_and] using ⟨hbyte, hsum⟩, [0], ?_, .inr ⟨rfl, ?_⟩⟩
      · rw [← hwritten]
        have hpair : pending (output ++ [left * 16 + 0]) none = pending output (some left) ++ [0] :=
          pending_second (by omega)
        simpa [pending] using hpair
      · rw [← hwritten, pending, List.length_append, length_nibbles]
        simp only [Option.toList_some, List.length_singleton]
        omega

theorem length_chatHalves (s : List Nat) : (chatHalves s).length ≤ 2 * s.length := by
  induction s with
  | nil => simp [chatHalves]
  | cons ch s ih =>
      have hhalves : (halves (tabIndex (tolower ch))).length ≤ 2 := by
        unfold halves
        split <;> simp
      rw [chatHalves, List.flatMap_cons, List.length_append, List.length_cons]
      rw [chatHalves] at ih
      omega

theorem length_chatCompress {s : List Nat} (hs : s.length ≤ maxChatLen) :
    (chatCompress s).length ≤ maxChatLen := by
  obtain ⟨-, pad, hnibbles, hpad⟩ := nibbles_chatCompress hs
  have hlength := congrArg List.length hnibbles
  have hhalves := length_chatHalves s
  rw [length_nibbles, List.length_append] at hlength
  obtain rfl | ⟨rfl, hodd⟩ := hpad
  · simp only [List.length_nil] at hlength
    omega
  · simp only [List.length_singleton] at hlength
    omega

/-! ## The reader -/

/-- The reader with the text `cs` behind it. -/
structure Decoded (r : Decompressor) (cs : List Nat) : Prop where
  text : cs <+: r.out
  length : r.newLength = cs.length
  size : r.out.length = maxChatLen
  room : cs.length ≤ maxChatLen
  half : ∀ l ∈ r.leftShift, 13 ≤ l ∧ l < 16

/-- A character is written where there is room. -/
theorem Decoded.store {r : Decompressor} {cs : List Nat} (h : Decoded r cs)
    (hroom : cs.length < maxChatLen) (ch : Nat) :
    ∃ out, Lib.store r.out r.newLength ch = .ok out ∧
      Decoded ⟨out, r.newLength + 1, none⟩ (cs ++ [ch]) := by
  have hsize := h.size
  obtain ⟨out, hstore, hpre, hlen⟩ := store_prefix (x := ch) h.text (by omega)
  rw [← h.length] at hstore
  refine ⟨out, hstore, hpre, ?_, hlen.trans hsize, ?_, by simp⟩
  · simp [h.length]
  · simp only [List.length_append, List.length_singleton]
    omega

theorem load_compressionTab {i : Nat} (h : i < 61) :
    load compressionTab (i : Int) = .ok (compressionTab.getD i 0) := by
  rw [← length_compressionTab] at h
  rw [load_lt h, List.getD_eq_getElem _ _ h]

/-- Half a byte adds its character, if it ends one. -/
theorem Decoded.half_step {r : Decompressor} {cs : List Nat} (h : Decoded r cs)
    (hroom : cs.length < maxChatLen) {i : Nat} (hi : i < 16) :
    ∃ r' ds, decompressHalf i r = .ok r' ∧ Decoded r' (cs ++ ds) ∧
      ∀ ns, chatChars r.leftShift (i :: ns) = ds ++ chatChars r'.leftShift ns := by
  unfold decompressHalf
  cases hleft : r.leftShift with
  | none =>
      by_cases hshort : i < 13
      · obtain ⟨out, hstore, hnext⟩ := h.store hroom (compressionTab.getD i 0)
        refine ⟨⟨out, r.newLength + 1, none⟩, [compressionTab.getD i 0], ?_, hnext, ?_⟩
        · simp only [hshort, if_true, load_compressionTab (show i < 61 by omega), ok_bind, hstore]
          rfl
        · intro ns
          simp [chatChars, hshort]
      · refine ⟨{ r with leftShift := some i }, [], ?_, ?_, ?_⟩
        · simp only [hshort, if_false]
          rfl
        · rw [List.append_nil]
          exact ⟨h.text, h.length, h.size, h.room, by simpa using by omega⟩
        · intro ns
          simp [chatChars, hshort]
  | some left =>
      have hbounds := h.half left (by rw [hleft]; rfl)
      have hindex : ((left * 16 + i : Nat) : Int) - 195 = ((left * 16 + i - 195 : Nat) : Int) := by
        omega
      obtain ⟨out, hstore, hnext⟩ := h.store hroom (compressionTab.getD (left * 16 + i - 195) 0)
      refine ⟨⟨out, r.newLength + 1, none⟩, [compressionTab.getD (left * 16 + i - 195) 0], ?_,
        hnext, ?_⟩
      · simp only [shiftLeft_four, hindex, ok_bind, hstore,
          load_compressionTab (show left * 16 + i - 195 < 61 by omega)]
        rfl
      · intro ns
        simp [chatChars]

/-- The loop reads within its bytes and ends with what they spell, cut off
where the buffer ends. -/
theorem Decoded.loop {buffer : List Nat} (hbytes : ∀ b ∈ buffer, b < 256) (n offset : Nat)
    (hin : offset + n ≤ buffer.length) {r : Decompressor} {cs : List Nat} (h : Decoded r cs) :
    ∃ r', decompressLoop buffer n offset r = .ok r' ∧
      Decoded r' ((cs ++ chatChars r.leftShift
        (nibbles ((buffer.drop offset).take n))).take maxChatLen) := by
  induction n generalizing offset r cs with
  | zero =>
      refine ⟨r, rfl, ?_⟩
      rw [List.take_zero, nibbles]
      cases hleft : r.leftShift <;>
        simpa [chatChars, List.take_of_length_le h.room] using h
  | succ n ih =>
      have hlt : offset < buffer.length := by omega
      have hcur : buffer[offset] < 256 := hbytes _ (List.getElem_mem hlt)
      rw [List.drop_eq_getElem_cons hlt, List.take_succ_cons, nibbles, decompressLoop,
        load_lt hlt]
      generalize buffer[offset] = cur at hcur
      have hhigh : (cur >>> 4) &&& 0xf = cur / 16 := by
        rw [and_f, shiftRight_four]
        omega
      -- a full buffer is the text already
      have hfull : ∀ {r : Decompressor} {cs : List Nat} (rest : List Nat), Decoded r cs →
          maxChatLen ≤ r.newLength → Decoded r ((cs ++ rest).take maxChatLen) := by
        intro r cs rest h hfull
        rw [h.length] at hfull
        rwa [List.take_append_of_le_length hfull, List.take_of_length_le h.room]
      by_cases hend : maxChatLen ≤ r.newLength
      · refine ⟨r, ?_, hfull _ h hend⟩
        show (if maxChatLen ≤ r.newLength then _ else _) = _
        rw [if_pos hend]
        rfl
      have hroom : cs.length < maxChatLen := by
        rw [h.length] at hend
        omega
      obtain ⟨r₁, ds, hstep, h₁, hchars⟩ := h.half_step hroom (show cur / 16 < 16 by omega)
      rw [hchars]
      by_cases hend₁ : maxChatLen ≤ r₁.newLength
      · refine ⟨r₁, ?_, ?_⟩
        · show (if maxChatLen ≤ r.newLength then _ else _) = _
          rw [if_neg hend, hhigh, hstep]
          show (if maxChatLen ≤ r₁.newLength then _ else _) = _
          rw [if_pos hend₁]
          rfl
        · rw [← List.append_assoc]
          exact hfull _ h₁ hend₁
      have hroom₁ : (cs ++ ds).length < maxChatLen := by
        rw [h₁.length] at hend₁
        omega
      obtain ⟨r₂, es, hstep₁, h₂, hchars₁⟩ := h₁.half_step hroom₁ (show cur % 16 < 16 by omega)
      obtain ⟨r', hloop, hr'⟩ := ih (offset + 1) (by omega) h₂
      refine ⟨r', ?_, ?_⟩
      · show (if maxChatLen ≤ r.newLength then _ else _) = _
        rw [if_neg hend, hhigh, hstep]
        show (if maxChatLen ≤ r₁.newLength then _ else _) = _
        rw [if_neg hend₁, and_f, hstep₁]
        exact hloop
      · rw [hchars₁]
        simpa [List.append_assoc] using hr'

theorem holding_start {out : List Nat} (hout : out.length = maxChatLen) :
    Decoded { out := out } [] :=
  ⟨List.nil_prefix, rfl, hout, Nat.zero_le _, by simp⟩

/-- What was said arrives in small letters, with blanks for what has no code
and perhaps one blank at the end, where the last byte was not full. -/
theorem chat_round_trip (s out : List Nat) (hs : s.length ≤ maxChatLen)
    (hout : out.length = maxChatLen) :
    (chatCompress s).length ≤ maxChatLen ∧
      ∃ r pad, decompressLoop (chatCompress s) (chatCompress s).length 0 { out := out } = .ok r ∧
        r.out.take r.newLength = s.map chatChar ++ pad ∧
          (pad = [] ∨ pad = [' '.toNat] ∧ (chatHalves s).length % 2 = 1) := by
  refine ⟨length_chatCompress hs, ?_⟩
  obtain ⟨hbytes, pad, hnibbles, hpad⟩ := nibbles_chatCompress hs
  obtain ⟨r, hloop, hr⟩ := (holding_start hout).loop hbytes (chatCompress s).length 0 (by omega)
  have htext := List.prefix_iff_eq_take.1 hr.text
  rw [← hr.length] at htext
  rw [List.nil_append, List.drop_zero, List.take_length, hnibbles, chatChars_chatHalves] at htext
  have hlength : (s.map chatChar).length ≤ maxChatLen := by rwa [List.length_map]
  obtain rfl | ⟨rfl, hodd⟩ := hpad
  · refine ⟨r, [], hloop, ?_, .inl rfl⟩
    rw [← htext]
    exact List.take_of_length_le (by simpa [chatChars] using hs)
  · have hblank : chatChars none [0] = [' '.toNat] := by decide
    rw [hblank] at htext
    by_cases hend : s.length = maxChatLen
    · refine ⟨r, [], hloop, ?_, .inl rfl⟩
      rw [← htext, List.append_nil, List.take_append_of_le_length (by simp [hend])]
      exact List.take_of_length_le hlength
    · refine ⟨r, [' '.toNat], hloop, ?_, .inr ⟨rfl, hodd⟩⟩
      rw [← htext]
      apply List.take_of_length_le
      rw [List.length_append, List.length_map, List.length_singleton]
      omega

theorem chat_round_trip_hello :
    (chatCompress (['H', 'e', 'l', 'l', 'o', '^'].map Char.toNat)).length ≤ maxChatLen ∧
      ∃ r pad, decompressLoop (chatCompress (['H', 'e', 'l', 'l', 'o', '^'].map Char.toNat))
          (chatCompress (['H', 'e', 'l', 'l', 'o', '^'].map Char.toNat)).length 0
          { out := List.replicate 80 0 } = .ok r ∧
        r.out.take r.newLength = (['H', 'e', 'l', 'l', 'o', '^'].map Char.toNat).map chatChar ++ pad ∧
          (pad = [] ∨ pad = [' '.toNat] ∧
            (chatHalves (['H', 'e', 'l', 'l', 'o', '^'].map Char.toNat)).length % 2 = 1) :=
  chat_round_trip _ (List.replicate 80 0) (by decide) (by decide)

/-! ## Where the reader writes -/

theorem storeIf_inside {i : Nat} {out : List Nat} (hi : i < out.length) (c : Bool) (ch : Nat) :
    ∃ out', storeIf c out i ch = .ok out' ∧ out'.length = out.length := by
  cases c with
  | false => exact ⟨out, rfl, rfl⟩
  | true => exact ⟨out.set i ch, store_lt hi, List.length_set⟩

theorem capitalise_inside {i : Nat} {out : List Nat} (hi : i < out.length) (newSentence : Bool) :
    ∃ out' newSentence', capitalise i out newSentence = .ok (out', newSentence') ∧
      out'.length = out.length := by
  obtain ⟨out₁, h₁, hlen₁⟩ := storeIf_inside hi (decide (4 < i) && out[i] == '@'.toNat) ' '.toNat
  have hi₁ : i < out₁.length := by omega
  obtain ⟨out₂, h₂, hlen₂⟩ := storeIf_inside hi₁ (out[i] == '%'.toNat) ' '.toNat
  have hi₂ : i < out₂.length := by omega
  obtain ⟨out₃, h₃, hlen₃⟩ := storeIf_inside hi₂
    (newSentence && decide ('a'.toNat ≤ out[i]) && decide (out[i] ≤ 'z'.toNat)) (toupper out₂[i])
  have hrun : ∃ newSentence', capitalise i out newSentence = .ok (out₃, newSentence') := by
    unfold capitalise
    simp only [load_lt hi, ok_bind, h₁, h₂, load_lt hi₂, h₃]
    exact ⟨_, rfl⟩
  obtain ⟨newSentence', hrun⟩ := hrun
  exact ⟨out₃, newSentence', hrun, hlen₃.trans (hlen₂.trans hlen₁)⟩

theorem capitaliseLoop_inside (n i : Nat) {out : List Nat} (hin : i + n ≤ out.length)
    (newSentence : Bool) :
    ∃ out', capitaliseLoop n i out newSentence = .ok out' ∧ out'.length = out.length := by
  induction n generalizing i out newSentence with
  | zero => exact ⟨out, rfl, rfl⟩
  | succ n ih =>
      obtain ⟨out₁, newSentence₁, hone, hlen₁⟩ := capitalise_inside
        (show i < out.length by omega) newSentence
      obtain ⟨out₂, hloop, hlen₂⟩ := ih (i + 1) (show i + 1 + n ≤ out₁.length by omega) newSentence₁
      refine ⟨out₂, ?_, hlen₂.trans hlen₁⟩
      rw [capitaliseLoop, hone, ok_bind]
      exact hloop

/-- Of all that is read and written only the last zero can be out of place. -/
theorem chatDecompress_eq {buffer out : List Nat} {offset len : Nat}
    (hbytes : ∀ b ∈ buffer, b < 256) (hin : offset + len ≤ buffer.length)
    (hout : out.length = maxChatLen) :
    (symbolCount (nibbles ((buffer.drop offset).take len)) < maxChatLen →
        ∃ res, chatDecompress buffer offset len out = .ok res) ∧
      (maxChatLen ≤ symbolCount (nibbles ((buffer.drop offset).take len)) →
        chatDecompress buffer offset len out = .error (.write maxChatLen)) := by
  obtain ⟨r, hloop, hr⟩ := (holding_start hout).loop hbytes len offset hin
  have hlength := hr.length
  rw [List.nil_append, List.length_take, length_chatChars] at hlength
  have hsize := hr.size
  obtain ⟨out₁, hcaps, hlen₁⟩ := capitaliseLoop_inside r.newLength 0
    (show 0 + r.newLength ≤ r.out.length by omega) true
  have hrun : chatDecompress buffer offset len out =
      (Lib.store out₁ r.newLength 0 >>= fun out => pure (out, r.newLength)) := by
    unfold chatDecompress
    rw [hloop, ok_bind, hcaps, ok_bind]
  rw [hrun]
  constructor
  · intro hfew
    rw [store_lt (show r.newLength < out₁.length by omega), ok_bind]
    exact ⟨_, rfl⟩
  · intro hmany
    have hfull : r.newLength = maxChatLen := by omega
    rw [store_ge (show out₁.length ≤ r.newLength by omega), hfull]
    rfl

/-- The bytes that are given to `chat_decompress`: of a packet of public chat
at most 80 behind the opcode, of a private message all behind the name. -/
def Handed (data : List Nat) (offset len : Nat) : Prop :=
  (0 < data.length ∧ offset = 1 ∧ len = min (data.length - 1) maxChatLen) ∨
    (9 < data.length ∧ offset = 9 ∧ len = data.length - 9)

/-- The bytes behind the length that is given are not there at all here.
`chat_decompress` stays inside its arrays exactly when the message has no more
characters than leave room for the zero, and writes that zero past the end of
the buffer when it has more. -/
theorem chat_decompress_safe_iff (data out : List Nat) (offset len : Nat)
    (hbytes : ∀ b ∈ data, b < 256) (hgiven : Handed data offset len)
    (hout : out.length = maxChatLen) :
    ((∃ res, chatDecompress (data.take (offset + len)) offset len out = .ok res) ↔
        symbolCount (nibbles ((data.drop offset).take len)) < maxChatLen) ∧
      ∀ e, chatDecompress (data.take (offset + len)) offset len out = .error e →
        e = .write maxChatLen := by
  have hfit : offset + len ≤ data.length := by
    rcases hgiven with ⟨hpos, rfl, rfl⟩ | ⟨hlong, rfl, rfl⟩
    · have hmin := Nat.min_le_left (data.length - 1) maxChatLen
      omega
    · omega
  have hwindow : ((data.take (offset + len)).drop offset).take len = (data.drop offset).take len := by
    rw [List.drop_take, Nat.add_sub_cancel_left, List.take_take, Nat.min_self]
  have hin : offset + len ≤ (data.take (offset + len)).length := by
    rw [List.length_take]
    omega
  obtain ⟨hfew, hmany⟩ := chatDecompress_eq (fun b hb => hbytes b (List.mem_of_mem_take hb)) hin hout
  rw [hwindow] at hfew hmany
  by_cases hcount : symbolCount (nibbles ((data.drop offset).take len)) < maxChatLen
  · obtain ⟨res, hres⟩ := hfew hcount
    refine ⟨iff_of_true ⟨res, hres⟩ hcount, ?_⟩
    intro e herror
    rw [hres] at herror
    cases herror
  · have hover := hmany (by omega)
    rw [hover]
    refine ⟨iff_of_false ?_ hcount, ?_⟩
    · rintro ⟨res, hres⟩
      cases hres
    · intro e herror
      cases herror
      rfl

theorem chat_decompress_safe_hello :
    ((∃ res, chatDecompress ([216, 97, 187, 64].take (1 + 3)) 1 3 (List.replicate 80 0) = .ok res) ↔
        symbolCount (nibbles (([216, 97, 187, 64].drop 1).take 3)) < maxChatLen) ∧
      ∀ e, chatDecompress ([216, 97, 187, 64].take (1 + 3)) 1 3 (List.replicate 80 0) = .error e →
        e = .write maxChatLen :=
  chat_decompress_safe_iff [216, 97, 187, 64] (List.replicate 80 0) 1 3 (by decide)
    (.inl (by decide)) (by decide)

/-- Forty bytes of public chat are eighty blanks, and the zero behind them has
no room. -/
theorem long_chat_overruns :
    Handed (216 :: List.replicate 40 0) 1 40 ∧
      chatDecompress (216 :: List.replicate 40 0) 1 40 (List.replicate 80 0) =
        .error (.write 80) := by
  refine ⟨.inl (by decide), ?_⟩
  exact (chatDecompress_eq (by decide) (by decide) (by decide)).2 (by decide)

end Sundae.Proofs
