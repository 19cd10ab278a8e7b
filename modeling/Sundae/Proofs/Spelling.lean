import Mathlib.Data.List.TakeWhile
import Sundae.Lib.Numeral
import Sundae.Proofs.Login
import Sundae.Proofs.Name
import Sundae.Ref.Incoming

/-!
# Names and the numbers they are kept as

A name is a numeral of base 37: a blank is the digit 0, the letters are 1 to
26, the figures 27 to 36. Reading it is exact as long as the numeral fits an
`int64_t`, and its number gives it back but for the blanks it starts with and
for its capitals, which are then where words begin.
-/

namespace Sundae.Proofs

open Sundae.Ref Sundae.Lib

/-! ## Characters -/

/-- `username_sanitize` of one character. -/
def sanitizeChar (c : Char) : Char :=
  if c.isUpper then c.toLower else if c.isAlphanum then c else ' '

theorem usernameSanitize_eq (s : List Char) : usernameSanitize s = s.map sanitizeChar := rfl

/-- The digit a character of a name counts as. -/
def charDigit (c : Char) : Nat := nameencDigit (sanitizeChar c)

def nameDigits (s : List Char) : List Nat := s.map charDigit

/-- `mod37_namedec` of one digit, at the start of a word or within one. -/
def digitChar (start : Bool) (d : Nat) : Char := namedecChar d (if start then 0 else 1)

theorem namedecChar_eq (d rest : Nat) : namedecChar d rest = digitChar (rest % 37 == 0) d := by
  unfold digitChar
  by_cases h : rest % 37 = 0
  · simp [namedecChar, h]
  · simp [namedecChar, h]

/-- Only ASCII has letters and figures. -/
theorem ascii_of_alphanum {c : Char} (h : c.isAlphanum = true) : c.toNat < 128 := by
  have hval : c.toNat = c.val.toNat := rfl
  have hkind : (c.isUpper || c.isLower || c.isDigit) = true := h
  delta Char.isUpper Char.isLower Char.isDigit at hkind
  simp only [Bool.or_eq_true, Bool.and_eq_true, decide_eq_true_eq,
    UInt32.le_iff_toNat_le] at hkind
  rw [hval]
  have hupper : 'Z'.val.toNat = 90 := rfl
  have hlower : 'z'.val.toNat = 122 := rfl
  have hfigure : '9'.val.toNat = 57 := rfl
  omega

/-- What holds of all letters and figures is seen by going through them. -/
theorem forall_alphanum {p : Char → Prop} [DecidablePred p]
    (h : ∀ n < 128, (Char.ofNat n).isAlphanum = true → p (Char.ofNat n)) {c : Char}
    (hc : c.isAlphanum = true) : p c := by
  have hlt := ascii_of_alphanum hc
  rw [← Char.ofNat_toNat c] at hc ⊢
  exact h c.toNat hlt hc

theorem sanitizeChar_other {c : Char} (h : c.isAlphanum = false) : sanitizeChar c = ' ' := by
  have hkind : (c.isUpper || c.isLower || c.isDigit) = false := h
  have hupper : c.isUpper = false := by
    rw [Bool.or_eq_false_iff, Bool.or_eq_false_iff] at hkind
    exact hkind.1.1
  rw [sanitizeChar, hupper, h]
  rfl

theorem charDigit_other {c : Char} (h : c.isAlphanum = false) : charDigit c = 0 := by
  rw [charDigit, sanitizeChar_other h]
  decide

theorem charDigit_alphanum {c : Char} (h : c.isAlphanum = true) :
    0 < charDigit c ∧ charDigit c < 37 ∧ sanitizeChar c = lowerDigit (charDigit c) :=
  forall_alphanum (p := fun c => 0 < charDigit c ∧ charDigit c < 37 ∧
    sanitizeChar c = lowerDigit (charDigit c)) (by decide) h

theorem charDigit_lt (c : Char) : charDigit c < 37 := by
  cases h : c.isAlphanum with
  | true => exact (charDigit_alphanum h).2.1
  | false =>
      rw [charDigit_other h]
      omega

theorem charDigit_eq_zero {c : Char} : charDigit c = 0 ↔ c.isAlphanum = false := by
  constructor
  · intro hzero
    by_contra h
    have hpos := (charDigit_alphanum (by simpa using h)).1
    omega
  · exact charDigit_other

theorem sanitizeChar_eq (c : Char) : sanitizeChar c = lowerDigit (charDigit c) := by
  cases h : c.isAlphanum with
  | true => exact (charDigit_alphanum h).2.2
  | false =>
      rw [sanitizeChar_other h, charDigit_other h]
      rfl

/-- The digit comes back from the character written for it. -/
theorem charDigit_digitChar (start : Bool) {d : Nat} (hd : d < 37) :
    charDigit (digitChar start d) = d := by
  have hall : ∀ start : Bool, ∀ d < 37, charDigit (digitChar start d) = d := by decide
  exact hall start d hd

theorem nameDigits_lt (s : List Char) : ∀ d ∈ nameDigits s, d < 37 := by
  intro d hd
  obtain ⟨c, -, rfl⟩ := List.mem_map.1 hd
  exact charDigit_lt c

/-- Two names are sanitized alike when their digits are the same. -/
theorem usernameSanitize_eq_iff {s t : List Char} :
    usernameSanitize s = usernameSanitize t ↔ nameDigits s = nameDigits t := by
  have hback : ∀ s, usernameSanitize s = (nameDigits s).map lowerDigit := by
    intro s
    rw [usernameSanitize_eq, nameDigits, List.map_map]
    exact List.map_congr_left fun c _ => sanitizeChar_eq c
  have hforth : ∀ s, nameDigits s = (usernameSanitize s).map nameencDigit := by
    intro s
    rw [usernameSanitize_eq, nameDigits, List.map_map]
    rfl
  constructor
  · intro h
    rw [hforth, hforth, h]
  · intro h
    rw [hback, hback, h]

/-! ## Reading a name -/

theorem int64_ok {n : Nat} (h : n < 2 ^ 63) : int64 n = .ok (n : Int) := by
  unfold int64
  rw [if_pos (by omega)]

theorem int64_overflow {n : Nat} (h : ¬ n < 2 ^ 63) : int64 n = .error .overflow := by
  unfold int64
  rw [if_neg (by omega)]

section

variable {c : Char} {cs : List Char} {e m : Int} {f : NameFault}

theorem nameencLoop_read {m' : Int} (hmul : int64 (e * 37) = .ok m)
    (hadd : int64 (m + nameencDigit c) = .ok m') :
    nameencLoop (c :: cs) e = nameencLoop cs m' := by
  rw [nameencLoop, hmul]
  simp only [hadd]

theorem nameencLoop_mul (hmul : int64 (e * 37) = .error f) :
    nameencLoop (c :: cs) e = .error f := by
  rw [nameencLoop, hmul]

theorem nameencLoop_add (hmul : int64 (e * 37) = .ok m)
    (hadd : int64 (m + nameencDigit c) = .error f) : nameencLoop (c :: cs) e = .error f := by
  rw [nameencLoop, hmul]
  simp only [hadd]

end

/-- No sum on the way is larger than the last one. -/
theorem nameencLoop_eq (cs : List Char) (n : Nat) (hn : n < 2 ^ 63) :
    nameencLoop cs n =
      if numeralFrom 37 n (cs.map nameencDigit) < 2 ^ 63 then
        .ok (numeralFrom 37 n (cs.map nameencDigit) : Nat)
      else .error .overflow := by
  induction cs generalizing n with
  | nil =>
      rw [List.map_nil, numeralFrom_nil, if_pos hn]
      rfl
  | cons c cs ih =>
      rw [List.map_cons, numeralFrom_cons]
      have hgrow : n * 37 + nameencDigit c ≤
          numeralFrom 37 (n * 37 + nameencDigit c) (cs.map nameencDigit) := le_numeralFrom (by omega)
      have hmul : (n : Int) * 37 = ((n * 37 : Nat) : Int) := by omega
      have hadd : ((n * 37 : Nat) : Int) + (nameencDigit c : Int) =
          ((n * 37 + nameencDigit c : Nat) : Int) := by omega
      by_cases hfirst : n * 37 < 2 ^ 63
      · have hok := int64_ok hfirst
        rw [← hmul] at hok
        by_cases hsecond : n * 37 + nameencDigit c < 2 ^ 63
        · have hok' := int64_ok hsecond
          rw [← hadd] at hok'
          rw [nameencLoop_read hok hok']
          exact ih _ hsecond
        · have hover := int64_overflow hsecond
          rw [← hadd] at hover
          rw [nameencLoop_add hok hover, if_neg (by omega)]
      · have hover := int64_overflow hfirst
        rw [← hmul] at hover
        rw [nameencLoop_mul hover, if_neg (by omega)]

theorem sanitizedWrites_inside {len : Nat} (h : len < 20) :
    (sanitizedWrites len).find? (sanitizedSize ≤ ·) = none := by
  rw [List.find?_eq_none]
  intro i hi
  have hlt : i < len ∨ i = len + 1 := by simpa [sanitizedWrites] using hi
  have hsize : sanitizedSize = 21 := rfl
  simp only [decide_eq_true_eq]
  omega

theorem nameencChecked_eq {s : List Char} (h : s.length < 20) :
    nameencChecked s =
      if numeral 37 (nameDigits s) < 2 ^ 63 then .ok (numeral 37 (nameDigits s) : Nat)
      else .error .overflow := by
  have hdigits : (usernameSanitize s).map nameencDigit = nameDigits s := by
    rw [usernameSanitize_eq, List.map_map]
    rfl
  unfold nameencChecked
  rw [if_neg (by omega), sanitizedWrites_inside h]
  have hloop := nameencLoop_eq (usernameSanitize s) 0 (by omega)
  rwa [hdigits] at hloop

/-- The one name length that is accepted and has no room. -/
theorem nameencChecked_overrun {s : List Char} (h : s.length = 20) :
    nameencChecked s = .error (.outOfBounds 21) := by
  have hfind : (sanitizedWrites 20).find? (sanitizedSize ≤ ·) = some 21 := by decide
  unfold nameencChecked
  rw [if_neg (by omega), h, hfind]

/-- Where nothing is undefined, the number is the one that wraps. -/
theorem mod37Nameenc_of_checked {s : List Char} {n : Int} (h : nameencChecked s = .ok n) :
    mod37Nameenc s = n := by
  have hloop : ∀ (cs : List Char) (m : Int), nameencLoop cs m = .ok n →
      cs.foldl (fun encoded c => wrap64 (encoded * 37 + nameencDigit c)) m = n := by
    intro cs
    induction cs with
    | nil => exact fun m h => Except.ok.inj h
    | cons c cs ih =>
        intro m h
        rw [nameencLoop] at h
        split at h
        · cases h
        · next m' hmul =>
          split at h
          · cases h
          · next m'' hadd =>
            have hsame : ∀ {a b : Int}, int64 a = .ok b → a = b ∧ wrap64 a = b := by
              intro a b hab
              unfold int64 at hab
              split at hab
              · next hrange =>
                obtain rfl := Except.ok.inj hab
                refine ⟨rfl, ?_⟩
                unfold wrap64
                rw [Int.bmod_eq_of_le (by omega) (by omega)]
              · cases hab
            obtain ⟨rfl, -⟩ := hsame hmul
            obtain ⟨-, hwrap⟩ := hsame hadd
            rw [List.foldl_cons, hwrap]
            exact ih m'' h
  unfold nameencChecked at h
  unfold mod37Nameenc
  split at h
  · next hlong =>
    rw [if_pos hlong]
    exact Except.ok.inj h
  · next hlong =>
    rw [if_neg hlong]
    split at h
    · cases h
    · exact hloop _ 0 h

/-! ## Writing a number -/

/-- The digits of a number as `mod37_namedec` writes them, the first one first.
`start` is whether a word begins. -/
def spell : Bool → List Nat → List Char
  | _, [] => []
  | start, d :: ds => digitChar start d :: spell (d == 0) ds

theorem spell_concat (ds : List Nat) (d : Nat) (start : Bool) :
    spell start (ds ++ [d]) =
      spell start ds ++ [digitChar ((ds.getLast?.map (· == 0)).getD start) d] := by
  induction ds generalizing start with
  | nil => rfl
  | cons e ds ih =>
      rw [List.cons_append, spell, ih, spell, List.cons_append]
      cases ds with
      | nil => rfl
      | cons f ds => rw [List.getLast?_cons_cons]; rfl

theorem length_spell (ds : List Nat) (start : Bool) : (spell start ds).length = ds.length := by
  induction ds generalizing start with
  | nil => rfl
  | cons d ds ih => rw [spell, List.length_cons, List.length_cons, ih]

theorem nameDigits_spell {ds : List Nat} (hds : ∀ d ∈ ds, d < 37) (start : Bool) :
    nameDigits (spell start ds) = ds := by
  induction ds generalizing start with
  | nil => rfl
  | cons d ds ih =>
      show charDigit (digitChar start d) :: nameDigits (spell (d == 0) ds) = d :: ds
      rw [charDigit_digitChar start (hds d List.mem_cons_self),
        ih fun x hx => hds x (List.mem_cons_of_mem _ hx)]

/-- The loop takes the digits off from behind. -/
theorem namedecLoop_numeral {ds : List Nat} (hds : ∀ d ∈ ds, d < 37)
    (hhead : ∀ d ∈ ds.head?, d ≠ 0) :
    ∀ {k : Nat}, ds.length ≤ k → namedecLoop k (numeral 37 ds) = (spell true ds).reverse := by
  induction ds using List.reverseRecOn with
  | nil =>
      intro k _
      cases k <;> rfl
  | append_singleton ds d ih =>
      intro k hk
      rw [List.length_append, List.length_singleton] at hk
      obtain ⟨k, rfl⟩ : ∃ j, k = j + 1 := ⟨k - 1, by omega⟩
      have hd : d < 37 := hds d (List.mem_append_right _ (List.mem_singleton_self d))
      have hds' : ∀ x ∈ ds, x < 37 := fun x hx => hds x (List.mem_append_left _ hx)
      have hhead' : ∀ x ∈ ds.head?, x ≠ 0 := by
        intro x hx
        apply hhead
        rw [List.head?_append, Option.mem_def.1 hx]
        rfl
      have hmod : (numeral 37 ds * 37 + d) % 37 = d := by omega
      have hdiv : (numeral 37 ds * 37 + d) / 37 = numeral 37 ds := by omega
      -- a word begins after a blank, and at the very start
      have hstart : (numeral 37 ds % 37 == 0) = (ds.getLast?.map (· == 0)).getD true := by
        rcases List.eq_nil_or_concat ds with rfl | ⟨es, e, rfl⟩
        · rfl
        · rw [List.concat_eq_append] at hds' ⊢
          have he : e < 37 := hds' e (List.mem_append_right _ (List.mem_singleton_self e))
          have hlast : (numeral 37 es * 37 + e) % 37 = e := by omega
          rw [numeral_concat, hlast, List.getLast?_concat]
          rfl
      have hne : numeral 37 (ds ++ [d]) ≠ 0 := by
        intro hzero
        have hdigits := digits_numeral (by omega) hds hhead
        rw [hzero, Nat.digits_zero] at hdigits
        simp at hdigits
      rw [namedecLoop, if_neg hne, numeral_concat, hmod, hdiv, ih hds' hhead' (by omega),
        namedecChar_eq, hstart, spell_concat, List.reverse_append]
      rfl

theorem mod37Namedec_numeral {ds : List Nat} (hds : ∀ d ∈ ds, d < 37)
    (hhead : ∀ d ∈ ds.head?, d ≠ 0) (hne : ds ≠ []) (hlen : ds.length ≤ 13) :
    mod37Namedec (numeral 37 ds : Nat) = spell true ds := by
  have hloop := namedecLoop_numeral hds hhead hlen
  have hlength : (namedecLoop 13 (numeral 37 ds)).length ≠ 0 := by
    rw [hloop, List.length_reverse, length_spell]
    exact fun h => hne (List.length_eq_zero_iff.1 h)
  unfold mod37Namedec
  rw [if_neg (by omega), Int.toNat_natCast]
  simp only [hlength, if_false]
  rw [hloop, List.reverse_reverse]

/-! ## There and back -/

/-- A name with blanks for all but letters and figures, its letters capital
where a word begins and small elsewhere. `start` is whether a word begins. -/
def normalForm : Bool → List Char → List Char
  | _, [] => []
  | start, c :: cs =>
    if c.isAlpha then (if start then c.toUpper else c.toLower) :: normalForm false cs
    else if c.isDigit then c :: normalForm false cs
    else ' ' :: normalForm true cs

theorem digitChar_charDigit (start : Bool) {c : Char} (h : c.isAlphanum = true) :
    digitChar start (charDigit c) =
      if c.isAlpha then (if start then c.toUpper else c.toLower) else c := by
  cases start with
  | true =>
      exact forall_alphanum (p := fun c => digitChar true (charDigit c) =
        if c.isAlpha then (if true then c.toUpper else c.toLower) else c) (by decide) h
  | false =>
      exact forall_alphanum (p := fun c => digitChar false (charDigit c) =
        if c.isAlpha then (if false then c.toUpper else c.toLower) else c) (by decide) h

theorem spell_nameDigits (s : List Char) (start : Bool) :
    spell start (nameDigits s) = normalForm start s := by
  induction s generalizing start with
  | nil => rfl
  | cons c s ih =>
      show digitChar start (charDigit c) :: spell (charDigit c == 0) (nameDigits s) = _
      rw [ih, normalForm]
      cases h : c.isAlphanum with
      | true =>
          have hzero : (charDigit c == 0) = false := by
            have hpos := (charDigit_alphanum h).1
            simp only [beq_eq_false_iff_ne]
            omega
          rw [digitChar_charDigit start h, hzero]
          by_cases halpha : c.isAlpha = true
          · rw [if_pos halpha, if_pos halpha]
          · have hdigit : c.isDigit = true := by
              rw [Char.isAlphanum, Bool.or_eq_true] at h
              exact h.resolve_left halpha
            rw [if_neg halpha, if_neg halpha, if_pos hdigit]
      | false =>
          have hother := h
          rw [Char.isAlphanum, Bool.or_eq_false_iff] at hother
          rw [charDigit_other h, hother.1, hother.2]
          cases start <;> rfl

/-- Names differ in digits as they differ in their normal forms. -/
theorem normalForm_eq_iff {s t : List Char} (start : Bool) :
    normalForm start s = normalForm start t ↔ nameDigits s = nameDigits t := by
  rw [← spell_nameDigits, ← spell_nameDigits]
  constructor
  · intro h
    rw [← nameDigits_spell (nameDigits_lt s) start, h, nameDigits_spell (nameDigits_lt t)]
  · exact congrArg (spell start)

/-- The digits of a number from the first one on. -/
theorem exists_numeral {n : Nat} (hpos : 0 < n) (hn : n < 2 ^ 63) :
    ∃ ds, numeral 37 ds = n ∧ (∀ d ∈ ds, d < 37) ∧ (∀ d ∈ ds.head?, d ≠ 0) ∧
      ds ≠ [] ∧ ds.length ≤ 13 := by
  have hne : Nat.digits 37 n ≠ [] := by
    rw [Nat.digits_ne_nil_iff_ne_zero]
    omega
  refine ⟨(Nat.digits 37 n).reverse, ?_, ?_, ?_, ?_, ?_⟩
  · rw [numeral_eq_ofDigits, List.reverse_reverse, Nat.ofDigits_digits]
  · exact fun d hd => Nat.digits_lt_base (by omega) (List.mem_reverse.1 hd)
  · intro d hd
    rw [List.head?_reverse, List.getLast?_eq_some_getLast hne, Option.mem_some_iff] at hd
    rw [← hd]
    exact Nat.getLast_digit_ne_zero 37 (by omega)
  · simpa using hne
  · rw [List.length_reverse, Nat.digits_length_le_iff (by omega)]
    omega

theorem nameencChecked_namedec {n : Nat} (hpos : 0 < n) (hn : n < 2 ^ 63) :
    nameencChecked (mod37Namedec n) = .ok (n : Int) := by
  obtain ⟨ds, rfl, hds, hhead, hne, hlen⟩ := exists_numeral hpos hn
  rw [mod37Namedec_numeral hds hhead hne hlen,
    nameencChecked_eq (by rw [length_spell]; omega), nameDigits_spell hds, if_pos hn]

theorem numeral_nameDigits_lt {s : List Char} (h : s.length ≤ 12) :
    numeral 37 (nameDigits s) < 2 ^ 63 := by
  have hlt := numeral_lt (by omega) (nameDigits_lt s)
  have hlength : (nameDigits s).length = s.length := List.length_map _
  have hmono : 37 ^ s.length ≤ 37 ^ 12 := Nat.pow_le_pow_right (by omega) h
  rw [hlength] at hlt
  omega

theorem nameencChecked_short {s : List Char} (h : s.length ≤ 12) :
    nameencChecked s = .ok (numeral 37 (nameDigits s) : Nat) := by
  rw [nameencChecked_eq (by omega), if_pos (numeral_nameDigits_lt h)]

/-- A name that starts with a letter or a figure has no leading zero. -/
theorem nameDigits_head {s : List Char} (h : ∃ c ∈ s.head?, c.isAlphanum = true) :
    ∀ d ∈ (nameDigits s).head?, d ≠ 0 := by
  obtain ⟨c, hc, halnum⟩ := h
  intro d hd
  rw [nameDigits, List.head?_map, Option.mem_def.1 hc] at hd
  obtain rfl := Option.some.inj hd
  intro hzero
  rw [charDigit_eq_zero.1 hzero] at halnum
  cases halnum

theorem mod37Namedec_short {s : List Char} (h : s.length ≤ 12)
    (hs : ∃ c ∈ s.head?, c.isAlphanum = true) :
    mod37Namedec (numeral 37 (nameDigits s) : Nat) = normalForm true s := by
  have hlength : (nameDigits s).length = s.length := List.length_map _
  have hne : nameDigits s ≠ [] := by
    obtain ⟨c, hc, -⟩ := hs
    intro hnil
    rw [List.map_eq_nil_iff.1 hnil] at hc
    cases hc
  rw [mod37Namedec_numeral (nameDigits_lt s) (nameDigits_head hs) hne (by omega),
    spell_nameDigits]

/-- Numbers are names and short names are numbers, and one name has one number
whatever its capitals and its punctuation. -/
theorem name_codec (n : Nat) (s t : List Char) (hpos : 0 < n) (hn : n < 2 ^ 63)
    (hs : s.length ≤ 12) (hs' : ∃ c ∈ s.head?, c.isAlphanum = true)
    (ht : t.length ≤ 12) (ht' : ∃ c ∈ t.head?, c.isAlphanum = true) :
    nameencChecked (mod37Namedec n) = .ok (n : Int) ∧ mod37Nameenc (mod37Namedec n) = n ∧
      mod37Namedec (mod37Nameenc s) = normalForm true s ∧
        (mod37Nameenc s = mod37Nameenc t ↔ normalForm true s = normalForm true t) := by
  have hback := nameencChecked_namedec hpos hn
  have hnums := mod37Nameenc_of_checked (nameencChecked_short hs)
  have hnumt := mod37Nameenc_of_checked (nameencChecked_short ht)
  refine ⟨hback, mod37Nameenc_of_checked hback, ?_, ?_⟩
  · rw [hnums]
    exact mod37Namedec_short hs hs'
  · rw [hnums, hnumt, normalForm_eq_iff, Int.natCast_inj]
    exact numeral_inj (by omega) (nameDigits_lt s) (nameDigits_lt t) (nameDigits_head hs')
      (nameDigits_head ht')

theorem name_codec_zezima :
    nameencChecked (mod37Namedec 1234567) = .ok 1234567 ∧
      mod37Nameenc (mod37Namedec 1234567) = 1234567 ∧
        mod37Namedec (mod37Nameenc ['z', 'e', 'Z', '_', '1']) =
          normalForm true ['z', 'e', 'Z', '_', '1'] ∧
        (mod37Nameenc ['z', 'e', 'Z', '_', '1'] = mod37Nameenc ['Z', 'E', 'z', ' ', '1'] ↔
          normalForm true ['z', 'e', 'Z', '_', '1'] = normalForm true ['Z', 'E', 'z', ' ', '1']) :=
  name_codec 1234567 ['z', 'e', 'Z', '_', '1'] ['Z', 'E', 'z', ' ', '1'] (by decide) (by decide)
    (by decide) ⟨'z', rfl, rfl⟩ (by decide) ⟨'Z', rfl, rfl⟩

/-! ## The names that are accepted -/

/-- A name `process_login_isaac` reads from a decrypted block. -/
def Accepted (s : List Char) : Prop :=
  ∃ decrypted username : List Nat, (∀ b ∈ decrypted, b < 256) ∧
    readName 20 (decrypted.drop 21) = some username ∧ s = (cString username).map Char.ofNat

theorem length_readName {n : Nat} {bs name : List Nat} (h : readName n bs = some name) :
    name.length ≤ n := by
  induction n generalizing bs name with
  | zero =>
      rw [readName] at h
      obtain rfl := Option.some.inj h
      exact Nat.le_refl 0
  | succ n ih =>
      cases bs with
      | nil => cases h
      | cons b bs =>
          rw [readName] at h
          split at h
          · obtain rfl := Option.some.inj h
            exact Nat.zero_le _
          · obtain ⟨rest, hrest, rfl⟩ := Option.map_eq_some_iff.1 h
            exact Nat.succ_le_succ (ih hrest)

theorem Accepted.length_le {s : List Char} (h : Accepted s) : s.length ≤ 20 := by
  obtain ⟨decrypted, username, -, hread, rfl⟩ := h
  rw [List.length_map]
  exact Nat.le_trans (List.takeWhile_prefix _).length_le (length_readName hread)

/-- A name without the blanks it starts with. -/
def bareDigits (s : List Char) : List Nat := (nameDigits s).dropWhile (· == 0)

theorem bareDigits_lt (s : List Char) : ∀ d ∈ bareDigits s, d < 37 := fun d hd =>
  nameDigits_lt s d ((List.dropWhile_suffix _).subset hd)

theorem bareDigits_head (s : List Char) : ∀ d ∈ (bareDigits s).head?, d ≠ 0 := by
  intro d hd
  have hnot := List.head?_dropWhile_not (· == 0) (nameDigits s)
  rw [bareDigits] at hd
  rw [Option.mem_def.1 hd] at hnot
  simpa using hnot

theorem numeral_bareDigits (s : List Char) :
    numeral 37 (bareDigits s) = numeral 37 (nameDigits s) := numeral_zeros _

/-- The first name whose number is no `int64_t`. -/
def firstTooLarge : List Char := ['a', 'n', '4', 'c', '6', 'n', '5', '7', 'd', 'x', '5', '5', 'f']

theorem numeral_firstTooLarge : numeral 37 (nameDigits firstTooLarge) = 2 ^ 63 := by decide

/-- What a name has to be to be numbered: short enough for `sanitized`, and
without the blanks in front either shorter than `firstTooLarge` or, at its
length, before it in the order blank, letters, figures. -/
def Numbered (s : List Char) : Prop :=
  s.length < 20 ∧ ((bareDigits s).length < 13 ∨
    (bareDigits s).length = 13 ∧ bareDigits s < nameDigits firstTooLarge)

theorem numeral_lt_iff_bare (s : List Char) :
    numeral 37 (nameDigits s) < 2 ^ 63 ↔ (bareDigits s).length < 13 ∨
      (bareDigits s).length = 13 ∧ bareDigits s < nameDigits firstTooLarge := by
  rw [← numeral_bareDigits]
  have hlt := numeral_lt (by omega) (bareDigits_lt s)
  rcases Nat.lt_trichotomy (bareDigits s).length 13 with hshort | heq | hlong
  · have hmono : 37 ^ (bareDigits s).length ≤ 37 ^ 12 := Nat.pow_le_pow_right (by omega) (by omega)
    exact iff_of_true (by omega) (.inl hshort)
  · rw [← numeral_firstTooLarge,
      numeral_lt_iff (by omega) (bareDigits_lt s) (nameDigits_lt firstTooLarge) heq]
    constructor
    · exact fun h => .inr ⟨heq, h⟩
    · rintro (h | ⟨-, h⟩)
      · omega
      · exact h
  · -- the first digit is no zero, so the numeral is at least its weight
    refine iff_of_false ?_ (by omega)
    cases hbare : bareDigits s with
    | nil =>
        rw [hbare] at hlong
        cases hlong
    | cons d ds =>
        have hd : d ≠ 0 := bareDigits_head s d (by rw [hbare]; rfl)
        have hlength : 13 ≤ ds.length := by
          rw [hbare, List.length_cons] at hlong
          omega
        have hmono : 37 ^ 13 ≤ 37 ^ ds.length := Nat.pow_le_pow_right (by omega) hlength
        have hfirst : 1 * 37 ^ ds.length ≤ d * 37 ^ ds.length :=
          Nat.mul_le_mul_right _ (by omega)
        rw [numeral_cons]
        omega

/-- What is asked of the number of one name: nothing undefined on the way to
it, and a name of its own unless there is none. -/
def NameSafe (s : List Char) : Prop :=
  ∃ n, nameencChecked s = .ok n ∧
    (mod37Namedec n = invalidName → ∀ c ∈ s, c.isAlphanum = false)

/-- Only zero has no name. -/
theorem mod37Namedec_invalid {n : Nat} (hn : n < 2 ^ 63) (h : mod37Namedec n = invalidName) :
    n = 0 := by
  by_contra hne
  obtain ⟨ds, rfl, hds, hhead, hnil, hlen⟩ := exists_numeral (Nat.pos_of_ne_zero hne) hn
  rw [mod37Namedec_numeral hds hhead hnil hlen] at h
  have hdigits := nameDigits_spell hds true
  rw [h] at hdigits
  -- a name does not start with a dash
  have hzero : (nameDigits invalidName).head? = some 0 := by decide
  exact hhead 0 (by rw [← hdigits, hzero]; rfl) rfl

theorem blank_of_numeral {s : List Char} (h : numeral 37 (nameDigits s) = 0) :
    ∀ c ∈ s, c.isAlphanum = false := by
  have hnil : bareDigits s = [] := by
    rw [← numeral_bareDigits] at h
    have hdigits := digits_numeral (by omega) (bareDigits_lt s) (bareDigits_head s)
    rw [h, Nat.digits_zero] at hdigits
    simpa using hdigits.symm
  intro c hc
  rw [bareDigits, List.dropWhile_eq_nil_iff] at hnil
  have hdrop := hnil (charDigit c) (List.mem_map_of_mem hc)
  exact charDigit_eq_zero.1 (by simpa using hdrop)

theorem nameencChecked_numbered {s : List Char} (h : Numbered s) :
    nameencChecked s = .ok (numeral 37 (nameDigits s) : Nat) := by
  rw [nameencChecked_eq h.1, if_pos ((numeral_lt_iff_bare s).2 h.2)]

theorem nameSafe_iff {s : List Char} (hs : s.length ≤ 20) : NameSafe s ↔ Numbered s := by
  constructor
  · rintro ⟨n, hn, -⟩
    rcases Nat.lt_or_eq_of_le hs with hlt | heq
    · rw [nameencChecked_eq hlt] at hn
      split at hn
      · next hfits => exact ⟨hlt, (numeral_lt_iff_bare s).1 hfits⟩
      · cases hn
    · rw [nameencChecked_overrun heq] at hn
      cases hn
  · intro h
    refine ⟨_, nameencChecked_numbered h, ?_⟩
    intro hinvalid
    exact blank_of_numeral (mod37Namedec_invalid ((numeral_lt_iff_bare s).2 h.2) hinvalid)

/-- Two accepted names are numbered safely and apart exactly when each is short
enough and they do not differ in the blanks they start with alone. -/
theorem nameenc_safe_iff (s t : List Char) (hs : Accepted s) (ht : Accepted t) :
    (NameSafe s ∧ NameSafe t ∧
        (usernameSanitize s ≠ usernameSanitize t → nameencChecked s ≠ nameencChecked t)) ↔
      Numbered s ∧ Numbered t ∧
        (bareDigits s = bareDigits t → usernameSanitize s = usernameSanitize t) := by
  rw [nameSafe_iff hs.length_le, nameSafe_iff ht.length_le]
  apply and_congr_right
  intro hs'
  apply and_congr_right
  intro ht'
  have hsame : nameencChecked s = nameencChecked t ↔ bareDigits s = bareDigits t := by
    rw [nameencChecked_numbered hs', nameencChecked_numbered ht', Except.ok.injEq,
      Int.natCast_inj, ← numeral_bareDigits, ← numeral_bareDigits]
    exact numeral_inj (by omega) (bareDigits_lt s) (bareDigits_lt t) (bareDigits_head s)
      (bareDigits_head t)
  rw [← hsame]
  exact not_imp_not

/-- The block that has `name` in it, and nothing else. -/
def blockOf (name : List Nat) : List Nat := List.replicate 21 0 ++ name ++ [32]

theorem nameenc_safe_bob :
    (NameSafe ['b', 'o', 'b'] ∧ NameSafe ['B', 'o', 'b', '2'] ∧
        (usernameSanitize ['b', 'o', 'b'] ≠ usernameSanitize ['B', 'o', 'b', '2'] →
          nameencChecked ['b', 'o', 'b'] ≠ nameencChecked ['B', 'o', 'b', '2'])) ↔
      Numbered ['b', 'o', 'b'] ∧ Numbered ['B', 'o', 'b', '2'] ∧
        (bareDigits ['b', 'o', 'b'] = bareDigits ['B', 'o', 'b', '2'] →
          usernameSanitize ['b', 'o', 'b'] = usernameSanitize ['B', 'o', 'b', '2']) :=
  nameenc_safe_iff _ _
    ⟨blockOf [98, 111, 98], [98, 111, 98], by decide, by decide, by decide⟩
    ⟨blockOf [66, 111, 98, 50], [66, 111, 98, 50], by decide, by decide, by decide⟩

/-- Twenty letters are accepted, and the zero behind them is written past the
end of the array. -/
theorem long_name_overruns :
    Accepted (List.replicate 20 'a') ∧
      nameencChecked (List.replicate 20 'a') = .error (.outOfBounds 21) ∧
        ¬ NameSafe (List.replicate 20 'a') := by
  have hover : nameencChecked (List.replicate 20 'a') = .error (.outOfBounds 21) := by decide
  refine ⟨⟨blockOf (List.replicate 20 97), List.replicate 20 97, by decide, by decide, by decide⟩,
    hover, ?_⟩
  rintro ⟨n, hn, -⟩
  rw [hover] at hn
  cases hn

end Sundae.Proofs
