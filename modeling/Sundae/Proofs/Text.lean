import Mathlib.Data.List.Forall2
import Sundae.Ref.Text

/-!
# What the tokenizer reads back

The text is cut up while it is read: a separator becomes the terminator of the
token before it, and so does a closing quote. What makes the way back from a
separator stop in the right place is the character in front of the token: the
`'='` of the line, or the terminator that the token before has left there.
-/

namespace Sundae.Proofs.Text

open Sundae.Lib Sundae.Ref.Text

/-! ## Tokens and lines -/

/-- What may stand between quotes. -/
def Quotable (ch : Char) : Prop := ch ≠ quote ∧ ch ≠ nul

/-- What a token without quotes has none of. -/
def Plain (ch : Char) : Prop := Quotable ch ∧ ch ≠ ',' ∧ ch ≠ ';' ∧ ch ≠ '='

inductive Token where
  | plain (s : List Char) (h : ∀ ch ∈ s, Plain ch)
  | quoted (s : List Char) (h : ∀ ch ∈ s, Quotable ch)

namespace Token

/-- The token as a string. -/
def string : Token → List Char
  | plain s _ => s
  | quoted s _ => s

/-- The token as it stands in a file. -/
def text : Token → List Char
  | plain s _ => s
  | quoted s _ => quote :: (s ++ [quote])

/-- And as it stands in the buffer once it has been read. -/
def cut : Token → List Char
  | plain s _ => s
  | quoted s _ => quote :: (s ++ [nul])

end Token

/-- Text without `'='`. -/
def Between (s : List Char) : Prop := ∀ ch ∈ s, ch ≠ '='

/-- A line, with what stands in front of it. -/
structure Line where
  before : List Char
  first : Token
  rest : List Token
  between : Between before

/-- The tokens, separated by `','` and ended by `';'`. -/
def renderTokens : Token → List Token → List Char
  | t, [] => t.text ++ [';']
  | t, u :: ts => t.text ++ ',' :: renderTokens u ts

namespace Line

def tokens (l : Line) : List Token := l.first :: l.rest

def render (l : Line) : List Char := l.before ++ '=' :: renderTokens l.first l.rest

end Line

/-- A file: its lines, and what stands behind the last one. -/
structure Doc where
  lines : List Line
  after : List Char
  between : Between after

def Doc.render (d : Doc) : List Char := d.lines.flatMap Line.render ++ d.after

/-! ## Reading a file -/

/-- `next_token` so many times, each time from behind the string that it gave
before: where the strings start and what they are, the buffer, and the offset. -/
def readTokens : Nat → List Char → Nat →
    Except OutOfBounds (Option (List (Nat × List Char) × List Char × Nat))
  | 0, buffer, offset => pure (some ([], buffer, offset))
  | n + 1, buffer, offset => do
    match ← nextToken buffer offset buffer.length with
    | none => pure none
    | some (buffer, tmp) =>
      let s ← stringAt buffer tmp
      match ← readTokens n buffer (tmp + s.length + 1) with
      | none => pure none
      | some (found, rest) => pure (some ((tmp, s) :: found, rest))

/-- Lines of so many tokens each. -/
def readLines : List Nat → List Char → Nat →
    Except OutOfBounds (Option (List (List (Nat × List Char)) × List Char × Nat))
  | [], buffer, offset => pure (some ([], buffer, offset))
  | n :: ns, buffer, offset => do
    match ← nextLine buffer offset buffer.length with
    | none => pure none
    | some offset =>
      match ← readTokens n buffer offset with
      | none => pure none
      | some (found, buffer, offset) =>
        match ← readLines ns buffer offset with
        | none => pure none
        | some (founds, rest) => pure (some (found :: founds, rest))

/-! ## Forwards -/

variable {P p q s t post : List Char} {c ch sep : Char} {offset : Nat}

theorem nextLineLoop_skip (len : Nat) (hlen : (p ++ (s ++ t)).length = len) (hs : Between s)
    (ht : t ≠ []) : nextLineLoop (p ++ (s ++ t)) len (s ++ t).length p.length =
      nextLineLoop ((p ++ s) ++ t) len t.length (p ++ s).length := by
  induction s generalizing p with
  | nil => simp only [List.nil_append, List.append_nil]
  | cons ch s ih =>
      have hch := hs ch List.mem_cons_self
      have htlen := List.length_pos_iff.2 ht
      have hnext : p.length + 1 ≠ len := by
        simp only [List.length_append, List.length_cons] at hlen
        omega
      have hp : p ++ (ch :: s ++ t) = (p ++ [ch]) ++ (s ++ t) := by simp
      have hstep : nextLineLoop (p ++ (ch :: s ++ t)) len (ch :: s ++ t).length p.length =
          nextLineLoop (p ++ (ch :: s ++ t)) len (s ++ t).length (p.length + 1) := by
        rw [List.cons_append, List.length_cons, nextLineLoop, load_append_cons, ok_bind,
          if_neg hnext, if_neg hch]
      rw [hstep, hp, show p.length + 1 = (p ++ [ch]).length by simp,
        ih (by rw [← hp]; exact hlen) fun c hc => hs c (List.mem_cons_of_mem ch hc)]
      simp only [List.append_assoc, List.singleton_append]

/-- `next_line` from where there is no `'='` before the next line's. -/
theorem nextLine_found (hs : Between s) (ht : t ≠ []) :
    nextLine (p ++ (s ++ '=' :: t)) p.length (p ++ (s ++ '=' :: t)).length =
      .ok (some ((p ++ s).length + 1)) := by
  have hleft : (p ++ (s ++ '=' :: t)).length - p.length = (s ++ '=' :: t).length := by
    rw [List.length_append, Nat.add_sub_cancel_left]
  have htlen := List.length_pos_iff.2 ht
  have hnext : (p ++ s).length + 1 ≠ (p ++ (s ++ '=' :: t)).length := by
    simp only [List.length_append, List.length_cons]
    omega
  rw [nextLine, hleft, nextLineLoop_skip _ rfl hs (List.cons_ne_nil _ _), List.length_cons,
    nextLineLoop, load_append_cons, ok_bind, if_neg hnext, if_pos rfl]
  rfl

/-- And from where there is none any more. -/
theorem nextLine_end (hs : Between s) :
    nextLine (p ++ s) p.length (p ++ s).length = .ok none := by
  have hleft : (p ++ s).length - p.length = s.length := by
    rw [List.length_append, Nat.add_sub_cancel_left]
  rw [nextLine, hleft]
  rcases List.eq_nil_or_concat s with rfl | ⟨s, ch, rfl⟩
  · rfl
  · rw [List.concat_eq_append] at hs ⊢
    have hs' : Between s := fun c hc => hs c (List.mem_append_left _ hc)
    rw [nextLineLoop_skip (t := [ch]) _ rfl hs' (List.cons_ne_nil _ _), List.length_singleton,
      nextLineLoop, load_append_cons, ok_bind, if_pos (by simp; omega)]
    rfl

/-- What does not end the token: no quote, and a separator only between
quotes. -/
theorem tokenEnd_skip {quoted : Bool}
    (hs : ∀ ch ∈ s, ch ≠ quote ∧ (quoted = true ∨ ch ≠ ',' ∧ ch ≠ ';')) :
    tokenEnd (p ++ (s ++ t)) (s ++ t).length p.length quoted =
      tokenEnd ((p ++ s) ++ t) t.length (p ++ s).length quoted := by
  induction s generalizing p with
  | nil => simp only [List.nil_append, List.append_nil]
  | cons ch s ih =>
      obtain ⟨hquote, hsep⟩ := hs ch List.mem_cons_self
      have hp : p ++ (ch :: s ++ t) = (p ++ [ch]) ++ (s ++ t) := by simp
      have hgo : ¬ (1 < p.length + 1 ∧ (ch = ',' ∨ ch = ';') ∧ quoted = false) := by
        rintro ⟨-, hch, hout⟩
        rcases hsep with hin | ⟨hcomma, hsemi⟩
        · rw [hin] at hout
          cases hout
        · exact hch.elim hcomma hsemi
      have hstep : tokenEnd (p ++ (ch :: s ++ t)) (ch :: s ++ t).length p.length quoted =
          tokenEnd (p ++ (ch :: s ++ t)) (s ++ t).length (p.length + 1) quoted := by
        rw [List.cons_append, List.length_cons, tokenEnd, load_append_cons, ok_bind,
          if_neg hquote]
        exact if_neg hgo
      rw [hstep, hp, show p.length + 1 = (p ++ [ch]).length by simp,
        ih fun c hc => hs c (List.mem_cons_of_mem ch hc)]
      simp only [List.append_assoc, List.singleton_append]

/-- A quote turns the flag. -/
theorem tokenEnd_quote (quoted : Bool) :
    tokenEnd (p ++ quote :: t) (quote :: t).length p.length quoted =
      tokenEnd ((p ++ [quote]) ++ t) t.length (p ++ [quote]).length (!quoted) := by
  rw [List.length_cons, tokenEnd, load_append_cons, ok_bind, if_pos rfl]
  have hgo : ¬ (1 < p.length + 1 ∧ (quote = ',' ∨ quote = ';') ∧ (!quoted) = false) := by
    rintro ⟨-, hch, -⟩
    exact absurd hch (by decide)
  rw [show ((p ++ [quote]) ++ t) = p ++ quote :: t by simp, List.length_append,
    List.length_singleton]
  exact if_neg hgo

/-- A separator outside of quotes ends the token. -/
theorem tokenEnd_sep (hp : p ≠ []) (hsep : sep = ',' ∨ sep = ';') :
    tokenEnd (p ++ sep :: t) (sep :: t).length p.length false = .ok (some p.length) := by
  have hquote : sep ≠ quote := by
    rintro rfl
    exact absurd hsep (by decide)
  have hplen := List.length_pos_iff.2 hp
  rw [List.length_cons, tokenEnd, load_append_cons, ok_bind, if_neg hquote]
  exact if_pos ⟨by omega, hsep, rfl⟩

/-! ## Backwards -/

theorem openingQuote_back (hs : ∀ ch ∈ s, Quotable ch) :
    openingQuote (q ++ quote :: s ++ t) (q.length + 1 + s.length) = .ok (some (q.length + 1)) := by
  induction s using List.reverseRecOn generalizing t with
  | nil =>
      rw [List.append_assoc, List.length_nil, Nat.add_zero, openingQuote, List.cons_append,
        load_append_cons, ok_bind, if_pos rfl]
      rfl
  | append_singleton s ch ih =>
      have hch := (hs ch (List.mem_append_right s (List.mem_singleton_self ch))).1
      have hsplit : q ++ quote :: (s ++ [ch]) ++ t = (q ++ quote :: s) ++ ch :: t := by simp
      have hlen : q.length + 1 + (s ++ [ch]).length = (q ++ quote :: s).length + 1 := by
        simp only [List.length_append, List.length_cons, List.length_nil]
        omega
      rw [hsplit, hlen, openingQuote, load_append_cons, ok_bind, if_neg hch]
      have hback := ih (t := ch :: t) fun c hc => hs c (List.mem_append_left _ hc)
      rwa [show q.length + 1 + s.length = (q ++ quote :: s).length by
        simp only [List.length_append, List.length_cons]; omega] at hback

/-- The way back over a plain token. -/
theorem tokenStart_back (hs : ∀ ch ∈ s, Plain ch) (hc : c = nul ∨ c = '=') :
    tokenStart (q ++ c :: s ++ t) (q.length + 1 + s.length) =
      .ok (q ++ c :: s ++ t, q.length + 1) := by
  induction s using List.reverseRecOn generalizing t with
  | nil =>
      have hquote : c ≠ quote := by
        rintro rfl
        exact absurd hc (by decide)
      have hstop : ¬ (0 < q.length ∧ c ≠ nul ∧ c ≠ ',' ∧ c ≠ ';' ∧ c ≠ '=') := by
        rintro ⟨-, hnul, -, -, heq⟩
        exact hc.elim hnul heq
      rw [List.append_assoc, List.length_nil, Nat.add_zero, tokenStart, List.cons_append,
        load_append_cons, ok_bind, if_neg hquote, if_neg hstop]
      rfl
  | append_singleton s ch ih =>
      obtain ⟨⟨hquote, hnul⟩, hcomma, hsemi, heq⟩ :=
        hs ch (List.mem_append_right s (List.mem_singleton_self ch))
      have hsplit : q ++ c :: (s ++ [ch]) ++ t = (q ++ c :: s) ++ ch :: t := by simp
      have hlen : q.length + 1 + (s ++ [ch]).length = (q ++ c :: s).length + 1 := by
        simp only [List.length_append, List.length_cons, List.length_nil]
        omega
      have hpos : 0 < (q ++ c :: s).length := by simp
      rw [hsplit, hlen, tokenStart, load_append_cons, ok_bind, if_neg hquote,
        if_pos ⟨hpos, hnul, hcomma, hsemi, heq⟩]
      have hback := ih (t := ch :: t) fun c hc => hs c (List.mem_append_left _ hc)
      rwa [show q.length + 1 + s.length = (q ++ c :: s).length by
        simp only [List.length_append, List.length_cons]; omega] at hback

/-- And over one in quotes, whose last quote becomes the terminator. -/
theorem tokenStart_quoted (hs : ∀ ch ∈ s, Quotable ch) :
    tokenStart (q ++ quote :: s ++ quote :: t) ((q ++ quote :: s).length + 1) =
      .ok (q ++ quote :: s ++ nul :: t, q.length + 1) := by
  have hback := openingQuote_back (q := q) (t := nul :: t) hs
  have hlen : q.length + 1 + s.length = (q ++ quote :: s).length := by
    simp only [List.length_append, List.length_cons]
    omega
  rw [hlen] at hback
  rw [tokenStart, load_append_cons, ok_bind, if_pos rfl, store_append_cons, ok_bind, hback]
  rfl

/-! ## One token -/

/-- The string is in the text, with its terminator, so that what follows does
not matter. -/
def Holds (P : List Char) (tmp : Nat) (s : List Char) : Prop :=
  ∀ t, stringAt (P ++ t) tmp = .ok s

theorem Holds.mono {P' : List Char} {tmp : Nat} (h : Holds P tmp s) (hpre : P <+: P') :
    Holds P' tmp s := by
  obtain ⟨t, rfl⟩ := hpre
  intro u
  rw [List.append_assoc]
  exact h (t ++ u)

theorem stringFrom_nul (hs : ∀ ch ∈ s, ch ≠ nul) (i : Nat) :
    stringFrom i (s ++ nul :: t) = .ok s := by
  induction s generalizing i with
  | nil => rfl
  | cons ch s ih =>
      rw [List.cons_append, stringFrom, if_neg (hs ch List.mem_cons_self),
        ih fun c hc => hs c (List.mem_cons_of_mem ch hc)]
      rfl

theorem holds_nul (hs : ∀ ch ∈ s, ch ≠ nul) : Holds (p ++ s ++ [nul]) p.length s := by
  intro t
  rw [stringAt, List.append_assoc, List.append_assoc, List.drop_left, List.singleton_append]
  exact stringFrom_nul hs _

/-- The offset is right behind the character that stops the way back, or at
it. -/
def Ready (c : Char) (P : List Char) (offset : Nat) : Prop :=
  ∃ q, P = q ++ [c] ∧ (offset = q.length ∨ offset = q.length + 1)

/-- Where the token starts that comes behind `P`. -/
def Token.start (P : List Char) : Token → Nat
  | .plain _ _ => P.length
  | .quoted _ _ => P.length + 1

theorem tokenEnd_ready (hready : Ready c P offset) (hc : c = nul ∨ c = '=') (t : List Char) :
    tokenEnd (P ++ t) ((P ++ t).length - offset) offset false =
      tokenEnd (P ++ t) t.length P.length false := by
  obtain ⟨q, rfl, rfl | rfl⟩ := hready
  · have hskip : ∀ ch ∈ [c], ch ≠ quote ∧ (false = true ∨ ch ≠ ',' ∧ ch ≠ ';') := by
      intro ch hch
      obtain rfl := List.mem_singleton.1 hch
      rcases hc with rfl | rfl
      · decide
      · decide
    have hleft : (q ++ [c] ++ t).length - q.length = ([c] ++ t).length := by
      rw [List.append_assoc, List.length_append, Nat.add_sub_cancel_left]
    rw [hleft, List.append_assoc, tokenEnd_skip hskip, ← List.append_assoc]
  · have hlen : (q ++ [c]).length = q.length + 1 := by simp
    rw [← hlen, List.length_append, Nat.add_sub_cancel_left]

/-- `next_token` in front of a token: it cuts the token off, and goes on behind
it. -/
theorem nextToken_reads (hready : Ready c P offset) (hc : c = nul ∨ c = '=') (tok : Token)
    (hsep : sep = ',' ∨ sep = ';') (post : List Char) :
    nextToken (P ++ (tok.text ++ sep :: post)) offset (P ++ (tok.text ++ sep :: post)).length =
        .ok (some (P ++ tok.cut ++ [nul] ++ post, tok.start P)) ∧
      Holds (P ++ tok.cut ++ [nul]) (tok.start P) tok.string ∧
      Ready nul (P ++ tok.cut ++ [nul]) (tok.start P + tok.string.length + 1) := by
  have hP : P ≠ [] := by
    obtain ⟨q, rfl, -⟩ := hready
    simp
  unfold nextToken
  rw [tokenEnd_ready hready hc]
  cases tok with
  | plain s h =>
      dsimp only [Token.text, Token.cut, Token.start, Token.string]
      refine ⟨?_, holds_nul fun ch hch => (h ch hch).1.2,
        ⟨P ++ s, by simp, .inr (by simp)⟩⟩
      have hskip : ∀ ch ∈ s, ch ≠ quote ∧ (false = true ∨ ch ≠ ',' ∧ ch ≠ ';') :=
        fun ch hch => ⟨(h ch hch).1.1, .inr ⟨(h ch hch).2.1, (h ch hch).2.2.1⟩⟩
      rw [tokenEnd_skip hskip, tokenEnd_sep (by simp [hP]) hsep, ok_bind]
      dsimp only
      rw [← List.append_assoc, store_append_cons, ok_bind]
      obtain ⟨q, rfl, -⟩ := hready
      have hback := tokenStart_back (q := q) (t := nul :: post) h hc
      rw [show q.length + 1 + s.length = (q ++ [c] ++ s).length by simp; omega,
        show q ++ c :: s ++ nul :: post = q ++ [c] ++ s ++ nul :: post by simp] at hback
      rw [hback, ok_bind, List.length_append, List.length_singleton,
        show q ++ [c] ++ s ++ [nul] ++ post = q ++ [c] ++ s ++ nul :: post by simp]
      rfl
  | quoted s h =>
      dsimp only [Token.text, Token.cut, Token.start, Token.string]
      have hholds := holds_nul (p := P ++ [quote]) fun ch hch => (h ch hch).2
      refine ⟨?_, ?_, ⟨P ++ quote :: (s ++ [nul]), rfl, .inl (by simp; omega)⟩⟩
      · have hskip : ∀ ch ∈ s, ch ≠ quote ∧ (true = true ∨ ch ≠ ',' ∧ ch ≠ ';') :=
          fun ch hch => ⟨(h ch hch).1, .inl rfl⟩
        have htext : P ++ (quote :: (s ++ [quote]) ++ sep :: post) =
            P ++ quote :: (s ++ quote :: sep :: post) := by simp
        have hend : P ++ quote :: (s ++ quote :: sep :: post) =
            P ++ [quote] ++ s ++ [quote] ++ sep :: post := by simp
        have hcut : P ++ [quote] ++ s ++ [quote] ++ nul :: post =
            P ++ quote :: s ++ quote :: nul :: post := by simp
        have hlen : (P ++ [quote] ++ s ++ [quote]).length = (P ++ quote :: s).length + 1 := by
          simp only [List.length_append, List.length_cons, List.length_nil]
          omega
        rw [htext, List.cons_append, List.append_assoc, List.singleton_append, tokenEnd_quote,
          Bool.not_false, tokenEnd_skip hskip, tokenEnd_quote, Bool.not_true,
          tokenEnd_sep (by simp) hsep, ok_bind]
        dsimp only
        rw [hend, store_append_cons, ok_bind, hcut, hlen, tokenStart_quoted h, ok_bind]
        simp [pure, Except.pure]
      · have hsame : P ++ quote :: (s ++ [nul]) ++ [nul] = P ++ [quote] ++ s ++ [nul] ++ [nul] := by
          simp
        rw [hsame]
        have hlen : P.length + 1 = (P ++ [quote]).length := by simp
        rw [hlen]
        exact hholds.mono (List.prefix_append _ _)

/-! ## All tokens of a file -/

/-- What is found of a line: its strings, all of them still there in `P`. -/
structure Found (P : List Char) (tokens : List Token) (found : List (Nat × List Char)) : Prop where
  strings : found.map Prod.snd = tokens.map Token.string
  kept : ∀ x ∈ found, Holds P x.1 x.2

theorem Found.mono {P' : List Char} {tokens : List Token} {found : List (Nat × List Char)}
    (h : Found P tokens found) (hpre : P <+: P') : Found P' tokens found where
  strings := h.strings
  kept := fun x hx => (h.kept x hx).mono hpre

theorem prefix_cut (P Q R : List Char) : P <+: P ++ Q ++ R := by
  rw [List.append_assoc]
  exact List.prefix_append _ _

theorem readTokens_reads (t : Token) (ts : List Token) (post : List Char) :
    ∀ {c : Char} {P : List Char} {offset : Nat}, Ready c P offset → (c = nul ∨ c = '=') →
      ∃ found P' offset', readTokens (ts.length + 1) (P ++ (renderTokens t ts ++ post)) offset =
          .ok (some (found, P' ++ post, offset')) ∧
        P <+: P' ∧ Found P' (t :: ts) found ∧ Ready nul P' offset' := by
  induction ts generalizing t with
  | nil =>
      intro c P offset hready hc
      obtain ⟨htoken, hholds, hnext⟩ := nextToken_reads hready hc t (.inr rfl) post
      have hread : readTokens 1 (P ++ (renderTokens t [] ++ post)) offset =
          .ok (some ([(t.start P, t.string)], P ++ t.cut ++ [nul] ++ post,
            t.start P + t.string.length + 1)) := by
        rw [renderTokens, List.append_assoc, List.singleton_append, readTokens, htoken, ok_bind]
        dsimp only
        rw [hholds post, ok_bind, readTokens]
        rfl
      refine ⟨_, _, _, hread, prefix_cut P _ _, ⟨rfl, fun x hx => ?_⟩, hnext⟩
      obtain rfl := List.mem_singleton.1 hx
      exact hholds
  | cons u ts ih =>
      intro c P offset hready hc
      obtain ⟨htoken, hholds, hnext⟩ :=
        nextToken_reads hready hc t (.inl rfl) (renderTokens u ts ++ post)
      obtain ⟨found, P', offset', hrest, hpre, hfound, hready'⟩ := ih u hnext (.inl rfl)
      have hread : readTokens ((u :: ts).length + 1) (P ++ (renderTokens t (u :: ts) ++ post))
          offset = .ok (some ((t.start P, t.string) :: found, P' ++ post, offset')) := by
        rw [renderTokens, List.append_assoc t.text, List.cons_append, readTokens, htoken, ok_bind]
        dsimp only
        rw [hholds, ok_bind, List.length_cons, hrest]
        rfl
      refine ⟨_, P', offset', hread, (prefix_cut P _ _).trans hpre, ⟨?_, fun x hx => ?_⟩, hready'⟩
      · rw [List.map_cons, List.map_cons, hfound.strings]
      · rcases List.mem_cons.1 hx with rfl | hx
        · exact hholds.mono hpre
        · exact hfound.kept x hx

/-- No `'='` comes between the offset and the end of `P`. -/
def Passed (P : List Char) (offset : Nat) : Prop :=
  ∃ p s, P = p ++ s ∧ Between s ∧ offset = p.length

theorem Ready.passed (h : Ready nul P offset) : Passed P offset := by
  obtain ⟨q, rfl, rfl | rfl⟩ := h
  · refine ⟨q, [nul], rfl, fun ch hch => ?_, rfl⟩
    obtain rfl := List.mem_singleton.1 hch
    decide
  · refine ⟨q ++ [nul], [], (List.append_nil _).symm, fun ch hch => ?_, by simp⟩
    exact absurd hch List.not_mem_nil

/-- What is found of the lines. -/
abbrev FoundLines (P : List Char) : List Line → List (List (Nat × List Char)) → Prop :=
  List.Forall₂ fun l found => Found P l.tokens found

theorem FoundLines.strings {lines : List Line} {founds : List (List (Nat × List Char))}
    (h : FoundLines P lines founds) :
    founds.map (List.map Prod.snd) = lines.map fun l => l.tokens.map Token.string := by
  induction h with
  | nil => rfl
  | cons hfound _ ih => rw [List.map_cons, List.map_cons, hfound.strings, ih]

theorem FoundLines.kept {lines : List Line} {founds : List (List (Nat × List Char))}
    (h : FoundLines P lines founds) : ∀ found ∈ founds, ∀ x ∈ found, Holds P x.1 x.2 := by
  induction h with
  | nil => exact fun found hfound => absurd hfound List.not_mem_nil
  | cons hfirst _ ih =>
      intro found hfound
      rcases List.mem_cons.1 hfound with rfl | hfound
      · exact hfirst.kept
      · exact ih found hfound

theorem readLines_reads (lines : List Line) (post : List Char) :
    ∀ {P : List Char} {offset : Nat}, Passed P offset →
      ∃ founds P' offset',
        readLines (lines.map fun l => l.tokens.length) (P ++ (lines.flatMap Line.render ++ post))
          offset = .ok (some (founds, P' ++ post, offset')) ∧
        P <+: P' ∧ FoundLines P' lines founds ∧ Passed P' offset' := by
  induction lines with
  | nil =>
      intro P offset hpassed
      exact ⟨[], P, offset, rfl, List.prefix_rfl, .nil, hpassed⟩
  | cons l lines ih =>
      rintro P offset ⟨p, s, rfl, hs, rfl⟩
      have hbetween : Between (s ++ l.before) := by
        intro ch hch
        rcases List.mem_append.1 hch with hch | hch
        · exact hs ch hch
        · exact l.between ch hch
      have hbuffer : p ++ s ++ ((l :: lines).flatMap Line.render ++ post) =
          p ++ (s ++ l.before ++ '=' :: (renderTokens l.first l.rest ++
            (lines.flatMap Line.render ++ post))) := by
        simp [Line.render]
      have hline := nextLine_found (p := p) hbetween
        (t := renderTokens l.first l.rest ++ (lines.flatMap Line.render ++ post)) (by
          cases l.rest <;> simp [renderTokens])
      have hready : Ready '=' (p ++ (s ++ l.before) ++ ['=']) ((p ++ (s ++ l.before)).length + 1) :=
        ⟨p ++ (s ++ l.before), rfl, .inr rfl⟩
      obtain ⟨found, P₁, offset₁, htokens, hpre₁, hfound, hready₁⟩ :=
        readTokens_reads l.first l.rest (lines.flatMap Line.render ++ post) hready (.inr rfl)
      obtain ⟨founds, P', offset', hlines, hpre', hfounds, hpassed'⟩ := ih hready₁.passed
      refine ⟨found :: founds, P', offset', ?_, ?_, .cons (hfound.mono hpre') hfounds, hpassed'⟩
      · rw [hbuffer, List.map_cons, readLines, hline, ok_bind]
        dsimp only
        have hsame : p ++ (s ++ l.before ++ '=' :: (renderTokens l.first l.rest ++
            (lines.flatMap Line.render ++ post))) = p ++ (s ++ l.before) ++ ['='] ++
              (renderTokens l.first l.rest ++ (lines.flatMap Line.render ++ post)) := by simp
        rw [hsame, Line.tokens, List.length_cons, htokens, ok_bind]
        dsimp only
        rw [hlines]
        rfl
      · have hfirst : p ++ s <+: p ++ (s ++ l.before) ++ ['='] :=
          ⟨l.before ++ ['='], by simp⟩
        exact hfirst.trans (hpre₁.trans hpre')

/-! ## Any buffer -/

variable {buffer : List Char}

theorem nextLineLoop_ok (len : Nat) {left : Nat} (h : offset + left ≤ buffer.length) :
    ∃ r, nextLineLoop buffer len left offset = .ok r := by
  induction left generalizing offset with
  | zero => exact ⟨none, rfl⟩
  | succ left ih =>
      rw [nextLineLoop, load_lt (by omega), ok_bind]
      split
      · exact ⟨none, rfl⟩
      · split
        · exact ⟨_, rfl⟩
        · exact ih (by omega)

theorem nextLine_ok (buffer : List Char) (offset : Nat) :
    ∃ r, nextLine buffer offset buffer.length = .ok r := by
  rw [nextLine]
  by_cases h : offset ≤ buffer.length
  · exact nextLineLoop_ok _ (by omega)
  · rw [Nat.sub_eq_zero_of_le (by omega)]
    exact ⟨none, rfl⟩

/-- What can end a token. -/
def isSep (ch : Char) : Bool := ch = ',' ∨ ch = ';'

theorem tokenEnd_ok {left : Nat} (h : offset + left ≤ buffer.length) (quoted : Bool) :
    ∃ r, tokenEnd buffer left offset quoted = .ok r ∧ ∀ nofs, r = some nofs →
      0 < nofs ∧ ∃ hlt : nofs < buffer.length, isSep buffer[nofs] = true := by
  induction left generalizing offset quoted with
  | zero => exact ⟨none, rfl, fun nofs hr => by cases hr⟩
  | succ left ih =>
      rw [tokenEnd, load_lt (by omega), ok_bind]
      dsimp only
      generalize (if buffer[offset] = quote then !quoted else quoted) = quoted'
      split
      · next hend =>
        refine ⟨some offset, rfl, fun nofs hr => ?_⟩
        obtain rfl := Option.some.inj hr
        exact ⟨by omega, by omega, decide_eq_true hend.2.1⟩
      · exact ih (by omega) quoted'

theorem openingQuote_ok (buffer : List Char) {nofs : Nat} (h : nofs ≤ buffer.length) :
    ∃ r, openingQuote buffer nofs = .ok r ∧ ∀ n, r = some n → n ≤ nofs := by
  induction nofs with
  | zero => exact ⟨none, rfl, fun n hr => by cases hr⟩
  | succ nofs ih =>
      rw [openingQuote, load_lt (by omega), ok_bind]
      split
      · refine ⟨_, rfl, fun n hr => ?_⟩
        obtain rfl := Option.some.inj hr
        exact Nat.le_refl _
      · obtain ⟨r, hr, hle⟩ := ih (by omega)
        exact ⟨r, hr, fun n hn => Nat.le_succ_of_le (hle n hn)⟩

theorem countP_set_nul (buffer : List Char) {k : Nat} (h : k < buffer.length) :
    (buffer.set k nul).countP isSep =
      buffer.countP isSep - if isSep buffer[k] = true then 1 else 0 := by
  rw [List.countP_set h, if_neg (show ¬ isSep nul = true by decide), Nat.add_zero]

/-- The way back ends in front of where it began, and changes nothing from there
on; nor does it write a separator. -/
theorem tokenStart_ok (buffer : List Char) {nofs : Nat} (hpos : 0 < nofs)
    (h : nofs ≤ buffer.length) :
    ∃ b n, tokenStart buffer nofs = .ok (b, n) ∧ n ≤ nofs ∧ b.length = buffer.length ∧
      (∀ k, nofs ≤ k → b[k]? = buffer[k]?) ∧ b.countP isSep ≤ buffer.countP isSep := by
  induction nofs with
  | zero => exact absurd hpos (Nat.lt_irrefl _)
  | succ nofs ih =>
      rw [tokenStart, load_lt (by omega), ok_bind]
      split
      · rw [store_lt (by omega), ok_bind]
        obtain ⟨r, hr, hle⟩ := openingQuote_ok (buffer.set nofs nul)
          (show nofs ≤ (buffer.set nofs nul).length by rw [List.length_set]; omega)
        rw [hr, ok_bind]
        refine ⟨_, _, rfl, ?_, List.length_set, fun k hk => ?_, ?_⟩
        · cases r with
          | none => exact Nat.succ_le_succ (Nat.zero_le _)
          | some n => exact Nat.le_succ_of_le (hle n rfl)
        · exact List.getElem?_set_ne (by omega)
        · rw [countP_set_nul buffer (by omega)]
          exact Nat.sub_le _ _
      · split
        · next hgo =>
          obtain ⟨b, n, hr, hle, hlen, hsame, hcount⟩ := ih hgo.1 (by omega)
          exact ⟨b, n, hr, Nat.le_succ_of_le hle, hlen, fun k hk => hsame k (by omega), hcount⟩
        · exact ⟨buffer, _, rfl, Nat.le_refl _, rfl, fun k _ => rfl, Nat.le_refl _⟩

theorem stringAt_ok {n k : Nat} (hle : n ≤ k) (hk : buffer[k]? = some nul) :
    ∃ s, stringAt buffer n = .ok s ∧ n + s.length ≤ k := by
  have hfrom : ∀ (s : List Char) (i m : Nat), s[m]? = some nul →
      ∃ r, stringFrom i s = .ok r ∧ r.length ≤ m := by
    intro s
    induction s with
    | nil => intro i m hm; cases hm
    | cons ch s ih =>
        intro i m hm
        rw [stringFrom]
        split
        · exact ⟨[], rfl, Nat.zero_le _⟩
        · next hch =>
          cases m with
          | zero => exact absurd (Option.some.inj hm) hch
          | succ m =>
              obtain ⟨r, hr, hlen⟩ := ih (i + 1) m hm
              exact ⟨ch :: r, by rw [hr]; rfl, Nat.succ_le_succ hlen⟩
  obtain ⟨s, hs, hlen⟩ := hfrom (buffer.drop n) n (k - n) (by
    rw [List.getElem?_drop, Nat.add_sub_cancel' hle]
    exact hk)
  exact ⟨s, hs, by omega⟩

/-- What `next_token` gives is a string in the buffer, and it has used up a
separator. -/
theorem nextToken_ok (buffer : List Char) (offset : Nat) :
    ∃ r, nextToken buffer offset buffer.length = .ok r ∧ ∀ b n, r = some (b, n) →
      b.length = buffer.length ∧ (∃ s, stringAt b n = .ok s) ∧
        b.countP isSep < buffer.countP isSep := by
  have hend : ∃ r, tokenEnd buffer (buffer.length - offset) offset false = .ok r ∧
      ∀ nofs, r = some nofs →
        0 < nofs ∧ ∃ hlt : nofs < buffer.length, isSep buffer[nofs] = true := by
    by_cases h : offset ≤ buffer.length
    · exact tokenEnd_ok (by omega) false
    · rw [Nat.sub_eq_zero_of_le (by omega)]
      exact ⟨none, rfl, fun nofs hr => by cases hr⟩
  obtain ⟨r, hr, hnofs⟩ := hend
  rw [nextToken, hr, ok_bind]
  cases r with
  | none => exact ⟨none, rfl, fun b n hb => by cases hb⟩
  | some nofs =>
      obtain ⟨hpos, hlt, hsep⟩ := hnofs nofs rfl
      dsimp only
      rw [store_lt hlt, ok_bind]
      obtain ⟨b, n, hstart, hle, hlen, hsame, hcount⟩ :=
        tokenStart_ok (buffer.set nofs nul) hpos (by rw [List.length_set]; omega)
      rw [hstart, ok_bind]
      refine ⟨some (b, n), rfl, fun b' n' hb => ?_⟩
      obtain ⟨rfl, rfl⟩ := Prod.mk.inj (Option.some.inj hb)
      have hnul : b[nofs]? = some nul := by
        rw [hsame nofs (Nat.le_refl _), List.getElem?_set_self hlt]
      obtain ⟨s, hs, -⟩ := stringAt_ok hle hnul
      refine ⟨hlen.trans List.length_set, ⟨s, hs⟩, ?_⟩
      rw [countP_set_nul buffer hlt, if_pos hsep] at hcount
      have hone : 0 < buffer.countP isSep :=
        List.countP_pos_iff.2 ⟨buffer[nofs], List.getElem_mem hlt, hsep⟩
      omega

/-- Every file is read back token by token, each string is still there at the
end, and then there is no further line; and in no buffer does one of the two
functions leave it. -/
theorem tokens_read_back :
    (∀ d : Doc, ∃ founds buffer offset,
      readLines (d.lines.map fun l => l.tokens.length) d.render 0 =
        .ok (some (founds, buffer, offset)) ∧
      founds.map (List.map Prod.snd) = d.lines.map (fun l => l.tokens.map Token.string) ∧
      (∀ found ∈ founds, ∀ x ∈ found, stringAt buffer x.1 = .ok x.2) ∧
      nextLine buffer offset buffer.length = .ok none) ∧
    ∀ (buffer : List Char) (offset : Nat),
      (∃ r, nextLine buffer offset buffer.length = .ok r) ∧
      ∃ r, nextToken buffer offset buffer.length = .ok r ∧
        ∀ b n, r = some (b, n) → b.length = buffer.length ∧ ∃ s, stringAt b n = .ok s := by
  refine ⟨fun d => ?_, fun buffer offset => ⟨nextLine_ok buffer offset, ?_⟩⟩
  swap
  · obtain ⟨r, hr, hok⟩ := nextToken_ok buffer offset
    exact ⟨r, hr, fun b n hb => ⟨(hok b n hb).1, (hok b n hb).2.1⟩⟩
  have hstart : Passed [] 0 := ⟨[], [], rfl, fun ch hch => absurd hch List.not_mem_nil, rfl⟩
  obtain ⟨founds, P, offset, hread, -, hfounds, p, s, rfl, hs, rfl⟩ :=
    readLines_reads d.lines d.after hstart
  have hrest : Between (s ++ d.after) := by
    intro ch hch
    rcases List.mem_append.1 hch with hch | hch
    · exact hs ch hch
    · exact d.between ch hch
  refine ⟨founds, _, _, hread, hfounds.strings, fun found hfound x hx => ?_, ?_⟩
  · exact hfounds.kept found hfound x hx d.after
  · rw [List.append_assoc]
    exact nextLine_end hrest

/-- `A=7,"an axe, new";` and the end of the line. -/
def axeDoc : Doc where
  lines := [{
    before := ['A']
    first := .plain ['7'] (by simp [Plain, Quotable, quote, nul])
    rest := [.quoted ['a', 'n', ' ', 'a', 'x', 'e', ',', ' ', 'n', 'e', 'w']
      (by simp [Quotable, quote, nul])]
    between := by simp [Between] }]
  after := ['\n']
  between := by simp [Between]

theorem tokens_read_back_axe :
    axeDoc.render = ['A', '=', '7', ',', quote, 'a', 'n', ' ', 'a', 'x', 'e', ',', ' ', 'n', 'e',
      'w', quote, ';', '\n'] ∧
    ∃ founds buffer offset, readLines [2] axeDoc.render 0 = .ok (some (founds, buffer, offset)) ∧
      founds.map (List.map Prod.snd) =
        [[['7'], ['a', 'n', ' ', 'a', 'x', 'e', ',', ' ', 'n', 'e', 'w']]] := by
  obtain ⟨founds, buffer, offset, hread, hstrings, -⟩ := tokens_read_back.1 axeDoc
  exact ⟨rfl, founds, buffer, offset, hread, hstrings⟩

end Sundae.Proofs.Text
