import Sundae.Proofs.Text
import Sundae.Ref.Parse

/-!
# Counts that a file declares

A record declares how many names or items it has, and the parser believes it as
soon as it is not above a bound: a negative number passes, and what is kept of
it is read as one without a sign. Whether an array is left is then up to how
much text there is.
-/

namespace Sundae.Proofs.Parse

open Sundae.Lib Sundae.Ref.Text Sundae.Ref.Parse Sundae.Proofs.Text

variable {α : Type}

/-! ## Fields -/

inductive Field where
  | line
  | token
  | int (max : Option Int)
  | hex

/-- What is left of the text behind what a parser has read. -/
def left : Except Stop (α × Ref.Parse.Text) → Option Ref.Parse.Text
  | .ok (_, s) => some s
  | .error _ => none

def skipField : Field → Ref.Parse.Text → Option Ref.Parse.Text
  | .line, s => left (line s)
  | .token, s => left (token s)
  | .int max, s => left (int max s)
  | .hex, s => left (hex s)

abbrev skip : List Field → Ref.Parse.Text → Option Ref.Parse.Text := skipFields skipField

abbrev Has (p : Parser α) (l : List Field) : Prop := Follows skipField Stop.err p l

/-- The parser never stops. -/
def Total (p : Parser α) : Prop := ∀ s, ∃ r, p s = .ok r

theorem total_readLine : Total readLine := by
  intro s
  obtain ⟨r, hr⟩ := nextLine_ok s.buffer s.offset
  unfold readLine
  rw [hr]
  cases r with
  | none => exact ⟨_, rfl⟩
  | some tmp => exact ⟨_, rfl⟩

theorem total_readToken : Total readToken := by
  intro s
  obtain ⟨r, hr, hok⟩ := nextToken_ok s.buffer s.offset
  unfold readToken
  rw [hr]
  cases r with
  | none => exact ⟨_, rfl⟩
  | some x =>
      obtain ⟨b, n⟩ := x
      obtain ⟨-, ⟨string, hstring⟩, -⟩ := hok b n rfl
      dsimp only
      rw [hstring]
      exact ⟨_, rfl⟩

theorem total_readNumber (value : List Char → α) : Total (readNumber (tokenNumber value)) := by
  intro s
  obtain ⟨r, hr, hok⟩ := nextToken_ok s.buffer s.offset
  unfold readNumber tokenNumber
  rw [hr, ok_bind]
  cases r with
  | none => exact ⟨_, rfl⟩
  | some x =>
      obtain ⟨b, n⟩ := x
      obtain ⟨-, ⟨string, hstring⟩, -⟩ := hok b n rfl
      dsimp only
      rw [hstring, ok_bind]
      exact ⟨_, rfl⟩

/-- What a total reader finds, or the end. -/
theorem orErr_cases {p : Parser (Option α)} (hp : Total p) (s : Ref.Parse.Text) :
    (∃ a s', p s = .ok (some a, s') ∧ orErr p s = .ok (a, s')) ∨
      (∃ s', p s = .ok (none, s')) ∧ orErr p s = .error .err := by
  obtain ⟨⟨r, s'⟩, hr⟩ := hp s
  unfold orErr
  rw [bind_of_ok hr]
  cases r with
  | none => exact .inr ⟨⟨s', hr⟩, rfl⟩
  | some a => exact .inl ⟨a, s', hr, rfl⟩

/-- One field that a reader finds or does not find. -/
theorem has_of_cases {p : Parser α} {f : Field} (hf : ∀ s, skipField f s = left (p s))
    (hp : ∀ s, (∃ r, p s = .ok r) ∨ p s = .error .err) : Has p [f] := by
  intro s
  have hskip : skipFields skipField [f] s = left (p s) := by
    rw [skipFields, hf]
    cases left (p s) with
    | none => rfl
    | some s' => rfl
  rcases hp s with ⟨⟨a, s'⟩, hr⟩ | hr
  · exact .inl ⟨a, s', hr, by rw [hskip, hr, left]⟩
  · exact .inr ⟨hr, by rw [hskip, hr, left]⟩

theorem orErr_stop {p : Parser (Option α)} (hp : Total p) (s : Ref.Parse.Text) :
    (∃ r, orErr p s = .ok r) ∨ orErr p s = .error .err := by
  rcases orErr_cases hp s with ⟨a, s', -, hr⟩ | ⟨-, hr⟩
  · exact .inl ⟨_, hr⟩
  · exact .inr hr

theorem has_line : Has line [.line] := has_of_cases (fun _ => rfl) (orErr_stop total_readLine)

theorem has_token : Has token [.token] := has_of_cases (fun _ => rfl) (orErr_stop total_readToken)

theorem has_hex : Has hex [.hex] :=
  has_of_cases (fun _ => rfl) (orErr_stop (total_readNumber strtoul))

theorem total_readInt : Total (readNumber nextTokenInt) := total_readNumber strtol

theorem has_int (max : Option Int) : Has (int max) [.int max] := by
  refine has_of_cases (fun _ => rfl) fun s => ?_
  rcases orErr_stop total_readInt s with ⟨⟨n, s'⟩, hr⟩ | hr
  · unfold int
    rw [bind_of_ok hr]
    split
    · exact .inr rfl
    · exact .inl ⟨_, rfl⟩
  · exact .inr (bind_of_error hr)

theorem has_intField (max : Option Int) (bits : Nat) : Has (intField max bits) [.int max] :=
  (has_int max).map _

theorem has_hexField : Has hexField [.hex] := has_hex.map _

theorem has_stringField : Has stringField [.token] := has_token.map _

theorem has_entityField (entities : List (List Char)) : Has (entityField entities) [.token] :=
  has_token.map _

theorem has_itemField (items : List (List (List Char))) : Has (itemField items) [.token] :=
  has_token.map _

/-! ## Layouts -/

def itemTail : List Field :=
  [.token, .line, .int none, .int none, .int none, .token, .line, .int none, .int none, .int none,
    .int none, .int none, .int none, .token, .line, .int none, .token, .hex, .int none, .int none]

theorem has_itemRest (entities : List (List Char)) (i nameCount : Nat)
    (names : Vector (Option Nat) maxItemNames) :
    Has (itemRest entities i nameCount names) itemTail := by
  unfold itemRest
  have hnum : ∀ bits, Has (intField none bits) [.int none] := has_intField none
  exact has_stringField.bind fun _ => has_line.bind fun _ =>
    (hnum 16).bind fun _ => (hnum 32).bind fun _ => (hnum 8).bind fun _ =>
    has_stringField.bind fun _ => has_line.bind fun _ =>
    (hnum 8).bind fun _ => (hnum 8).bind fun _ => (hnum 8).bind fun _ =>
    (hnum 8).bind fun _ => (hnum 8).bind fun _ => (hnum 8).bind fun _ =>
    has_stringField.bind fun _ => has_line.bind fun _ =>
    (hnum 16).bind fun _ => (has_entityField entities).bind fun _ => has_hexField.bind fun _ =>
    (hnum 16).bind fun _ => (hnum 8).map fun _ => _

def npcTail : List Field :=
  [.token, .line, .int (some 255), .int (some 255), .int (some 255), .int (some 255),
    .int (some 255), .int (some 255), .int (some 255), .int (some 255), .int (some 255),
    .int (some 255), .int (some 65535), .line, .int (some 255), .int (some 255),
    .int (some 255), .int (some 255), .line, .token, .token, .token, .token, .token, .token,
    .token, .token, .token, .token, .token, .token, .line, .hex, .hex, .hex, .hex, .line,
    .int none, .int none, .int none, .int none, .int none]

theorem has_npcRest (entities : List (List Char)) (i nameCount : Nat)
    (names : Vector (Option Nat) maxNpcNames) :
    Has (npcRest entities i nameCount names) npcTail := by
  unfold npcRest
  have hnum : ∀ bits, Has (intField none bits) [.int none] := has_intField none
  have hbyte : Has (intField (some uint8Max) 8) [.int (some 255)] := has_intField _ _
  have hshort : Has (intField (some uint16Max) 16) [.int (some 65535)] := has_intField _ _
  have hsprites : Has (records (fun _ => sprite entities) 12 0) (times 12 [.token]) :=
    Follows.records (fun _ => (has_entityField entities).map _) 12 0
  exact has_stringField.bind fun _ => has_line.bind fun _ =>
    hbyte.bind fun _ => hbyte.bind fun _ => hbyte.bind fun _ => hbyte.bind fun _ =>
    hbyte.bind fun _ => hbyte.bind fun _ => hbyte.bind fun _ => hbyte.bind fun _ =>
    hbyte.bind fun _ => hbyte.bind fun _ => hshort.bind fun _ => has_line.bind fun _ =>
    hbyte.bind fun _ => hbyte.bind fun _ => hbyte.bind fun _ => hbyte.bind fun _ =>
    has_line.bind fun _ => hsprites.bind fun _ => has_line.bind fun _ =>
    has_hexField.bind fun _ => has_hexField.bind fun _ => has_hexField.bind fun _ =>
    has_hexField.bind fun _ => has_line.bind fun _ =>
    (hnum 16).bind fun _ => (hnum 16).bind fun _ => (hnum 8).bind fun _ =>
    (hnum 8).bind fun _ => (hnum 8).map fun _ => _

/-! ## Where the counts fit -/

/-- A number of the file, if it is there and not above its bound. -/
def intAt (max : Option Int) (s : Ref.Parse.Text) : Option (Int × Ref.Parse.Text) :=
  match int max s with
  | .ok r => some r
  | .error _ => none

/-- Where the count of names is kept with as many bits as its field has, there
is room for the names, or there are no more names in the text than there is room
for; and so it goes on behind the record. -/
def NamesFit (max : Nat) (tail : Ref.Parse.Text → Option Ref.Parse.Text) :
    Nat → Ref.Parse.Text → Prop
  | 0, _ => True
  | n + 1, s => ∀ s₁, skip [.line] s = some s₁ →
      ∀ count s₂, intAt (some max) s₁ = some (count, s₂) →
        RoomFor skipField [.token] [] max (asUint 16 count) s₂ ∧
        ∀ s₃, skip (times (asUint 16 count) [.token]) s₂ = some s₃ →
          ∀ s₄, tail s₃ = some s₄ → NamesFit max tail n s₄

/-- The record from its description on. -/
def itemEnd (s : Ref.Parse.Text) : Option Ref.Parse.Text := skip itemTail s

/-- With an NPC's drops, of which there have to be as many as declared. -/
def npcEnd (alloc : Nat → Bool) (s : Ref.Parse.Text) : Option Ref.Parse.Text :=
  (skip npcTail s).bind fun s =>
    (intAt none s).bind fun (count, s) =>
      if alloc (asUint 16 count) then skip (times (asUint 16 count) [.token, .int none]) s
      else none

/-- The lines in front of a shop, up to the first whose first token does not
have "string" in it. -/
inductive ShopNamed : Ref.Parse.Text → Ref.Parse.Text → Prop where
  | here {s s₁ s₂ : Ref.Parse.Text} {tmp : Nat} {name : List Char} : line s = .ok ((), s₁) →
      token s₁ = .ok ((tmp, name), s₂) → ¬ ['s', 't', 'r', 'i', 'n', 'g'] <:+: name →
      ShopNamed s s₂
  | next {s s₁ s₂ s₃ : Ref.Parse.Text} {tmp : Nat} {name : List Char} : line s = .ok ((), s₁) →
      token s₁ = .ok ((tmp, name), s₂) → ['s', 't', 'r', 'i', 'n', 'g'] <:+: name →
      ShopNamed s₂ s₃ → ShopNamed s s₃

/-- The fields between a shop's item count and its items. -/
def shopModifiers : List Field :=
  [.int (some 255), .int (some 255), .int (some 255), .int (some 65535)]

/-- The same for the items of a shop. -/
def ItemsFit : Nat → Ref.Parse.Text → Prop
  | 0, _ => True
  | n + 1, s => ∀ s₁, ShopNamed s s₁ → ∀ count s₂, intAt (some 255) s₁ = some (count, s₂) →
      ∀ s₃, skip shopModifiers s₂ = some s₃ →
        RoomFor skipField [.line, .token] [.int none, .int none] maxShopItems (asUint 8 count) s₃ ∧
        ∀ s₄, skip (times (asUint 8 count) [.line, .token, .int none, .int none]) s₃ = some s₄ →
          ItemsFit n s₄

/-- All records of a file, if there is memory for them. -/
def FileFits (alloc : Nat → Bool) (fits : Nat → Ref.Parse.Text → Prop) (buffer : List Char) :
    Prop :=
  ∀ max s, intAt none ⟨buffer, 0⟩ = some (max, s) → alloc (asUint 64 max) = true →
    fits (asUint 64 max) s

/-- No array is left, and what is returned declares no more than there is. -/
def InArrays (count : α → Nat) (max : Nat) : Except Stop (Option (List α) × Ref.Parse.Text) → Prop
  | .ok (some xs, _) => ∀ x ∈ xs, count x ≤ max
  | .ok (none, _) => True
  | .error e => e = .err

/-- The same of the records alone. -/
def RecordsIn (count : α → Nat) (max : Nat) : Except Stop (List α × Ref.Parse.Text) → Prop
  | .ok (xs, _) => ∀ x ∈ xs, count x ≤ max
  | .error e => e = .err

/-! ## Names -/

/-- What `config_parse_items` and `config_parse_npcs` have in common. -/
def record {max : Nat} (rest : Nat → Nat → Vector (Option Nat) max → Parser α) (i : Nat) :
    Parser α := do
  line
  let nameCount ← intField (some max) 16
  let names ← fill nameAt nameCount 0 (Vector.replicate max none)
  rest i nameCount names

/-- The rest of a record is there or not, and keeps the count. -/
def Ends {max : Nat} (rest : Nat → Nat → Vector (Option Nat) max → Parser α) (count : α → Nat)
    (tail : Ref.Parse.Text → Option Ref.Parse.Text) : Prop :=
  ∀ i c names s, (∃ x s', rest i c names s = .ok (x, s') ∧ count x = c ∧ tail s = some s') ∨
    rest i c names s = .error .err ∧ tail s = none

theorem has_assign {n j : Nat} (xs : Vector α n) (f : α → α) (hj : j < n) :
    Has (assign xs j f) [] := by
  rw [assign, dif_pos hj]
  exact .pure _

theorem assign_full {n : Nat} (xs : Vector α n) (f : α → α) (s : Ref.Parse.Text) :
    assign xs n f s = .error (.array n) := by
  rw [assign, dif_neg (Nat.lt_irrefl n)]
  rfl

theorem fills_names (max : Nat) :
    FillsArray skipField Stop.err (Stop.array max) (nameAt (n := max)) [.token] [] max where
  room := fun j names hj => has_token.bind fun _ => has_assign names _ hj
  full := by
    intro names s
    unfold nameAt
    rcases has_token s with ⟨a, s', hrun, hskip⟩ | ⟨hrun, hskip⟩
    · rw [bind_of_ok hrun, hskip]
      exact assign_full names _ s'
    · rw [bind_of_error hrun, hskip]
      rfl

/-- A count that is read is what is there. -/
theorem intField_cases (max : Option Int) (bits : Nat) (s : Ref.Parse.Text) :
    (∃ n s', intField max bits s = .ok (asUint bits n, s') ∧ intAt max s = some (n, s')) ∨
      intField max bits s = .error .err ∧ intAt max s = none := by
  unfold intField intAt
  rcases has_int max s with ⟨n, s', hrun, -⟩ | ⟨hrun, -⟩
  · rw [bind_of_ok hrun, hrun]
    exact .inl ⟨n, s', rfl, rfl⟩
  · rw [bind_of_error hrun, hrun]
    exact .inr ⟨rfl, rfl⟩

theorem outcome_count {β : Type} {max : Option Int} {bits : Nat} {full : Stop}
    {q : Nat → Parser β} {C : Int → Ref.Parse.Text → Prop} {P : β → Prop}
    {next : Ref.Parse.Text → Prop} {s : Ref.Parse.Text}
    (h : ∀ n s', Outcome .err full (q (asUint bits n) s') (C n s') P next) :
    Outcome .err full ((intField max bits >>= q) s)
      (∀ n s', intAt max s = some (n, s') → C n s') P next := by
  rcases intField_cases max bits s with ⟨n, s', hrun, hat⟩ | ⟨hrun, hat⟩
  · rw [bind_of_ok hrun]
    refine (h n s').congr ⟨fun h => h n s' hat, fun h n' s'' hat' => ?_⟩
    obtain ⟨rfl, rfl⟩ := Prod.mk.inj (Option.some.inj (hat.symm.trans hat'))
    exact h
  · refine .inl ⟨bind_of_error hrun, fun n s' hat' => ?_⟩
    rw [hat] at hat'
    cases hat'

variable {count : α → Nat}

/-- One record: where its names fit, it is read or the text ends, and where they
do not, the array is left. -/
theorem record_outcome {max : Nat} {rest : Nat → Nat → Vector (Option Nat) max → Parser α}
    {tail : Ref.Parse.Text → Option Ref.Parse.Text} (hrest : Ends rest count tail) (n i : Nat)
    (s : Ref.Parse.Text) :
    Outcome .err (.array max) (record rest i s) (NamesFit max tail (n + 1) s)
      (fun x => count x ≤ max) (NamesFit max tail n) := by
  refine .after has_line fun _ s₁ => outcome_count fun c s₂ =>
    .fill (fills_names max) _ fun hle names s₃ => .rest ?_
  rcases hrest i (asUint 16 c) names s₃ with ⟨x, s₄, hrun, hcount, htail⟩ | hstop
  · exact .inl ⟨x, s₄, hrun, hcount ▸ hle, htail⟩
  · exact .inr hstop

/-- One more record in front of others. -/
theorem recordsIn_cons {max : Nat} {p : Parser α} {q : Parser (List α)} {C : Prop}
    {next : Ref.Parse.Text → Prop} {s : Ref.Parse.Text}
    (hp : Outcome .err (.array max) (p s) C (fun x => count x ≤ max) next)
    (hq : ∀ s', RecordsIn count max (q s') ↔ next s') :
    RecordsIn count max ((do let x ← p; let xs ← q; pure (x :: xs)) s) ↔ C := by
  rcases hp with ⟨hrun, hC⟩ | ⟨hrun, hC⟩ | ⟨x, s', hrun, hle, hC⟩
  · rw [bind_of_error hrun]
    exact iff_of_true rfl hC
  · rw [bind_of_error hrun]
    exact iff_of_false (fun h => by cases h) hC
  · rw [bind_of_ok hrun, hC, ← hq]
    cases hrest : q s' with
    | error e => rw [bind_of_error hrest]
    | ok r =>
        obtain ⟨xs, s''⟩ := r
        rw [bind_of_ok hrest]
        constructor
        · exact fun h x' hx' => h x' (List.mem_cons_of_mem x hx')
        · intro h x' hx'
          rcases List.mem_cons.1 hx' with rfl | hx'
          · exact hle
          · exact h x' hx'

theorem records_iff {max : Nat} {rest : Nat → Nat → Vector (Option Nat) max → Parser α}
    {tail : Ref.Parse.Text → Option Ref.Parse.Text} (hrest : Ends rest count tail) (n i : Nat)
    (s : Ref.Parse.Text) :
    RecordsIn count max (records (record rest) n i s) ↔ NamesFit max tail n s := by
  induction n generalizing i s with
  | zero => exact iff_of_true (fun x hx => absurd hx List.not_mem_nil) trivial
  | succ n ih => exact recordsIn_cons (record_outcome hrest n i s) (ih (i + 1))

theorem parseFile_iff (alloc : Nat → Bool) {parse : Nat → Parser (List α)}
    {fits : Nat → Ref.Parse.Text → Prop} {max : Nat}
    (hparse : ∀ n s, RecordsIn count max (parse n s) ↔ fits n s) (buffer : List Char) :
    InArrays count max (parseFile alloc parse ⟨buffer, 0⟩) ↔ FileFits alloc fits buffer := by
  unfold parseFile FileFits
  rcases orErr_cases total_readInt ⟨buffer, 0⟩ with ⟨n, s, hrun, hor⟩ | ⟨⟨s, hrun⟩, hor⟩
  · have hat : intAt none ⟨buffer, 0⟩ = some (n, s) := by
      unfold intAt int
      rw [bind_of_ok hor]
      rfl
    have hone : (∀ m s', some (n, s) = some (m, s') → alloc (asUint 64 m) = true →
        fits (asUint 64 m) s') ↔ (alloc (asUint 64 n) = true → fits (asUint 64 n) s) := by
      constructor
      · exact fun h => h n s rfl
      · intro h m s' heq
        obtain ⟨rfl, rfl⟩ := Prod.mk.inj (Option.some.inj heq)
        exact h
    rw [bind_of_ok hrun, hat, hone]
    dsimp only
    split
    · next halloc =>
      rw [← hparse, forall_prop_of_true halloc]
      cases hq : parse (asUint 64 n) s with
      | error e => rw [bind_of_error hq]; exact Iff.rfl
      | ok r => rw [bind_of_ok hq]; exact Iff.rfl
    · next halloc => exact iff_of_true trivial fun h => absurd h halloc
  · have hat : intAt none ⟨buffer, 0⟩ = none := by
      unfold intAt int
      rw [bind_of_error hor]
    rw [bind_of_ok hrun, hat]
    exact iff_of_true trivial fun n s h => by cases h

/-! ## Items and NPCs -/

theorem ends_itemRest (entities : List (List Char)) :
    Ends (itemRest entities) ItemConfig.nameCount itemEnd := by
  intro i c names s
  have hcount : Gives (itemRest entities i c names) fun x => x.nameCount = c := by
    unfold itemRest
    iterate 20 refine .bind fun _ => ?_
    exact .pure rfl
  rcases has_itemRest entities i c names s with ⟨x, s', hrun, hskip⟩ | ⟨hrun, hskip⟩
  · exact .inl ⟨x, s', hrun, hcount s x s' hrun, hskip⟩
  · exact .inr ⟨hrun, hskip⟩

theorem npcRest_count (entities : List (List Char)) (i c : Nat)
    (names : Vector (Option Nat) maxNpcNames) :
    Gives (npcRest entities i c names) fun npc => npc.nameCount = c := by
  unfold npcRest
  iterate 31 refine .bind fun _ => ?_
  exact .pure rfl

theorem ends_npc (alloc : Nat → Bool) (entities : List (List Char))
    (items : List (List (List Char))) :
    Ends (fun i c names => do
      let npc ← npcRest entities i c names
      npcDrops alloc items npc) NpcConfig.nameCount (npcEnd alloc) := by
  intro i c names s
  dsimp only
  rcases has_npcRest entities i c names s with ⟨npc, s₁, hrun, hskip⟩ | ⟨hrun, hskip⟩
  swap
  · exact .inr ⟨bind_of_error hrun, by rw [npcEnd, skip, hskip]; rfl⟩
  have hcount := npcRest_count entities i c names s npc s₁ hrun
  rw [bind_of_ok hrun, npcEnd, skip, hskip, Option.bind_some]
  unfold npcDrops
  rcases intField_cases none 16 s₁ with ⟨d, s₂, hint, hat⟩ | ⟨hint, hat⟩
  swap
  · exact .inr ⟨bind_of_error hint, by rw [hat]; rfl⟩
  rw [bind_of_ok hint, hat, Option.bind_some]
  dsimp only
  split
  · have hdrop : Has (npcDrop items) [.token, .int none] :=
      (has_itemField items).bind fun _ => (has_intField none 16).map _
    have hdrops := (Follows.records (fun _ => hdrop) (asUint 16 d) 0).map fun drops =>
      { npc with dropCount := asUint 16 d, drops }
    have hkeeps : Gives (do
        let drops ← records (fun _ => npcDrop items) (asUint 16 d) 0
        pure { npc with dropCount := asUint 16 d, drops }) fun x => x.nameCount = c :=
      .bind fun _ => .pure hcount
    rcases hdrops s₂ with ⟨x, s₃, hrun₃, hskip₃⟩ | ⟨hrun₃, hskip₃⟩
    · exact .inl ⟨x, s₃, hrun₃, hkeeps s₂ x s₃ hrun₃, hskip₃⟩
    · exact .inr ⟨hrun₃, hskip₃⟩
  · exact .inr ⟨rfl, rfl⟩

/-! ## Shops -/

theorem fills_items (items : List (List (List Char))) :
    FillsArray skipField Stop.err (Stop.array maxShopItems) (shopItem items) [.line, .token]
      [.int none, .int none] maxShopItems where
  room := fun j xs hj => has_line.bind fun _ => (has_itemField items).bind fun _ =>
    (has_assign xs _ hj).bind fun xs => (has_intField none 16).bind fun _ =>
      (has_assign xs _ hj).bind fun xs => (has_intField none 16).bind fun _ => has_assign xs _ hj
  full := by
    intro xs s
    have hfront : Has (do line; itemField items) [.line, .token] :=
      has_line.bind fun _ => has_itemField items
    have hsame : shopItem items maxShopItems xs = (do
        let id ← (do line; itemField items)
        let xs ← assign xs maxShopItems fun x => { x with id }
        let quantity ← intField none 16
        let xs ← assign xs maxShopItems fun x => { x with quantity, curQuantity := quantity }
        let restock ← intField none 16
        assign xs maxShopItems fun x => { x with restock }) := by
      unfold shopItem
      rw [bind_assoc]
    rw [hsame]
    rcases hfront s with ⟨id, s', hrun, hskip⟩ | ⟨hrun, hskip⟩
    · rw [bind_of_ok hrun, hskip, bind_of_error (assign_full xs _ s')]
      rfl
    · rw [bind_of_error hrun, hskip]
      rfl

theorem line_reads {s : Ref.Parse.Text} {r : Option Unit} {s' : Ref.Parse.Text}
    (h : readLine s = .ok (r, s')) :
    s'.buffer = s.buffer ∧ line s = match r with
      | some () => .ok ((), s')
      | none => .error .err := by
  have hbuffer : s'.buffer = s.buffer := by
    unfold readLine at h
    split at h
    · cases h
    · obtain ⟨-, rfl⟩ := Prod.mk.inj (Except.ok.inj h)
      rfl
    · obtain ⟨-, rfl⟩ := Prod.mk.inj (Except.ok.inj h)
      rfl
  refine ⟨hbuffer, ?_⟩
  unfold line orErr
  rw [bind_of_ok h]
  cases r with
  | none => rfl
  | some _ => rfl

theorem token_reads {s : Ref.Parse.Text} {r : Option (Nat × List Char)} {s' : Ref.Parse.Text}
    (h : readToken s = .ok (r, s')) :
    (∀ x, r = some x → s'.buffer.countP isSep < s.buffer.countP isSep) ∧
      token s = match r with
        | some x => .ok (x, s')
        | none => .error .err := by
  constructor
  · intro x hr
    obtain ⟨r', hr', hok⟩ := nextToken_ok s.buffer s.offset
    unfold readToken at h
    rw [hr'] at h
    cases r' with
    | none =>
        obtain ⟨rfl, -⟩ := Prod.mk.inj (Except.ok.inj h)
        cases hr
    | some y =>
        obtain ⟨b, n⟩ := y
        obtain ⟨-, ⟨string, hstring⟩, hcount⟩ := hok b n rfl
        dsimp only at h
        rw [hstring] at h
        obtain ⟨-, rfl⟩ := Prod.mk.inj (Except.ok.inj h)
        exact hcount
  · unfold token orErr
    rw [bind_of_ok h]
    cases r with
    | none => rfl
    | some _ => rfl

namespace ShopNamed

variable {s s' s₁ s₂ : Ref.Parse.Text} {tmp : Nat} {name : List Char}

/-- There is a line, and a token in it. -/
theorem reads (h : ShopNamed s s') :
    ∃ s₁ x, line s = .ok ((), s₁) ∧ token s₁ = .ok x := by
  cases h with
  | here hline htoken => exact ⟨_, _, hline, htoken⟩
  | next hline htoken => exact ⟨_, _, hline, htoken⟩

theorem iff (hline : line s = .ok ((), s₁)) (htoken : token s₁ = .ok ((tmp, name), s₂)) :
    ShopNamed s s' ↔
      if ['s', 't', 'r', 'i', 'n', 'g'] <:+: name then ShopNamed s₂ s' else s' = s₂ := by
  constructor
  · intro h
    cases h with
    | here hline' htoken' hname =>
        obtain ⟨-, rfl⟩ := Prod.mk.inj (Except.ok.inj (hline.symm.trans hline'))
        obtain ⟨hx, rfl⟩ := Prod.mk.inj (Except.ok.inj (htoken.symm.trans htoken'))
        obtain ⟨-, rfl⟩ := Prod.mk.inj hx
        rw [if_neg hname]
    | next hline' htoken' hname hrest =>
        obtain ⟨-, rfl⟩ := Prod.mk.inj (Except.ok.inj (hline.symm.trans hline'))
        obtain ⟨hx, rfl⟩ := Prod.mk.inj (Except.ok.inj (htoken.symm.trans htoken'))
        obtain ⟨-, rfl⟩ := Prod.mk.inj hx
        rwa [if_pos hname]
  · intro h
    split at h
    · next hname => exact .next hline htoken hname h
    · next hname => exact h ▸ .here hline htoken hname

end ShopNamed

/-- The loop over the lines in front of a shop ends: each of them uses up a
separator. -/
theorem shopName_cases {fuel : Nat} {s : Ref.Parse.Text} (hfuel : s.buffer.countP isSep < fuel) :
    (∃ tmp s', shopName fuel s = .ok (some tmp, s') ∧ ∀ s'', ShopNamed s s'' ↔ s'' = s') ∨
      (∃ s', shopName fuel s = .ok (none, s')) ∧ ∀ s'', ¬ ShopNamed s s'' := by
  induction fuel generalizing s with
  | zero => exact absurd hfuel (Nat.not_lt_zero _)
  | succ fuel ih =>
      obtain ⟨⟨r, s₁⟩, hrun⟩ := total_readLine s
      obtain ⟨hbuffer, hline⟩ := line_reads hrun
      rw [shopName, bind_of_ok hrun]
      cases r with
      | none =>
          refine .inr ⟨⟨s₁, rfl⟩, fun s'' hnamed => ?_⟩
          obtain ⟨s₁', x, hline', -⟩ := hnamed.reads
          rw [hline] at hline'
          cases hline'
      | some _ =>
          dsimp only at hline ⊢
          obtain ⟨⟨t, s₂⟩, hread⟩ := total_readToken s₁
          obtain ⟨hless, htoken⟩ := token_reads hread
          rw [bind_of_ok hread]
          cases t with
          | none =>
              refine .inr ⟨⟨s₂, rfl⟩, fun s'' hnamed => ?_⟩
              obtain ⟨s₁', x, hline', htoken'⟩ := hnamed.reads
              obtain ⟨-, rfl⟩ := Prod.mk.inj (Except.ok.inj (hline.symm.trans hline'))
              rw [htoken] at htoken'
              cases htoken'
          | some x =>
              obtain ⟨tmp, name⟩ := x
              dsimp only at htoken ⊢
              split
              · next hname =>
                have hless' : s₂.buffer.countP isSep < fuel := by
                  have hlt := hless _ rfl
                  rw [hbuffer] at hlt
                  omega
                simp only [ShopNamed.iff hline htoken, if_pos hname]
                exact ih hless'
              · next hname =>
                refine .inl ⟨tmp, s₂, rfl, fun s'' => ?_⟩
                rw [ShopNamed.iff hline htoken, if_neg hname]

/-- The numbers between a shop's item count and its items. -/
theorem outcome_modifiers {q : Nat → Nat → Nat → Nat → Parser α} {full : Stop}
    {C : Ref.Parse.Text → Prop} {P : α → Prop} {next : Ref.Parse.Text → Prop} {s : Ref.Parse.Text}
    (h : ∀ a b c d s', Outcome .err full (q a b c d s') (C s') P next) :
    Outcome .err full ((do
      let sellModifier ← intField (some uint8Max) 8
      let buyModifier ← intField (some uint8Max) 8
      let delta ← intField (some uint8Max) 8
      let pawnLimit ← intField (some uint16Max) 16
      q sellModifier buyModifier delta pawnLimit : Parser α) s)
      (∀ s', skip shopModifiers s = some s' → C s') P next := by
  have hbyte : Has (intField (some uint8Max) 8) [.int (some 255)] := has_intField _ _
  have hshort : Has (intField (some uint16Max) 16) [.int (some 65535)] := has_intField _ _
  have hall : Has (do
      let a ← intField (some uint8Max) 8
      let b ← intField (some uint8Max) 8
      let c ← intField (some uint8Max) 8
      let d ← intField (some uint16Max) 16
      pure (a, b, c, d)) shopModifiers :=
    hbyte.bind fun _ => hbyte.bind fun _ => hbyte.bind fun _ => hshort.map _
  have hout := Outcome.after (s := s) hall (q := fun x => q x.1 x.2.1 x.2.2.1 x.2.2.2)
    fun x s' => h x.1 x.2.1 x.2.2.1 x.2.2.2 s'
  simpa only [bind_assoc, pure_bind] using hout

/-- One shop behind its name. -/
theorem shop_outcome (items : List (List (List Char))) (name n : Nat) {s s₁ : Ref.Parse.Text}
    (hnamed : ∀ s', ShopNamed s s' ↔ s' = s₁) :
    Outcome .err (.array maxShopItems) (shopRest items name s₁) (ItemsFit (n + 1) s)
      (fun x => x.itemCount ≤ maxShopItems) (ItemsFit n) := by
  have hone : ItemsFit (n + 1) s ↔ ∀ count s₂, intAt (some 255) s₁ = some (count, s₂) →
      ∀ s₃, skip shopModifiers s₂ = some s₃ →
        RoomFor skipField [.line, .token] [.int none, .int none] maxShopItems (asUint 8 count) s₃ ∧
        ∀ s₄, skip (times (asUint 8 count) [.line, .token, .int none, .int none]) s₃ = some s₄ →
          ItemsFit n s₄ := by
    simp only [ItemsFit, hnamed, forall_eq]
  refine Outcome.congr ?_ hone
  exact outcome_count fun c s₂ => outcome_modifiers fun sell buy delta pawn s₃ =>
    .fill (fills_items items) _ fun hle xs s₄ => .done hle

theorem parseShops_iff (items : List (List (List Char))) (n : Nat) (s : Ref.Parse.Text) :
    RecordsIn ShopConfig.itemCount maxShopItems (parseShops items n s) ↔ ItemsFit n s := by
  induction n generalizing s with
  | zero => exact iff_of_true (fun x hx => absurd hx List.not_mem_nil) trivial
  | succ n ih =>
      have hfuel : s.buffer.countP isSep < s.buffer.length + 1 :=
        Nat.lt_succ_of_le List.countP_le_length
      rw [parseShops, bind_of_ok (show (get : Parser Ref.Parse.Text) s = .ok (s, s) from rfl)]
      rcases shopName_cases hfuel with ⟨tmp, s₁, hname, hnamed⟩ | ⟨⟨s₁, hname⟩, hnamed⟩
      · rw [bind_of_ok hname]
        exact recordsIn_cons (shop_outcome items tmp n hnamed) ih
      · rw [bind_of_ok hname]
        refine iff_of_true (fun x hx => absurd hx List.not_mem_nil) fun s₁' h₁ => ?_
        exact absurd h₁ (hnamed s₁')

/-- The parsers stay in the arrays of the records they fill, and return counts
that are within them, exactly where every count that they come to, once it is
cut to its field, is within its array, or the text ends before the first
element behind the array. -/
theorem counts_fit_iff (alloc : Nat → Bool) (entities : List (List Char))
    (items : List (List (List Char))) (buffer : List Char) :
    (InArrays ItemConfig.nameCount maxItemNames (configParseItems alloc entities ⟨buffer, 0⟩) ↔
      FileFits alloc (NamesFit maxItemNames itemEnd) buffer) ∧
    (InArrays NpcConfig.nameCount maxNpcNames (configParseNpcs alloc entities items ⟨buffer, 0⟩) ↔
      FileFits alloc (NamesFit maxNpcNames (npcEnd alloc)) buffer) ∧
    (InArrays ShopConfig.itemCount maxShopItems (configParseShops alloc items ⟨buffer, 0⟩) ↔
      FileFits alloc ItemsFit buffer) := by
  refine ⟨parseFile_iff alloc (fun n s => ?_) buffer, parseFile_iff alloc (fun n s => ?_) buffer,
    parseFile_iff alloc (parseShops_iff items) buffer⟩
  · exact records_iff (ends_itemRest entities) n 0 s
  · exact records_iff (ends_npc alloc entities items) n 0 s

/-- An item that declares -1 names is read as one with 65535, and the fifth is
written behind the array. -/
theorem minus_one_names : ¬ ∀ (alloc : Nat → Bool) (entities : List (List Char))
    (buffer : List Char),
    InArrays ItemConfig.nameCount maxItemNames (configParseItems alloc entities ⟨buffer, 0⟩) := by
  intro hall
  have hrun : configParseItems (fun _ => true) [] ⟨[' ', '1', ';', '=', '-', '1', ',', 'a', ',',
      'b', ',', 'c', ',', 'd', ',', 'e', ';'], 0⟩ = .error (.array 4) := by rfl
  have hbad := hall (fun _ => true) [] [' ', '1', ';', '=', '-', '1', ',', 'a', ',', 'b', ',', 'c',
    ',', 'd', ',', 'e', ';']
  rw [hrun] at hbad
  cases hbad

end Sundae.Proofs.Parse
