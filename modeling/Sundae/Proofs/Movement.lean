import Sundae.Proofs.Bits
import Sundae.Proofs.View

/-!
# What a movement packet says

The known mobs in their order, each with what it has done or that it is to be
forgotten, and then the records of those that are new. There is always room for
255 of each in `tmpbuf`.
-/

namespace Sundae.Proofs

open Sundae.Lib Sundae.Ref

/-! ## Writing bits -/

/-- The bits `l` have been written from where the packet was. -/
structure Emits (d d' : BitDraft) (l : List Bool) : Prop where
  length : d'.tmpbuf.length = d.tmpbuf.length
  bitpos : d'.bitpos = d.bitpos + l.length
  spells : Spells d'.tmpbuf d.bitpos l
  before : ∀ k, k < d.bitpos → bitAt d'.tmpbuf k = bitAt d.tmpbuf k

theorem Emits.refl (d : BitDraft) : Emits d d [] := ⟨rfl, rfl, .nil _ _, fun _ _ => rfl⟩

theorem Emits.trans {d d' d'' : BitDraft} {l m : List Bool} (h : Emits d d' l)
    (h' : Emits d' d'' m) : Emits d d'' (l ++ m) where
  length := h'.length.trans h.length
  bitpos := by rw [h'.bitpos, h.bitpos, List.length_append, Nat.add_assoc]
  spells := by
    refine (h.spells.congr fun k hk => ?_).append ?_
    · exact h'.before k (by rw [h.bitpos]; exact hk)
    · rw [← h.bitpos]
      exact h'.spells
  before k hk := (h'.before k (by rw [h.bitpos]; omega)).trans (h.before k hk)

/-- `tmpbuf` has room for `n` bits more. -/
structure Roomy (d : BitDraft) (n : Nat) : Prop where
  length : d.tmpbuf.length = playerBufsize
  room : d.bitpos + n ≤ 8 * playerBufsize

theorem Roomy.mono {d : BitDraft} {m n : Nat} (h : Roomy d n) (hmn : m ≤ n) : Roomy d m :=
  ⟨h.length, Nat.le_trans (Nat.add_le_add_left hmn _) h.room⟩

theorem Roomy.after {d d' : BitDraft} {l : List Bool} {n : Nat} (h : Roomy d (l.length + n))
    (he : Emits d d' l) : Roomy d' n :=
  ⟨he.length.trans h.length, by rw [he.bitpos, Nat.add_assoc]; exact h.room⟩

/-- The packet is written if there is room for its bits. -/
def Writes (d : BitDraft) (l : List Bool) (result : Option BitDraft) : Prop :=
  Roomy d l.length → ∃ d', result = some d' ∧ Emits d d' l

theorem putbits_writes (d : BitDraft) {num : Nat} (hnum : 0 < num) (value : Int) :
    Writes d (field num value) (d.putbits num value) := by
  intro h
  have hroom := h.room
  rw [length_field] at hroom
  rcases bufPutbits_cases h.length.ge d.bitpos hnum value with ⟨hfull, -⟩ | ⟨-, b, heq, hb⟩
  · omega
  · refine ⟨⟨b, d.bitpos + num⟩, by rw [BitDraft.putbits, heq]; rfl, hb.length,
      by rw [length_field], fun k hk => ?_, fun k hk => ?_⟩
    · rw [length_field] at hk
      rw [getElem_field, hb.bit, if_pos (by omega)]
      congr 1
      omega
    · rw [hb.bit, if_neg (by omega)]

theorem Writes.bind {d : BitDraft} {l m : List Bool} {result : Option BitDraft}
    {next : BitDraft → Option BitDraft} (h : Writes d l result)
    (hnext : ∀ d', Writes d' m (next d')) : Writes d (l ++ m) (result.bind next) := by
  intro hroom
  rw [List.length_append] at hroom
  obtain ⟨d', rfl, he⟩ := h (hroom.mono (by omega))
  obtain ⟨d'', heq, he'⟩ := hnext d' (hroom.after he)
  exact ⟨d'', heq, he.trans he'⟩

theorem Writes.room {d : BitDraft} {l : List Bool} {result : Option BitDraft}
    (h : Writes d l result) {n : Nat} (hroom : Roomy d (l.length + n)) :
    ∃ d', result = some d' ∧ Emits d d' l ∧ Roomy d' n := by
  obtain ⟨d', heq, he⟩ := h (hroom.mono (by omega))
  exact ⟨d', heq, he, hroom.after he⟩

/-! ## The mobs a client knows -/

/-- What is said of a known mob that stays. -/
def changeBits (m : World.Mob) : List Bool :=
  if m.moved then field 1 1 ++ (field 1 0 ++ field 3 m.dir.code)
  else if m.dir ≠ m.prevDir then field 1 1 ++ (field 1 1 ++ field 4 m.dir.code)
  else field 1 0

theorem putChange_writes (d : BitDraft) (m : World.Mob) :
    Writes d (changeBits m) (d.putChange m) := by
  unfold changeBits BitDraft.putChange
  split
  · exact (putbits_writes d (by omega) 1).bind fun d =>
      (putbits_writes d (by omega) 0).bind fun d => putbits_writes d (by omega) _
  · split
    · exact (putbits_writes d (by omega) 1).bind fun d =>
        (putbits_writes d (by omega) 1).bind fun d => putbits_writes d (by omega) _
    · exact putbits_writes d (by omega) 0

theorem length_changeBits (m : World.Mob) : (changeBits m).length ≤ 6 := by
  unfold changeBits
  split
  · simp
  · split
    · simp
    · simp

/-- What is said of a known mob. -/
def knownBits (mob : Nat → Option World.Mob) : Option Nat → List Bool
  | none => []
  | some id => (mob id).elim (field 4 15) changeBits

theorem length_knownBits (mob : Nat → Option World.Mob) (entry : Option Nat) :
    (knownBits mob entry).length ≤ 6 := by
  cases entry with
  | none => simp [knownBits]
  | some id =>
    cases h : mob id with
    | none => simp [knownBits, h]
    | some m => simpa [knownBits, h] using length_changeBits m

/-- The known mobs that stay. -/
def keptMobs (mob : Nat → Option World.Mob) (known : List (Option Nat)) : List Nat :=
  known.filterMap fun entry => entry.filter fun id => (mob id).isSome

/-- A mob that the assertion stops at. -/
def Asserted (mob : Nat → Option World.Mob) (known : List (Option Nat)) : Prop :=
  ∃ id m, some id ∈ known ∧ mob id = some m ∧ m.moved = true ∧ m.dir.combat = true

/-- The loop ends, unless the assertion stops it. -/
theorem sendKnownMobs_cases (mob : Nat → Option World.Mob) (known : List (Option Nat))
    (newKnown : List Nat) {d : BitDraft} (h : Roomy d (known.flatMap (knownBits mob)).length) :
    (Asserted mob known ∧ (sendKnownMobs mob known newKnown d).2 = .error .stopped) ∨
    (¬ Asserted mob known ∧ ∃ d',
      (sendKnownMobs mob known newKnown d).2 = .ok (newKnown ++ keptMobs mob known, d') ∧
      Emits d d' (known.flatMap (knownBits mob))) := by
  induction known generalizing newKnown d with
  | nil =>
    refine .inr ⟨?_, d, by simp [sendKnownMobs, keptMobs], .refl d⟩
    rintro ⟨id, m, hid, -⟩
    cases hid
  | cons entry rest ih =>
    have hiff : ∀ (hrest : ¬ ∃ id m, entry = some id ∧ mob id = some m ∧ m.moved = true ∧
        m.dir.combat = true), Asserted mob (entry :: rest) ↔ Asserted mob rest := by
      intro hrest
      constructor
      · rintro ⟨id, m, hid, hm⟩
        rcases List.mem_cons.1 hid with heq | hid
        · exact absurd ⟨id, m, heq.symm, hm⟩ hrest
        · exact ⟨id, m, hid, hm⟩
      · rintro ⟨id, m, hid, hm⟩
        exact ⟨id, m, List.mem_cons_of_mem _ hid, hm⟩
    rw [List.flatMap_cons] at h ⊢
    cases entry with
    | none =>
      rw [hiff (by simp)]
      exact ih newKnown h
    | some id =>
      unfold sendKnownMobs
      rw [List.length_append] at h
      cases hm : mob id with
      | none =>
        rw [hiff (by simp [hm])]
        have hbits : knownBits mob (some id) = field 4 15 := by simp [knownBits, hm]
        have hkept : keptMobs mob (some id :: rest) = keptMobs mob rest := by
          simp [keptMobs, hm, Option.filter]
        rw [hbits] at h ⊢
        obtain ⟨d₁, heq, he, hroom⟩ :=
          (putbits_writes d (show 0 < 4 by omega) 15).room h
        dsimp only
        rw [heq, hkept]
        rcases ih newKnown hroom with ⟨ha, hstop⟩ | ⟨ha, d', hok, he'⟩
        · exact .inl ⟨ha, hstop⟩
        · exact .inr ⟨ha, d', hok, he.trans he'⟩
      | some m =>
        dsimp only
        by_cases hassert : m.moved = true ∧ m.dir.combat = true
        · rw [if_pos hassert]
          exact .inl ⟨⟨id, m, List.mem_cons_self, hm, hassert⟩, rfl⟩
        · rw [if_neg hassert, hiff]
          · have hbits : knownBits mob (some id) = changeBits m := by simp [knownBits, hm]
            have hkept : keptMobs mob (some id :: rest) = id :: keptMobs mob rest := by
              simp [keptMobs, hm, Option.filter]
            rw [hbits] at h ⊢
            obtain ⟨d₁, heq, he, hroom⟩ := (putChange_writes d m).room h
            rw [heq, hkept]
            rcases ih (newKnown ++ [id]) hroom with ⟨ha, hstop⟩ | ⟨ha, d', hok, he'⟩
            · exact .inl ⟨ha, hstop⟩
            · refine .inr ⟨ha, d', ?_, he.trans he'⟩
              dsimp only
              rw [hok]
              simp
          · rintro ⟨id', m', hid, hm', hmoved⟩
            obtain rfl := Option.some.inj hid
            rw [hm] at hm'
            obtain rfl := Option.some.inj hm'
            exact hassert hmoved

/-! ## The mobs that are new -/

/-- Those of the nearby mobs that are not on the list, each once. -/
def newcomers : List Nat → List Nat → List Nat
  | _, [] => []
  | known, id :: nearby =>
    if known.contains id then newcomers known nearby
    else id :: newcomers (known ++ [id]) nearby

/-- The loop ends, unless it runs over the array. -/
theorem sendNearbyMobs_cases {put : BitDraft → Nat → Option BitDraft} {bits : Nat → List Bool}
    (hput : ∀ d id, Writes d (bits id) (put d id)) {most : Nat}
    (hmost : ∀ id, (bits id).length ≤ most) (nearby newKnown : List Nat) {d : BitDraft}
    (hlist : newKnown.length ≤ World.maxKnown)
    (h : Roomy d ((World.maxKnown + 1 - newKnown.length) * most)) :
    (World.maxKnown < (newKnown ++ newcomers newKnown nearby).length ∧
      sendNearbyMobs put nearby newKnown d = .error .overrun) ∨
    ((newKnown ++ newcomers newKnown nearby).length ≤ World.maxKnown ∧ ∃ d',
      sendNearbyMobs put nearby newKnown d = .ok (newKnown ++ newcomers newKnown nearby, d') ∧
      Emits d d' ((newcomers newKnown nearby).flatMap bits)) := by
  induction nearby generalizing newKnown d with
  | nil => exact .inr ⟨by simpa [newcomers] using hlist, d, by simp [sendNearbyMobs, newcomers],
      .refl d⟩
  | cons id nearby ih =>
    unfold sendNearbyMobs newcomers
    by_cases hknown : newKnown.contains id = true
    · rw [if_pos hknown, if_pos hknown]
      exact ih newKnown hlist h
    · rw [if_neg hknown, if_neg hknown]
      have hrest : (bits id).length + (World.maxKnown + 1 - (newKnown.length + 1)) * most ≤
          (World.maxKnown + 1 - newKnown.length) * most := by
        have hsplit : World.maxKnown + 1 - newKnown.length =
            (World.maxKnown + 1 - (newKnown.length + 1)) + 1 := by omega
        rw [hsplit, Nat.succ_mul]
        have hle := hmost id
        omega
      obtain ⟨d₁, heq, he, hroom⟩ := (hput d id).room (h.mono hrest)
      rw [heq]
      dsimp only
      by_cases hfull : World.maxKnown ≤ newKnown.length
      · rw [if_pos hfull]
        refine .inl ⟨?_, rfl⟩
        simp only [List.length_append, List.length_cons]
        omega
      · rw [if_neg hfull]
        have happ : newKnown ++ id :: newcomers (newKnown ++ [id]) nearby =
            (newKnown ++ [id]) ++ newcomers (newKnown ++ [id]) nearby := by simp
        rw [happ]
        have hlen : (newKnown ++ [id]).length = newKnown.length + 1 := by simp
        rcases ih (newKnown ++ [id]) (by omega) (by rw [hlen]; exact hroom) with
          ⟨hover, hrun⟩ | ⟨hfits, d', hok, he'⟩
        · exact .inl ⟨hover, hrun⟩
        · exact .inr ⟨hfits, d', hok, he.trans he'⟩

/-- Where a new mob is, and its direction. -/
def placeBits (v : Viewer) (m : World.Mob) : List Bool :=
  field 5 ((m.x : Int) - v.x) ++ (field 5 ((m.y : Int) - v.y) ++ field 4 m.dir.code)

theorem putPlace_writes (v : Viewer) (d : BitDraft) (m : World.Mob) :
    Writes d (placeBits v m) (d.putPlace v m) :=
  (putbits_writes d (by omega) _).bind fun d =>
    (putbits_writes d (by omega) _).bind fun d => putbits_writes d (by omega) _

/-- The list after a packet: those that stay and those that are new. -/
def seenMobs (mob : Nat → Option World.Mob) (known : List (Option Nat)) (shown : List Nat) :
    List Nat :=
  keptMobs mob known ++ newcomers (keptMobs mob known) shown

/-- What a packet says after its header. -/
def mobBits (mob : Nat → Option World.Mob) (bits : Nat → List Bool) (known : List (Option Nat))
    (shown : List Nat) : List Bool :=
  known.flatMap (knownBits mob) ++ (newcomers (keptMobs mob known) shown).flatMap bits

/-- Both loops. -/
def sendMobs (mob : Nat → Option World.Mob) (put : BitDraft → Nat → Option BitDraft)
    (known : List (Option Nat)) (shown : List Nat) (d : BitDraft) : KnownEnd :=
  match (sendKnownMobs mob known [] d).2 with
  | .error e => .error e
  | .ok (newKnown, d) => sendNearbyMobs put shown newKnown d

theorem length_flatMap_le {α β : Type} {f : α → List β} {most : Nat} (l : List α)
    (h : ∀ a, (f a).length ≤ most) : (l.flatMap f).length ≤ l.length * most := by
  induction l with
  | nil => simp
  | cons a l ih =>
    have ha := h a
    rw [List.flatMap_cons, List.length_append, List.length_cons, Nat.succ_mul]
    omega

/-- How an encoder of movement ends, where it is not stopped and does not run over
its array. -/
theorem sendMobs_cases {mob : Nat → Option World.Mob}
    {put : BitDraft → Nat → Option BitDraft} {bits : Nat → List Bool}
    (hput : ∀ d id, Writes d (bits id) (put d id)) (hmost : ∀ id, (bits id).length ≤ 36)
    {known : List (Option Nat)} (hknown : known.length ≤ World.maxKnown) (shown : List Nat)
    {d : BitDraft} (hlen : d.tmpbuf.length = playerBufsize) (hpos : d.bitpos ≤ 44) :
    (Asserted mob known ∧ sendMobs mob put known shown d = .error .stopped) ∨
    (¬ Asserted mob known ∧ World.maxKnown < (seenMobs mob known shown).length ∧
      sendMobs mob put known shown d = .error .overrun) ∨
    (¬ Asserted mob known ∧ (seenMobs mob known shown).length ≤ World.maxKnown ∧ ∃ d',
      sendMobs mob put known shown d = .ok (seenMobs mob known shown, d') ∧
      Emits d d' (mobBits mob bits known shown)) := by
  have hkept : (keptMobs mob known).length ≤ known.length := List.length_filterMap_le _ _
  have hbits := length_flatMap_le known (length_knownBits mob)
  have hmax : World.maxKnown = 255 := rfl
  have hbuf : playerBufsize = 5000 := rfl
  have hroom : Roomy d ((known.flatMap (knownBits mob)).length + 256 * 36) :=
    ⟨hlen, by omega⟩
  unfold sendMobs
  rcases sendKnownMobs_cases mob known [] (hroom.mono (by omega)) with
    ⟨ha, heq⟩ | ⟨ha, d₁, heq, he⟩
  · rw [heq]
    exact .inl ⟨ha, rfl⟩
  · rw [heq, List.nil_append]
    dsimp only
    have hrest : (World.maxKnown + 1 - (keptMobs mob known).length) * 36 ≤ 256 * 36 :=
      Nat.mul_le_mul_right 36 (by omega)
    rcases sendNearbyMobs_cases hput hmost shown (keptMobs mob known) (by omega)
      ((hroom.after he).mono hrest) with ⟨hover, heq'⟩ | ⟨hfits, d₂, heq', he'⟩
    · exact .inr (.inl ⟨ha, hover, heq'⟩)
    · exact .inr (.inr ⟨ha, hfits, d₂, heq', he.trans he'⟩)

/-- The opcode stays in front of the bits. -/
theorem Emits.head {d d' : BitDraft} {l : List Bool} (h : Emits d d' l) (hpos : 8 ≤ d.bitpos) :
    d'.tmpbuf.head? = d.tmpbuf.head? := by
  have hlen := h.length
  cases hd : d.tmpbuf with
  | nil => simp_all
  | cons x rest =>
    cases hd' : d'.tmpbuf with
    | nil => simp_all
    | cons y rest' =>
      have hbyte : y.toBitVec = x.toBitVec := by
        refine BitVec.eq_of_getLsbD_eq fun j hj => ?_
        have hbit := h.before (7 - j) (by omega)
        have hdiv : (7 - j) / 8 = 0 := by omega
        have hmod : 7 - (7 - j) % 8 = j := by omega
        simpa only [bitAt, hd, hd', hdiv, hmod, List.getD_cons_zero] using hbit
      rw [List.head?_cons, List.head?_cons, UInt8.toBitVec_inj.1 hbyte]

/-- A field of the header, after those before it. -/
theorem Emits.putHeader {d₀ d : BitDraft} {l : List Bool} (he : Emits d₀ d l) {num n : Nat}
    (hnum : 0 < num) (value : Int) (h : Roomy d₀ n) (hn : l.length + num ≤ n) :
    Emits d₀ (d.putHeader num value) (l ++ field num value) := by
  obtain ⟨d', heq, he'⟩ := putbits_writes d hnum value
    (by rw [length_field]; exact (h.mono hn).after he)
  rw [BitDraft.putHeader, heq]
  exact he.trans he'

/-! ## Looking around -/

/-- Looking around takes the mobs that are gone off the zones' lists and changes
no mob. -/
structure SameMobs (w w' : World) : Prop where
  players : w'.players = w.players
  npcs : w'.npcs = w.npcs

theorem SameMobs.trans {w w' w'' : World} (h : SameMobs w w') (h' : SameMobs w' w'') :
    SameMobs w w'' := ⟨h'.players.trans h.players, h'.npcs.trans h.npcs⟩

theorem SameMobs.mob? {w w' : World} (h : SameMobs w w') : w'.mob? = w.mob? := by
  funext r
  cases r with
  | player i => rw [World.mob?, World.mob?, h.players]
  | npc j => rw [World.mob?, World.mob?, h.npcs]

theorem nearbyAround_same {find : World → Zone → World × List Nat}
    (hfind : ∀ w zone, SameMobs w (find w zone).1) (listed : World → Nat → Bool) (max : Nat)
    (zones : List Zone) (w : World) (list : List Nat) :
    SameMobs w (World.nearbyAround find listed max zones w list).1 := by
  induction zones generalizing w list with
  | nil => exact ⟨rfl, rfl⟩
  | cons zone zones ih =>
    unfold World.nearbyAround
    split
    · exact ⟨rfl, rfl⟩
    · exact (hfind w zone).trans (ih _ _)

theorem mobGetNearbyPlayers_same (w : World) (v : Viewer) (max : Nat) :
    SameMobs w (w.mobGetNearbyPlayers v max).1 := by
  have hfind : ∀ w zone, SameMobs w (World.zoneFindPlayers w zone 128).1 :=
    fun _ _ => ⟨rfl, rfl⟩
  unfold World.mobGetNearbyPlayers
  split
  · exact ⟨rfl, rfl⟩
  · next orig _ =>
    exact (hfind w orig).trans (nearbyAround_same hfind _ _ _ _ _)

/-! ## Players -/

section Players

variable {w : World} {v : Viewer}

/-- The player's own place, and how many players it knows. -/
def playerHeaderBits (v : Viewer) : List Bool :=
  (if v.out.protocolRev < 149 then field 10 v.x ++ field 12 v.y
    else field 11 v.x ++ field 13 v.y) ++ field 4 v.dir.code ++ field 8 v.knownPlayers.length

theorem length_playerHeaderBits (v : Viewer) : (playerHeaderBits v).length ≤ 36 := by
  unfold playerHeaderBits
  split
  · simp
  · simp

theorem playerHeader_emits (v : Viewer) {tmpbuf : List UInt8}
    (h : tmpbuf.length = playerBufsize) :
    Emits ⟨tmpbuf.set 0 opSrvPlayerMovement, 8⟩ (playerHeader v tmpbuf) (playerHeaderBits v) := by
  have hroom : Roomy ⟨tmpbuf.set 0 opSrvPlayerMovement, 8⟩ 36 :=
    ⟨by simp [h], by simp [playerBufsize]⟩
  unfold playerHeader playerHeaderBits
  split
  · have hx := (Emits.refl _).putHeader (by omega) (v.x : Int) hroom (show 0 + 10 ≤ 36 by omega)
    have hy := hx.putHeader (show 0 < 12 by omega) v.y hroom (by simp)
    have hdir := hy.putHeader (show 0 < 4 by omega) v.dir.code hroom (by simp)
    exact hdir.putHeader (by omega) v.knownPlayers.length hroom (by simp)
  · have hx := (Emits.refl _).putHeader (by omega) (v.x : Int) hroom (show 0 + 11 ≤ 36 by omega)
    have hy := hx.putHeader (show 0 < 13 by omega) v.y hroom (by simp)
    have hdir := hy.putHeader (show 0 < 4 by omega) v.dir.code hroom (by simp)
    exact hdir.putHeader (by omega) v.knownPlayers.length hroom (by simp)

/-- The record of a player that is new. -/
def newPlayerBits (w : World) (v : Viewer) (i : Nat) : List Bool :=
  (w.mob? (.player i)).elim [] fun m => field 11 i ++ (placeBits v m ++ field 1 0)

theorem putPlayer_writes (w : World) (v : Viewer) (d : BitDraft) (i : Nat) :
    Writes d (newPlayerBits w v i) (putPlayer w v d i) := by
  unfold newPlayerBits putPlayer
  cases w.mob? (.player i) with
  | none => exact fun _ => ⟨d, rfl, .refl d⟩
  | some m =>
    exact (putbits_writes d (by omega) i).bind fun d =>
      (putPlace_writes v d m).bind fun d => putbits_writes d (by omega) 0

theorem length_newPlayerBits (w : World) (v : Viewer) (i : Nat) :
    (newPlayerBits w v i).length ≤ 36 := by
  unfold newPlayerBits
  cases w.mob? (.player i) with
  | none => simp
  | some m => simp [placeBits]

/-- The nearby players that are shown, if the list is not full. -/
def shownPlayers (w : World) (v : Viewer) : List Nat :=
  if World.maxKnown ≤ v.knownPlayers.length then []
  else (w.mobGetNearbyPlayers v World.maxKnown).2.filter (shownPlayer w v)

/-- The list after a packet. -/
def playersSeen (w : World) (v : Viewer) : List Nat :=
  seenMobs (keptPlayer w v) v.knownPlayers (shownPlayers w v)

def playerBits (w : World) (v : Viewer) : List Bool :=
  playerHeaderBits v ++
    mobBits (keptPlayer w v) (newPlayerBits w v) v.knownPlayers (shownPlayers w v)

theorem playerSendMovement_cases (isaacOut : Nat → UInt32) (w : World) {tmpbuf : List UInt8}
    (htmp : tmpbuf.length = playerBufsize) (hv : v.knownPlayers.length ≤ World.maxKnown) :
    (Asserted (keptPlayer w v) v.knownPlayers ∧
      (playerSendMovement isaacOut w tmpbuf v).2.2 = .stopped) ∨
    (¬ Asserted (keptPlayer w v) v.knownPlayers ∧ World.maxKnown < (playersSeen w v).length ∧
      (playerSendMovement isaacOut w tmpbuf v).2.2 = .overrun) ∨
    (¬ Asserted (keptPlayer w v) v.knownPlayers ∧ (playersSeen w v).length ≤ World.maxKnown ∧
      ∃ d, (playerSendMovement isaacOut w tmpbuf v).2 =
          { v with knownPlayers := (playersSeen w v).map some }.write isaacOut d.finish ∧
        Emits ⟨tmpbuf.set 0 opSrvPlayerMovement, 8⟩ d (playerBits w v)) := by
  have hheader := playerHeader_emits v htmp
  have hsame := mobGetNearbyPlayers_same w v World.maxKnown
  have hkept : keptPlayer (w.mobGetNearbyPlayers v World.maxKnown).1 v = keptPlayer w v := by
    funext i
    rw [keptPlayer, hsame.players, keptPlayer]
  have hshown : shownPlayer (w.mobGetNearbyPlayers v World.maxKnown).1 v = shownPlayer w v := by
    funext i
    rw [shownPlayer, hsame.players, shownPlayer]
  have hput : putPlayer (w.mobGetNearbyPlayers v World.maxKnown).1 v = putPlayer w v := by
    funext d i
    rw [putPlayer, hsame.mob?, putPlayer]
  have hlen : (playerHeader v tmpbuf).tmpbuf.length = playerBufsize :=
    hheader.length.trans (by simp [htmp])
  have hpos : (playerHeader v tmpbuf).bitpos ≤ 44 := by
    have hheader := hheader.bitpos
    have hle := length_playerHeaderBits v
    dsimp only at hheader
    omega
  have hrun : (playerSendMovement isaacOut w tmpbuf v).2 =
      match sendMobs (keptPlayer w v) (putPlayer w v) v.knownPlayers (shownPlayers w v)
        (playerHeader v tmpbuf) with
      | .error e => ({ v with knownPlayers := (sendKnownMobs (keptPlayer w v) v.knownPlayers []
          (playerHeader v tmpbuf)).1 }, e)
      | .ok (newKnown, d) =>
        { v with knownPlayers := newKnown.map some }.write isaacOut d.finish := by
    unfold playerSendMovement sendMobs shownPlayers
    rw [← hkept, ← hshown, ← hput]
    dsimp only
    simp only [decide_eq_true_eq]
    generalize (sendKnownMobs (keptPlayer (w.mobGetNearbyPlayers v World.maxKnown).1 v)
      v.knownPlayers [] (playerHeader v tmpbuf)).2 = known
    cases known with
    | error e => rfl
    | ok known =>
        dsimp only
        generalize sendNearbyMobs _ _ _ _ = nearby
        cases nearby <;> rfl
  rw [hrun]
  rcases sendMobs_cases (putPlayer_writes w v) (length_newPlayerBits w v) hv (shownPlayers w v)
    hlen hpos with ⟨ha, heq⟩ | ⟨ha, hover, heq⟩ | ⟨ha, hfits, d, heq, he⟩
  · rw [heq]
    exact .inl ⟨ha, rfl⟩
  · rw [heq]
    exact .inr (.inl ⟨ha, hover, rfl⟩)
  · rw [heq]
    exact .inr (.inr ⟨ha, hfits, d, rfl, hheader.trans he⟩)

end Players
end Sundae.Proofs
