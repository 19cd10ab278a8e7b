import Sundae.Proofs.Nearby
import Sundae.Ref.Tick
import Sundae.Ref.Watch

/-!
# A client that watches has the server's list

A movement update says what has changed since the last one, so it means something
only to a client that holds the list it was made from. The list is gone through in
step at both ends: a known mob is one of four patterns of bits, of which none
begins another, and what is left after the last record is too short for one more.

The update speaks of steps and turns and not of places, so the places agree only
where the flags of a mob tell what it did since the last update.
-/

namespace Sundae.Proofs

open Sundae.Lib Sundae.Ref Sundae.Ref.World

/-! ## Fields -/

theorem number_field_of_lt {num n : Nat} (h : n < 2 ^ num) : number (field num n) = n := by
  have hmod := number_field num n
  have hpow : ((n : Int) % 2 ^ num) = n := by
    refine Int.emod_eq_of_lt (by omega) ?_
    exact_mod_cast h
  rw [hpow] at hmod
  exact_mod_cast hmod

theorem signedField_eq_iff {value : Int} :
    signedField 5 (field 5 value) = value ↔ -16 ≤ value ∧ value < 16 := by
  have hmod := number_field 5 value
  unfold signedField
  split
  · next h => omega
  · next h => omega

theorem take_field (num : Nat) (value : Int) (rest : List Bool) :
    (field num value ++ rest).take num = field num value :=
  List.take_left' (length_field num value)

theorem drop_field (num : Nat) (value : Int) (rest : List Bool) :
    (field num value ++ rest).drop num = rest :=
  List.drop_left' (length_field num value)

theorem bitsFrom_drop (b : List UInt8) (pos n : Nat) :
    (bitsFrom b pos).drop n = bitsFrom b (pos + n) := by
  refine List.ext_getElem ?_ fun k hk hk' => ?_
  · simp [bitsFrom]
    omega
  · simp [bitsFrom, Nat.add_assoc]

theorem bitAt_take {b : List UInt8} {n k : Nat} (h : k < 8 * n) :
    bitAt (b.take n) k = bitAt b k := by
  unfold bitAt
  rw [List.getD_eq_getElem?_getD, List.getD_eq_getElem?_getD, List.getElem?_take,
    if_pos (by omega)]

/-- What is spelled up to the end of the packet is what a client reads there, and
then the rest of the last byte. -/
theorem bitsFrom_finish {d : BitDraft} {pos : Nat} {l : List Bool} (hspells : Spells d.tmpbuf pos l)
    (hpos : d.bitpos = pos + l.length) (hroom : d.bitpos ≤ 8 * d.tmpbuf.length) :
    ∃ pad, bitsFrom d.finish.payload pos = l ++ pad ∧ pad.length < 8 := by
  have hlen : d.finish.payload.length = (d.bitpos + 7) / 8 := by
    show (d.tmpbuf.take ((d.bitpos + 7) / 8)).length = _
    rw [List.length_take]
    omega
  have hbits : (bitsFrom d.finish.payload pos).take l.length = l := by
    refine List.ext_getElem ?_ fun k hk hl => ?_
    · simp only [bitsFrom, List.length_take, List.length_map, List.length_range, hlen]
      omega
    · simp only [bitsFrom, List.getElem_take, List.getElem_map, List.getElem_range]
      refine (bitAt_take (n := (d.bitpos + 7) / 8) ?_).trans (hspells k hl)
      omega
  refine ⟨(bitsFrom d.finish.payload pos).drop l.length, ?_, ?_⟩
  · conv_lhs => rw [← List.take_append_drop l.length (bitsFrom d.finish.payload pos), hbits]
  · simp only [bitsFrom, List.length_drop, List.length_map, List.length_range, hlen]
    omega

theorem length_le_flatMap {α β : Type} {f : α → List β} :
    ∀ {l : List α}, (∀ a ∈ l, 0 < (f a).length) → l.length ≤ (l.flatMap f).length
  | [], _ => Nat.le_refl 0
  | a :: l, h => by
    have ha := h a List.mem_cons_self
    have hl := length_le_flatMap fun b hb => h b (List.mem_cons_of_mem _ hb)
    rw [List.flatMap_cons, List.length_append, List.length_cons]
    omega

theorem mem_of_newcomers {i : Nat} :
    ∀ {nearby known : List Nat}, i ∈ newcomers known nearby → i ∈ nearby
  | [], _, h => nomatch h
  | id :: nearby, known, h => by
    unfold newcomers at h
    split at h
    · exact List.mem_cons_of_mem _ (mem_of_newcomers h)
    · rcases List.mem_cons.1 h with rfl | h
      · exact List.mem_cons_self
      · exact List.mem_cons_of_mem _ (mem_of_newcomers h)

/-- An update has few bits beside those there is room for. -/
theorem length_mobBits_le {mob : Nat → Option World.Mob} {bits : Nat → List Bool}
    {known : List (Option Nat)} {shown : List Nat} (hmost : ∀ id, (bits id).length ≤ 36)
    (hknown : known.length ≤ maxKnown) (hseen : (seenMobs mob known shown).length ≤ maxKnown) :
    (mobBits mob bits known shown).length ≤ 255 * 42 := by
  have hold := length_flatMap_le known (length_knownBits mob)
  have hnew := length_flatMap_le (newcomers (keptMobs mob known) shown) hmost
  have hmax : maxKnown = 255 := rfl
  rw [seenMobs, List.length_append] at hseen
  rw [mobBits, List.length_append]
  omega

/-! ## The mobs a client holds -/

/-- The client has the mob where it is. -/
structure Shows (m : World.Mob) (s : SeenMob) : Prop where
  x : s.x = m.x
  y : s.y = m.y
  dir : s.dir = m.dir.code

/-- The flags of a mob tell what has become of it since the client had it so: a
step in its direction, or at most a turn. -/
def FlagsTell (m : World.Mob) (s : SeenMob) : Prop :=
  if m.moved then
    (m.x : Int) = s.x + (stepOf m.dir.code).1 ∧ (m.y : Int) = s.y + (stepOf m.dir.code).2
  else s.x = m.x ∧ s.y = m.y ∧ s.dir = m.prevDir.code

/-- What a client makes of what is said of a mob that stays. -/
def heardChange (m : World.Mob) (s : SeenMob) : SeenMob :=
  if m.moved then s.step m.dir.code
  else if m.dir ≠ m.prevDir then { s with dir := m.dir.code }
  else s

@[simp]
theorem heardChange_id (m : World.Mob) (s : SeenMob) : (heardChange m s).id = s.id := by
  unfold heardChange SeenMob.step
  split
  · rfl
  · split <;> rfl

theorem FlagsTell.shows {m : World.Mob} {s : SeenMob} (h : FlagsTell m s) :
    Shows m (heardChange m s) := by
  unfold FlagsTell at h
  unfold heardChange
  split at h
  · next hmoved =>
    rw [if_pos hmoved]
    exact ⟨h.1.symm, h.2.symm, rfl⟩
  · next hmoved =>
    rw [if_neg hmoved]
    split
    · exact ⟨h.1, h.2.1, rfl⟩
    · next hturned =>
      refine ⟨h.1, h.2.1, ?_⟩
      rw [h.2.2, Classical.not_not.1 hturned]

theorem readKnownMobs_change {m : World.Mob} {s : SeenMob}
    (hdir : m.moved = true → m.dir.combat = false) (known : List SeenMob) (rest : List Bool) :
    readKnownMobs (s :: known) (changeBits m ++ rest) =
      (heardChange m s :: (readKnownMobs known rest).1, (readKnownMobs known rest).2) := by
  unfold changeBits heardChange
  by_cases hmoved : m.moved = true
  · rw [if_pos hmoved, if_pos hmoved]
    have hcode : m.dir.code < 2 ^ 3 := by
      have hcombat := hdir hmoved
      cases hd : m.dir <;> simp [hd, Dir.code, Dir.combat] at hcombat ⊢
    show readKnownMobs (s :: known) (true :: false :: (field 3 m.dir.code ++ rest)) = _
    rw [readKnownMobs, take_field, drop_field, number_field_of_lt hcode]
  · rw [if_neg hmoved, if_neg hmoved]
    by_cases hturned : m.dir ≠ m.prevDir
    · rw [if_pos hturned, if_pos hturned]
      -- a direction does not begin with the two bits that mean the mob is gone
      cases hd : m.dir <;> rfl
    · rw [if_neg hturned, if_neg hturned]
      rfl

/-- The known mobs that a client keeps, with what it has been told of them. -/
def heardKnown (mob : Nat → Option World.Mob) (held : List SeenMob) : List SeenMob :=
  held.filterMap fun s => (mob s.id).map fun m => heardChange m s

theorem mem_heardKnown {mob : Nat → Option World.Mob} {held : List SeenMob} {k : SeenMob} :
    k ∈ heardKnown mob held ↔ ∃ s ∈ held, ∃ m, mob s.id = some m ∧ heardChange m s = k := by
  simp only [heardKnown, List.mem_filterMap, Option.map_eq_some_iff]

theorem heardKnown_ids (mob : Nat → Option World.Mob) (held : List SeenMob) :
    (heardKnown mob held).map SeenMob.id = keptMobs mob (held.map fun s => some s.id) := by
  unfold heardKnown keptMobs
  rw [List.filterMap_map, List.map_filterMap]
  refine List.filterMap_congr fun s _ => ?_
  cases hm : mob s.id with
  | none => simp [hm, Option.filter]
  | some m => simp [hm, Option.filter]

/-- The known mobs are read in step with the list they were written from. -/
theorem readKnownMobs_bits {mob : Nat → Option World.Mob} (rest : List Bool) :
    ∀ {held : List SeenMob}, ¬ Asserted mob (held.map fun s => some s.id) →
      readKnownMobs held ((held.map fun s => some s.id).flatMap (knownBits mob) ++ rest) =
        (heardKnown mob held, rest) := by
  intro held
  induction held with
  | nil => exact fun _ => rfl
  | cons s held ih =>
      intro hassert
      have hread := ih fun ⟨id, m, hid, h⟩ => hassert ⟨id, m, List.mem_cons_of_mem _ hid, h⟩
      rw [List.map_cons, List.flatMap_cons, List.append_assoc]
      cases hm : mob s.id with
      | none =>
          have hbits : knownBits mob (some s.id) = [true, true, true, true] := by
            rw [knownBits, hm]
            rfl
          rw [hbits, heardKnown, List.filterMap_cons, hm]
          exact hread
      | some m =>
          have hbits : knownBits mob (some s.id) = changeBits m := by
            rw [knownBits, hm]
            rfl
          have hdir : m.moved = true → m.dir.combat = false := by
            intro hmoved
            refine eq_false_of_ne_true fun hcombat => hassert ?_
            exact ⟨s.id, m, List.mem_cons_self, hm, hmoved, hcombat⟩
          rw [hbits, readKnownMobs_change hdir, hread, heardKnown, heardKnown,
            List.filterMap_cons, hm]
          rfl

/-! ## New mobs -/

/-- The place of a mob fits the fields of a record. -/
structure Placeable (v : Viewer) (m : World.Mob) : Prop where
  x : -16 ≤ (m.x : Int) - v.x ∧ (m.x : Int) - v.x < 16
  y : -16 ≤ (m.y : Int) - v.y ∧ (m.y : Int) - v.y < 16

theorem Near.placeable {v : Viewer} {m : World.Mob} (h : Near v m) : Placeable v m := by
  obtain ⟨hx, hy, -⟩ := h
  unfold absDiff at hx hy
  exact ⟨by omega, by omega⟩

theorem Shows.placeable_iff {v : Viewer} {m : World.Mob} {s : SeenMob}
    (hx : s.x = v.x + signedField 5 (field 5 ((m.x : Int) - v.x)))
    (hy : s.y = v.y + signedField 5 (field 5 ((m.y : Int) - v.y))) (hdir : s.dir = m.dir.code) :
    Shows m s ↔ Placeable v m := by
  have hplace : ∀ {a b : Int}, b + signedField 5 (field 5 (a - b)) = a ↔
      -16 ≤ a - b ∧ a - b < 16 := by
    intro a b
    rw [← signedField_eq_iff]
    omega
  constructor
  · exact fun h => ⟨hplace.1 (hx.symm.trans h.x), hplace.1 (hy.symm.trans h.y)⟩
  · exact fun h => ⟨hx.trans (hplace.2 h.x), hy.trans (hplace.2 h.y), hdir⟩

/-- A record as it is read back. -/
theorem readNewMobs_record {idBits i : Nat} (kindBits kind : Nat) (v : Viewer) (m : World.Mob)
    (x y : Int) (hi : i < 2 ^ idBits) (turns : Nat) (rest : List Bool) :
    ∃ s : SeenMob, readNewMobs idBits kindBits x y (turns + 1)
        (field idBits i ++ (placeBits v m ++ field kindBits kind) ++ rest) =
        s :: readNewMobs idBits kindBits x y turns rest ∧
      s.id = i ∧ (x = v.x ∧ y = v.y → (Shows m s ↔ Placeable v m)) := by
  have hwhole : field idBits i ++ (placeBits v m ++ field kindBits kind) ++ rest =
      field idBits i ++ (field 5 ((m.x : Int) - v.x) ++ (field 5 ((m.y : Int) - v.y) ++
        (field 4 m.dir.code ++ (field kindBits kind ++ rest)))) := by
    unfold placeBits
    simp only [List.append_assoc]
  have hcode : m.dir.code < 2 ^ 4 := by cases m.dir <;> decide
  rw [hwhole, readNewMobs, if_neg (by
    simp only [List.length_append, length_field]
    omega)]
  have hparts : idBits + 10 = idBits + 5 + 5 ∧ idBits + 14 = idBits + 5 + 5 + 4 := ⟨rfl, rfl⟩
  simp -arith only [hparts.1, hparts.2, ← List.drop_drop, take_field, drop_field,
    number_field_of_lt hi, number_field_of_lt hcode]
  refine ⟨_, rfl, rfl, ?_⟩
  rintro ⟨rfl, rfl⟩
  exact Shows.placeable_iff rfl rfl rfl

/-- Records are read until what is left is too short for one. -/
theorem readNewMobs_bits {idBits kindBits : Nat} {v : Viewer} {bits : Nat → List Bool}
    {mob : Nat → Option World.Mob} {x y : Int} {pad : List Bool} (hpad : pad.length < 8) :
    ∀ {ids : List Nat} {turns : Nat}, ids.length ≤ turns →
      (∀ i ∈ ids, (x = v.x ∧ y = v.y) ∧ i < 2 ^ idBits ∧ ∃ m, ∃ kind : Nat, mob i = some m ∧
        bits i = field idBits i ++ (placeBits v m ++ field kindBits kind)) →
      (readNewMobs idBits kindBits x y turns (ids.flatMap bits ++ pad)).map SeenMob.id = ids ∧
        ∀ s ∈ readNewMobs idBits kindBits x y turns (ids.flatMap bits ++ pad),
          ∃ m, mob s.id = some m ∧ (Shows m s ↔ Placeable v m) := by
  intro ids
  induction ids with
  | nil =>
      intro turns _ _
      have hnone : readNewMobs idBits kindBits x y turns ([].flatMap bits ++ pad) = [] := by
        cases turns with
        | zero => rfl
        | succ turns =>
            rw [readNewMobs, if_pos]
            rw [List.flatMap_nil, List.nil_append]
            omega
      rw [hnone]
      exact ⟨rfl, fun _ h => nomatch h⟩
  | cons i ids ih =>
      intro turns hturns hids
      cases turns with
      | zero => exact absurd hturns (Nat.not_succ_le_zero _)
      | succ turns =>
          obtain ⟨hplace, hi, m, kind, hm, hbits⟩ := hids i List.mem_cons_self
          obtain ⟨hnew, hshows⟩ := ih (Nat.le_of_succ_le_succ hturns)
            fun j hj => hids j (List.mem_cons_of_mem _ hj)
          obtain ⟨s, hread, hid, hshow⟩ :=
            readNewMobs_record kindBits kind v m x y hi turns (ids.flatMap bits ++ pad)
          rw [List.flatMap_cons, List.append_assoc, hbits, hread]
          refine ⟨by rw [List.map_cons, hid, hnew], fun k hk => ?_⟩
          rcases List.mem_cons.1 hk with rfl | hk
          · exact ⟨m, hid ▸ hm, hshow hplace⟩
          · exact hshows k hk

/-! ## An update -/

/-- The client holds the mobs of the server's list, in its order, and those that
are trusted as they were at the last update. -/
structure Holds (trusted : Nat → Prop) (told : Nat → Option World.Mob)
    (known : List (Option Nat)) (held : List SeenMob) : Prop where
  same : known = held.map fun s => some s.id
  few : held.length ≤ maxKnown
  shows : ∀ s ∈ held, trusted s.id → ∃ m, told s.id = some m ∧ Shows m s

theorem Holds.length_known {trusted : Nat → Prop} {told : Nat → Option World.Mob}
    {known : List (Option Nat)} {held : List SeenMob} (h : Holds trusted told known held) :
    known.length ≤ maxKnown := by
  rw [h.same, List.length_map]
  exact h.few

/-- What a client has after an update: the mobs it keeps, and those that are new, which are
where they should be if their places fit. -/
def Learned (v : Viewer) (mob now : Nat → Option World.Mob) (shown : List Nat)
    (held held' : List SeenMob) : Prop :=
  ∃ fresh : List SeenMob, held' = heardKnown mob held ++ fresh ∧
    fresh.map SeenMob.id =
      newcomers (keptMobs mob (held.map fun s => some s.id)) shown ∧
    ∀ s ∈ fresh, ∃ m, now s.id = some m ∧ (Shows m s ↔ Placeable v m)

theorem readMobs_bits {now mob : Nat → Option World.Mob} {bits : Nat → List Bool}
    {idBits kindBits : Nat} {v : Viewer} {x y : Int} {known : List (Option Nat)}
    {held : List SeenMob} {shown : List Nat} {pad : List Bool} (hpad : pad.length < 8)
    (hsame : known = held.map fun s => some s.id) (hassert : ¬ Asserted mob known)
    (hnew : ∀ i ∈ shown, (x = v.x ∧ y = v.y) ∧ i < 2 ^ idBits ∧ ∃ m, ∃ kind : Nat,
      now i = some m ∧ bits i = field idBits i ++ (placeBits v m ++ field kindBits kind)) :
    Learned v mob now shown held
      (readMobs idBits kindBits x y known.length held (mobBits mob bits known shown ++ pad)) := by
  have hnewcomers := fun i (hi : i ∈ newcomers (keptMobs mob known) shown) =>
    hnew i (mem_of_newcomers hi)
  have hturns : (newcomers (keptMobs mob known) shown).length ≤
      ((newcomers (keptMobs mob known) shown).flatMap bits ++ pad).length := by
    rw [List.length_append]
    refine Nat.le_trans (length_le_flatMap fun i hi => ?_) (Nat.le_add_right _ _)
    obtain ⟨-, -, m, kind, -, hbits⟩ := hnewcomers i hi
    rw [hbits, placeBits]
    simp only [List.length_append, length_field]
    omega
  obtain ⟨hnewids, hnewshows⟩ := readNewMobs_bits hpad hturns hnewcomers
  refine ⟨_, ?_, hsame ▸ hnewids, hnewshows⟩
  have hlen : known.length = held.length := by rw [hsame, List.length_map]
  have hread := readKnownMobs_bits
    ((newcomers (keptMobs mob known) shown).flatMap bits ++ pad) (hsame ▸ hassert)
  rw [readMobs, mobBits, List.append_assoc, hlen, List.take_length]
  rw [hsame] at hread ⊢
  rw [hread]

section Learned

variable {v : Viewer} {trusted : Nat → Prop} {told now mob : Nat → Option World.Mob}
  {known : List (Option Nat)} {shown : List Nat} {held held' : List SeenMob}

/-- The list is the one the server has made of its own. -/
theorem Learned.ids (h : Learned v mob now shown held held') :
    held'.map SeenMob.id = seenMobs mob (held.map fun s => some s.id) shown := by
  obtain ⟨fresh, rfl, hfresh, -⟩ := h
  rw [List.map_append, heardKnown_ids, hfresh, seenMobs]

theorem Learned.holds (h : Learned v mob now shown held held')
    (hheld : Holds trusted told known held)
    (hkept : ∀ s ∈ held, trusted s.id → ∀ m, mob s.id = some m → Shows m (heardChange m s))
    (hnow : ∀ i m, mob i = some m → now i = some m)
    (hplace : ∀ i ∈ newcomers (keptMobs mob known) shown, ∀ m, now i = some m → Placeable v m)
    (hfew : (seenMobs mob known shown).length ≤ World.maxKnown) :
    Holds trusted now ((seenMobs mob known shown).map some) held' := by
  have hids := h.ids
  rw [← hheld.same] at hids
  obtain ⟨fresh, rfl, hfresh, hshows⟩ := h
  rw [← hheld.same] at hfresh
  refine ⟨?_, ?_, fun s hs htrust => ?_⟩
  · rw [← hids, List.map_map]
    rfl
  · rw [← hids, List.length_map] at hfew
    exact hfew
  · rcases List.mem_append.1 hs with hs | hs
    · obtain ⟨k, hk, m, hm, rfl⟩ := mem_heardKnown.1 hs
      rw [heardChange_id] at htrust ⊢
      exact ⟨m, hnow _ m hm, hkept k hk htrust m hm⟩
    · obtain ⟨m, hm, hshow⟩ := hshows s hs
      exact ⟨m, hm, hshow.2 (hplace _ (hfresh ▸ List.mem_map_of_mem hs) m hm)⟩

end Learned

/-! ## Players -/

section Updates

variable {isaacOut : Nat → UInt32} {trusted : Nat → Prop} {told : Nat → Option World.Mob}
  {w w' : World} {tmpbuf : List UInt8} {v v' : Viewer} {held : List SeenMob} {payload : List UInt8}

/-- What follows the header of an update of players. -/
theorem readPlayers_bits (held : List SeenMob) {rest : List Bool}
    (hknown : v.knownPlayers.length < 2 ^ 8)
    (hbits : bitsFrom payload 8 = playerHeaderBits v ++ rest) :
    ∃ x y : Int, readPlayers v.out.protocolRev held payload =
        readMobs 11 1 x y v.knownPlayers.length held rest ∧
      (∀ zone, serverFindZone v.x v.y = some zone → x = v.x ∧ y = v.y) := by
  have hheader : ∀ a b : Nat, bitsFrom payload 8 = field a v.x ++ (field b v.y ++
      (field 4 v.dir.code ++ (field 8 v.knownPlayers.length ++ rest))) →
      readMobs 11 1 (number ((bitsFrom payload 8).take a))
        (number (((bitsFrom payload 8).drop a).take b))
        (number (((bitsFrom payload 8).drop (a + b + 4)).take 8)) held
        ((bitsFrom payload 8).drop (a + b + 12)) =
      readMobs 11 1 (number (field a v.x)) (number (field b v.y)) v.knownPlayers.length held
        rest := by
    intro a b heq
    have hparts : a + b + 12 = a + b + 4 + 8 := rfl
    rw [heq]
    simp -arith only [hparts, ← List.drop_drop, take_field, drop_field, number_field_of_lt hknown]
  have hplace : ∀ zone, serverFindZone v.x v.y = some zone → v.x < 2 ^ 10 ∧ v.y < 2 ^ 12 := by
    intro zone hzone
    obtain ⟨hx, hy, hle, hxtotal, hytotal, hplane⟩ := serverFindZone_spec hzone
    simp only [zoneTotalX, zoneTotalY, zoneMaxX, zoneMaxY, zoneWidth, zoneMaxPlane] at *
    omega
  unfold playerHeaderBits at hbits
  unfold readPlayers
  by_cases hrev : v.out.protocolRev < 149
  · simp only [if_pos hrev, List.append_assoc] at hbits ⊢
    refine ⟨_, _, hheader 10 12 hbits, fun zone hzone => ?_⟩
    obtain ⟨hx, hy⟩ := hplace zone hzone
    rw [number_field_of_lt hx, number_field_of_lt hy]
    exact ⟨rfl, rfl⟩
  · simp only [if_neg hrev, List.append_assoc] at hbits ⊢
    refine ⟨_, _, hheader 11 13 hbits, fun zone hzone => ?_⟩
    obtain ⟨hx, hy⟩ := hplace zone hzone
    rw [number_field_of_lt (by omega), number_field_of_lt (by omega)]
    exact ⟨rfl, rfl⟩

/-- What is written when an update is sent. -/
theorem write_packet {d : Draft} {payload : List UInt8}
    (h : v.write isaacOut d = (v', .packet payload)) :
    v'.knownPlayers = v.knownPlayers ∧ v'.knownNpcs = v.knownNpcs ∧ payload = d.payload := by
  unfold Viewer.write at h
  split at h
  · cases h
  · cases h
    exact ⟨rfl, rfl, rfl⟩

/-- An update that is written is sent, or refused. -/
theorem write_sent {d : Draft} {sent : Ref.Sent} (h : v.write isaacOut d = (v', sent))
    (hne : sent ≠ .failed) : ∃ payload, sent = .packet payload := by
  unfold Viewer.write at h
  split at h
  · cases h
    exact absurd rfl hne
  · cases h
    exact ⟨_, rfl⟩

/-- A player who is shown can be described. -/
theorem shown_player {i : Nat} (hslots : ∀ i, (w.players i).isSome → i < maxPlayers)
    (hi : i ∈ shownPlayers w v) :
    (∃ zone, serverFindZone v.x v.y = some zone) ∧ i < 2 ^ 11 ∧ ∃ m, ∃ kind : Nat,
      w.mob? (.player i) = some m ∧
        newPlayerBits w v i = field 11 i ++ (placeBits v m ++ field 1 kind) := by
  unfold shownPlayers at hi
  split at hi
  · exact absurd hi List.not_mem_nil
  · obtain ⟨hfound, hshown⟩ := List.mem_filter.1 hi
    have hzone : ∃ zone, serverFindZone v.x v.y = some zone := by
      refine Option.ne_none_iff_exists'.1 fun hnone => ?_
      unfold World.mobGetNearbyPlayers at hfound
      rw [hnone] at hfound
      exact absurd hfound List.not_mem_nil
    obtain ⟨p, hp, -⟩ := (Option.any_eq_true _ _).1 (Bool.and_eq_true _ _ ▸ hshown).2
    have hmob : w.mob? (.player i) = some p.mob := by simp [World.mob?, hp]
    have hslot : i < 1000 := hslots i (by simp [hp])
    exact ⟨hzone, by omega, p.mob, 0, hmob, by simp [newPlayerBits, hmob]⟩

/-- From well listed zones it is near. -/
theorem shown_player_near {i : Nat} {m : World.Mob}
    (hw : WellListed w.zonePlayers (fun i => (w.players i).isSome) (livePlayer w))
    (hi : i ∈ shownPlayers w v) (hm : w.mob? (.player i) = some m) : Placeable v m := by
  unfold shownPlayers at hi
  split at hi
  · exact absurd hi List.not_mem_nil
  · have hnear := List.mem_of_mem_take ((mobGetNearbyPlayers_eq hw maxKnown) ▸
      (List.mem_filter.1 hi).1)
    obtain ⟨n, hn, hnear, -⟩ := (mem_nearbyIn hw).1 hnear
    obtain ⟨p, hp, hname⟩ := Option.bind_eq_some_iff.1 hn
    split at hname
    · cases hname
    · obtain rfl := Option.some.inj hname
      obtain rfl : p.mob = m := by simpa [World.mob?, hp] using hm
      exact hnear.placeable

/-- An update of players that is sent is made without the assertion and with room, and
this is what a client that has the list has after it. -/
theorem players_heard (hsame : v.knownPlayers = held.map fun s => some s.id)
    (hlen : v.knownPlayers.length ≤ maxKnown)
    (hslots : ∀ i, (w.players i).isSome → i < maxPlayers) (htmp : tmpbuf.length = playerBufsize)
    (hsent : playerSendMovement isaacOut w tmpbuf v = (w', v', .packet payload)) :
    Learned v (keptPlayer w v) (fun i => w.mob? (.player i)) (shownPlayers w v) held
        (readPlayers v.out.protocolRev held payload) ∧
      v'.knownPlayers = (playersSeen w v).map some ∧ v'.knownNpcs = v.knownNpcs ∧
      SameMobs w w' ∧ ¬ Asserted (keptPlayer w v) v.knownPlayers ∧
      (playersSeen w v).length ≤ maxKnown := by
  have hworlds : SameMobs w w' := by
    have hworld : (playerSendMovement isaacOut w tmpbuf v).1 =
        (w.mobGetNearbyPlayers v maxKnown).1 := by
      unfold playerSendMovement
      dsimp only
      split
      · rfl
      · split
        · rfl
        · rfl
    rw [hsent] at hworld
    exact (show w' = _ from hworld) ▸ mobGetNearbyPlayers_same w v maxKnown
  rcases playerSendMovement_cases isaacOut w htmp hlen with
    ⟨-, hstop⟩ | ⟨-, -, hrun⟩ | ⟨hassert, hfits, d, heq, he⟩
  · rw [hsent] at hstop
    cases hstop
  · rw [hsent] at hrun
    cases hrun
  · rw [hsent] at heq
    obtain ⟨hplayers, hnpcs, rfl⟩ := write_packet heq.symm
    have hroom : d.bitpos ≤ 8 * d.tmpbuf.length := by
      have hheader := length_playerHeaderBits v
      have hmobs := length_mobBits_le (length_newPlayerBits w v) hlen hfits
      have hbitpos := he.bitpos
      have hbuf := he.length
      simp only [playerBits, List.length_append, List.length_set, htmp, playerBufsize] at *
      omega
    obtain ⟨pad, hbits, hpad⟩ := bitsFrom_finish he.spells he.bitpos hroom
    unfold playerBits at hbits
    rw [List.append_assoc] at hbits
    obtain ⟨x, y, hread, hplace⟩ := readPlayers_bits held (by
      show _ < 256
      have hmax : maxKnown = 255 := rfl
      omega) hbits
    rw [hread]
    refine ⟨readMobs_bits hpad hsame hassert fun i hi => ?_, hplayers, hnpcs, hworlds, hassert,
      hfits⟩
    obtain ⟨⟨zone, hzone⟩, hlt, hshown⟩ := shown_player hslots hi
    exact ⟨hplace zone hzone, hlt, hshown⟩

theorem mob_of_keptPlayer {i : Nat} {m : World.Mob} (h : keptPlayer w v i = some m) :
    w.mob? (.player i) = some m := by
  obtain ⟨p, hp, rfl⟩ := Option.map_eq_some_iff.1 h
  simp [World.mob?, (Option.filter_eq_some_iff.1 hp).1]

theorem mobGetNearbyNpcs_same (w : World) (v : Viewer) (max : Nat) :
    SameMobs w (w.mobGetNearbyNpcs v max).1 := by
  have hfind : ∀ w zone, SameMobs w (World.zoneFindNpcs w zone 128).1 :=
    fun _ _ => ⟨rfl, rfl⟩
  unfold World.mobGetNearbyNpcs
  split
  · exact ⟨rfl, rfl⟩
  · next orig _ =>
    exact (hfind w orig).trans (nearbyAround_same hfind _ _ _ _ _)

/-- The record of an NPC that is new. -/
def newNpcBits (w : World) (v : Viewer) (j : Nat) : List Bool :=
  (w.npcs j).elim [] fun n => field (if v.out.protocolRev < 155 then 11 else 12) j ++
    (placeBits v n.mob ++ field (if v.out.protocolRev < 159 then 8 else 10) n.config.id)

theorem putNpc_writes (w : World) (v : Viewer) (d : BitDraft) (j : Nat) :
    Writes d (newNpcBits w v j) (putNpc w v d j) := by
  unfold newNpcBits putNpc
  cases w.npcs j with
  | none => exact fun _ => ⟨d, rfl, .refl d⟩
  | some n =>
    exact (putbits_writes d (by split <;> omega) j).bind fun d =>
      (putPlace_writes v d n.mob).bind fun d => putbits_writes d (by split <;> omega) n.config.id

theorem length_newNpcBits (w : World) (v : Viewer) (j : Nat) :
    (newNpcBits w v j).length ≤ 36 := by
  unfold newNpcBits
  cases w.npcs j with
  | none => simp
  | some n =>
    simp only [Option.elim, placeBits, List.length_append, length_field]
    split <;> split <;> omega

/-- The nearby NPCs, if the list is not full. -/
def shownNpcs (w : World) (v : Viewer) : List Nat :=
  if maxKnown ≤ v.knownNpcs.length then [] else (w.mobGetNearbyNpcs v maxKnown).2

def npcsSeen (w : World) (v : Viewer) : List Nat :=
  seenMobs (keptNpc w v) v.knownNpcs (shownNpcs w v)

def npcBits (w : World) (v : Viewer) : List Bool :=
  mobBits (keptNpc w v) (newNpcBits w v) v.knownNpcs (shownNpcs w v)

/-- How the update of NPCs ends. -/
def sentNpcs (isaacOut : Nat → UInt32) (v left : Viewer) : KnownEnd → Viewer × Ref.Sent
  | .error e => (left, e)
  | .ok (newKnown, d) => { v with knownNpcs := newKnown.map some }.write isaacOut d.finish

theorem playerSendNpcMovement_cases (isaacOut : Nat → UInt32) (w : World)
    (htmp : tmpbuf.length = playerBufsize) (hv : v.knownNpcs.length ≤ maxKnown) :
    (Asserted (keptNpc w v) v.knownNpcs ∧
      (playerSendNpcMovement isaacOut w tmpbuf v).2.2 = .stopped) ∨
    (¬ Asserted (keptNpc w v) v.knownNpcs ∧ maxKnown < (npcsSeen w v).length ∧
      (playerSendNpcMovement isaacOut w tmpbuf v).2.2 = .overrun) ∨
    (¬ Asserted (keptNpc w v) v.knownNpcs ∧ (npcsSeen w v).length ≤ maxKnown ∧
      ∃ d, (playerSendNpcMovement isaacOut w tmpbuf v).2 =
          { v with knownNpcs := (npcsSeen w v).map some }.write isaacOut d.finish ∧
        Emits (npcHeader v tmpbuf) d (npcBits w v)) := by
  have hsame := mobGetNearbyNpcs_same w v maxKnown
  have hkept : keptNpc (w.mobGetNearbyNpcs v maxKnown).1 v = keptNpc w v := by
    funext j
    rw [keptNpc, hsame.npcs, keptNpc]
  have hput : putNpc (w.mobGetNearbyNpcs v maxKnown).1 v = putNpc w v := by
    funext d j
    rw [putNpc, hsame.npcs, putNpc]
  have hrun : (playerSendNpcMovement isaacOut w tmpbuf v).2 =
      sentNpcs isaacOut v { v with knownNpcs := (sendKnownMobs (keptNpc w v) v.knownNpcs []
          (npcHeader v tmpbuf)).1 }
        (sendMobs (keptNpc w v) (putNpc w v) v.knownNpcs (shownNpcs w v) (npcHeader v tmpbuf)) := by
    unfold playerSendNpcMovement sendMobs shownNpcs sentNpcs
    rw [← hkept, ← hput]
    dsimp only
    simp only [decide_eq_true_eq]
    generalize (sendKnownMobs (keptNpc (w.mobGetNearbyNpcs v maxKnown).1 v)
      v.knownNpcs [] (npcHeader v tmpbuf)).2 = known
    cases known with
    | error e => rfl
    | ok known =>
        dsimp only
        generalize sendNearbyMobs _ _ _ _ = nearby
        cases nearby <;> rfl
  rw [hrun]
  rcases sendMobs_cases (putNpc_writes w v) (length_newNpcBits w v) hv (shownNpcs w v)
    (d := npcHeader v tmpbuf) (by simp [npcHeader, htmp]) (by simp [npcHeader]) with
    ⟨ha, heq⟩ | ⟨ha, hover, heq⟩ | ⟨ha, hfits, d, heq, he⟩
  · rw [heq]
    exact .inl ⟨ha, rfl⟩
  · rw [heq]
    exact .inr (.inl ⟨ha, hover, rfl⟩)
  · rw [heq]
    exact .inr (.inr ⟨ha, hfits, d, rfl, he⟩)

/-- The byte that counts the known NPCs, as bits. -/
theorem npcHeader_spells (htmp : tmpbuf.length = playerBufsize) :
    Spells (npcHeader v tmpbuf).tmpbuf 8 (field 8 v.knownNpcs.length) := by
  intro k hk
  rw [getElem_field, valueBit_natCast]
  rw [length_field] at hk
  have hbyte : (8 + k) / 8 = 1 ∧ 7 - (8 + k) % 8 = 8 - 1 - k := by omega
  have hlen : 1 < (tmpbuf.set 0 opSrvNpcMovement).length := by
    rw [List.length_set, htmp]
    decide
  unfold bitAt npcHeader
  rw [hbyte.1, hbyte.2, List.getD_eq_getElem?_getD, List.getElem?_set_self hlen, Option.getD_some]
  show (BitVec.ofNat 8 v.knownNpcs.length).getLsbD _ = _
  rw [BitVec.getLsbD_ofNat, decide_eq_true (by omega), Bool.true_and]

/-- The loops give only mobs that are in range or were given before. -/
theorem nearbyAround_all {find : World → Zone → World × List Nat} {listed : World → Nat → Bool}
    {P : Nat → Prop} (hfind : ∀ w zone, SameMobs w (find w zone).1)
    (hlisted : ∀ {w' : World}, SameMobs w w' → ∀ i, listed w' i = true → P i) (max : Nat)
    (zones : List Zone) {u : World} (hsame : SameMobs w u) {list : List Nat}
    (hlist : ∀ i ∈ list, P i) : ∀ i ∈ (nearbyAround find listed max zones u list).2, P i := by
  induction zones generalizing u list with
  | nil => exact hlist
  | cons zone zones ih =>
      unfold nearbyAround
      split
      · exact hlist
      · have hnext := hsame.trans (hfind u zone)
        refine ih hnext fun i hi => ?_
        rcases List.mem_append.1 (List.mem_of_mem_take hi) with hold | hnew
        · exact hlist i hold
        · exact hlisted hnext i (List.mem_filter.1 hnew).2

/-- The NPCs that are found are there. -/
theorem mobGetNearbyNpcs_there {j max : Nat} (hj : j ∈ (w.mobGetNearbyNpcs v max).2) :
    ∃ n, w.npcs j = some n := by
  unfold World.mobGetNearbyNpcs at hj
  split at hj
  · exact absurd hj List.not_mem_nil
  · next orig horig =>
    refine nearbyAround_all (P := fun j => ∃ n, w.npcs j = some n) (w := w)
      (u := (w.zoneFindNpcs orig 128).1)
      (fun _ _ => ⟨rfl, rfl⟩) (fun hsame j hlisted => ?_) max _ ⟨rfl, rfl⟩ (fun j hj => ?_) j hj
    · obtain ⟨n, hn, -⟩ := (Option.any_eq_true _ _).1 hlisted
      exact ⟨n, hsame.npcs ▸ hn⟩
    · have hfound := List.mem_filter.1 (List.mem_of_mem_take hj)
      obtain ⟨n, hn, -⟩ := (Option.any_eq_true _ _).1 hfound.2
      exact ⟨n, hn⟩

/-- An NPC that is shown can be described. -/
theorem shown_npc {j : Nat} (hslots : ∀ j, (w.npcs j).isSome → j < maxNpcs)
    (hj : j ∈ shownNpcs w v) :
    j < 2 ^ (if v.out.protocolRev < 155 then 11 else 12) ∧ ∃ m, ∃ kind : Nat,
      w.mob? (.npc j) = some m ∧
        newNpcBits w v j = field (if v.out.protocolRev < 155 then 11 else 12) j ++
          (placeBits v m ++ field (if v.out.protocolRev < 159 then 8 else 10) kind) := by
  unfold shownNpcs at hj
  split at hj
  · exact absurd hj List.not_mem_nil
  · obtain ⟨n, hn⟩ := mobGetNearbyNpcs_there hj
    have hslot : j < 1000 := hslots j (by simp [hn])
    refine ⟨?_, n.mob, n.config.id, by simp [World.mob?, hn], by simp [newNpcBits, hn]⟩
    split
    · omega
    · omega

/-- An update of NPCs that is sent is made without the assertion and with room, and this
is what a client that has the list has after it. -/
theorem npcs_heard (hsame : v.knownNpcs = held.map fun s => some s.id)
    (hlen : v.knownNpcs.length ≤ maxKnown) (hslots : ∀ j, (w.npcs j).isSome → j < maxNpcs)
    (htmp : tmpbuf.length = playerBufsize)
    (hsent : playerSendNpcMovement isaacOut w tmpbuf v = (w', v', .packet payload)) :
    Learned v (keptNpc w v) (fun j => w.mob? (.npc j)) (shownNpcs w v) held
        (readNpcs v.out.protocolRev v.x v.y held payload) ∧
      v'.knownNpcs = (npcsSeen w v).map some ∧ v'.knownPlayers = v.knownPlayers ∧
      SameMobs w w' ∧ ¬ Asserted (keptNpc w v) v.knownNpcs ∧
      (npcsSeen w v).length ≤ maxKnown := by
  have hworlds : SameMobs w w' := by
    have hworld : (playerSendNpcMovement isaacOut w tmpbuf v).1 =
        (w.mobGetNearbyNpcs v maxKnown).1 := by
      unfold playerSendNpcMovement
      dsimp only
      split
      · rfl
      · split
        · rfl
        · rfl
    rw [hsent] at hworld
    exact (show w' = _ from hworld) ▸ mobGetNearbyNpcs_same w v maxKnown
  rcases playerSendNpcMovement_cases isaacOut w htmp hlen with
    ⟨-, hstop⟩ | ⟨-, -, hrun⟩ | ⟨hassert, hfits, d, heq, he⟩
  · rw [hsent] at hstop
    cases hstop
  · rw [hsent] at hrun
    cases hrun
  · rw [hsent] at heq
    obtain ⟨hplayers, hnpcs, rfl⟩ := write_packet heq.symm
    have hknown : v.knownNpcs.length < 2 ^ 8 := by
      show _ < 256
      have hmax : maxKnown = 255 := rfl
      omega
    have hstart : (npcHeader v tmpbuf).bitpos = 16 := rfl
    -- the count stands before the bits, in a byte of its own
    have hspells : Spells d.tmpbuf 8 (field 8 v.knownNpcs.length ++ npcBits w v) := by
      refine ((npcHeader_spells htmp).congr fun k hk => ?_).append ?_
      · rw [length_field] at hk
        exact he.before _ (by omega)
      · rw [length_field]
        exact he.spells
    have hpos : d.bitpos = 8 + (field 8 v.knownNpcs.length ++ npcBits w v).length := by
      rw [he.bitpos, hstart, List.length_append, length_field]
      omega
    have hroom : d.bitpos ≤ 8 * d.tmpbuf.length := by
      have hmobs := length_mobBits_le (length_newNpcBits w v) hlen hfits
      have hbitpos := he.bitpos
      have hbuf := he.length
      simp only [npcBits, npcHeader, List.length_set, htmp, playerBufsize] at *
      omega
    obtain ⟨pad, hbits, hpad⟩ := bitsFrom_finish hspells hpos hroom
    rw [List.append_assoc] at hbits
    have hread : readNpcs v.out.protocolRev v.x v.y held d.finish.payload =
        readMobs (if v.out.protocolRev < 155 then 11 else 12)
          (if v.out.protocolRev < 159 then 8 else 10) v.x v.y v.knownNpcs.length held
          (npcBits w v ++ pad) := by
      have hrest := bitsFrom_drop d.finish.payload 8 8
      rw [hbits, drop_field] at hrest
      rw [readNpcs, hbits, ← hrest, take_field, number_field_of_lt hknown]
    rw [hread]
    exact ⟨readMobs_bits hpad hsame hassert fun j hj => ⟨⟨rfl, rfl⟩, shown_npc hslots hj⟩, hnpcs,
      hplayers, hworlds, hassert, hfits⟩

theorem mob_of_keptNpc {j : Nat} {m : World.Mob} (h : keptNpc w v j = some m) :
    w.mob? (.npc j) = some m := by
  obtain ⟨n, hn, rfl⟩ := Option.map_eq_some_iff.1 h
  simp [World.mob?, (Option.filter_eq_some_iff.1 hn).1]

end Updates

/-! ## Over a run -/

/-- The client holds both lists of the server. -/
structure Watched (players npcs : Nat → Prop) (c : Watch) : Prop where
  players : Holds players c.toldPlayers c.viewer.knownPlayers c.players
  npcs : Holds npcs c.toldNpcs c.viewer.knownNpcs c.npcs

/-- Nobody has been told of anybody. -/
def Unwatched (c : Watch) : Prop :=
  c.viewer.knownPlayers = [] ∧ c.viewer.knownNpcs = [] ∧ c.players = [] ∧ c.npcs = []

theorem watched_start {players npcs : Nat → Prop} {c : Watch} (h : Unwatched c) :
    Watched players npcs c := by
  obtain ⟨hplayers, hnpcs, hheld, hheld'⟩ := h
  constructor
  · rw [hplayers, hheld]
    exact ⟨rfl, Nat.zero_le _, fun _ h => nomatch h⟩
  · rw [hnpcs, hheld']
    exact ⟨rfl, Nat.zero_le _, fun _ h => nomatch h⟩

section Outcome

variable {isaacOut : Nat → UInt32} {c : Watch} {tmpbuf : Vector UInt8 playerBufsize}

/-- What an update of players that is sent leaves. -/
theorem sendPlayers_step {w' : World} {v' : Viewer} {payload : List UInt8}
    (hsent : playerSendMovement isaacOut c.world tmpbuf.toList c.viewer =
      (w', v', .packet payload)) :
    watchStep isaacOut c (.sendPlayers tmpbuf) = .ok { c with
      world := w'
      viewer := v'
      toldPlayers := fun i => w'.mob? (.player i)
      players := readPlayers c.viewer.out.protocolRev c.players payload } := by
  unfold watchStep
  dsimp only
  rw [hsent]

/-- It is sent, or refused, or something stops it before. -/
theorem players_outcome (hlen : c.viewer.knownPlayers.length ≤ maxKnown)
    (hne : (playerSendMovement isaacOut c.world tmpbuf.toList c.viewer).2.2 ≠ .failed) :
    (∃ w' v' payload,
      playerSendMovement isaacOut c.world tmpbuf.toList c.viewer = (w', v', .packet payload)) ∨
    ((Asserted (keptPlayer c.world c.viewer) c.viewer.knownPlayers ∨
        maxKnown < (playersSeen c.world c.viewer).length) ∧
      ∀ c', watchStep isaacOut c (.sendPlayers tmpbuf) ≠ .ok c') := by
  unfold watchStep
  dsimp only
  have hcases := playerSendMovement_cases isaacOut c.world tmpbuf.length_toList hlen
  generalize playerSendMovement isaacOut c.world tmpbuf.toList c.viewer = result
    at hcases hne ⊢
  obtain ⟨w', v', sent⟩ := result
  rcases hcases with ⟨hassert, rfl⟩ | ⟨-, hover, rfl⟩ | ⟨-, -, d, hwrite, -⟩
  · exact .inr ⟨.inl hassert, fun _ h => by cases h⟩
  · exact .inr ⟨.inr hover, fun _ h => by cases h⟩
  · obtain ⟨payload, rfl⟩ := write_sent hwrite.symm hne
    exact .inl ⟨w', v', payload, rfl⟩

/-- What an update of NPCs that is sent leaves. -/
theorem sendNpcs_step {w' : World} {v' : Viewer} {payload : List UInt8}
    (hsent : playerSendNpcMovement isaacOut c.world tmpbuf.toList c.viewer =
      (w', v', .packet payload)) :
    watchStep isaacOut c (.sendNpcs tmpbuf) = .ok { c with
      world := w'
      viewer := v'
      toldNpcs := fun j => w'.mob? (.npc j)
      npcs := readNpcs c.viewer.out.protocolRev c.viewer.x c.viewer.y c.npcs payload } := by
  unfold watchStep
  dsimp only
  rw [hsent]

/-- It is sent, or refused, or something stops it before. -/
theorem npcs_outcome (hlen : c.viewer.knownNpcs.length ≤ maxKnown)
    (hne : (playerSendNpcMovement isaacOut c.world tmpbuf.toList c.viewer).2.2 ≠ .failed) :
    (∃ w' v' payload,
      playerSendNpcMovement isaacOut c.world tmpbuf.toList c.viewer = (w', v', .packet payload)) ∨
    ((Asserted (keptNpc c.world c.viewer) c.viewer.knownNpcs ∨
        maxKnown < (npcsSeen c.world c.viewer).length) ∧
      ∀ c', watchStep isaacOut c (.sendNpcs tmpbuf) ≠ .ok c') := by
  unfold watchStep
  dsimp only
  have hcases := playerSendNpcMovement_cases isaacOut c.world tmpbuf.length_toList hlen
  generalize playerSendNpcMovement isaacOut c.world tmpbuf.toList c.viewer = result
    at hcases hne ⊢
  obtain ⟨w', v', sent⟩ := result
  rcases hcases with ⟨hassert, rfl⟩ | ⟨-, hover, rfl⟩ | ⟨-, -, d, hwrite, -⟩
  · exact .inr ⟨.inl hassert, fun _ h => by cases h⟩
  · exact .inr ⟨.inr hover, fun _ h => by cases h⟩
  · obtain ⟨payload, rfl⟩ := write_sent hwrite.symm hne
    exact .inl ⟨w', v', payload, rfl⟩

end Outcome

/-- A player who has taken a step to the south. -/
def stepped : World.Player :=
  { mob := { x := 100, y := 101, dir := .south, moved := true }, name := 1 }

def oneStepped : World :=
  { onePlayer 100 101 with players := fun i => if i = 0 then some stepped else none }

/-- The slot of the only player is one of the array's. -/
theorem slots_of_single {w : World} (h : ∀ i, i ≠ 0 → w.players i = none) :
    ∀ i, (w.players i).isSome → i < maxPlayers := by
  intro i hi
  show i < 1000
  by_contra hne
  rw [h i (by omega)] at hi
  cases hi

theorem oneStepped_listed : WellListed oneStepped.zonePlayers
    (fun i => (oneStepped.players i).isSome) (livePlayer oneStepped) := by
  refine ⟨fun i m h => ?_, fun zone => ?_⟩
  · unfold livePlayer oneStepped at h
    by_cases hi : i = 0
    · simp [hi, stepped] at h
      obtain ⟨rfl, rfl⟩ := And.intro hi h
      exact (onePlayer_listed 100 101).listed 0 { x := 100, y := 101 } rfl
    · simp [hi] at h
  · unfold oneStepped onePlayer wanted
    refine (List.length_filter_le _ _).trans ?_
    dsimp only
    split
    · decide
    · decide

def blankBuf : Vector UInt8 playerBufsize := Vector.replicate _ 0

end Sundae.Proofs
