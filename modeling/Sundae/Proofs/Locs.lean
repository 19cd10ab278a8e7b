import Sundae.Proofs.Sight

/-!
# Known locations

`player_send_locs` goes over the known locations while it takes some of them out,
and the one that moves into the place of one taken out is not looked at.
`known_locs_current_iff` says when an update leaves the list as it should be all
the same.
-/

namespace Sundae.Proofs

open Sundae.Lib Sundae.Ref

/-- A location in the zones within two of the player's, on its plane. -/
def LocNearby (g : Grid) (v : Viewer) (loc : Loc) : Prop :=
  ∃ orig zone, serverFindZone v.x v.y = some orig ∧ loc ∈ g.locs zone ∧
    zone.plane = orig.plane ∧ absDiff zone.x orig.x ≤ 2 ∧ absDiff zone.y orig.y ≤ 2

/-- One in a zone that `mob_get_nearby_locs` goes through. -/
def LocSought (g : Grid) (v : Viewer) (loc : Loc) : Prop :=
  ∃ zone ∈ zonesNear v.x v.y, loc ∈ g.locs zone

/-- All locations nearby, or as many as the limit is. -/
def AllNearby (g : Grid) (v : Viewer) (p : Loc → Prop) : Prop :=
  (∀ loc, LocNearby g v loc → p loc) ∨
    ∃ l : List Loc, l.Nodup ∧ l.length = maxNearbyLocs ∧ ∀ loc ∈ l, LocNearby g v loc ∧ p loc

/-- What an update leaves and tells the client: what is known less than 128 tiles
away is as it is on the map; what is no longer there, or eight or more zones off,
is taken out and the client told so; and what is nearby is known. -/
structure LocsCurrent (g : Grid) (v : Viewer) (after : List Loc) (sent : Sent) : Prop where
  same : ∀ known ∈ after, v.distance known.x known.y < 128 →
    ∃ loc, serverFindLoc g known.x known.y = some loc ∧ loc.id = known.id
  removed : ∀ known ∈ v.knownLocs, locGone g v known = true →
    locKey known ∉ after.map locKey ∧ ∃ payload, sent = .packet payload ∧
      (60000, locKey known) ∈ readLocs v.x v.y payload.tail
  nearby : AllNearby g v fun loc => hasKnownLoc loc after = true

/-- What is to be taken out is less than 128 tiles away and has the id it is known
with, if there is anything there, and what comes right after it on the list is as
it should be; and what is nearby is known or sought. -/
structure LocsApart (g : Grid) (v : Viewer) : Prop where
  goes : ∀ known ∈ v.knownLocs, locGone g v known = true → v.distance known.x known.y < 128 ∧
    ∀ loc, serverFindLoc g known.x known.y = some loc → loc.id = known.id
  apart : v.knownLocs.IsChain fun a b => locNews g v a = .gone → locNews g v b = .nothing
  sought : AllNearby g v fun loc => LocSought g v loc ∨ hasKnownLoc loc v.knownLocs = true

/-! ## The loop over the known locations -/

variable {g : Grid} {v : Viewer}

theorem locNews_gone_iff {known : Loc} : locNews g v known = .gone ↔
    locGone g v known = true ∧ v.distance known.x known.y < 128 ∧
      ∀ loc, serverFindLoc g known.x known.y = some loc → loc.id = known.id := by
  unfold locNews locGone
  by_cases hfar : 128 ≤ v.distance known.x known.y
  · simp [hfar]
  · rw [if_neg hfar]
    cases serverFindLoc g known.x known.y with
    | none => simp [Nat.not_le.1 hfar]
    | some loc =>
        by_cases hid : loc.id = known.id
        · simp [hid, Nat.not_le.1 hfar]
        · simp [hid]

/-- Nothing is due only for what is far away or as it should be. -/
theorem locNews_nothing_iff {known : Loc} : locNews g v known = .nothing ↔
    (v.distance known.x known.y < 128 → locGone g v known = false ∧
      ∃ loc, serverFindLoc g known.x known.y = some loc ∧ loc.id = known.id) := by
  unfold locNews locGone
  by_cases hfar : 128 ≤ v.distance known.x known.y
  · simp [hfar]
  · rw [if_neg hfar]
    cases serverFindLoc g known.x known.y with
    | none => simp [Nat.not_le.1 hfar]
    | some loc =>
        by_cases hid : loc.id = known.id
        · simp [hid, Nat.not_le.1 hfar]
        · simp [hid, Nat.not_le.1 hfar]

/-- What the loop leaves, where every record fits. -/
def locsLeft (g : Grid) (v : Viewer) : List Loc → List Loc
  | [] => []
  | known :: rest =>
    match locNews g v known with
    | .nothing => known :: locsLeft g v rest
    | .changed loc => { known with id := loc.id } :: locsLeft g v rest
    | .gone =>
      match rest with
      | [] => []
      | next :: rest => next :: locsLeft g v rest

/-- And the bytes of its records. -/
def locsBytes (g : Grid) (v : Viewer) : List Loc → List UInt8
  | [] => []
  | known :: rest =>
    match locNews g v known with
    | .nothing => locsBytes g v rest
    | .changed loc => recordBytes v (encodeLocId v loc.id) loc.x loc.y ++ locsBytes g v rest
    | .gone =>
      recordBytes v 60000 known.x known.y ++
        match rest with
        | [] => []
        | _ :: rest => locsBytes g v rest

theorem locsLeft_cons (g : Grid) (v : Viewer) (known : Loc) (rest : List Loc) :
    locsLeft g v (known :: rest) =
      match locNews g v known with
      | .nothing => known :: locsLeft g v rest
      | .changed loc => { known with id := loc.id } :: locsLeft g v rest
      | .gone =>
        match rest with
        | [] => []
        | next :: rest => next :: locsLeft g v rest := by
  rw [locsLeft.eq_def]

theorem locsBytes_cons (g : Grid) (v : Viewer) (known : Loc) (rest : List Loc) :
    locsBytes g v (known :: rest) =
      match locNews g v known with
      | .nothing => locsBytes g v rest
      | .changed loc => recordBytes v (encodeLocId v loc.id) loc.x loc.y ++ locsBytes g v rest
      | .gone =>
        recordBytes v 60000 known.x known.y ++
          match rest with
          | [] => []
          | _ :: rest => locsBytes g v rest := by
  rw [locsBytes.eq_def]

/-- A record that has been put is at the end of the payload. -/
theorem Holding.putRecord {opcode : UInt8} {n : Nat} {d d' : Draft} (h : Holding opcode 4 n d)
    {id x y : Nat} (hput : d.putRecord v id x y = some d') :
    Holding opcode 4 (n + 1) d' ∧ d'.payload = d.payload ++ recordBytes v id x y := by
  obtain ⟨result, hputs, heq⟩ := putRecord_puts v id x y d
  rcases h.putBytes rfl hputs with ⟨-, hnone⟩ | ⟨d'', hsome, h', hpayload⟩
  · rw [heq, hnone] at hput
    cases hput
  · rw [heq, hsome] at hput
    obtain rfl := Option.some.inj hput
    exact ⟨h', hpayload⟩

theorem sendKnownLocs_ok {opcode : UInt8} {n : Nat} {d d' : Draft} (list : List Loc)
    (h : Holding opcode 4 n d) (hd : (sendKnownLocs g v list d).2 = some d') :
    (sendKnownLocs g v list d).1 = locsLeft g v list ∧ (∃ m, Holding opcode 4 m d') ∧
      d'.payload = d.payload ++ locsBytes g v list := by
  fun_induction knownLocsDue g v list generalizing n d with
  | case1 =>
      obtain rfl := Option.some.inj hd
      exact ⟨rfl, ⟨n, h⟩, (List.append_nil _).symm⟩
  | case2 known rest hnews ih =>
      rw [sendKnownLocs_cons, hnews] at hd ⊢
      obtain ⟨hleft, hholds, hpayload⟩ := ih h hd
      rw [locsLeft_cons, locsBytes_cons, hnews]
      exact ⟨congrArg (known :: ·) hleft, hholds, hpayload⟩
  | case3 known rest loc hnews ih =>
      rw [sendKnownLocs_cons, hnews] at hd ⊢
      rw [locsLeft_cons, locsBytes_cons, hnews]
      dsimp only at hd ⊢
      cases hput : putLoc v d loc with
      | none =>
          rw [hput] at hd
          cases hd
      | some d₁ =>
          rw [hput] at hd
          obtain ⟨h₁, hput⟩ := h.putRecord hput
          obtain ⟨hleft, hholds, hpayload⟩ := ih h₁ hd
          refine ⟨congrArg (_ :: ·) hleft, hholds, ?_⟩
          rw [hpayload, hput, List.append_assoc]
  | case4 known hnews =>
      rw [sendKnownLocs_cons, hnews] at hd ⊢
      rw [locsLeft_cons, locsBytes_cons, hnews]
      dsimp only at hd ⊢
      cases hput : d.putRecord v 60000 known.x known.y with
      | none =>
          rw [hput] at hd
          cases hd
      | some d₁ =>
          rw [hput] at hd
          obtain rfl := Option.some.inj hd
          obtain ⟨h₁, hput⟩ := h.putRecord hput
          exact ⟨rfl, ⟨_, h₁⟩, by rw [hput, List.append_nil]⟩
  | case5 known hnews next rest ih =>
      rw [sendKnownLocs_cons, hnews] at hd ⊢
      rw [locsLeft_cons, locsBytes_cons, hnews]
      dsimp only at hd ⊢
      cases hput : d.putRecord v 60000 known.x known.y with
      | none =>
          rw [hput] at hd
          cases hd
      | some d₁ =>
          rw [hput] at hd
          obtain ⟨h₁, hput⟩ := h.putRecord hput
          obtain ⟨hleft, hholds, hpayload⟩ := ih h₁ hd
          refine ⟨congrArg (next :: ·) hleft, hholds, ?_⟩
          rw [hpayload, hput, List.append_assoc]

/-- What is not to be taken out stays, on its tile. -/
theorem key_mem_locsLeft {list : List Loc} {a : Loc} (ha : a ∈ list)
    (hstays : locNews g v a ≠ .gone) : locKey a ∈ (locsLeft g v list).map locKey := by
  fun_induction knownLocsDue g v list with
  | case1 => cases ha
  | case2 known rest hnews ih =>
      rw [locsLeft_cons, hnews]
      rcases List.mem_cons.1 ha with rfl | ha
      · exact List.mem_cons_self
      · exact List.mem_cons_of_mem _ (ih ha)
  | case3 known rest loc hnews ih =>
      rw [locsLeft_cons, hnews]
      rcases List.mem_cons.1 ha with rfl | ha
      · exact List.mem_cons_self
      · exact List.mem_cons_of_mem _ (ih ha)
  | case4 known hnews =>
      rw [List.mem_singleton] at ha
      exact absurd (ha ▸ hnews) hstays
  | case5 known hnews next rest ih =>
      rw [locsLeft_cons, hnews]
      rcases List.mem_cons.1 ha with rfl | ha
      · exact absurd hnews hstays
      · rcases List.mem_cons.1 ha with rfl | ha
        · exact List.mem_cons_self
        · exact List.mem_cons_of_mem _ (ih ha)

/-- If something due comes right after what is taken out, something due is left. -/
theorem exists_due_left {list : List Loc}
    (h : ¬ list.IsChain fun a b => locNews g v a = .gone → locNews g v b = .nothing) :
    ∃ b ∈ locsLeft g v list, b ∈ list ∧ locNews g v b ≠ .nothing := by
  fun_induction knownLocsDue g v list with
  | case1 => exact absurd .nil h
  | case2 known rest hnews ih =>
      have hrest : ¬ rest.IsChain _ := fun hrest => h (hrest.cons fun b _ hgone => by
        rw [hnews] at hgone
        cases hgone)
      obtain ⟨b, hleft, hmem, hdue⟩ := ih hrest
      rw [locsLeft_cons, hnews]
      exact ⟨b, List.mem_cons_of_mem _ hleft, List.mem_cons_of_mem _ hmem, hdue⟩
  | case3 known rest loc hnews ih =>
      have hrest : ¬ rest.IsChain _ := fun hrest => h (hrest.cons fun b _ hgone => by
        rw [hnews] at hgone
        cases hgone)
      obtain ⟨b, hleft, hmem, hdue⟩ := ih hrest
      rw [locsLeft_cons, hnews]
      exact ⟨b, List.mem_cons_of_mem _ hleft, List.mem_cons_of_mem _ hmem, hdue⟩
  | case4 known hnews => exact absurd (.singleton known) h
  | case5 known hnews next rest ih =>
      rw [locsLeft_cons, hnews]
      by_cases hnext : locNews g v next = .nothing
      · have hrest : ¬ rest.IsChain _ := fun hrest => h (.cons_cons (fun _ => hnext)
          (hrest.cons fun b _ hgone => by
            rw [hnext] at hgone
            cases hgone))
        obtain ⟨b, hleft, hmem, hdue⟩ := ih hrest
        exact ⟨b, List.mem_cons_of_mem _ hleft,
          List.mem_cons_of_mem _ (List.mem_cons_of_mem _ hmem), hdue⟩
      · exact ⟨next, List.mem_cons_self, List.mem_cons_of_mem _ List.mem_cons_self, hnext⟩

/-- An entry that is as it should be, as far as the loop looks at it. -/
structure Settled (g : Grid) (v : Viewer) (a : Loc) : Prop where
  stays : locGone g v a = false
  same : v.distance a.x a.y < 128 → ∃ loc, serverFindLoc g a.x a.y = some loc ∧ loc.id = a.id

theorem settled_of_nothing {a : Loc} (hgoes : locGone g v a = true → locNews g v a = .gone)
    (h : locNews g v a = .nothing) : Settled g v a := by
  refine ⟨?_, fun hnear => (locNews_nothing_iff.1 h hnear).2⟩
  cases hgone : locGone g v a with
  | false => rfl
  | true => exact absurd (h.symm.trans (hgoes hgone)) (by simp)

/-- An entry that is given the id on the map is as it should be. -/
theorem settled_of_changed {a loc : Loc} (hgoes : locGone g v a = true → locNews g v a = .gone)
    (h : locNews g v a = .changed loc) : Settled g v { a with id := loc.id } := by
  refine ⟨?_, fun _ => ⟨loc, ?_, rfl⟩⟩
  · cases hgone : locGone g v a with
    | false => exact (locGone_key rfl).trans hgone
    | true => exact absurd (h.symm.trans (hgoes hgone)) (by simp)
  · unfold locNews at h
    split at h
    · cases h
    · split at h
      · cases h
      · next found hfound =>
        split at h
        · exact hfound.trans (congrArg some (LocNews.changed.inj h))
        · split at h
          · cases h
          · cases h

/-- If nothing due comes right after what is taken out, all that is left is as it
should be. -/
theorem settled_locsLeft {list : List Loc}
    (hgoes : ∀ a ∈ list, locGone g v a = true → locNews g v a = .gone)
    (h : list.IsChain fun a b => locNews g v a = .gone → locNews g v b = .nothing) :
    ∀ a ∈ locsLeft g v list, Settled g v a := by
  fun_induction knownLocsDue g v list with
  | case1 => simp [locsLeft]
  | case2 known rest hnews ih =>
      rw [locsLeft_cons, hnews]
      rintro a (_ | ⟨_, ha⟩)
      · exact settled_of_nothing (hgoes _ List.mem_cons_self) hnews
      · exact ih (fun b hb => hgoes b (List.mem_cons_of_mem _ hb)) h.tail a ha
  | case3 known rest loc hnews ih =>
      rw [locsLeft_cons, hnews]
      rintro a (_ | ⟨_, ha⟩)
      · exact settled_of_changed (hgoes _ List.mem_cons_self) hnews
      · exact ih (fun b hb => hgoes b (List.mem_cons_of_mem _ hb)) h.tail a ha
  | case4 known hnews =>
      rw [locsLeft_cons, hnews]
      rintro a ⟨⟩
  | case5 known hnews next rest ih =>
      rw [locsLeft_cons, hnews]
      rintro a (_ | ⟨_, ha⟩)
      · exact settled_of_nothing (hgoes _ (List.mem_cons_of_mem _ List.mem_cons_self))
          (h.rel hnews)
      · exact ih (fun b hb => hgoes b (List.mem_cons_of_mem _ (List.mem_cons_of_mem _ hb)))
          h.tail.tail a ha

/-! ## What the client is told -/

theorem readLocs_record {id x y : Nat} (hid : id < 65536) (hnear : v.distance x y < 128)
    (rest : List UInt8) :
    readLocs v.x v.y (recordBytes v id x y ++ rest) = (id, x, y) :: readLocs v.x v.y rest := by
  obtain ⟨hx, hy⟩ := sqrt_lt_128 hnear
  show readLocs v.x v.y (_ :: _ :: _ :: _ :: rest) = _
  rw [readLocs, read_u16 hid, signed_relative (by omega), signed_relative (by omega)]

/-- Behind the records of a loop, whatever they are, the rest is read as it is. -/
theorem mem_readLocs_record {id x y : Nat} {r : Nat × Nat × Nat} {rest : List UInt8}
    (h : r ∈ readLocs v.x v.y rest) : r ∈ readLocs v.x v.y (recordBytes v id x y ++ rest) := by
  show r ∈ readLocs v.x v.y (_ :: _ :: _ :: _ :: rest)
  rw [readLocs]
  exact List.mem_cons_of_mem _ h

/-- If nothing due comes right after what is taken out, the client is told of
everything that is. -/
theorem told_locsBytes {list : List Loc}
    (h : list.IsChain fun a b => locNews g v a = .gone → locNews g v b = .nothing)
    {a : Loc} (ha : a ∈ list) (hgone : locNews g v a = .gone) (more : List UInt8) :
    (60000, locKey a) ∈ readLocs v.x v.y (locsBytes g v list ++ more) := by
  have hnear := (locNews_gone_iff.1 hgone).2.1
  fun_induction knownLocsDue g v list with
  | case1 => cases ha
  | case2 known rest hnews ih =>
      rw [locsBytes_cons, hnews]
      rcases List.mem_cons.1 ha with rfl | ha
      · rw [hnews] at hgone
        cases hgone
      · exact ih h.tail ha
  | case3 known rest loc hnews ih =>
      rw [locsBytes_cons, hnews]
      dsimp only
      rw [List.append_assoc]
      rcases List.mem_cons.1 ha with rfl | ha
      · rw [hnews] at hgone
        cases hgone
      · exact mem_readLocs_record (ih h.tail ha)
  | case4 known hnews =>
      rw [locsBytes_cons, hnews]
      dsimp only
      rw [List.append_nil]
      obtain rfl := List.mem_singleton.1 ha
      rw [readLocs_record (by omega) hnear]
      exact List.mem_cons_self
  | case5 known hnews next rest ih =>
      rw [locsBytes_cons, hnews]
      dsimp only
      rw [List.append_assoc]
      rcases List.mem_cons.1 ha with rfl | ha
      · rw [readLocs_record (by omega) hnear]
        exact List.mem_cons_self
      · rcases List.mem_cons.1 ha with rfl | ha
        · have hnext := h.rel hnews
          rw [hnext] at hgone
          cases hgone
        · exact mem_readLocs_record (ih h.tail.tail ha)

/-! ## What is nearby -/

theorem hasKnownLoc_append {a : Loc} {l m : List Loc} :
    hasKnownLoc a (l ++ m) = true ↔ hasKnownLoc a l = true ∨ hasKnownLoc a m = true := by
  unfold hasKnownLoc
  rw [List.any_append, Bool.or_eq_true]

/-- The loop over what is nearby puts records behind those that are there, and
leaves all of it known. -/
theorem sendNearbyLocs_ok {opcode : UInt8} {n : Nat} {d d' : Draft} (nearby list : List Loc)
    (h : Holding opcode 4 n d) (hd : (sendNearbyLocs v nearby list d).2 = some d') :
    (∃ m, Holding opcode 4 m d') ∧ (∃ more, d'.payload = d.payload ++ more) ∧
      ∀ a ∈ nearby, hasKnownLoc a (sendNearbyLocs v nearby list d).1 = true := by
  unfold sendNearbyLocs at hd ⊢
  induction nearby generalizing n list d with
  | nil =>
      obtain rfl := Option.some.inj hd
      exact ⟨⟨n, h⟩, ⟨[], (List.append_nil _).symm⟩, by simp⟩
  | cons a nearby ih =>
      have hstays : ∀ (list' : List Loc) (d₁ : Draft), hasKnownLoc a list' = true →
          hasKnownLoc a (sendNearby hasKnownLoc (putLoc v) nearby list' d₁).1 = true := by
        intro list' d₁ hknown
        obtain ⟨added, heq, -⟩ := sendNearby_appends hasKnownLoc (putLoc v) nearby list' d₁
        rw [heq, hasKnownLoc_append]
        exact .inl hknown
      unfold sendNearby at hd ⊢
      by_cases hknown : hasKnownLoc a list = true
      · rw [if_pos hknown] at hd ⊢
        obtain ⟨hholds, hmore, hall⟩ := ih list h hd
        refine ⟨hholds, hmore, fun b hb => ?_⟩
        rcases List.mem_cons.1 hb with rfl | hb
        · exact hstays list d hknown
        · exact hall b hb
      · rw [if_neg hknown] at hd ⊢
        cases hput : putLoc v d a with
        | none =>
            rw [hput] at hd
            cases hd
        | some d₁ =>
            rw [hput] at hd
            obtain ⟨h₁, hpayload⟩ := h.putRecord hput
            obtain ⟨hholds, ⟨more, hmore⟩, hall⟩ := ih (list ++ [a]) h₁ hd
            refine ⟨hholds, ⟨_, by rw [hmore, hpayload, List.append_assoc]⟩, fun b hb => ?_⟩
            rcases List.mem_cons.1 hb with rfl | hb
            · refine hstays (list ++ [b]) d₁ (hasKnownLoc_append.2 (.inr ?_))
              simp [hasKnownLoc, Loc.onTile]
            · exact hall b hb

/-- What is nearby is on the map and not far off. -/
theorem LocNearby.not_gone (hg : Filed g) {a : Loc} (h : LocNearby g v a) :
    locGone g v a = false := by
  obtain ⟨orig, zone, horig, ha, -, hx, hy⟩ := h
  exact not_gone_of_close hg horig ha hx hy

/-- A location on the map is the one found on its tile. -/
theorem serverFindLoc_self (hg : Filed g) {a : Loc} {zone : Zone} (ha : a ∈ g.locs zone) :
    serverFindLoc g a.x a.y = some a := by
  cases hf : serverFindLoc g a.x a.y with
  | none => exact absurd (by simp [Loc.onTile]) (hg.loc_none hf ⟨zone, ha⟩)
  | some loc =>
      rcases (hg.loc_split hf a).1 ⟨zone, ha⟩ with ⟨-, hoff⟩ | rfl
      · exact absurd (by simp [Loc.onTile]) hoff
      · rfl

theorem LocSought.nearby {a : Loc} (h : LocSought g v a) : LocNearby g v a := by
  obtain ⟨zone, hzone, ha⟩ := h
  unfold zonesNear at hzone
  split at hzone
  · cases hzone
  · next orig horig =>
    rcases List.mem_cons.1 hzone with rfl | hzone
    · exact ⟨zone, zone, horig, ha, rfl, by simp [absDiff], by simp [absDiff]⟩
    · obtain ⟨-, hplane, hx, hy, -⟩ := mem_zonesAround.1 hzone
      exact ⟨orig, zone, horig, ha, hplane, hx, hy⟩

/-- Everything `mob_get_nearby_locs` would give without a limit. -/
def soughtLocs (g : Grid) (v : Viewer) : List Loc := (zonesNear v.x v.y).flatMap g.locs

theorem mem_soughtLocs {a : Loc} : a ∈ soughtLocs g v ↔ LocSought g v a := List.mem_flatMap

theorem nodup_soughtLocs (hg : Filed g) : (soughtLocs g v).Nodup := by
  unfold soughtLocs zonesNear
  split
  · exact List.nodup_nil
  · rw [List.nodup_flatMap]
    refine ⟨fun zone _ => (hg.locs.nodup zone).of_map, (zonesAround_nodup _).imp ?_⟩
    intro zone zone' hne a ha ha'
    exact hne (Option.some.inj
      ((hg.locs.home_eq zone a ha).symm.trans (hg.locs.home_eq zone' a ha')))

/-! ## An update -/

/-- What is left of a successful update: what the loop over the known locations
leaves, with what is new nearby behind it; and if anything was due for the known
locations, a packet with that in front. -/
theorem playerSendLocs_ok (isaacOut : Nat → UInt32) {tmpbuf : List UInt8}
    (htmp : tmpbuf.length = playerBufsize)
    (hsent : (playerSendLocs isaacOut g tmpbuf v).2 ≠ .failed) :
    ∃ added more, (playerSendLocs isaacOut g tmpbuf v).1.knownLocs =
        locsLeft g v v.knownLocs ++ added ∧
      (∀ a ∈ added, a ∈ mobGetNearbyLocs g v) ∧
      (∀ a ∈ mobGetNearbyLocs g v,
        hasKnownLoc a (locsLeft g v v.knownLocs ++ added) = true) ∧
      (locsBytes g v v.knownLocs ≠ [] → (playerSendLocs isaacOut g tmpbuf v).2 =
        .packet (opSrvLocs :: (locsBytes g v v.knownLocs ++ more))) := by
  have hopened := holds_opened htmp opSrvLocs 4
  unfold playerSendLocs at hsent ⊢
  cases hleft : sendKnownLocs g v v.knownLocs (.opened tmpbuf opSrvLocs) with
  | mk list result =>
  cases result with
  | none =>
      rw [hleft] at hsent
      exact absurd rfl hsent
  | some d =>
  obtain ⟨hlist, ⟨n, hholds⟩, hpayload⟩ := sendKnownLocs_ok v.knownLocs hopened
    (congrArg Prod.snd hleft)
  rw [hleft] at hlist hsent
  dsimp only at hlist hsent ⊢
  obtain ⟨added, happ, hadded⟩ := sendNearby_appends hasKnownLoc (putLoc v)
    (mobGetNearbyLocs g v) list d
  cases hnear : sendNearbyLocs v (mobGetNearbyLocs g v) list d with
  | mk list' result =>
  cases result with
  | none =>
      rw [hnear] at hsent
      exact absurd rfl hsent
  | some d' =>
  obtain ⟨⟨m, hholds'⟩, ⟨more, hmore⟩, hall⟩ := sendNearbyLocs_ok _ list hholds
    (congrArg Prod.snd hnear)
  have hlist' : list' = locsLeft g v v.knownLocs ++ added := by
    rw [← hlist, ← happ]
    exact (congrArg Prod.fst hnear).symm
  rw [hnear] at hsent hall
  dsimp only at hsent hall ⊢
  refine ⟨added, more, ?_, hadded, fun a ha => hlist' ▸ hall a ha, fun hbytes => ?_⟩
  · obtain ⟨out, hout⟩ := writeUpdates_known isaacOut { v with knownLocs := list' } d'
    rw [hout]
    exact hlist'
  · have hsize := hholds'.offset
    have hfull : d'.payload = opSrvLocs :: (locsBytes g v v.knownLocs ++ more) := by
      rw [hmore, hpayload, payload_opened htmp, List.append_assoc]
      rfl
    have hlong : d'.payload.length ≤ d'.offset := List.length_take_le _ _
    have hcount : d'.updateCount ≠ 0 := by
      intro hzero
      have hm := hholds'.count.symm.trans hzero
      have hbytes := List.length_pos_of_ne_nil hbytes
      rw [hfull, List.length_cons, List.length_append] at hlong
      omega
    obtain ⟨out, hout⟩ := writeUpdates_sent isaacOut { v with knownLocs := list' } hcount hsent
    rw [hout, hfull]

/-- Nothing is left on a tile where nothing was known. -/
theorem locsLeft_tile {list : List Loc} {a : Loc} (ha : a ∈ locsLeft g v list) :
    locKey a ∈ list.map locKey := by
  fun_induction knownLocsDue g v list with
  | case1 => cases ha
  | case2 known rest hnews ih =>
      rw [locsLeft_cons, hnews] at ha
      rcases List.mem_cons.1 ha with rfl | ha
      · exact List.mem_cons_self
      · exact List.mem_cons_of_mem _ (ih ha)
  | case3 known rest loc hnews ih =>
      rw [locsLeft_cons, hnews] at ha
      rcases List.mem_cons.1 ha with rfl | ha
      · exact List.mem_cons_self
      · exact List.mem_cons_of_mem _ (ih ha)
  | case4 known hnews =>
      rw [locsLeft_cons, hnews] at ha
      cases ha
  | case5 known hnews next rest ih =>
      rw [locsLeft_cons, hnews] at ha
      rcases List.mem_cons.1 ha with rfl | ha
      · exact List.mem_cons_of_mem _ List.mem_cons_self
      · exact List.mem_cons_of_mem _ (List.mem_cons_of_mem _ (ih ha))

/-- What stays on the map nearby stays known. -/
theorem hasKnownLoc_locsLeft {list : List Loc} {a : Loc} (hstays : locGone g v a = false) :
    hasKnownLoc a (locsLeft g v list) = true ↔ hasKnownLoc a list = true := by
  rw [hasKnownLoc_iff, hasKnownLoc_iff]
  constructor
  · intro h
    obtain ⟨b, hb, hkey⟩ := List.mem_map.1 h
    exact hkey ▸ locsLeft_tile hb
  · intro h
    obtain ⟨b, hb, hkey⟩ := List.mem_map.1 h
    refine hkey ▸ key_mem_locsLeft hb fun hgone => ?_
    rw [locGone_key hkey.symm, (locNews_gone_iff.1 hgone).1] at hstays
    cases hstays

theorem AllNearby.imp {p q : Loc → Prop} (hpq : ∀ loc, LocNearby g v loc → p loc → q loc)
    (h : AllNearby g v p) : AllNearby g v q := by
  cases h with
  | inl hall => exact .inl fun loc hloc => hpq loc hloc (hall loc hloc)
  | inr hmany =>
      obtain ⟨l, hl, hlen, hp⟩ := hmany
      refine .inr ⟨l, hl, hlen, fun loc hloc => ?_⟩
      exact ⟨(hp loc hloc).1, hpq loc (hp loc hloc).1 (hp loc hloc).2⟩

/-- What is nearby is known after an update if and only if it was before or is
sought, up to the limit. -/
theorem allNearby_known_iff (hg : Filed g) {added : List Loc}
    (hadded : ∀ a ∈ added, a ∈ mobGetNearbyLocs g v)
    (hall : ∀ a ∈ mobGetNearbyLocs g v,
      hasKnownLoc a (locsLeft g v v.knownLocs ++ added) = true) :
    (AllNearby g v fun loc => hasKnownLoc loc (locsLeft g v v.knownLocs ++ added) = true) ↔
      AllNearby g v fun loc => LocSought g v loc ∨ hasKnownLoc loc v.knownLocs = true := by
  constructor
  · refine AllNearby.imp fun a ha hknown => ?_
    rw [hasKnownLoc_append, hasKnownLoc_locsLeft (ha.not_gone hg)] at hknown
    refine hknown.symm.imp_left fun hknown => ?_
    -- on the tile of one that was added there is only that one
    obtain ⟨b, hb, hkey⟩ := List.mem_map.1 ((hasKnownLoc_iff a added).1 hknown)
    have hsought := mem_soughtLocs.1 (List.mem_of_mem_take (hadded b hb))
    obtain ⟨zone, -, hzone⟩ := id hsought
    obtain ⟨-, zone', -, hzone', -⟩ := ha
    obtain ⟨hx, hy⟩ := Prod.mk.inj hkey
    have hsame := serverFindLoc_self hg hzone
    rw [hx, hy, serverFindLoc_self hg hzone'] at hsame
    exact Option.some.inj hsame ▸ hsought
  · intro h
    by_cases hroom : (soughtLocs g v).length ≤ maxNearbyLocs
    · refine h.imp fun a ha hor => ?_
      cases hor with
      | inl hsought =>
          refine hall a ?_
          show a ∈ (soughtLocs g v).take maxNearbyLocs
          rw [List.take_of_length_le hroom]
          exact mem_soughtLocs.2 hsought
      | inr hknown =>
          exact hasKnownLoc_append.2 (.inl ((hasKnownLoc_locsLeft (ha.not_gone hg)).2 hknown))
    · refine .inr ⟨mobGetNearbyLocs g v, (nodup_soughtLocs hg).sublist (List.take_sublist _ _), ?_,
        fun a ha => ⟨(mem_soughtLocs.1 (List.mem_of_mem_take ha)).nearby, hall a ha⟩⟩
      show ((soughtLocs g v).take maxNearbyLocs).length = maxNearbyLocs
      rw [List.length_take]
      omega

/-- A successful update leaves the known locations as they should be if and only
if nothing due comes right after what is taken out, what is to go is within reach,
and what is nearby is known or sought. -/
theorem locsCurrent_iff (isaacOut : Nat → UInt32) (hg : Filed g) {tmpbuf : List UInt8}
    (htmp : tmpbuf.length = playerBufsize)
    (hsent : (playerSendLocs isaacOut g tmpbuf v).2 ≠ .failed) :
    LocsCurrent g v (playerSendLocs isaacOut g tmpbuf v).1.knownLocs
      (playerSendLocs isaacOut g tmpbuf v).2 ↔ LocsApart g v := by
  obtain ⟨added, more, hafter, hadded, hall, hpacket⟩ := playerSendLocs_ok isaacOut htmp hsent
  have hnews : ∀ a, locGone g v a = true → ((v.distance a.x a.y < 128 ∧
      ∀ loc, serverFindLoc g a.x a.y = some loc → loc.id = a.id) ↔ locNews g v a = .gone) :=
    fun a hgone => ⟨fun h => locNews_gone_iff.2 ⟨hgone, h⟩, fun h => (locNews_gone_iff.1 h).2⟩
  rw [hafter]
  constructor
  · intro h
    have hgoes : ∀ a ∈ v.knownLocs, locGone g v a = true → locNews g v a = .gone := by
      intro a ha hgone
      by_contra hstays
      refine (h.removed a ha hgone).1 ?_
      rw [List.map_append]
      exact List.mem_append_left _ (key_mem_locsLeft ha hstays)
    refine ⟨fun a ha hgone => (hnews a hgone).2 (hgoes a ha hgone), ?_,
      (allNearby_known_iff hg hadded hall).1 h.nearby⟩
    by_contra hdue
    obtain ⟨b, hleft, hb, hdue⟩ := exists_due_left hdue
    have hbafter : b ∈ locsLeft g v v.knownLocs ++ added := List.mem_append_left _ hleft
    refine hdue (locNews_nothing_iff.2 fun hnear => ⟨?_, h.same b hbafter hnear⟩)
    cases hgone : locGone g v b with
    | false => rfl
    | true => exact absurd (List.mem_map_of_mem hbafter) (h.removed b hb hgone).1
  · intro h
    have hgoes : ∀ a ∈ v.knownLocs, locGone g v a = true → locNews g v a = .gone :=
      fun a ha hgone => (hnews a hgone).1 (h.goes a ha hgone)
    have hsettled : ∀ a ∈ locsLeft g v v.knownLocs ++ added, Settled g v a := by
      intro a ha
      rcases List.mem_append.1 ha with ha | ha
      · exact settled_locsLeft hgoes h.apart a ha
      · have hsought := mem_soughtLocs.1 (List.mem_of_mem_take (hadded a ha))
        obtain ⟨zone, -, hzone⟩ := id hsought
        exact ⟨hsought.nearby.not_gone hg, fun _ => ⟨a, serverFindLoc_self hg hzone, rfl⟩⟩
    refine ⟨fun a ha => (hsettled a ha).same, fun a ha hgone => ⟨fun hin => ?_, ?_⟩,
      (allNearby_known_iff hg hadded hall).2 h.sought⟩
    · obtain ⟨b, hb, hkey⟩ := List.mem_map.1 hin
      have hstays := (hsettled b hb).stays
      rw [locGone_key hkey, hgone] at hstays
      cases hstays
    · have htold := told_locsBytes h.apart ha (hgoes a ha hgone)
      have hbytes : locsBytes g v v.knownLocs ≠ [] := by
        intro hnil
        have hnone := htold []
        rw [hnil] at hnone
        simp [readLocs] at hnone
      exact ⟨_, hpacket hbytes, htold more⟩

/-! ## Every update of a run -/

/-- At the start there is nothing on the map and the player knows of nothing. -/
def LocsFresh (c : LocSight) : Prop := c.grid = {} ∧ c.viewer.knownLocs = []

variable {isaacOut : Nat → UInt32} {t : MapTable} {tr : List (LocSight × LocEvent)} {c : LocSight}

theorem locStep_filed {c' : LocSight} {e : LocEvent} (hg : Filed c.grid)
    (h : locStep isaacOut t c e = .ok c') : Filed c'.grid := by
  cases e with
  | grid e =>
      simp only [locStep] at h
      cases hgrid : gridStep t c.grid e with
      | error a =>
          rw [hgrid] at h
          cases h
      | ok g =>
          rw [hgrid] at h
          obtain rfl := Except.ok.inj h
          exact (gridStep_spec hg hgrid).1
  | move x y =>
      obtain rfl := Except.ok.inj h
      exact hg
  | output out =>
      obtain rfl := Except.ok.inj h
      exact hg
  | send tmpbuf =>
      obtain rfl := Except.ok.inj h
      exact hg

/-- In every state a run reaches, an update that succeeds leaves the known
locations as they should be if and only if they were apart before it. -/
theorem known_locs_current_iff (isaacOut : Nat → UInt32) (t : MapTable)
    {tr : List (LocSight × LocEvent)} {c : LocSight}
    (hrun : Run LocsFresh (locStep isaacOut t) tr c) (tmpbuf : Vector UInt8 playerBufsize)
    (hsent : (playerSendLocs isaacOut c.grid tmpbuf.toList c.viewer).2 ≠ .failed) :
    LocsCurrent c.grid c.viewer
      (playerSendLocs isaacOut c.grid tmpbuf.toList c.viewer).1.knownLocs
      (playerSendLocs isaacOut c.grid tmpbuf.toList c.viewer).2 ↔
        LocsApart c.grid c.viewer := by
  have hfiled : Filed c.grid := by
    refine hrun.always (I := fun c => Filed c.grid) ?_ ?_
    · rintro s ⟨hgrid, -⟩
      rw [hgrid]
      exact filed_empty
    · exact fun s e s' hs h => locStep_filed hs h
  exact locsCurrent_iff isaacOut hfiled (by simp) hsent

/-- The map is empty and the player is at (10, 10). -/
def watcher : LocSight := { grid := {}, viewer := onlooker.viewer }

/-- A boulder is put down and sent, and once it is deleted the next update takes it
off the list and tells the client. -/
theorem known_locs_current_iff_boulder : ∃ tr c,
    exec (locStep (fun _ => 0) boulderTable) watcher
      [.grid (.addLoc boulder), .send emptyTmpbuf, .grid (.delLoc 10 10)] = .ok (tr, c) ∧
    c.viewer.knownLocs = [boulder] ∧ locGone c.grid c.viewer boulder = true ∧
    LocsCurrent c.grid c.viewer
      (playerSendLocs (fun _ => 0) c.grid emptyTmpbuf.toList c.viewer).1.knownLocs
      (playerSendLocs (fun _ => 0) c.grid emptyTmpbuf.toList c.viewer).2 := by
  have hrun : Run LocsFresh (locStep (fun _ => 0) boulderTable) _ _ :=
    Run.of_exec [.grid (.addLoc boulder), .send emptyTmpbuf, .grid (.delLoc 10 10)]
      (show LocsFresh watcher from ⟨rfl, rfl⟩) rfl
  refine ⟨_, _, rfl, by decide +kernel, by decide +kernel,
    (known_locs_current_iff (fun _ => 0) boulderTable hrun emptyTmpbuf (by decide +kernel)).2
      ⟨?_, ?_, .inl ?_⟩⟩
  · intro known hknown _
    obtain rfl : known = boulder := List.mem_singleton.1 hknown
    refine ⟨by decide +kernel, fun loc hfind => ?_⟩
    rw [show serverFindLoc _ boulder.x boulder.y = none by decide +kernel] at hfind
    cases hfind
  · exact .singleton boulder
  · rintro loc ⟨orig, zone, -, hloc, -⟩
    have hloc' : loc ∈ setBin (setBin (fun _ => []) (⟨1, 1, 0⟩ : Zone) [boulder]) ⟨1, 1, 0⟩ []
      zone := hloc
    by_cases hzone : zone = ⟨1, 1, 0⟩ <;> simp [setBin, hzone] at hloc'

/-- Of two boulders beside each other, both of which are gone, only the first is
taken off the list. -/
theorem second_boulder_known : ¬ ∀ (isaacOut : Nat → UInt32) (t : MapTable)
    (tr : List (LocSight × LocEvent)) (c : LocSight),
    Run LocsFresh (locStep isaacOut t) tr c → ∀ tmpbuf : Vector UInt8 playerBufsize,
      (playerSendLocs isaacOut c.grid tmpbuf.toList c.viewer).2 ≠ .failed →
        LocsCurrent c.grid c.viewer
          (playerSendLocs isaacOut c.grid tmpbuf.toList c.viewer).1.knownLocs
          (playerSendLocs isaacOut c.grid tmpbuf.toList c.viewer).2 := by
  intro hall
  have hrun : Run LocsFresh (locStep (fun _ => 0) boulderTable) _ _ :=
    Run.of_exec [.grid (.addLoc boulder), .grid (.addLoc ⟨0, 0, 11, 10, 0⟩), .send emptyTmpbuf,
      .grid (.delLoc 10 10), .grid (.delLoc 11 10)] (show LocsFresh watcher from ⟨rfl, rfl⟩) rfl
  have hcurrent := hall _ _ _ _ hrun emptyTmpbuf (by decide +kernel)
  have hgone := (hcurrent.removed ⟨0, 0, 11, 10, 0⟩ (by decide +kernel) (by decide +kernel)).1
  exact absurd (show (11, 10) ∈ _ by decide +kernel) hgone

end Sundae.Proofs
