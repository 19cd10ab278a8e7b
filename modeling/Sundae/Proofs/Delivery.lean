import Mathlib.Data.Finset.Card
import Mathlib.Data.Finset.Dedup
import Sundae.Proofs.Movement
import Sundae.Proofs.Zone

/-!
# What a client is taken to know

`known_locs` and `known_bounds` are changed as the records are put, `known_items`
and `known_players` before the packet is written. So a list is as it was only
where nothing is due, or where the packet goes out.
-/

namespace Sundae.Proofs

open Sundae.Lib Sundae.Ref

variable {opcode : UInt8} {size n : Nat} {d : Draft}

/-- How a loop over a list can end: with all its records put, or with no room for
them. -/
def Puts (opcode : UInt8) (size n : Nat) (result : Option Draft) : Prop :=
  (playerBufsize < 1 + size * n ∧ result = none) ∨
    ∃ d, result = some d ∧ Holding opcode size n d

/-- What does not fit with one record more does not with `m` after it. -/
theorem full_later (h : playerBufsize < 1 + size * (n + 1)) (m : Nat) :
    playerBufsize < 1 + size * (n + (m + 1)) := by
  have hle : size * (n + 1) ≤ size * (n + (m + 1)) := Nat.mul_le_mul_left size (by omega)
  omega

/-! ## What is new nearby -/

section Nearby

variable {α : Type} {κ : Type} [DecidableEq κ] {key : α → κ} {known : α → List α → Bool}
  {put : Draft → α → Option Draft} {v : Viewer}

/-- The places of `nearby` that are not on the list. -/
def newPlaces (key : α → κ) (nearby list : List α) : Finset κ :=
  (nearby.map key).toFinset \ (list.map key).toFinset

theorem newPlaces_known {a : α} {nearby list : List α} (h : key a ∈ list.map key) :
    newPlaces key (a :: nearby) list = newPlaces key nearby list := by
  unfold newPlaces
  rw [List.map_cons, List.toFinset_cons, Finset.insert_sdiff_of_mem _ (List.mem_toFinset.2 h)]

/-- What is added is no longer new. -/
theorem card_newPlaces_new {a : α} {nearby list : List α} (h : key a ∉ list.map key) :
    (newPlaces key (a :: nearby) list).card =
      (newPlaces key nearby (list ++ [a])).card + 1 := by
  have hlist : key a ∉ (list.map key).toFinset := by rwa [List.mem_toFinset]
  have hadd : newPlaces key nearby (list ++ [a]) = (newPlaces key nearby list).erase (key a) := by
    ext k
    simp only [newPlaces, List.map_append, List.map_cons, List.map_nil, List.toFinset_append,
      Finset.mem_sdiff, Finset.mem_union, Finset.mem_erase, List.toFinset_cons,
      List.toFinset_nil, insert_empty_eq, Finset.mem_singleton]
    tauto
  have hcons : newPlaces key (a :: nearby) list = insert (key a) (newPlaces key nearby list) := by
    unfold newPlaces
    rw [List.map_cons, List.toFinset_cons, Finset.insert_sdiff_of_notMem _ hlist]
  rw [hadd, hcons, ← Finset.card_erase_add_one (Finset.mem_insert_self _ _),
    Finset.erase_insert_eq_erase]

/-- A record for each new place, and the new ones at the end of the list. -/
theorem sendNearby_puts (hknown : ∀ a list, known a list = true ↔ key a ∈ list.map key)
    (hput : ∀ d a, PutsRecord size d (put d a)) (nearby : List α) {list : List α}
    (h : Holding opcode size n d) :
    Puts opcode size (n + (newPlaces key nearby list).card)
      (sendNearby known put nearby list d).2 := by
  induction nearby generalizing n list d with
  | nil => exact .inr ⟨d, rfl, by simpa [newPlaces] using h⟩
  | cons a nearby ih =>
    unfold sendNearby
    by_cases hk : known a list = true
    · rw [if_pos hk, newPlaces_known ((hknown a list).1 hk)]
      exact ih h
    · rw [if_neg hk, card_newPlaces_new (fun hmem => hk ((hknown a list).2 hmem))]
      rcases h.put (hput d a) with ⟨hfull, heq⟩ | ⟨d', heq, h'⟩
      · rw [heq]
        exact .inl ⟨full_later hfull _, rfl⟩
      · rw [heq, Nat.add_comm _ 1, ← Nat.add_assoc]
        exact ih h'

theorem sendNearby_appends (known : α → List α → Bool) (put : Draft → α → Option Draft)
    (nearby list : List α) (d : Draft) :
    ∃ added, (sendNearby known put nearby list d).1 = list ++ added ∧
      ∀ a ∈ added, a ∈ nearby := by
  induction nearby generalizing list d with
  | nil => exact ⟨[], by simp [sendNearby], by simp⟩
  | cons a nearby ih =>
    unfold sendNearby
    split
    · obtain ⟨added, heq, hadded⟩ := ih list d
      exact ⟨added, heq, fun b hb => List.mem_cons_of_mem a (hadded b hb)⟩
    · split
      · exact ⟨[], by simp, by simp⟩
      · next d' _ =>
        obtain ⟨added, heq, hadded⟩ := ih (list ++ [a]) d'
        refine ⟨a :: added, by simp [heq], ?_⟩
        intro b hb
        rcases List.mem_cons.1 hb with rfl | hb
        · exact List.mem_cons_self
        · exact List.mem_cons_of_mem a (hadded b hb)

/-- A list that has not grown has had no record put. -/
theorem sendNearby_same (hsize : size ≤ 5) (hput : ∀ d a, PutsRecord size d (put d a))
    (nearby : List α) {list : List α} (h : Holding opcode size 0 d)
    (heq : (sendNearby known put nearby list d).1 = list) :
    (sendNearby known put nearby list d).2 = some d := by
  induction nearby with
  | nil => rfl
  | cons a nearby ih =>
    unfold sendNearby at heq ⊢
    split at heq
    · next hk =>
      rw [if_pos hk]
      exact ih heq
    · next hk =>
      cases hd : put d a with
      | none => exact absurd hd (h.put_first hsize (hput d a))
      | some d' =>
        rw [hd] at heq
        dsimp only at heq
        obtain ⟨added, happ, -⟩ := sendNearby_appends known put nearby
          (list ++ [a]) d'
        rw [happ] at heq
        simp at heq

end Nearby

/-! ## The two loops and the write -/

/-- The lists that a failed packet is to leave as they were. -/
structure SameKnown (v' v : Viewer) : Prop where
  locs : v'.knownLocs = v.knownLocs
  bounds : v'.knownBounds = v.knownBounds
  items : v'.knownItems = v.knownItems
  players : v'.knownPlayers = v.knownPlayers

theorem SameKnown.refl (v : Viewer) : SameKnown v v := ⟨rfl, rfl, rfl, rfl⟩

section Encoder

variable {α : Type} {κ : Type} [DecidableEq κ] {key : α → κ} {known : α → List α → Bool}
  {put : Draft → α → Option Draft}

/-- The loop over the nearby ones after that over the known ones. -/
def sendBoth (known : α → List α → Bool) (put : Draft → α → Option Draft) (nearby : List α) :
    List α × Option Draft → List α × Option Draft
  | (list, none) => (list, none)
  | (list, some d) => sendNearby known put nearby list d

theorem sendBoth_puts (hknown : ∀ a list, known a list = true ↔ key a ∈ list.map key)
    (hput : ∀ d a, PutsRecord size d (put d a)) (nearby : List α)
    {left : List α × Option Draft} (h : Puts opcode size n left.2) :
    Puts opcode size (n + (newPlaces key nearby left.1).card)
      (sendBoth known put nearby left).2 := by
  obtain ⟨list, result⟩ := left
  rcases h with ⟨hfull, rfl⟩ | ⟨d, rfl, hd⟩
  · refine .inl ⟨?_, rfl⟩
    have hle : size * n ≤ size * (n + (newPlaces key nearby list).card) :=
      Nat.mul_le_mul_left size (by omega)
    dsimp only
    omega
  · exact sendNearby_puts hknown hput nearby hd

/-- The list comes out as it was only if no record has been put, given that of the
loop over the known ones. -/
theorem sendBoth_same (hsize : size ≤ 5) (hput : ∀ d a, PutsRecord size d (put d a))
    {nearby list : List α} {left : List α × Option Draft} (h : Holding opcode size 0 d)
    (hleft : ∀ added : List α, (∀ a ∈ added, a ∈ nearby) → left.1 ++ added = list →
      added = [] ∧ left = (list, some d))
    (heq : (sendBoth known put nearby left).1 = list) :
    (sendBoth known put nearby left).2 = some d := by
  obtain ⟨list', result⟩ := left
  cases result with
  | none =>
    have hsame := (hleft [] (by simp) (by simpa [sendBoth] using heq)).2
    cases hsame
  | some d' =>
    obtain ⟨added, happ, hadded⟩ := sendNearby_appends known put nearby list' d'
    have hlist : list' ++ added = list := happ.symm.trans heq
    obtain ⟨rfl, hsame⟩ := hleft added hadded hlist
    obtain ⟨rfl, hd⟩ := Prod.mk.inj hsame
    obtain rfl := Option.some.inj hd
    exact sendNearby_same hsize hput nearby h heq

/-- The write of what the loops have built. -/
def sendList (isaacOut : Nat → UInt32) (set : List α → Viewer) :
    List α × Option Draft → Viewer × Sent
  | (list, none) => (set list, .failed)
  | (list, some d) => (set list).writeUpdates isaacOut d

/-- An encoder that changes its list as it goes leaves it as it was exactly where
it does not fail. -/
theorem sendList_kept_iff (isaacOut : Nat → UInt32) {v : Viewer} {set : List α → Viewer}
    {list : List α} {left : List α × Option Draft} {d₀ : Draft}
    (hset : ∀ l out, SameKnown { set l with out := out } v ↔ l = list)
    (hout : ∀ l, (set l).out = v.out) (hop : opcodesOut203 opcode ≠ 0)
    (h : Puts opcode size n left.2) (h₀ : Holding opcode size 0 d₀)
    (hsame : left.1 = list → left.2 = some d₀) :
    ((sendList isaacOut set left).2 = .failed → SameKnown (sendList isaacOut set left).1 v) ↔
      n = 0 ∨ FrameFits v (1 + size * n) := by
  obtain ⟨l, result⟩ := left
  rcases h with ⟨hfull, rfl⟩ | ⟨d, rfl, hd⟩
  · -- a record did not fit `tmpbuf`
    have hlost : ¬ SameKnown (set l) v := by
      intro hkept
      cases hsame ((hset l (set l).out).1 hkept)
    have hn : n ≠ 0 := by
      rintro rfl
      simp [playerBufsize] at hfull
    have hroom : ¬ FrameFits v (1 + size * n) := fun hroom => absurd hroom.le (by omega)
    simp [sendList, hlost, hn, hroom]
  · have hfailed := writeUpdates_failed_iff isaacOut (set l) hd hop
    have hroom : FrameFits (set l) (1 + size * n) ↔ FrameFits v (1 + size * n) := by
      unfold FrameFits
      rw [hout]
    rw [hroom] at hfailed
    obtain ⟨out, hwritten⟩ := writeUpdates_known isaacOut (set l) d
    show ((set l).writeUpdates isaacOut d).2 = .failed →
      SameKnown ((set l).writeUpdates isaacOut d).1 v ↔ _
    rw [hwritten, hset, hfailed]
    constructor
    · intro hkept
      by_contra hnot
      have hd₀ : d = d₀ := Option.some.inj (hsame (hkept hnot))
      refine hnot (.inl ?_)
      rw [← hd.count, hd₀, h₀.count]
    · exact fun hok hnot => absurd hok hnot

end Encoder

/-! ## Locations -/

/-- Whether the client is to be told that there is nothing on the tile. -/
def locGone (g : Grid) (v : Viewer) (known : Loc) : Bool :=
  (serverFindLoc g known.x known.y).isNone || locFarOff v known

/-- What is due for a known location: nothing, another id, or its removal. -/
inductive LocNews where
  | nothing
  | changed (loc : Loc)
  | gone

def locNews (g : Grid) (v : Viewer) (known : Loc) : LocNews :=
  if 128 ≤ v.distance known.x known.y then .nothing
  else
    match serverFindLoc g known.x known.y with
    | none => .gone
    | some loc =>
      if loc.id ≠ known.id then .changed loc else if locFarOff v known then .gone else .nothing

/-- How many records are due for the known locations. The one after a location
that is taken out waits for the next tick. -/
def knownLocsDue (g : Grid) (v : Viewer) : List Loc → Nat
  | [] => 0
  | known :: rest =>
    match locNews g v known with
    | .nothing => knownLocsDue g v rest
    | .changed _ => knownLocsDue g v rest + 1
    | .gone =>
      match rest with
      | [] => 1
      | _ :: rest => knownLocsDue g v rest + 1

section Locations

variable {g : Grid} {v : Viewer}

/-- The loop, by what is due for the location it is at. -/
theorem sendKnownLocs_cons (g : Grid) (v : Viewer) (known : Loc) (rest : List Loc) (d : Draft) :
    sendKnownLocs g v (known :: rest) d =
      match locNews g v known with
      | .nothing => ((known :: (sendKnownLocs g v rest d).1), (sendKnownLocs g v rest d).2)
      | .changed loc =>
        match putLoc v d loc with
        | none => (known :: rest, none)
        | some d =>
          ({ known with id := loc.id } :: (sendKnownLocs g v rest d).1,
            (sendKnownLocs g v rest d).2)
      | .gone =>
        match d.putRecord v 60000 known.x known.y, rest with
        | none, rest => (known :: rest, none)
        | some d, [] => ([], some d)
        | some d, next :: rest =>
          (next :: (sendKnownLocs g v rest d).1, (sendKnownLocs g v rest d).2) := by
  rw [sendKnownLocs.eq_def]
  unfold locNews
  by_cases hfar : 128 ≤ v.distance known.x known.y
  · simp [hfar]
  · simp only [if_neg hfar]
    cases hf : serverFindLoc g known.x known.y with
    | none =>
      cases hp : d.putRecord v 60000 known.x known.y with
      | none => simp
      | some d' => cases rest <;> simp
    | some loc =>
      by_cases hid : loc.id = known.id
      · by_cases hoff : locFarOff v known = true
        · cases hp : d.putRecord v 60000 known.x known.y with
          | none => simp [hid, hoff, Option.filter]
          | some d' => cases rest <;> simp [hid, hoff, Option.filter]
        · simp [hid, hoff, Option.filter]
      · cases hp : putLoc v d loc with
        | none => simp [hid, hp, Option.filter]
        | some d' => simp [hid, hp, Option.filter]

theorem locNews_gone {known : Loc} (h : locNews g v known = .gone) :
    locGone g v known = true := by
  unfold locNews at h
  unfold locGone
  split at h
  · cases h
  · split at h
    · next hf =>
      simp [hf]
    · split at h
      · cases h
      · split at h
        · next hoff =>
          simp [hoff]
        · cases h

theorem locNews_changed {known loc : Loc} (h : locNews g v known = .changed loc) :
    loc.id ≠ known.id := by
  unfold locNews at h
  split at h
  · cases h
  · split at h
    · cases h
    · split at h
      · next hid =>
        obtain rfl := LocNews.changed.inj h
        exact hid
      · split at h
        · cases h
        · cases h

theorem locGone_key {a b : Loc} (h : locKey a = locKey b) : locGone g v a = locGone g v b := by
  obtain ⟨hx, hy⟩ := Prod.mk.inj h
  simp only [locGone, locFarOff, hx, hy]

theorem putLoc_cases (v : Viewer) (d : Draft) (loc : Loc) : PutsRecord 4 d (putLoc v d loc) :=
  putRecord_cases v (encodeLocId v loc.id) loc.x loc.y d

/-- A record for everything that is due. -/
theorem sendKnownLocs_puts (list : List Loc) (h : Holding opcode 4 n d) :
    Puts opcode 4 (n + knownLocsDue g v list) (sendKnownLocs g v list d).2 := by
  fun_induction knownLocsDue g v list generalizing n d with
  | case1 => exact .inr ⟨d, rfl, h⟩
  | case2 known rest hnews ih =>
    rw [sendKnownLocs_cons, hnews]
    exact ih h
  | case3 known rest loc hnews ih =>
    rw [sendKnownLocs_cons, hnews]
    dsimp only
    rcases h.put (putLoc_cases v d loc) with ⟨hfull, heq⟩ | ⟨d', heq, h'⟩
    · rw [heq]
      exact .inl ⟨full_later hfull _, rfl⟩
    · rw [heq, Nat.add_comm _ 1, ← Nat.add_assoc]
      exact ih h'
  | case4 known hnews =>
    rw [sendKnownLocs_cons, hnews]
    dsimp only
    rcases h.put (putRecord_cases v 60000 known.x known.y d) with ⟨hfull, heq⟩ | ⟨d', heq, h'⟩
    · rw [heq]
      exact .inl ⟨hfull, rfl⟩
    · rw [heq]
      exact .inr ⟨d', rfl, h'⟩
  | case5 known hnews next rest ih =>
    rw [sendKnownLocs_cons, hnews]
    dsimp only
    rcases h.put (putRecord_cases v 60000 known.x known.y d) with ⟨hfull, heq⟩ | ⟨d', heq, h'⟩
    · rw [heq]
      exact .inl ⟨full_later hfull _, rfl⟩
    · rw [heq, Nat.add_comm _ 1, ← Nat.add_assoc]
      exact ih h'

/-- Only what is gone is taken off the list, and an id that is changed stays on
its tile. -/
theorem sendKnownLocs_tiles (list : List Loc) (d : Draft) {a : Loc}
    (h : locGone g v a = false) :
    locKey a ∈ (sendKnownLocs g v list d).1.map locKey ↔ locKey a ∈ list.map locKey := by
  have hne : ∀ {known : Loc}, locNews g v known = .gone → locKey a ≠ locKey known := by
    intro known hnews hkey
    rw [locGone_key hkey, locNews_gone hnews] at h
    cases h
  fun_induction knownLocsDue g v list generalizing d with
  | case1 => rfl
  | case2 known rest hnews ih =>
    rw [sendKnownLocs_cons, hnews]
    simp only [List.map_cons, List.mem_cons, ih d]
  | case3 known rest loc hnews ih =>
    rw [sendKnownLocs_cons, hnews]
    dsimp only
    split
    · rfl
    · next d' _ =>
      have hkey : locKey { known with id := loc.id } = locKey known := rfl
      simp only [List.map_cons, List.mem_cons, ih d', hkey]
  | case4 known hnews =>
    rw [sendKnownLocs_cons, hnews]
    dsimp only
    cases d.putRecord v 60000 known.x known.y with
    | none => rfl
    | some d' => simp [hne hnews]
  | case5 known hnews next rest ih =>
    rw [sendKnownLocs_cons, hnews]
    dsimp only
    cases d.putRecord v 60000 known.x known.y with
    | none => rfl
    | some d' => simp only [List.map_cons, List.mem_cons, ih d', hne hnews, false_or]

theorem sendKnownLocs_gone_le (list : List Loc) (d : Draft) :
    (sendKnownLocs g v list d).1.countP (locGone g v) ≤ list.countP (locGone g v) := by
  fun_induction knownLocsDue g v list generalizing d with
  | case1 => exact Nat.le_refl _
  | case2 known rest hnews ih =>
    rw [sendKnownLocs_cons, hnews]
    simp only [List.countP_cons]
    have hle := ih d
    omega
  | case3 known rest loc hnews ih =>
    rw [sendKnownLocs_cons, hnews]
    dsimp only
    split
    · exact Nat.le_refl _
    · next d' _ =>
      have hkey : locGone g v { known with id := loc.id } = locGone g v known := locGone_key rfl
      simp only [List.countP_cons, hkey]
      have hle := ih d'
      omega
  | case4 known hnews =>
    rw [sendKnownLocs_cons, hnews]
    dsimp only
    cases d.putRecord v 60000 known.x known.y with
    | none => exact Nat.le_refl _
    | some d' => exact Nat.zero_le _
  | case5 known hnews next rest ih =>
    rw [sendKnownLocs_cons, hnews]
    dsimp only
    cases d.putRecord v 60000 known.x known.y with
    | none => exact Nat.le_refl _
    | some d' =>
      simp only [List.countP_cons]
      have hle := ih d'
      omega

/-- The list is as it was only if no record has been put: a changed id stays
changed, and a tile that is gone is not taken up again. -/
theorem sendKnownLocs_same (list : List Loc) (h : Holding opcode 4 0 d) {added : List Loc}
    (hadded : ∀ a ∈ added, locGone g v a = false)
    (heq : (sendKnownLocs g v list d).1 ++ added = list) :
    added = [] ∧ sendKnownLocs g v list d = (list, some d) := by
  have hnone : added.countP (locGone g v) = 0 := by
    rw [List.countP_eq_zero]
    exact fun a ha => by simp [hadded a ha]
  fun_induction knownLocsDue g v list with
  | case1 => exact ⟨by simpa [sendKnownLocs] using heq, rfl⟩
  | case2 known rest hnews ih =>
    rw [sendKnownLocs_cons, hnews] at heq ⊢
    obtain ⟨hnil, hsame⟩ := ih (List.cons.inj heq).2
    exact ⟨hnil, by rw [hsame]⟩
  | case3 known rest loc hnews ih =>
    rw [sendKnownLocs_cons, hnews] at heq
    dsimp only at heq
    cases hput : putLoc v d loc with
    | none => exact absurd hput (h.put_first (by omega) (putLoc_cases v d loc))
    | some d' =>
      rw [hput] at heq
      have hid := congrArg Loc.id (List.cons.inj heq).1
      exact (locNews_changed hnews hid).elim
  | case4 known hnews =>
    rw [sendKnownLocs_cons, hnews] at heq
    dsimp only at heq
    cases hput : d.putRecord v 60000 known.x known.y with
    | none =>
      exact absurd hput (h.put_first (by omega) (putRecord_cases v 60000 known.x known.y d))
    | some d' =>
      rw [hput, List.nil_append] at heq
      rw [heq] at hnone
      simp [locNews_gone hnews] at hnone
  | case5 known hnews next rest ih =>
    rw [sendKnownLocs_cons, hnews] at heq
    dsimp only at heq
    cases hput : d.putRecord v 60000 known.x known.y with
    | none =>
      exact absurd hput (h.put_first (by omega) (putRecord_cases v 60000 known.x known.y d))
    | some d' =>
      rw [hput] at heq
      have hcount := congrArg (List.countP (locGone g v)) heq
      have hle := sendKnownLocs_gone_le (g := g) (v := v) rest d'
      rw [List.countP_append, hnone] at hcount
      simp only [List.countP_cons, locNews_gone hnews] at hcount
      simp at hcount
      omega

theorem zonesNear_close {x y : Nat} {zone : Zone} (h : zone ∈ zonesNear x y) :
    ∃ orig, serverFindZone x y = some orig ∧ absDiff zone.x orig.x ≤ 2 ∧
      absDiff zone.y orig.y ≤ 2 := by
  unfold zonesNear at h
  cases horig : serverFindZone x y with
  | none => simp [horig] at h
  | some orig =>
    refine ⟨orig, rfl, ?_⟩
    rw [horig] at h
    rcases List.mem_cons.1 h with rfl | h
    · simp [absDiff]
    · obtain ⟨dx, hdx, h⟩ := List.mem_flatMap.1 h
      obtain ⟨dy, hdy, h⟩ := List.mem_filterMap.1 h
      have hdx : -2 ≤ dx ∧ dx ≤ 2 := by
        simp only [zoneOffsets, List.mem_cons, List.not_mem_nil, or_false] at hdx
        omega
      have hdy : -2 ≤ dy ∧ dy ≤ 2 := by
        simp only [zoneOffsets, List.mem_cons, List.not_mem_nil, or_false] at hdy
        omega
      unfold serverGetZone at h
      split at h
      · cases h
      · split at h
        · cases h
        · split at h
          · cases h
          · obtain rfl := Option.some.inj h
            simp only [absDiff]
            omega

/-- A location in a zone that is close is on the map and not far off. -/
theorem not_gone_of_close (hg : Filed g) {orig zone : Zone} {a : Loc}
    (horig : serverFindZone v.x v.y = some orig) (ha : a ∈ g.locs zone)
    (hx : absDiff zone.x orig.x ≤ 2) (hy : absDiff zone.y orig.y ≤ 2) : locGone g v a = false := by
  have hhome : serverFindZone a.x a.y = some zone := hg.locs.home_eq zone a ha
  have hfound : serverFindLoc g a.x a.y ≠ none := fun hnone =>
    hg.loc_none hnone ⟨zone, ha⟩ (by simp [Loc.onTile])
  unfold locGone locFarOff
  rw [hhome, horig]
  cases hf : serverFindLoc g a.x a.y with
  | none => exact absurd hf hfound
  | some loc =>
      simp
      omega

theorem nearby_not_gone (hg : Filed g) {a : Loc} (h : a ∈ mobGetNearbyLocs g v) :
    locGone g v a = false := by
  obtain ⟨zone, hzone, ha⟩ := List.mem_flatMap.1 (List.mem_of_mem_take h)
  obtain ⟨orig, horig, hx, hy⟩ := zonesNear_close hzone
  exact not_gone_of_close hg horig ha hx hy

/-- How many records are due for the locations. -/
def locsDue (g : Grid) (v : Viewer) : Nat :=
  knownLocsDue g v v.knownLocs + (newPlaces locKey (mobGetNearbyLocs g v) v.knownLocs).card

theorem hasKnownLoc_iff (a : Loc) (list : List Loc) :
    hasKnownLoc a list = true ↔ locKey a ∈ list.map locKey := by
  simp only [hasKnownLoc, List.any_eq_true, onTile_iff, List.mem_map]
  rfl

theorem locs_kept_iff (isaacOut : Nat → UInt32) (hg : Filed g) (v : Viewer)
    {tmpbuf : List UInt8} (htmp : tmpbuf.length = playerBufsize) :
    ((playerSendLocs isaacOut g tmpbuf v).2 = .failed →
        SameKnown (playerSendLocs isaacOut g tmpbuf v).1 v) ↔
      locsDue g v = 0 ∨ FrameFits v (1 + 4 * locsDue g v) := by
  have hopened := holds_opened htmp opSrvLocs 4
  have hnew : newPlaces locKey (mobGetNearbyLocs g v)
      (sendKnownLocs g v v.knownLocs (.opened tmpbuf opSrvLocs)).1 =
        newPlaces locKey (mobGetNearbyLocs g v) v.knownLocs := by
    ext k
    simp only [newPlaces, Finset.mem_sdiff, List.mem_toFinset]
    constructor
    · rintro ⟨hk, hnot⟩
      obtain ⟨a, ha, rfl⟩ := List.mem_map.1 hk
      rw [sendKnownLocs_tiles v.knownLocs _ (nearby_not_gone hg ha)] at hnot
      exact ⟨hk, hnot⟩
    · rintro ⟨hk, hnot⟩
      obtain ⟨a, ha, rfl⟩ := List.mem_map.1 hk
      rw [← sendKnownLocs_tiles v.knownLocs (.opened tmpbuf opSrvLocs)
        (nearby_not_gone hg ha)] at hnot
      exact ⟨hk, hnot⟩
  have hknown := sendKnownLocs_puts (g := g) (v := v) v.knownLocs hopened
  have hputs := sendBoth_puts hasKnownLoc_iff (putLoc_cases v) (mobGetNearbyLocs g v) hknown
  rw [Nat.zero_add, hnew] at hputs
  have heq : playerSendLocs isaacOut g tmpbuf v =
      sendList isaacOut (fun list => { v with knownLocs := list })
        (sendBoth hasKnownLoc (putLoc v) (mobGetNearbyLocs g v)
          (sendKnownLocs g v v.knownLocs (.opened tmpbuf opSrvLocs))) := by
    unfold playerSendLocs sendNearbyLocs sendList sendBoth
    rcases sendKnownLocs g v v.knownLocs (.opened tmpbuf opSrvLocs) with ⟨list, _ | d⟩
    · rfl
    · dsimp only
      rcases sendNearby hasKnownLoc (putLoc v) (mobGetNearbyLocs g v) list d with ⟨_, _ | _⟩
      · rfl
      · rfl
  have hset : ∀ list out, SameKnown { v with knownLocs := list, out := out } v ↔
      list = v.knownLocs :=
    fun list out => ⟨fun h => h.locs, fun h => ⟨h, rfl, rfl, rfl⟩⟩
  rw [heq]
  refine sendList_kept_iff isaacOut hset (fun _ => rfl) (by decide) hputs hopened
    (sendBoth_same (by omega) (putLoc_cases v) hopened ?_)
  intro added hadded hlist
  exact sendKnownLocs_same v.knownLocs hopened
    (fun a ha => nearby_not_gone hg (hadded a ha)) hlist

end Locations

/-! ## Boundaries -/

section Boundaries

variable {g : Grid} {v : Viewer}

/-- How many records are due for the boundaries. -/
def boundsDue (g : Grid) (v : Viewer) : Nat :=
  v.knownBounds.countP (fun known => (boundChanged g v known).isSome) +
    (newPlaces boundKey (mobGetNearbyBounds g v) v.knownBounds).card

theorem hasKnownBound_iff (a : Bound) (list : List Bound) :
    hasKnownBound a list = true ↔ boundKey a ∈ list.map boundKey := by
  simp only [hasKnownBound, List.any_eq_true, onEdge_iff, List.mem_map]
  rfl

theorem sendKnownBounds_puts (list : List Bound) (h : Holding opcode 5 n d) :
    Puts opcode 5 (n + list.countP fun known => (boundChanged g v known).isSome)
      (sendKnownBounds g v list d).2 := by
  induction list generalizing n d with
  | nil => exact .inr ⟨d, rfl, h⟩
  | cons known rest ih =>
    unfold sendKnownBounds
    cases hnews : boundChanged g v known with
    | none => simpa [hnews] using ih h
    | some bound =>
      rw [List.countP_cons_of_pos (by simp [hnews])]
      dsimp only
      rcases h.put (putBound_cases v bound d) with ⟨hfull, heq⟩ | ⟨d', heq, h'⟩
      · rw [heq]
        exact .inl ⟨full_later hfull _, rfl⟩
      · rw [heq, Nat.add_comm _ 1, ← Nat.add_assoc]
        exact ih h'

theorem sendKnownBounds_edges (list : List Bound) (d : Draft) :
    (sendKnownBounds g v list d).1.map boundKey = list.map boundKey := by
  induction list generalizing d with
  | nil => rfl
  | cons known rest ih =>
    unfold sendKnownBounds
    split
    · simp [ih d]
    · split
      · rfl
      · next d' _ =>
        simp [ih d', boundKey]

theorem sendKnownBounds_same (list : List Bound) (h : Holding opcode 5 0 d)
    (heq : (sendKnownBounds g v list d).1 = list) :
    sendKnownBounds g v list d = (list, some d) := by
  induction list with
  | nil => rfl
  | cons known rest ih =>
    unfold sendKnownBounds at heq ⊢
    cases hnews : boundChanged g v known with
    | none =>
      rw [hnews] at heq
      have hsame := ih (List.cons.inj heq).2
      simp [hsame]
    | some bound =>
      rw [hnews] at heq
      dsimp only at heq
      cases hput : d.putBound v bound with
      | none => exact absurd hput (h.put_first (by omega) (putBound_cases v bound d))
      | some d' =>
        rw [hput] at heq
        have hid := congrArg Bound.id (List.cons.inj heq).1
        have hne : bound.id ≠ known.id := by
          have hfilter := (Option.filter_eq_some_iff.1 hnews).2
          simp only [Bool.and_eq_true, bne_iff_ne] at hfilter
          exact hfilter.1
        exact (hne hid).elim

theorem bounds_kept_iff (isaacOut : Nat → UInt32) (g : Grid) (v : Viewer)
    {tmpbuf : List UInt8} (htmp : tmpbuf.length = playerBufsize) :
    ((playerSendBounds isaacOut g tmpbuf v).2 = .failed →
        SameKnown (playerSendBounds isaacOut g tmpbuf v).1 v) ↔
      boundsDue g v = 0 ∨ FrameFits v (1 + 5 * boundsDue g v) := by
  have hopened := holds_opened htmp opSrvBoundaries 5
  have hput : ∀ d bound, PutsRecord 5 d (d.putBound v bound) :=
    fun d bound => putBound_cases v bound d
  have hknown := sendKnownBounds_puts (g := g) (v := v) v.knownBounds hopened
  have hputs := sendBoth_puts hasKnownBound_iff hput (mobGetNearbyBounds g v) hknown
  have hnew : newPlaces boundKey (mobGetNearbyBounds g v)
      (sendKnownBounds g v v.knownBounds (.opened tmpbuf opSrvBoundaries)).1 =
        newPlaces boundKey (mobGetNearbyBounds g v) v.knownBounds := by
    unfold newPlaces
    rw [sendKnownBounds_edges]
  rw [Nat.zero_add, hnew] at hputs
  have heq : playerSendBounds isaacOut g tmpbuf v =
      sendList isaacOut (fun list => { v with knownBounds := list })
        (sendBoth hasKnownBound (fun d bound => d.putBound v bound) (mobGetNearbyBounds g v)
          (sendKnownBounds g v v.knownBounds (.opened tmpbuf opSrvBoundaries))) := by
    unfold playerSendBounds sendNearbyBounds sendList sendBoth
    rcases sendKnownBounds g v v.knownBounds (.opened tmpbuf opSrvBoundaries) with
      ⟨list, _ | d⟩
    · rfl
    · dsimp only
      rcases sendNearby hasKnownBound (fun d bound => d.putBound v bound) (mobGetNearbyBounds g v)
        list d with ⟨_, _ | _⟩
      · rfl
      · rfl
  have hset : ∀ list out, SameKnown { v with knownBounds := list, out := out } v ↔
      list = v.knownBounds :=
    fun list out => ⟨fun h => h.bounds, fun h => ⟨rfl, h, rfl, rfl⟩⟩
  rw [heq]
  refine sendList_kept_iff isaacOut hset (fun _ => rfl) (by decide) hputs hopened
    (sendBoth_same (by omega) hput hopened ?_)
  intro added _ hlist
  have hmap := congrArg (List.map boundKey) hlist
  rw [List.map_append, sendKnownBounds_edges] at hmap
  have hnil : added = [] := by simpa using hmap
  subst hnil
  rw [List.append_nil] at hlist
  exact ⟨rfl, sendKnownBounds_same v.knownBounds hopened hlist⟩

end Boundaries

/-! ## Ground items -/

section Items

variable {s : Server} {v : Viewer}

/-- The first `max` of the items that the player does not know. -/
def unknownItems (v : Viewer) (max : Nat) (nearby : List GroundItem) : List GroundItem :=
  (nearby.filter fun item =>
    !v.knownItems.any fun known => known.uniqueId == item.uniqueId).take max

def keptItems (s : Server) (v : Viewer) : List GroundItem :=
  v.knownItems.filter fun item => !itemGone s v item

/-- The items that are new, as far as there is room for them on the list. -/
def newItems (s : Server) (v : Viewer) : List GroundItem :=
  unknownItems v (maxNearbyItems - (keptItems s v).length) (playerGetNearbyItems s v)

/-- How many records are due for the ground items. -/
def itemsDue (s : Server) (v : Viewer) : Nat :=
  v.knownItems.countP (itemGone s v) + (newItems s v).length

/-- The record of an item that is to go. -/
def goneRecord (v : Viewer) (item : GroundItem) : List UInt8 :=
  recordBytes v (item.id ||| 0x8000) item.x item.y

def newRecord (v : Viewer) (item : GroundItem) : List UInt8 := recordBytes v item.id item.x item.y

theorem sendKnownItems_puts (list newKnown : List GroundItem)
    (hlist : newKnown.length + list.length ≤ maxNearbyItems) (h : Holding opcode 4 n d) :
    (playerBufsize < 1 + 4 * (n + list.countP (itemGone s v)) ∧
      sendKnownItems s v list newKnown d = none) ∨
    ∃ d', sendKnownItems s v list newKnown d =
        some (newKnown ++ list.filter (fun item => !itemGone s v item), d') ∧
      Holding opcode 4 (n + list.countP (itemGone s v)) d' ∧
      d'.payload = d.payload ++ (list.filter (itemGone s v)).flatMap (goneRecord v) := by
  induction list generalizing n d newKnown with
  | nil => exact .inr ⟨d, by simp [sendKnownItems], h, by simp⟩
  | cons item rest ih =>
    rw [List.length_cons] at hlist
    unfold sendKnownItems
    rw [if_neg (by omega)]
    by_cases hgone : itemGone s v item = true
    · rw [if_pos hgone, List.countP_cons_of_pos hgone,
        List.filter_cons_of_neg (by simp [hgone]), List.filter_cons_of_pos hgone]
      obtain ⟨result, hputs, heq⟩ := putRecord_puts v (item.id ||| 0x8000) item.x item.y d
      rw [heq]
      rcases h.putBytes rfl hputs with ⟨hfull, heq⟩ | ⟨d', heq, h', hpayload⟩
      · rw [heq]
        exact .inl ⟨full_later hfull _, rfl⟩
      · rw [heq, Nat.add_comm _ 1, ← Nat.add_assoc, List.flatMap_cons, ← List.append_assoc,
          goneRecord, ← hpayload]
        exact ih newKnown (by omega) h'
    · rw [if_neg hgone, List.countP_cons_of_neg hgone,
        List.filter_cons_of_pos (by simpa using hgone), List.filter_cons_of_neg hgone]
      have happ : newKnown ++ item :: rest.filter (fun item => !itemGone s v item) =
          (newKnown ++ [item]) ++ rest.filter fun item => !itemGone s v item := by simp
      rw [happ]
      exact ih _ (by simp only [List.length_append, List.length_singleton]; omega) h

theorem sendNearbyItems_puts (nearby newKnown : List GroundItem)
    (h : Holding opcode 4 n d) :
    (playerBufsize <
        1 + 4 * (n + (unknownItems v (maxNearbyItems - newKnown.length) nearby).length) ∧
      sendNearbyItems v nearby newKnown d = none) ∨
    ∃ d', sendNearbyItems v nearby newKnown d =
        some (newKnown ++ unknownItems v (maxNearbyItems - newKnown.length) nearby, d') ∧
      Holding opcode 4
        (n + (unknownItems v (maxNearbyItems - newKnown.length) nearby).length) d' ∧
      d'.payload = d.payload ++
        (unknownItems v (maxNearbyItems - newKnown.length) nearby).flatMap (newRecord v) := by
  induction nearby generalizing n d newKnown with
  | nil =>
    exact .inr ⟨d, by simp [sendNearbyItems, unknownItems], by simpa [unknownItems] using h,
      by simp [unknownItems]⟩
  | cons item nearby ih =>
    unfold sendNearbyItems
    by_cases hmax : maxNearbyItems ≤ newKnown.length
    · have hnil : unknownItems v (maxNearbyItems - newKnown.length) (item :: nearby) = [] := by
        rw [unknownItems, Nat.sub_eq_zero_of_le hmax, List.take_zero]
      rw [if_pos hmax, hnil]
      exact .inr ⟨d, by simp, h, by simp⟩
    · rw [if_neg hmax]
      by_cases hknown : (v.knownItems.any fun known => known.uniqueId == item.uniqueId) = true
      · have hskip : unknownItems v (maxNearbyItems - newKnown.length) (item :: nearby) =
            unknownItems v (maxNearbyItems - newKnown.length) nearby := by
          rw [unknownItems, List.filter_cons_of_neg (by simp [hknown]), unknownItems]
        rw [if_pos hknown, hskip]
        exact ih newKnown h
      · have hone : maxNearbyItems - newKnown.length =
            maxNearbyItems - (newKnown ++ [item]).length + 1 := by
          rw [List.length_append, List.length_singleton]
          omega
        have hadd : unknownItems v (maxNearbyItems - newKnown.length) (item :: nearby) =
            item :: unknownItems v (maxNearbyItems - (newKnown ++ [item]).length) nearby := by
          rw [unknownItems, List.filter_cons_of_pos (by simpa using hknown), hone,
            List.take_succ_cons, unknownItems]
        obtain ⟨result, hputs, heq⟩ := putRecord_puts v item.id item.x item.y d
        rw [if_neg hknown, hadd, List.length_cons, heq]
        rcases h.putBytes rfl hputs with ⟨hfull, heq⟩ | ⟨d', heq, h', hpayload⟩
        · rw [heq]
          exact .inl ⟨full_later hfull _, rfl⟩
        · rw [heq, Nat.add_comm _ 1, ← Nat.add_assoc, List.flatMap_cons, ← List.append_assoc,
            newRecord, ← hpayload]
          simpa using ih (newKnown ++ [item]) h'

/-- A list that has come out as it was had nothing due. -/
theorem itemsDue_eq_zero (h : keptItems s v ++ newItems s v = v.knownItems) :
    itemsDue s v = 0 := by
  have hnew : newItems s v = [] := by
    refine List.eq_nil_iff_forall_not_mem.2 fun item hitem => ?_
    have hknown : item ∈ v.knownItems := by
      rw [← h]
      exact List.mem_append_right _ hitem
    have hunknown := (List.mem_filter.1 (List.mem_of_mem_take hitem)).2
    simp only [Bool.not_eq_true', List.any_eq_false] at hunknown
    exact hunknown item hknown (by simp)
  rw [hnew, List.append_nil, keptItems, List.filter_eq_self] at h
  have hgone : v.knownItems.countP (itemGone s v) = 0 := by
    rw [List.countP_eq_zero]
    exact fun item hitem => by simpa using h item hitem
  rw [itemsDue, hgone, hnew]
  rfl

/-- Either a record does not fit `tmpbuf`, and nothing has changed; or the new list
is in place when the packet is written. -/
theorem playerSendGroundItems_cases (isaacOut : Nat → UInt32) (s : Server)
    (hv : v.knownItems.length ≤ maxNearbyItems) {tmpbuf : List UInt8}
    (htmp : tmpbuf.length = playerBufsize) :
    (playerBufsize < 1 + 4 * itemsDue s v ∧
      playerSendGroundItems isaacOut s tmpbuf v = (v, .failed)) ∨
    ∃ d, Holding opSrvGroundItems 4 (itemsDue s v) d ∧
      d.payload = opSrvGroundItems :: ((v.knownItems.filter (itemGone s v)).flatMap (goneRecord v) ++
        (newItems s v).flatMap (newRecord v)) ∧
      playerSendGroundItems isaacOut s tmpbuf v =
        Viewer.writeUpdates isaacOut { v with knownItems := keptItems s v ++ newItems s v } d := by
  have hopened := holds_opened htmp opSrvGroundItems 4
  unfold playerSendGroundItems
  rcases sendKnownItems_puts (s := s) (v := v) v.knownItems [] (by simpa using hv) hopened with
    ⟨hfull, heq⟩ | ⟨d, heq, hd, hpayload⟩
  · rw [heq]
    refine .inl ⟨?_, rfl⟩
    unfold itemsDue
    omega
  · rw [heq]
    rcases sendNearbyItems_puts (v := v) (playerGetNearbyItems s v) (keptItems s v) hd with
      ⟨hfull, heq'⟩ | ⟨d', heq', hd', hpayload'⟩
    · refine .inl ⟨?_, ?_⟩
      · unfold itemsDue newItems
        omega
      · rw [List.nil_append]
        dsimp only
        rw [show v.knownItems.filter (fun item => !itemGone s v item) = keptItems s v from rfl,
          heq']
    · rw [Nat.zero_add] at hd'
      refine .inr ⟨d', hd', ?_, ?_⟩
      · rw [hpayload', hpayload, payload_opened htmp, List.append_assoc]
        rfl
      rw [List.nil_append]
      dsimp only
      rw [show v.knownItems.filter (fun item => !itemGone s v item) = keptItems s v from rfl, heq']
      rfl

theorem items_kept_iff (isaacOut : Nat → UInt32) (s : Server)
    (hv : v.knownItems.length ≤ maxNearbyItems) {tmpbuf : List UInt8}
    (htmp : tmpbuf.length = playerBufsize) :
    ((playerSendGroundItems isaacOut s tmpbuf v).2 = .failed →
        SameKnown (playerSendGroundItems isaacOut s tmpbuf v).1 v) ↔
      itemsDue s v = 0 ∨ FrameFits v (1 + 4 * itemsDue s v) ∨
        playerBufsize < 1 + 4 * itemsDue s v := by
  rcases playerSendGroundItems_cases isaacOut s hv htmp with ⟨hfull, heq⟩ | ⟨d, hd, -, heq⟩
  · rw [heq]
    exact iff_of_true (fun _ => .refl v) (.inr (.inr hfull))
  · have hroom : ¬ playerBufsize < 1 + 4 * itemsDue s v := by
      rw [← hd.offset]
      exact Nat.not_lt.2 hd.room
    have hfailed := writeUpdates_failed_iff isaacOut
      { v with knownItems := keptItems s v ++ newItems s v } hd (by decide)
    obtain ⟨out, hwritten⟩ := writeUpdates_known isaacOut
      { v with knownItems := keptItems s v ++ newItems s v } d
    rw [heq, hwritten, hfailed]
    simp only [hroom, or_false]
    constructor
    · intro hkept
      by_contra hnot
      exact hnot (.inl (itemsDue_eq_zero (hkept hnot).items))
    · exact fun hok hnot => absurd hok hnot

end Items

/-! ## Players -/

/-- The bytes of a movement packet. -/
def movementSize (w : World) (v : Viewer) : Nat := (8 + (playerBits w v).length + 7) / 8

/-- Whether there is a packet: the assertion does not stop it and it does not run
over `new_known`. -/
def MovementBuilt (w : World) (v : Viewer) : Prop :=
  ¬ Asserted (keptPlayer w v) v.knownPlayers ∧ (playersSeen w v).length ≤ World.maxKnown

theorem players_kept_iff (isaacOut : Nat → UInt32) (w : World) {v : Viewer}
    (hv : v.knownPlayers.length ≤ World.maxKnown) {tmpbuf : List UInt8}
    (htmp : tmpbuf.length = playerBufsize) :
    ((playerSendMovement isaacOut w tmpbuf v).2.2 = .failed →
        SameKnown (playerSendMovement isaacOut w tmpbuf v).2.1 v) ↔
      ¬ MovementBuilt w v ∨ (playersSeen w v).map some = v.knownPlayers ∨
        FrameFits v (movementSize w v) := by
  rcases playerSendMovement_cases isaacOut w htmp hv with
    ⟨ha, hstop⟩ | ⟨-, hover, hrun⟩ | ⟨ha, hfits, d, heq, he⟩
  · rw [hstop]
    exact iff_of_true (fun h => by cases h) (.inl fun h => h.1 ha)
  · rw [hrun]
    exact iff_of_true (fun h => by cases h) (.inl fun h => absurd h.2 (by omega))
  · have hbuilt : MovementBuilt w v := ⟨ha, hfits⟩
    have hpos : d.finish.offset = movementSize w v := by
      show (d.bitpos + 7) / 8 = _
      rw [he.bitpos]
      rfl
    have hlength : d.finish.tmpbuf.length = playerBufsize := he.length.trans (by simp [htmp])
    have hsize : movementSize w v ≤ playerBufsize := by
      have hheader := length_playerHeaderBits v
      have hknown := length_flatMap_le v.knownPlayers (length_knownBits (keptPlayer w v))
      have hnew := length_flatMap_le
        (newcomers (keptMobs (keptPlayer w v) v.knownPlayers) (shownPlayers w v))
        (length_newPlayerBits w v)
      have hseen : (newcomers (keptMobs (keptPlayer w v) v.knownPlayers)
          (shownPlayers w v)).length ≤ (playersSeen w v).length := by
        rw [playersSeen, seenMobs, List.length_append]
        omega
      have hmax : World.maxKnown = 255 := rfl
      have hbuf : playerBufsize = 5000 := rfl
      simp only [movementSize, playerBits, mobBits, List.length_append]
      omega
    have hhead : d.finish.tmpbuf.head? = some opSrvPlayerMovement := by
      refine (he.head (Nat.le_refl 8)).trans ?_
      cases tmpbuf with
      | nil => simp [playerBufsize] at htmp
      | cons x rest => rfl
    have hfailed := write_failed_iff isaacOut
      { v with knownPlayers := (playersSeen w v).map some } (by rw [hpos, movementSize]; omega)
      (by rw [hpos, hlength]; exact hsize) hhead (by decide)
    obtain ⟨out, hwritten⟩ := write_known isaacOut
      { v with knownPlayers := (playersSeen w v).map some } d.finish
    rw [heq, hwritten, hfailed, hpos]
    simp only [hbuilt, not_true_eq_false, false_or]
    constructor
    · intro hkept
      by_cases hroom : FrameFits v (movementSize w v)
      · exact .inr hroom
      · exact .inl (hkept hroom).players
    · rintro (hsame | hroom) hnot
      · exact ⟨rfl, rfl, rfl, hsame⟩
      · exact absurd hroom hnot

/-! ## All four -/

/-- Known lists within the arrays they are rebuilt in. -/
structure WithinArrays (v : Viewer) : Prop where
  items : v.knownItems.length ≤ maxNearbyItems
  players : v.knownPlayers.length ≤ World.maxKnown

/-- What a failed packet leaves as it was: the locations and the boundaries only
where none was due, the ground items also where `tmpbuf` was too small, the players
where their list comes out the same. -/
theorem known_kept_iff (isaacOut : Nat → UInt32) {g : Grid} (hg : Filed g) (s : Server)
    (w : World) {v : Viewer} (hv : WithinArrays v) {tmpbuf : List UInt8}
    (htmp : tmpbuf.length = playerBufsize) :
    (((playerSendLocs isaacOut g tmpbuf v).2 = .failed →
        SameKnown (playerSendLocs isaacOut g tmpbuf v).1 v) ↔
      locsDue g v = 0 ∨ FrameFits v (1 + 4 * locsDue g v)) ∧
    (((playerSendBounds isaacOut g tmpbuf v).2 = .failed →
        SameKnown (playerSendBounds isaacOut g tmpbuf v).1 v) ↔
      boundsDue g v = 0 ∨ FrameFits v (1 + 5 * boundsDue g v)) ∧
    (((playerSendGroundItems isaacOut s tmpbuf v).2 = .failed →
        SameKnown (playerSendGroundItems isaacOut s tmpbuf v).1 v) ↔
      itemsDue s v = 0 ∨ FrameFits v (1 + 4 * itemsDue s v) ∨
        playerBufsize < 1 + 4 * itemsDue s v) ∧
    (((playerSendMovement isaacOut w tmpbuf v).2.2 = .failed →
        SameKnown (playerSendMovement isaacOut w tmpbuf v).2.1 v) ↔
      ¬ MovementBuilt w v ∨ (playersSeen w v).map some = v.knownPlayers ∨
        FrameFits v (movementSize w v)) :=
  ⟨locs_kept_iff isaacOut hg v htmp, bounds_kept_iff isaacOut g v htmp,
    items_kept_iff isaacOut s hv.items htmp, players_kept_iff isaacOut w hv.players htmp⟩

/-- A player whose output buffer is full. -/
def backedUp : Viewer :=
  { id := 0, x := 10, y := 10
    out := { outbuf := List.replicate playerBufsize 0, outbufLen := playerBufsize } }

/-- The same player once its client has read all of it. -/
def drained : Viewer := { backedUp with out := { backedUp.out with outbufLen := 0 } }

theorem filed_boulder : Filed (recordLoc {} boulder) := by
  obtain ⟨hlocs, -⟩ := filed_empty.locs.append (a := boulder) onTile_iff
    (z := ⟨1, 1, 0⟩) rfl rfl
  exact ⟨hlocs, .empty⟩

/-- One boulder is due. With the buffer full its packet is refused and the list of
locations is not kept; once the buffer is empty a failure would keep it. -/
theorem known_kept_iff_boulder :
    locsDue (recordLoc {} boulder) backedUp = 1 ∧
      ¬ ((playerSendLocs (fun _ => 0) (recordLoc {} boulder) (List.replicate playerBufsize 0)
          backedUp).2 = .failed →
        SameKnown (playerSendLocs (fun _ => 0) (recordLoc {} boulder)
          (List.replicate playerBufsize 0) backedUp).1 backedUp) ∧
      ((playerSendLocs (fun _ => 0) (recordLoc {} boulder) (List.replicate playerBufsize 0)
          drained).2 = .failed →
        SameKnown (playerSendLocs (fun _ => 0) (recordLoc {} boulder)
          (List.replicate playerBufsize 0) drained).1 drained) := by
  have hdue : ∀ v, v = backedUp ∨ v = drained → locsDue (recordLoc {} boulder) v = 1 := by
    rintro v (rfl | rfl) <;> decide
  refine ⟨hdue _ (.inl rfl), fun hkept => ?_, ?_⟩
  · rcases (known_kept_iff (fun _ => 0) filed_boulder {} {} (v := backedUp)
      ⟨by decide, by decide⟩ List.length_replicate).1.1 hkept with hnone | hfits
    · rw [hdue _ (.inl rfl)] at hnone
      cases hnone
    · rw [hdue _ (.inl rfl)] at hfits
      revert hfits
      unfold FrameFits
      decide
  · refine (known_kept_iff (fun _ => 0) filed_boulder {} {} (v := drained)
      ⟨by decide, by decide⟩ List.length_replicate).1.2 (.inr ?_)
    rw [hdue _ (.inr rfl)]
    unfold FrameFits
    decide

/-- The packet with a boulder is refused and the player is taken to know of it. -/
theorem boulder_forgotten :
    ¬ ∀ (isaacOut : Nat → UInt32) (g : Grid) (tmpbuf : List UInt8) (v : Viewer),
      (playerSendLocs isaacOut g tmpbuf v).2 = .failed →
        SameKnown (playerSendLocs isaacOut g tmpbuf v).1 v := by
  intro h
  have hkept := h (fun _ => 0) (recordLoc {} boulder) (List.replicate playerBufsize 0) backedUp
    (by decide)
  have hlocs := hkept.locs
  revert hlocs
  decide

end Sundae.Proofs
