import Sundae.Lib.Roster
import Sundae.Proofs.Collision
import Sundae.Proofs.Movement
import Sundae.Proofs.Sight

/-!
# Who is nearby

`mob_get_nearby_players` and `mob_get_nearby_npcs` go through the zone a position
is in and through those around it. `nearby_right_iff` says when they find all
there are: a mob in the first row or column of zones is not found from another
zone, as `server_get_zone` does not give these.
-/

namespace Sundae.Proofs

open Sundae.Lib Sundae.Ref Sundae.Ref.World

/-- The mob of a player who is there and has logged in. -/
def livePlayer (w : World) (i : Nat) : Option World.Mob :=
  (w.players i).bind fun p => if p.name = -1 then none else some p.mob

/-- The mob of an NPC that is there and is not waiting to respawn. -/
def liveNpc (w : World) (j : Nat) : Option World.Mob :=
  (w.npcs j).bind fun n => if n.respawnTime = 0 then some n.mob else none

/-- Each mob is listed once, in the zone of its position, and no zone holds more
than 128. -/
structure WellListed (t : Zone → List (Option Nat)) (there : Nat → Bool)
    (live : Nat → Option World.Mob) : Prop where
  listed : ∀ i m, live i = some m → Listed t i (serverFindZone m.x m.y)
  few : ∀ zone, (wanted there (t zone)).length ≤ 128

/-- Less than 16 tiles away on both axes and on the same plane. -/
structure Near (v : Viewer) (m : World.Mob) : Prop where
  x : absDiff v.x m.x < 16
  y : absDiff v.y m.y < 16
  plane : tilePlane m.y = tilePlane v.y

/-- The search comes to the zone the mob is in. -/
def Searched (v : Viewer) (m : World.Mob) : Prop :=
  ∃ orig zone, serverFindZone v.x v.y = some orig ∧ serverFindZone m.x m.y = some zone ∧
    (zone = orig ∨ 0 < zone.x ∧ 0 < zone.y)

/-- What is found: no mob twice, only live ones that are near, and all of them
where there is room left. -/
structure NearbyRight (live : Nat → Option World.Mob) (v : Viewer) (max : Nat)
    (found : List Nat) : Prop where
  nodup : found.Nodup
  sound : ∀ i ∈ found, ∃ m, live i = some m ∧ Near v m
  complete : found.length < max → ∀ i m, live i = some m → Near v m → i ∈ found

/-- Every mob that is near is in a zone the search comes to, or so many are that
there is no room for more. -/
def SearchReaches (live : Nat → Option World.Mob) (v : Viewer) (max : Nat) : Prop :=
  (∀ i m, live i = some m → Near v m → Searched v m) ∨
    ∃ l : List Nat, l.Nodup ∧ l.length = max ∧
      ∀ i ∈ l, ∃ m, live i = some m ∧ Near v m ∧ Searched v m

/-! ## Zones -/

theorem zone_plane {x y : Nat} {zone : Zone} (h : serverFindZone x y = some zone) :
    zone.plane = tilePlane y := by
  obtain ⟨-, hrow, hle, -, hy, -⟩ := serverFindZone_spec h
  unfold tilePlane planeLevelInc
  unfold zoneTotalY zoneMaxY zoneWidth at hy
  omega

theorem withinRange_iff {v : Viewer} {m : World.Mob} :
    inProtocolRange v m = true ↔ absDiff v.x m.x < 16 ∧ absDiff v.y m.y < 16 := by
  unfold inProtocolRange World.Mob.withinRange absDiff
  simp only [Bool.and_eq_true, decide_eq_true_eq]
  omega

/-- Whoever is near and in a zone the search comes to is in one of its zones. -/
theorem mem_searched_zones {v : Viewer} {m : World.Mob} {orig zone : Zone}
    (horig : serverFindZone v.x v.y = some orig) (hzone : serverFindZone m.x m.y = some zone)
    (hnear : Near v m) (hin : zone = orig ∨ 0 < zone.x ∧ 0 < zone.y) :
    zone ∈ orig :: zonesAround orig := by
  by_cases hown : zone = orig
  · exact hown ▸ List.mem_cons_self
  · have hplane : zone.plane = orig.plane :=
      (zone_plane hzone).trans (hnear.plane.trans (zone_plane horig).symm)
    obtain ⟨hzx, hzy, hzle, hx2, hy2, hz⟩ := serverFindZone_spec hzone
    obtain ⟨hox, hoy, hole, -⟩ := serverFindZone_spec horig
    have hdx := hnear.x
    have hdy := hnear.y
    have hpos := hin.resolve_left hown
    rw [hplane] at hzy hzle
    unfold absDiff at hdx hdy
    refine List.mem_cons_of_mem _ (mem_zonesAround.2
      ⟨hown, hplane, ?_, ?_, hpos.1, hpos.2, hx2, hy2, hz⟩)
    · unfold absDiff
      omega
    · unfold absDiff
      omega

/-- Two tiles of one zone are near. -/
theorem near_of_zone {v : Viewer} {m : World.Mob} {zone : Zone}
    (hv : serverFindZone v.x v.y = some zone) (hm : serverFindZone m.x m.y = some zone) :
    Near v m := by
  obtain ⟨hmx, hmy, hmle, -⟩ := serverFindZone_spec hm
  obtain ⟨hvx, hvy, hvle, -⟩ := serverFindZone_spec hv
  refine ⟨?_, ?_, (zone_plane hm).symm.trans (zone_plane hv)⟩
  · unfold absDiff
    omega
  · unfold absDiff
    omega

/-! ## The search -/

/-- The loop over the array of a zone lists who is there and to be shown, until
there is no room. -/
theorem zoneFind_eq (live shown : Nat → Bool) (max : Nat) (list : List (Option Nat)) :
    (zoneFind live shown max list).1 = (wanted (fun i => live i && shown i) list).take max := by
  induction list generalizing max with
  | nil => simp [zoneFind, wanted, List.reduceOption]
  | cons a list ih =>
      cases a with
      | none => simpa [zoneFind, wanted, List.reduceOption] using ih max
      | some i =>
          have hcons : wanted (fun i => live i && shown i) (some i :: list) =
              if live i && shown i then i :: wanted (fun i => live i && shown i) list
              else wanted (fun i => live i && shown i) list := by
            unfold wanted
            rw [List.reduceOption_cons_of_some, List.filter_cons]
          unfold zoneFind
          rw [hcons]
          cases hlive : live i with
          | false => simpa using ih max
          | true =>
              cases hshown : shown i with
              | false => simpa using ih max
              | true =>
                  cases max with
                  | zero => simp
                  | succ max => simp [ih max]

/-- Where each zone gives what is listed in it, whatever zones have been looked
into before, the loops give as much of all of it as there is room for. -/
theorem nearbyAround_eq {find : World → Zone → World × List Nat} {listed : World → Nat → Bool}
    {found : Zone → List Nat} {shown : Nat → Bool} (I : World → List Zone → Prop)
    (hstep : ∀ {w zone zones}, I w (zone :: zones) → (find w zone).2 = found zone ∧
      listed (find w zone).1 = shown ∧ I (find w zone).1 zones)
    (max : Nat) (zones : List Zone) (w : World) (list : List Nat) (h : I w zones) :
    (nearbyAround find listed max zones w (list.take max)).2 =
      (list ++ zones.flatMap fun zone => (found zone).filter shown).take max := by
  induction zones generalizing w list with
  | nil => simp [nearbyAround]
  | cons zone zones ih =>
      obtain ⟨hfound, hlisted, hnext⟩ := hstep h
      unfold nearbyAround
      split
      · next hfull =>
        rw [List.length_take] at hfull
        exact (List.take_append_of_le_length (by omega)).symm
      · next hroom =>
        have hall : list.take max = list := take_eq_self_of_room (by omega)
        dsimp only
        rw [hall, hfound, hlisted, ih _ _ hnext, List.flatMap_cons, List.append_assoc]

/-- A live mob in protocol range. -/
def shownNear (live : Nat → Option World.Mob) (v : Viewer) (i : Nat) : Bool :=
  (live i).any (inProtocolRange v)

/-- All there are to find in the zones the search comes to. -/
def nearbyIn (t : Zone → List (Option Nat)) (live : Nat → Option World.Mob) (v : Viewer) :
    List Nat :=
  match serverFindZone v.x v.y with
  | none => []
  | some orig => (orig :: zonesAround orig).flatMap fun zone => wanted (shownNear live v) (t zone)

section Search

variable {t : Zone → List (Option Nat)} {there : Nat → Bool} {live : Nat → Option World.Mob}
  {v : Viewer}

theorem shownNear_iff {i : Nat} : shownNear live v i = true ↔
    ∃ m, live i = some m ∧ inProtocolRange v m = true := by
  simp [shownNear, Option.any_eq_true]

theorem mem_nearbyIn (hw : WellListed t there live) {i : Nat} : i ∈ nearbyIn t live v ↔
    ∃ m, live i = some m ∧ Near v m ∧ Searched v m := by
  unfold nearbyIn
  cases horig : serverFindZone v.x v.y with
  | none =>
      refine iff_of_false List.not_mem_nil ?_
      rintro ⟨m, -, -, orig, -, horig', -⟩
      exact absurd (horig.symm.trans horig') (by simp)
  | some orig =>
      simp only [List.mem_flatMap, mem_wanted, shownNear_iff]
      constructor
      · rintro ⟨zone, hzone, hin, m, hm, hrange⟩
        have hhome := (hw.listed i m hm).mem_iff.1 hin
        obtain ⟨hx, hy⟩ := withinRange_iff.1 hrange
        rcases List.mem_cons.1 hzone with rfl | hzone
        · exact ⟨m, hm, near_of_zone horig hhome, zone, zone, horig, hhome, .inl rfl⟩
        · obtain ⟨-, hplane, -, -, hx1, hy1, -⟩ := mem_zonesAround.1 hzone
          refine ⟨m, hm, ⟨hx, hy, ?_⟩, orig, zone, horig, hhome, .inr ⟨hx1, hy1⟩⟩
          exact (zone_plane hhome).symm.trans (hplane.trans (zone_plane horig))
      · rintro ⟨m, hm, hnear, orig', zone, horig', hzone, hin⟩
        obtain rfl := Option.some.inj (horig.symm.trans horig')
        exact ⟨zone, mem_searched_zones horig hzone hnear hin,
          (hw.listed i m hm).mem_iff.2 hzone, m, hm, withinRange_iff.2 ⟨hnear.x, hnear.y⟩⟩

theorem nodup_nearbyIn (hw : WellListed t there live) : (nearbyIn t live v).Nodup := by
  unfold nearbyIn
  split
  · exact List.nodup_nil
  · refine nodup_gather (zonesAround_nodup _) fun i hi => ?_
    obtain ⟨m, hm, -⟩ := shownNear_iff.1 hi
    exact ⟨_, hw.listed i m hm⟩

/-- As many of them as there is room for are what they should be if and only if
the search reaches all that are near, or as many as there is room for. -/
theorem nearbyRight_take_iff (hw : WellListed t there live) (max : Nat) :
    NearbyRight live v max ((nearbyIn t live v).take max) ↔ SearchReaches live v max := by
  constructor
  · intro h
    by_cases hroom : ((nearbyIn t live v).take max).length < max
    · refine .inl fun i m hm hnear => ?_
      have hin := h.complete hroom i m hm hnear
      obtain ⟨m', hm', -, hsearched⟩ := (mem_nearbyIn hw).1 (List.mem_of_mem_take hin)
      exact (Option.some.inj (hm.symm.trans hm')) ▸ hsearched
    · have hlen := List.length_take_le max (nearbyIn t live v)
      exact .inr ⟨_, h.nodup, by omega, fun i hi => (mem_nearbyIn hw).1 (List.mem_of_mem_take hi)⟩
  · intro h
    refine ⟨(nodup_nearbyIn hw).sublist (List.take_sublist _ _), fun i hi => ?_, ?_⟩
    · obtain ⟨m, hm, hnear, -⟩ := (mem_nearbyIn hw).1 (List.mem_of_mem_take hi)
      exact ⟨m, hm, hnear⟩
    · intro hroom i m hm hnear
      have hself := take_eq_self_of_room hroom
      rw [hself] at hroom ⊢
      cases h with
      | inl hall => exact (mem_nearbyIn hw).2 ⟨m, hm, hnear, hall i m hm hnear⟩
      | inr hmany =>
          obtain ⟨l, hl, hlen, hsub⟩ := hmany
          have hle := (hl.subperm fun i hi => (mem_nearbyIn hw).2 (hsub i hi)).length_le
          omega

/-- In the zone of the position everyone is in protocol range. -/
theorem wanted_orig (hw : WellListed t there live) {orig : Zone}
    (horig : serverFindZone v.x v.y = some orig) :
    wanted (fun i => (live i).isSome) (t orig) = wanted (shownNear live v) (t orig) := by
  refine List.filter_congr fun i hi => ?_
  have hin : some i ∈ t orig := by simpa [List.reduceOption] using hi
  unfold shownNear
  cases hm : live i with
  | none => rfl
  | some m =>
      have hnear := near_of_zone horig ((hw.listed i m hm).mem_iff.1 hin)
      exact (withinRange_iff.2 ⟨hnear.x, hnear.y⟩).symm

/-- There is room for all of a zone. -/
theorem take_wanted (hw : WellListed t there live) {p : Nat → Bool}
    (hp : ∀ i, p i = true → there i = true) (zone : Zone) :
    (wanted p (t zone)).take 128 = wanted p (t zone) := by
  have hsub : wanted p (t zone) = (wanted there (t zone)).filter p := by
    unfold wanted
    rw [List.filter_filter]
    refine List.filter_congr fun i _ => ?_
    cases hi : p i with
    | false => rfl
    | true => rw [hp i hi]; rfl
  have hle := List.length_filter_le p (wanted there (t zone))
  have hfew := hw.few zone
  exact List.take_of_length_le (by rw [hsub]; omega)

end Search

/-! ## Players and NPCs -/

variable {w : World} {v : Viewer}

/-- The zones that are still to be looked into are as they were. -/
structure Unvisited (lists : World → Zone → List (Option Nat)) (w w' : World) (zones : List Zone) :
    Prop where
  same : SameMobs w w'
  nodup : zones.Nodup
  lists : ∀ zone ∈ zones, lists w' zone = lists w zone

theorem setBin_of_ne {t : Zone → List (Option Nat)} {zone zone' : Zone} (h : zone' ≠ zone)
    (l : List (Option Nat)) : setBin t zone l zone' = t zone' := if_neg h

theorem Unvisited.tail {lists : World → Zone → List (Option Nat)} {w w' w'' : World} {zone : Zone}
    {zones : List Zone} (h : Unvisited lists w w' (zone :: zones)) (hsame : SameMobs w' w'')
    {l : List (Option Nat)} (hlists : lists w'' = setBin (lists w') zone l) :
    Unvisited lists w w'' zones := by
  obtain ⟨hnot, hnodup⟩ := List.nodup_cons.1 h.nodup
  refine ⟨h.same.trans hsame, hnodup, fun zone' hzone' => ?_⟩
  have hne : zone' ≠ zone := by
    rintro rfl
    exact hnot hzone'
  rw [hlists, setBin_of_ne hne]
  exact h.lists zone' (List.mem_cons_of_mem _ hzone')

/-- The loops over zones that are all different see what is listed in each of them at
first. -/
theorem nearbyAround_apart (lists : World → Zone → List (Option Nat))
    (find : World → Zone → World × List Nat) (listed : World → Nat → Bool)
    (hfind : ∀ {w' : World} {zone : Zone}, SameMobs w w' → lists w' zone = lists w zone →
      (find w' zone).2 = (find w zone).2)
    (hlisted : ∀ {w' : World}, SameMobs w w' → listed w' = listed w)
    (hnext : ∀ (w' : World) (zone : Zone), SameMobs w' (find w' zone).1 ∧
      ∃ l, lists (find w' zone).1 = setBin (lists w') zone l)
    (max : Nat) {orig : Zone} {zones : List Zone} (hnodup : (orig :: zones).Nodup)
    (list : List Nat) :
    (nearbyAround find listed max zones (find w orig).1 (list.take max)).2 =
      (list ++ zones.flatMap fun zone => (find w zone).2.filter (listed w)).take max := by
  have hstep : ∀ {w' : World} {zone : Zone} {zones : List Zone},
      Unvisited lists w w' (zone :: zones) → (find w' zone).2 = (find w zone).2 ∧
        listed (find w' zone).1 = listed w ∧ Unvisited lists w (find w' zone).1 zones := by
    intro w' zone zones h
    obtain ⟨hsame, l, hlists⟩ := hnext w' zone
    exact ⟨hfind h.same (h.lists zone List.mem_cons_self), hlisted (h.same.trans hsame),
      h.tail hsame hlists⟩
  have hstart : Unvisited lists w w (orig :: zones) := ⟨⟨rfl, rfl⟩, hnodup, fun _ _ => rfl⟩
  exact nearbyAround_eq (Unvisited lists w) hstep max zones _ list (hstep hstart).2.2

theorem livePlayer_isSome (i : Nat) : (livePlayer w i).isSome =
    ((w.players i).isSome && (w.players i).any fun p => p.name != -1) := by
  unfold livePlayer
  cases w.players i with
  | none => rfl
  | some p =>
      by_cases hname : p.name = -1
      · simp [hname]
      · simp [hname]

theorem zoneFindPlayers_found
    (hw : WellListed w.zonePlayers (fun i => (w.players i).isSome) (livePlayer w)) (zone : Zone) :
    (w.zoneFindPlayers zone 128).2 =
      wanted (fun i => (livePlayer w i).isSome) (w.zonePlayers zone) := by
  unfold World.zoneFindPlayers
  dsimp only
  rw [zoneFind_eq]
  simp only [← livePlayer_isSome]
  refine take_wanted hw (fun i hi => ?_) zone
  rw [livePlayer_isSome] at hi
  exact (Bool.and_eq_true _ _ ▸ hi).1

/-- `mob_get_nearby_players` gives as many of those there are to find as there is
room for. -/
theorem mobGetNearbyPlayers_eq
    (hw : WellListed w.zonePlayers (fun i => (w.players i).isSome) (livePlayer w)) (max : Nat) :
    (w.mobGetNearbyPlayers v max).2 = (nearbyIn w.zonePlayers (livePlayer w) v).take max := by
  unfold World.mobGetNearbyPlayers nearbyIn
  cases horig : serverFindZone v.x v.y with
  | none => simp
  | some orig =>
      have hfind : ∀ {w' : World} {zone : Zone}, SameMobs w w' →
          w'.zonePlayers zone = w.zonePlayers zone →
          (w'.zoneFindPlayers zone 128).2 = (w.zoneFindPlayers zone 128).2 := by
        intro w' zone hsame hlists
        unfold World.zoneFindPlayers
        rw [hsame.players, hlists]
      have hlisted : ∀ {w' : World}, SameMobs w w' →
          (fun i => (w'.players i).any fun p => inProtocolRange v p.mob) =
            fun i => (w.players i).any fun p => inProtocolRange v p.mob := by
        intro w' hsame
        rw [hsame.players]
      have hnear : ∀ i, ((w.players i).any (fun p => inProtocolRange v p.mob) &&
          (livePlayer w i).isSome) = shownNear (livePlayer w) v i := by
        intro i
        unfold shownNear livePlayer
        cases w.players i with
        | none => rfl
        | some p => by_cases hname : p.name = -1 <;> simp [hname]
      dsimp only
      rw [nearbyAround_apart World.zonePlayers (fun w zone => w.zoneFindPlayers zone 128)
        (fun w i => (w.players i).any fun p => inProtocolRange v p.mob) hfind hlisted
        (fun w' zone => ⟨⟨rfl, rfl⟩, _, rfl⟩) max (zonesAround_nodup orig), List.flatMap_cons,
        zoneFindPlayers_found hw, wanted_orig hw horig]
      simp only [zoneFindPlayers_found hw, wanted, List.filter_filter, hnear]

theorem zoneFindNpcs_found (hw : WellListed w.zoneNpcs (fun j => (w.npcs j).isSome) (liveNpc w))
    (zone : Zone) :
    (w.zoneFindNpcs zone 128).2 = wanted (fun j => (w.npcs j).isSome) (w.zoneNpcs zone) := by
  unfold World.zoneFindNpcs
  dsimp only
  rw [zoneFind_eq]
  simp only [Bool.and_true]
  exact take_wanted hw (fun _ h => h) zone

/-- `mob_get_nearby_npcs` gives as many of those there are to find as there is room
for. -/
theorem mobGetNearbyNpcs_eq
    (hw : WellListed w.zoneNpcs (fun j => (w.npcs j).isSome) (liveNpc w)) (max : Nat) :
    (w.mobGetNearbyNpcs v max).2 = (nearbyIn w.zoneNpcs (liveNpc w) v).take max := by
  unfold World.mobGetNearbyNpcs nearbyIn
  cases horig : serverFindZone v.x v.y with
  | none => simp
  | some orig =>
      have hfind : ∀ {w' : World} {zone : Zone}, SameMobs w w' →
          w'.zoneNpcs zone = w.zoneNpcs zone →
          (w'.zoneFindNpcs zone 128).2 = (w.zoneFindNpcs zone 128).2 := by
        intro w' zone hsame hlists
        unfold World.zoneFindNpcs
        rw [hsame.npcs, hlists]
      have hlisted : ∀ {w' : World}, SameMobs w w' →
          (fun j => (w'.npcs j).any fun n => inProtocolRange v n.mob && n.respawnTime == 0) =
            fun j => (w.npcs j).any fun n => inProtocolRange v n.mob && n.respawnTime == 0 := by
        intro w' hsame
        rw [hsame.npcs]
      have hlive : ∀ j, ((w.npcs j).any (fun n => n.respawnTime == 0) && (w.npcs j).isSome) =
          (liveNpc w j).isSome := by
        intro j
        unfold liveNpc
        cases w.npcs j with
        | none => rfl
        | some n => by_cases hrespawn : n.respawnTime = 0 <;> simp [hrespawn]
      have hnear : ∀ j, ((w.npcs j).any (fun n => inProtocolRange v n.mob && n.respawnTime == 0) &&
          (w.npcs j).isSome) = shownNear (liveNpc w) v j := by
        intro j
        unfold shownNear liveNpc
        cases w.npcs j with
        | none => rfl
        | some n => by_cases hrespawn : n.respawnTime = 0 <;> simp [hrespawn]
      have horigin : ((w.zoneFindNpcs orig 128).2.filter fun j =>
          (w.npcs j).any fun n => n.respawnTime == 0) =
          wanted (shownNear (liveNpc w) v) (w.zoneNpcs orig) := by
        rw [zoneFindNpcs_found hw, ← wanted_orig hw horig]
        simp only [wanted, List.filter_filter, hlive]
      dsimp only
      rw [nearbyAround_apart World.zoneNpcs (fun w zone => w.zoneFindNpcs zone 128)
        (fun w j => (w.npcs j).any fun n => inProtocolRange v n.mob && n.respawnTime == 0) hfind
        hlisted (fun w' zone => ⟨⟨rfl, rfl⟩, _, rfl⟩) max (zonesAround_nodup orig),
        List.flatMap_cons]
      refine congrArg (List.take max) (congr (congrArg HAppend.hAppend horigin) ?_)
      simp only [zoneFindNpcs_found hw, wanted, List.filter_filter, hnear]

/-- In a state where mobs are listed as they should be, what is found around a
position, players and NPCs, is what should be found there if and only if the
search reaches all of them, or as many as there is room for. -/
theorem nearby_right_iff (w : World) (v : Viewer) (max : Nat)
    (hplayers : WellListed w.zonePlayers (fun i => (w.players i).isSome) (livePlayer w))
    (hnpcs : WellListed w.zoneNpcs (fun j => (w.npcs j).isSome) (liveNpc w)) :
    (NearbyRight (livePlayer w) v max (w.mobGetNearbyPlayers v max).2 ↔
      SearchReaches (livePlayer w) v max) ∧
    (NearbyRight (liveNpc w) v max (w.mobGetNearbyNpcs v max).2 ↔
      SearchReaches (liveNpc w) v max) := by
  rw [mobGetNearbyPlayers_eq hplayers, mobGetNearbyNpcs_eq hnpcs]
  exact ⟨nearbyRight_take_iff hplayers max, nearbyRight_take_iff hnpcs max⟩

/-- One player, who is listed. -/
def onePlayer (x y : Nat) : World :=
  { players := fun i => if i = 0 then some { mob := { x := x, y := y }, name := 1 } else none
    zonePlayers := fun zone => if serverFindZone x y = some zone then [some 0] else [] }

def lookout (x y : Nat) : Viewer := { id := 1, x := x, y := y, out := { outbuf := [] } }

theorem livePlayer_onePlayer {x y i : Nat} {m : World.Mob}
    (h : livePlayer (onePlayer x y) i = some m) : i = 0 ∧ m = { x := x, y := y } := by
  unfold livePlayer onePlayer at h
  by_cases hi : i = 0
  · simp [hi] at h
    exact ⟨hi, h.symm⟩
  · simp [hi] at h

theorem onePlayer_listed (x y : Nat) : WellListed (onePlayer x y).zonePlayers
    (fun i => ((onePlayer x y).players i).isSome) (livePlayer (onePlayer x y)) := by
  refine ⟨fun i m h => ?_, fun zone => ?_⟩
  · obtain ⟨rfl, rfl⟩ := livePlayer_onePlayer h
    intro zone
    unfold onePlayer
    dsimp only
    split <;> rfl
  · unfold onePlayer wanted
    dsimp only
    refine (List.length_filter_le _ _).trans ?_
    split
    · decide
    · decide

theorem noNpcs_listed (x y : Nat) : WellListed (onePlayer x y).zoneNpcs
    (fun j => ((onePlayer x y).npcs j).isSome) (liveNpc (onePlayer x y)) :=
  ⟨fun _ _ h => (nomatch h), fun _ => Nat.zero_le _⟩

/-- From one zone into the next. -/
theorem nearby_right_iff_next_zone :
    (WellListed (onePlayer 100 100).zonePlayers (fun i => ((onePlayer 100 100).players i).isSome)
        (livePlayer (onePlayer 100 100)) ∧
      WellListed (onePlayer 100 100).zoneNpcs (fun j => ((onePlayer 100 100).npcs j).isSome)
        (liveNpc (onePlayer 100 100))) ∧
      NearbyRight (livePlayer (onePlayer 100 100)) (lookout 110 100) 8
        ((onePlayer 100 100).mobGetNearbyPlayers (lookout 110 100) 8).2 := by
  refine ⟨⟨onePlayer_listed 100 100, noNpcs_listed 100 100⟩, ?_⟩
  refine (nearby_right_iff (onePlayer 100 100) (lookout 110 100) 8 (onePlayer_listed 100 100)
    (noNpcs_listed 100 100)).1.2 (.inl fun i m h _ => ?_)
  obtain ⟨-, rfl⟩ := livePlayer_onePlayer h
  exact ⟨⟨13, 12, 0⟩, ⟨12, 12, 0⟩, by decide, by decide, .inr (by decide)⟩

/-- A player six tiles off, in the first column of zones, is not found. -/
theorem first_column_unseen : ¬ ∀ (w : World) (v : Viewer) (max : Nat),
    WellListed w.zonePlayers (fun i => (w.players i).isSome) (livePlayer w) →
    NearbyRight (livePlayer w) v max (w.mobGetNearbyPlayers v max).2 := by
  intro hall
  have h := hall (onePlayer 4 100) (lookout 10 100) 8 (onePlayer_listed 4 100)
  have hnone : ((onePlayer 4 100).mobGetNearbyPlayers (lookout 10 100) 8).2 = [] := by decide
  rw [hnone] at h
  have hin := h.complete (by decide) 0 { x := 4, y := 100 } rfl ⟨by decide, by decide, by decide⟩
  exact absurd hin List.not_mem_nil

end Sundae.Proofs
