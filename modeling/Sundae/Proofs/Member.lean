import Sundae.Lib.Roster
import Sundae.Proofs.Steady

/-!
# Who is in which zone

Every place that moves a mob takes it out of the list of the zone it leaves and
puts it into that of the zone it enters, except for a few that forget to. In
between the mob is still listed where it was; so what is kept is stated with
the mobs that are on their way.
-/

namespace Sundae.Proofs

open Sundae.Lib Sundae.Ref.World
open Sundae.Ref (World Zone serverFindZone)

/-- The zone that contains a mob's coordinates. -/
def zoneOf (m : Mob) : Option Zone := serverFindZone m.x m.y

/-- Mobs on their way, with the zone each is still listed in. -/
abbrev Away := MobRef → Option (Option Zone)

def Away.nobody : Away := fun _ => none

/-- One more of them. -/
def Away.but (away : Away) (r : MobRef) (home : Option Zone) : Away :=
  fun s => if s = r then some home else away s

/-- Where a mob is listed. -/
def Away.home (away : Away) (r : MobRef) (m : Mob) : Option Zone := (away r).getD (zoneOf m)

/-- Every player that has logged in and every NPC is listed in its zone, or on
its way, and an NPC slot that is free is listed nowhere. -/
structure MemberBut (away : Away) (w : World) : Prop where
  player : ∀ i p, w.players i = some p → p.loginOk = true →
    Listed w.zonePlayers i (away.home (.player i) p.mob)
  npc : ∀ j n, w.npcs j = some n → Listed w.zoneNpcs j (away.home (.npc j) n.mob)
  free : ∀ j, w.npcs j = none → Listed w.zoneNpcs j none

def Member (w : World) : Prop := MemberBut Away.nobody w

section Home

variable {away : Away} {r s : MobRef} {home : Option Zone} {m m' : Mob}

theorem home_but (away : Away) (r : MobRef) (home : Option Zone) (m : Mob) :
    (away.but r home).home r m = home := by
  simp [Away.home, Away.but]

theorem home_but_ne (hne : s ≠ r) : (away.but r home).home s m = away.home s m := by
  simp [Away.home, Away.but, hne]

theorem home_here (haway : away r = none) : away.home r m = zoneOf m := by
  simp [Away.home, haway]

/-- Where a mob is listed does not depend on where a mob on its way is. -/
theorem home_congr (h : away r = none → m'.x = m.x ∧ m'.y = m.y) :
    away.home r m' = away.home r m := by
  cases haway : away r with
  | none =>
      obtain ⟨hx, hy⟩ := h haway
      rw [home_here haway, home_here haway, zoneOf, zoneOf, hx, hy]
  | some home => simp [Away.home, haway]

end Home

namespace MemberBut

variable {away : Away} {w : World}

/-- Writes to the tables that leave the lists alone. -/
theorem of_same {w' : World} (h : MemberBut away w)
    (hplayers : ∀ i p', w'.players i = some p' → p'.loginOk = true →
      ∃ p, w.players i = some p ∧ p.loginOk = true ∧
        away.home (.player i) p'.mob = away.home (.player i) p.mob)
    (hnpcs : ∀ j n', w'.npcs j = some n' → ∃ n, w.npcs j = some n ∧
      away.home (.npc j) n'.mob = away.home (.npc j) n.mob)
    (hfree : ∀ j, w'.npcs j = none → w.npcs j = none)
    (hzp : w'.zonePlayers = w.zonePlayers) (hzn : w'.zoneNpcs = w.zoneNpcs) :
    MemberBut away w' := by
  constructor
  · intro i p' hp' hok'
    obtain ⟨p, hp, hok, hhome⟩ := hplayers i p' hp' hok'
    rw [hzp, hhome]
    exact h.player i p hp hok
  · intro j n' hn'
    obtain ⟨n, hn, hhome⟩ := hnpcs j n' hn'
    rw [hzn, hhome]
    exact h.npc j n hn
  · intro j hj
    rw [hzn]
    exact h.free j (hfree j hj)

theorem modifyPlayer (h : MemberBut away w) {i : Nat} {f : Player → Player}
    (hf : ∀ p, w.players i = some p → (f p).loginOk = true → p.loginOk = true ∧
      (away (.player i) = none → (f p).mob.x = p.mob.x ∧ (f p).mob.y = p.mob.y)) :
    MemberBut away (w.modifyPlayer i f) := by
  refine h.of_same (fun k p' hk hok => ?_) (fun k n hk => ⟨n, hk, rfl⟩) (fun _ hk => hk) rfl rfl
  rw [players_modifyPlayer] at hk
  split at hk
  · next heq =>
    subst heq
    obtain ⟨p, hp, rfl⟩ := Option.map_eq_some_iff.1 hk
    obtain ⟨hok₀, hcoords⟩ := hf p hp hok
    exact ⟨p, hp, hok₀, home_congr hcoords⟩
  · exact ⟨p', hk, hok, rfl⟩

theorem modifyNpc (h : MemberBut away w) {j : Nat} {f : Npc → Npc}
    (hf : ∀ n, away (.npc j) = none → (f n).mob.x = n.mob.x ∧ (f n).mob.y = n.mob.y) :
    MemberBut away (w.modifyNpc j f) := by
  refine h.of_same (fun k p hk hok => ⟨p, hk, hok, rfl⟩) (fun k n' hk => ?_) (fun k hk => ?_) rfl
    rfl
  · rw [npcs_modifyNpc] at hk
    split at hk
    · next heq =>
      subst heq
      obtain ⟨n, hn, rfl⟩ := Option.map_eq_some_iff.1 hk
      exact ⟨n, hn, home_congr (hf n)⟩
    · exact ⟨n', hk, rfl⟩
  · rw [npcs_modifyNpc] at hk
    split at hk
    · exact Option.map_eq_none_iff.1 hk
    · exact hk

theorem modify (h : MemberBut away w) {r : MobRef} {f : Mob → Mob}
    (hf : ∀ m, away r = none → (f m).x = m.x ∧ (f m).y = m.y) :
    MemberBut away (w.modify r f) := by
  cases r with
  | player i => exact h.modifyPlayer fun p _ hok => ⟨hok, hf p.mob⟩
  | npc j => exact h.modifyNpc fun n => hf n.mob

theorem still (away : Away) : Still (MemberBut away) where
  light h hf := h.modify fun m _ => ⟨(hf m).x, (hf m).y⟩
  modify h hf := h.modify fun m _ => ⟨(hf m).x, (hf m).y⟩
  modifyPlayer h hf := h.modifyPlayer fun p _ hok =>
    ⟨(hf p).1 ▸ hok, fun _ => ⟨(hf p).2.x, (hf p).2.y⟩⟩
  modifyNpc h hf := h.modifyNpc fun n _ => ⟨(hf n).2.2.2.2.x, (hf n).2.2.2.2.y⟩
  wound h hf := h.modifyNpc fun n _ => ⟨(hf n).2.2.2.2.x, (hf n).2.2.2.2.y⟩
  push h _ := ⟨h.player, h.npc, h.free⟩

/-! ## Coming and going -/

/-- A mob sets out from where it is. -/
theorem depart (h : MemberBut away w) {r : MobRef} {home : Option Zone}
    (hhome : ∀ m, w.mob? r = some m → away.home r m = home) :
    MemberBut (away.but r home) w := by
  constructor
  · intro i p hp hok
    have hlisted := h.player i p hp hok
    by_cases hr : .player i = r
    · subst hr
      rw [home_but, ← hhome p.mob (by simp [hp])]
      exact hlisted
    · rw [home_but_ne hr]
      exact hlisted
  · intro j n hn
    have hlisted := h.npc j n hn
    by_cases hr : .npc j = r
    · subst hr
      rw [home_but, ← hhome n.mob (by simp [hn])]
      exact hlisted
    · rw [home_but_ne hr]
      exact hlisted
  · exact h.free

/-- One that has not logged in may be listed anywhere. -/
theorem depart_guest (h : MemberBut away w) {i : Nat} (home : Option Zone)
    (hguest : ∀ p, w.players i = some p → p.loginOk = false) :
    MemberBut (away.but (.player i) home) w := by
  constructor
  · intro k p hp hok
    have hk : k ≠ i := by
      intro heq
      rw [hguest p (heq ▸ hp)] at hok
      cases hok
    rw [home_but_ne (by simpa using hk)]
    exact h.player k p hp hok
  · intro j n hn
    rw [home_but_ne (by simp)]
    exact h.npc j n hn
  · exact h.free

/-- It has arrived when it is listed where it is, and nobody else has been
touched. -/
theorem arrive_player {w' : World} {i : Nat} {home : Option Zone}
    (h : MemberBut (away.but (.player i) home) w) (hplayers : w'.players = w.players)
    (hnpcs : w'.npcs = w.npcs) (hzn : w'.zoneNpcs = w.zoneNpcs)
    (hother : ∀ k home, k ≠ i → Listed w.zonePlayers k home → Listed w'.zonePlayers k home)
    (hself : ∀ p, w.players i = some p → Listed w.zonePlayers i home →
      Listed w'.zonePlayers i (away.home (.player i) p.mob)) : MemberBut away w' := by
  constructor
  · intro k p hp hok
    rw [hplayers] at hp
    have hlisted := h.player k p hp hok
    by_cases hk : k = i
    · subst hk
      rw [home_but] at hlisted
      exact hself p hp hlisted
    · rw [home_but_ne (by simpa using hk)] at hlisted
      exact hother k _ hk hlisted
  · intro j n hn
    rw [hnpcs] at hn
    rw [hzn]
    have hlisted := h.npc j n hn
    rwa [home_but_ne (by simp)] at hlisted
  · intro j hj
    rw [hnpcs] at hj
    rw [hzn]
    exact h.free j hj

theorem arrive_npc {w' : World} {j : Nat} {home : Option Zone}
    (h : MemberBut (away.but (.npc j) home) w) (hplayers : w'.players = w.players)
    (hnpcs : w'.npcs = w.npcs) (hzp : w'.zonePlayers = w.zonePlayers)
    (hother : ∀ k home, k ≠ j → Listed w.zoneNpcs k home → Listed w'.zoneNpcs k home)
    {n : Npc} (hn : w.npcs j = some n)
    (hself : Listed w.zoneNpcs j home → Listed w'.zoneNpcs j (away.home (.npc j) n.mob)) :
    MemberBut away w' := by
  constructor
  · intro i p hp hok
    rw [hplayers] at hp
    rw [hzp]
    have hlisted := h.player i p hp hok
    rwa [home_but_ne (by simp)] at hlisted
  · intro k n' hn'
    rw [hnpcs] at hn'
    have hlisted := h.npc k n' hn'
    by_cases hk : k = j
    · subst hk
      obtain rfl := Option.some.inj (hn.symm.trans hn')
      rw [home_but] at hlisted
      exact hself hlisted
    · rw [home_but_ne (by simpa using hk)] at hlisted
      exact hother k _ hk hlisted
  · intro k hk
    rw [hnpcs] at hk
    have hne : k ≠ j := fun heq => by simp [heq, hn] at hk
    exact hother k none hne (h.free k hk)

/-- A mob that is where it was listed all the time. -/
theorem settle {r : MobRef} {home : Option Zone} (h : MemberBut (away.but r home) w)
    (hhome : ∀ m, w.mob? r = some m → away.home r m = home) : MemberBut away w := by
  constructor
  · intro i p hp hok
    have hlisted := h.player i p hp hok
    by_cases hr : .player i = r
    · subst hr
      rw [home_but, ← hhome p.mob (by simp [hp])] at hlisted
      exact hlisted
    · rwa [home_but_ne hr] at hlisted
  · intro j n hn
    have hlisted := h.npc j n hn
    by_cases hr : .npc j = r
    · subst hr
      rw [home_but, ← hhome n.mob (by simp [hn])] at hlisted
      exact hlisted
    · rwa [home_but_ne hr] at hlisted
  · exact h.free

end MemberBut

/-! ## The arrays -/

/-- A new entry takes an empty slot or room behind the others. -/
theorem count_zoneAdd (first : Nat) (list : List (Option Nat)) (id k : Nat) :
    (zoneAdd first list id).count (some k) =
      list.count (some k) + if id = k then 1 else 0 := by
  have hpad : ∀ n, (List.replicate n (none : Option Nat)).count (some k) = 0 :=
    fun n => List.count_eq_zero.2 fun h => by cases (List.mem_replicate.1 h).2
  have hcons : ∀ l : List (Option Nat), (some id :: l).count (some k) =
      l.count (some k) + if id = k then 1 else 0 := by
    intro l
    rw [List.count_cons]
    simp only [beq_iff_eq, Option.some.injEq]
  unfold zoneAdd
  split
  · next hany =>
    obtain ⟨a, ha, hnone⟩ := List.any_eq_true.1 hany
    obtain ⟨b, hb⟩ := Option.isSome_iff_exists.1 (List.find?_isSome.2 ⟨a, ha, hnone⟩)
    have hb' : b = none := by simpa using List.find?_some hb
    subst hb'
    have hcount := count_modifyFirst hb (f := fun _ => some id) rfl (some k)
    simpa using hcount
  · split
    · next hzero =>
      obtain rfl := List.length_eq_zero_iff.1 hzero
      rw [hcons, hpad]
      rfl
    · rw [List.count_append, hcons, hpad]
      omega

theorem count_zoneRemove (list : List (Option Nat)) (id k : Nat) :
    (zoneRemove list id).count (some k) = list.count (some k) - if id = k then 1 else 0 := by
  unfold zoneRemove
  cases hfind : list.find? (· == some id) with
  | none =>
      rw [modifyFirst_none hfind]
      by_cases hk : id = k
      · subst hk
        have hzero : list.count (some id) = 0 :=
          List.count_eq_zero.2 fun hin => by simpa using List.find?_eq_none.1 hfind _ hin
        omega
      · rw [if_neg hk]
        omega
  | some a =>
      have ha : a = some id := by simpa using List.find?_some hfind
      have hcount := count_modifyFirst hfind (f := fun _ => none) rfl (some k)
      rw [ha] at hcount
      by_cases hk : id = k
      · subst hk
        simp at hcount
        rw [if_pos rfl]
        omega
      · have hne : (some id == some k) = false := by simpa using hk
        rw [hne] at hcount
        simp at hcount
        rw [if_neg hk]
        omega

/-- Looking through a list takes out only who is not there. -/
theorem count_zoneFind (live shown : Nat → Bool) {k : Nat} (hk : live k = true)
    (list : List (Option Nat)) (max : Nat) :
    (zoneFind live shown max list).2.count (some k) = list.count (some k) := by
  induction list generalizing max with
  | nil => rfl
  | cons a list ih =>
      cases a with
      | none =>
          simp only [zoneFind, List.count_cons, ih]
      | some id =>
          unfold zoneFind
          split
          · next hdead =>
            have hne : id ≠ k := fun heq => by simp [heq, hk] at hdead
            rw [List.count_cons, List.count_cons, ih]
            simp [hne]
          · split
            · rw [List.count_cons, List.count_cons, ih]
            · cases max with
              | zero => rfl
              | succ max =>
                  dsimp only
                  rw [List.count_cons, List.count_cons, ih]

theorem notMem_zoneFind (live shown : Nat → Bool) {k : Nat} {list : List (Option Nat)} (max : Nat)
    (h : list.count (some k) = 0) : (zoneFind live shown max list).2.count (some k) = 0 := by
  induction list generalizing max with
  | nil => rfl
  | cons a list ih =>
      rw [List.count_cons] at h
      have hrest : list.count (some k) = 0 := by omega
      cases a with
      | none =>
          simp only [zoneFind, List.count_cons, ih max hrest]
          rfl
      | some id =>
          have hne : (some id == some k) = false := by
            cases hb : (some id == some k) with
            | false => rfl
            | true =>
                rw [hb] at h
                simp at h
          unfold zoneFind
          split
          · rw [List.count_cons, ih max hrest]
            rfl
          · split
            · rw [List.count_cons, ih max hrest, hne]
              rfl
            · cases max with
              | zero =>
                  rw [List.count_cons, hrest, hne]
                  rfl
              | succ max =>
                  dsimp only
                  rw [List.count_cons, ih max hrest, hne]
                  rfl

/-! ## A change of zone -/

section Change

variable {t : Zone → List (Option Nat)} {i k : Nat} {home : Option Zone} {zone : Zone}

theorem listed_removed (h : Listed t i (some zone)) :
    Listed (setBin t zone (zoneRemove (t zone) i)) i none := by
  refine h.leave ?_
  rw [count_zoneRemove, if_pos rfl]

theorem listed_remove_other (hk : k ≠ i) (h : Listed t k home) :
    Listed (setBin t zone (zoneRemove (t zone) i)) k home := by
  refine h.setBin_same ?_
  rw [count_zoneRemove, if_neg (Ne.symm hk), Nat.sub_zero]

theorem listed_added (first : Nat) (h : Listed t i none) :
    Listed (setBin t zone (zoneAdd first (t zone) i)) i (some zone) := by
  refine h.enter ?_
  rw [count_zoneAdd, if_pos rfl]

theorem listed_add_other (first : Nat) (hk : k ≠ i) (h : Listed t k home) :
    Listed (setBin t zone (zoneAdd first (t zone) i)) k home := by
  refine h.setBin_same ?_
  rw [count_zoneAdd, if_neg (Ne.symm hk), Nat.add_zero]

variable (table : World → Zone → List (Option Nat)) {remove add : World → Zone → World}
  {first : Nat} {w : World} {old new : Option Zone}

theorem changeZone_listed
    (hremove : ∀ w zone, table (remove w zone) =
      setBin (table w) zone (zoneRemove (table w zone) i))
    (hadd : ∀ w zone, table (add w zone) =
      setBin (table w) zone (zoneAdd first (table w zone) i))
    (h : Listed (table w) i old) : Listed (table (changeZone remove add w old new)) i new := by
  unfold changeZone
  split
  · next heq => exact heq ▸ h
  · cases old with
    | none =>
        cases new with
        | none => exact h
        | some zone =>
            dsimp only
            rw [hadd]
            exact listed_added first h
    | some left =>
        have hleft : Listed (table (remove w left)) i none := by
          rw [hremove]
          exact listed_removed h
        cases new with
        | none => exact hleft
        | some zone =>
            dsimp only
            rw [hadd]
            exact listed_added first hleft

theorem changeZone_other (hk : k ≠ i)
    (hremove : ∀ w zone, table (remove w zone) =
      setBin (table w) zone (zoneRemove (table w zone) i))
    (hadd : ∀ w zone, table (add w zone) =
      setBin (table w) zone (zoneAdd first (table w zone) i))
    (h : Listed (table w) k home) : Listed (table (changeZone remove add w old new)) k home := by
  refine changeZone_of (I := fun w => Listed (table w) k home) (fun w zone hw => ?_)
    (fun w zone hw => ?_) h old new
  · rw [hremove]
    exact listed_remove_other hk hw
  · rw [hadd]
    exact listed_add_other first hk hw

/-- What neither leaving nor entering a zone writes. -/
theorem changeZone_frame {β : Type} {v : World → β} (hremove : ∀ w zone, v (remove w zone) = v w)
    (hadd : ∀ w zone, v (add w zone) = v w) : v (changeZone remove add w old new) = v w :=
  changeZone_of (I := fun w' => v w' = v w) (fun w' zone hw => (hremove w' zone).trans hw)
    (fun w' zone hw => (hadd w' zone).trans hw) rfl old new

end Change

namespace MemberBut

variable {away : Away} {w : World}

theorem playerZones {i : Nat} {old : Option Zone} {p : Player}
    (h : MemberBut (away.but (.player i) old) w) (haway : away (.player i) = none)
    (hp : w.players i = some p) :
    MemberBut away (changeZone (fun w zone => w.zoneRemovePlayer zone i)
      (fun w zone => w.zoneAddPlayer zone i) w old (zoneOf p.mob)) := by
  refine h.arrive_player ?_ ?_ ?_ (fun k home hk hlisted => ?_) fun q hq hlisted => ?_
  · exact changeZone_frame (v := World.players) (fun _ _ => rfl) fun _ _ => rfl
  · exact changeZone_frame (v := World.npcs) (fun _ _ => rfl) fun _ _ => rfl
  · exact changeZone_frame (v := World.zoneNpcs) (fun _ _ => rfl) fun _ _ => rfl
  · exact changeZone_other World.zonePlayers hk (fun _ _ => rfl) (fun _ _ => rfl) hlisted
  · obtain rfl := Option.some.inj (hp.symm.trans hq)
    rw [home_here haway]
    exact changeZone_listed World.zonePlayers (fun _ _ => rfl) (fun _ _ => rfl) hlisted

theorem npcZones {j : Nat} {old : Option Zone} {n : Npc}
    (h : MemberBut (away.but (.npc j) old) w) (haway : away (.npc j) = none)
    (hn : w.npcs j = some n) :
    MemberBut away (changeZone (fun w zone => w.zoneRemoveNpc zone j)
      (fun w zone => w.zoneAddNpc zone j) w old (zoneOf n.mob)) := by
  refine h.arrive_npc ?_ ?_ ?_ (fun k home hk hlisted => ?_) hn fun hlisted => ?_
  · exact changeZone_frame (v := World.players) (fun _ _ => rfl) fun _ _ => rfl
  · exact changeZone_frame (v := World.npcs) (fun _ _ => rfl) fun _ _ => rfl
  · exact changeZone_frame (v := World.zonePlayers) (fun _ _ => rfl) fun _ _ => rfl
  · exact changeZone_other World.zoneNpcs hk (fun _ _ => rfl) (fun _ _ => rfl) hlisted
  · rw [home_here haway]
    exact changeZone_listed World.zoneNpcs (fun _ _ => rfl) (fun _ _ => rfl) hlisted

/-! ## Players on the move -/

theorem playerMoved {i fromX fromY : Nat}
    (h : MemberBut (away.but (.player i) (serverFindZone fromX fromY)) w)
    (haway : away (.player i) = none) : MemberBut away (Ref.World.playerMoved w i fromX fromY) := by
  unfold Ref.World.playerMoved
  split
  · next hnone => exact h.settle fun m hm => by simp [hnone] at hm
  · next p hp =>
    have hzones := h.playerZones haway hp
    dsimp only
    split
    · exact hzones
    · split
      · exact hzones
      · split
        · exact hzones
        · exact (still away).modifyPlayer hzones fun p => ⟨rfl, .same p.mob⟩

/-- A mob on its way may go anywhere. -/
theorem modify_away (h : MemberBut away w) {r : MobRef} (haway : away r ≠ none)
    (f : Mob → Mob) : MemberBut away (w.modify r f) :=
  h.modify fun _ hhere => absurd hhere haway

theorem but_away (away : Away) (r : MobRef) (home : Option Zone) : away.but r home r ≠ none := by
  simp [Away.but]

theorem playerTeleport (h : MemberBut away w) {i : Nat} (haway : away (.player i) = none)
    (x y : Nat) : MemberBut away (Ref.World.playerTeleport w i x y) := by
  unfold Ref.World.playerTeleport
  split
  · exact h
  · next p hp =>
    have hgone : MemberBut (away.but (.player i) (serverFindZone p.mob.x p.mob.y)) w := by
      refine h.depart fun m hm => ?_
      rw [mob?_player, hp, Option.map_some, Option.some.injEq] at hm
      subst hm
      exact home_here haway
    have hthere := hgone.modify_away (but_away _ _ _) fun m =>
      { m with x := x % 65536, y := y % 65536 }
    have hreset := (still _).combatReset ((still _).resetTargets hthere (.player i)
      Tame.clearQueue_reset) (.player i)
    exact (still away).modifyPlayer (hreset.playerMoved haway) fun p => ⟨rfl, .same p.mob⟩

theorem tamed (hplayers : ∀ i, away (.player i) = none) : Tamed (MemberBut away) where
  toStill := still away
  teleport i x y h := h.playerTeleport (hplayers i) x y

/-! ## Walking -/

theorem mobTakeStep (h : MemberBut away w) {r : MobRef} (haway : away r ≠ none) (m : Mob)
    (path : Path) : MemberBut away (World.mobTakeStep w r m path) := by
  unfold World.mobTakeStep
  split
  · exact h.modify_away haway _
  · dsimp only
    split
    · exact (still away).mobBlocked h r m
    · split
      · split
        · exact h.modify_away haway _
        · exact h.modify_away haway _
      · exact h.modify_away haway _

theorem mobProcessWalkQueue (h : MemberBut away w) {r : MobRef} (haway : away r ≠ none)
    (path : Path) : MemberBut away (World.mobProcessWalkQueue w r path) := by
  unfold World.mobProcessWalkQueue
  split
  · exact h
  · split
    · exact h.modify_away haway _
    · split
      · exact h
      · next w' hw' =>
        have h' := (still away).mobFollow h hw'
        split
        · exact h'
        · exact h'.mobTakeStep haway _ path

theorem playerProcessMovement (h : MemberBut away w) {i : Nat} (haway : away (.player i) = none)
    (path : Path) : MemberBut away (Ref.World.playerProcessMovement w i path) := by
  unfold Ref.World.playerProcessMovement
  split
  · exact h
  · next p hp =>
    have hgone : MemberBut (away.but (.player i) (serverFindZone p.mob.x p.mob.y)) w := by
      refine h.depart fun m hm => ?_
      rw [mob?_player, hp, Option.map_some, Option.some.injEq] at hm
      subst hm
      exact home_here haway
    exact (hgone.mobProcessWalkQueue (but_away _ _ _) path).playerMoved haway

theorem npcWalk {j : Nat} {old : Option Zone} (h : MemberBut (away.but (.npc j) old) w)
    (haway : away (.npc j) = none) (t : NpcTurn) :
    MemberBut away (Ref.World.npcWalk w j old t) := by
  have hwalk := h.mobProcessWalkQueue (but_away _ _ _) t.path
  unfold Ref.World.npcWalk
  dsimp only
  split
  · next hnone => exact hwalk.settle fun m hm => by simp [hnone] at hm
  · next n hn => exact hwalk.npcZones haway hn

/-- Back to its spawn. -/
theorem npcToSpawn (h : MemberBut away w) {j : Nat} (haway : away (.npc j) = none) :
    MemberBut away (Ref.World.npcToSpawn w j) := by
  unfold Ref.World.npcToSpawn
  split
  · exact h
  · next n hn =>
    have hgone : MemberBut (away.but (.npc j) (serverFindZone n.mob.x n.mob.y)) w := by
      refine h.depart fun m hm => ?_
      rw [mob?_npc, hn, Option.map_some, Option.some.injEq] at hm
      subst hm
      exact home_here haway
    have hthere := hgone.modifyNpc (j := j) (f := fun n => { n with
      mob := { n.mob with x := n.spawnX, y := n.spawnY }
      drops := if n.respawnTime = 0 then 0 else n.drops
      awards := if n.respawnTime = 0 then 0 else n.awards }) fun _ hhere =>
        absurd hhere (but_away _ _ _)
    have hn' := npcs_modifyNpc w j j fun n => { n with
      mob := { n.mob with x := n.spawnX, y := n.spawnY }
      drops := if n.respawnTime = 0 then 0 else n.drops
      awards := if n.respawnTime = 0 then 0 else n.awards }
    rw [if_pos rfl, hn, Option.map_some] at hn'
    exact npcZones hthere haway hn'

end MemberBut

/-! ## One NPC that stays in a zone -/

def NpcIn (j : Nat) (home : Option Zone) (w : World) : Prop :=
  ∀ n, w.npcs j = some n → zoneOf n.mob = home

namespace NpcIn

variable {w : World} {j : Nat} {home : Option Zone}

theorem at_home (h : NpcIn j home w) (m : Mob) (hm : w.mob? (.npc j) = some m) :
    Away.nobody.home (.npc j) m = home := by
  obtain ⟨n, hn, rfl⟩ := Option.map_eq_some_iff.1 hm
  rw [home_here rfl]
  exact h n hn

theorem modifyNpc (h : NpcIn j home w) {k : Nat} {f : Npc → Npc}
    (hf : ∀ n, (f n).mob.x = n.mob.x ∧ (f n).mob.y = n.mob.y) :
    NpcIn j home (w.modifyNpc k f) := by
  intro n hn
  rw [npcs_modifyNpc] at hn
  split at hn
  · obtain ⟨n₀, hn₀, rfl⟩ := Option.map_eq_some_iff.1 hn
    rw [zoneOf, (hf n₀).1, (hf n₀).2]
    exact h n₀ hn₀
  · exact h n hn

theorem modify (h : NpcIn j home w) {r : MobRef} {f : Mob → Mob}
    (hf : r.isNpc = true → ∀ m, (f m).x = m.x ∧ (f m).y = m.y) : NpcIn j home (w.modify r f) := by
  cases r with
  | player i => exact h
  | npc k => exact h.modifyNpc fun n => hf rfl n.mob

theorem still (j : Nat) (home : Option Zone) : Still (NpcIn j home) where
  light h hf := h.modify fun _ m => ⟨(hf m).x, (hf m).y⟩
  modify h hf := h.modify fun _ m => ⟨(hf m).x, (hf m).y⟩
  modifyPlayer h _ := h
  modifyNpc h hf := h.modifyNpc fun n => ⟨(hf n).2.2.2.2.x, (hf n).2.2.2.2.y⟩
  wound h hf := h.modifyNpc fun n => ⟨(hf n).2.2.2.2.x, (hf n).2.2.2.2.y⟩
  push h _ := h

theorem playerMoved (h : NpcIn j home w) (i fromX fromY : Nat) :
    NpcIn j home (Ref.World.playerMoved w i fromX fromY) := by
  unfold Ref.World.playerMoved
  split
  · exact h
  · next p _ =>
    have hzones : NpcIn j home (changeZone (fun w zone => w.zoneRemovePlayer zone i)
        (fun w zone => w.zoneAddPlayer zone i) w (serverFindZone fromX fromY)
        (serverFindZone p.mob.x p.mob.y)) := by
      refine changeZone_of (fun w zone hw => ?_) (fun w zone hw => ?_) h _ _
      · exact hw
      · exact hw
    dsimp only
    split
    · exact hzones
    · split
      · exact hzones
      · split
        · exact hzones
        · exact hzones

theorem tamed (j : Nat) (home : Option Zone) : Tamed (NpcIn j home) where
  toStill := still j home
  teleport i x y h := by
    unfold Ref.World.playerTeleport
    split
    · exact h
    · refine (still j home).modifyPlayer (playerMoved ?_ i _ _) fun p => ⟨rfl, .same p.mob⟩
      refine (still j home).combatReset ((still j home).resetTargets ?_ _ Tame.clearQueue_reset) _
      exact h.modify fun hnpc => by cases hnpc

end NpcIn

/-! ## From tick to tick -/

/-- `mob_process_walk_queue` of an NPC that is talked to and steps aside. -/
def talkWalk (w : World) (i j x y : Nat) (c : Chance) : World :=
  World.mobProcessWalkQueue ((w.modifyNpc j fun n => { n with talkTarget := i }).modify (.npc j)
    fun m => m.walkTo (besideOf x y c.beside).1 (besideOf x y c.beside).2) (.npc j) c.path

/-- Nobody who logs in is listed already, a first login is loaded into the zone
of the start tile, a player does not change its level into another zone, an NPC
that is talked to does not step into another zone, and an NPC is added at
coordinates that fit. -/
def ZoneSafe (w : World) : Event → Prop
  | .login i l => ∀ p, w.players i = some p → p.loginOk = false → p.name = -1 → l.ok = true →
      (∀ zone, some i ∉ w.zonePlayers zone) ∧
      (l.first = true → serverFindZone w.startTileX w.startTileY = serverFindZone l.x l.y)
  | .api (.changeLevelUp i) => ∀ p, w.players i = some p → p.loginOk = true →
      serverFindZone p.mob.x
        (if p.mob.y < planeInc * 3 then p.mob.y + planeInc else p.mob.y - planeInc * 3) =
      zoneOf p.mob
  | .api (.addNpc _ x y) => serverFindZone x y = serverFindZone (x % 65536) (y % 65536)
  | .hookReturn result c =>
    match w.frames with
    | .npcTalk i j x y :: rest => ∀ p n n', w.players i = some p → w.npcs j = some n →
        result = true → p.mob.x = x → p.mob.y = y →
        (n.mob.x ≠ (besideOf x y c.beside).1 ∨ n.mob.y ≠ (besideOf x y c.beside).2) →
        (talkWalk { w with frames := rest } i j x y c).npcs j = some n' →
        zoneOf n'.mob = zoneOf n.mob
    | _ => True
  | _ => True

namespace Member

variable {w : World}

theorem steady : Steady Member where
  toTamed := MemberBut.tamed fun _ => rfl
  free h hf := MemberBut.modify h fun m _ => ⟨(hf m).1, (hf m).2.1⟩
  hook h := ⟨h.player, h.npc, h.free⟩

theorem npcDieEnd (h : Member w) (j : Nat) (p : Option Nat) :
    Member (Ref.World.npcDieEnd w j p) := by
  have haward : Member (Ref.World.npcAward w j p) := MemberBut.modifyNpc h fun _ _ => ⟨rfl, rfl⟩
  exact MemberBut.npcToSpawn (steady.npcLetGo (steady.mobDie haward _) j p) rfl

theorem npcDieReturn (h : Member w) (j i : Nat) (melee result : Bool) :
    Member (Ref.World.npcDieReturn w j i melee result) := by
  unfold Ref.World.npcDieReturn
  split
  · exact h
  · split
    · exact steady.afterHit h j _ melee
    · have hdrop : Member (w.modifyNpc j fun n => { n with drops := n.drops + 1 }) :=
        MemberBut.modifyNpc h fun _ _ => ⟨rfl, rfl⟩
      dsimp only
      split
      · exact steady.afterHit hdrop j _ melee
      · exact steady.afterHit (npcDieEnd hdrop j _) j _ melee

theorem npcDamage (h : Member w) {j : Nat} {p : Option Nat} {roll : Nat} {melee : Bool}
    {w' : World} (hw : Ref.World.npcDamage w j p roll melee = .ok w') : Member w' :=
  steady.npcDamage (fun _ h => h) h (MemberBut.modifyNpc h fun _ _ => ⟨rfl, rfl⟩)
    (fun _ h => npcDieEnd h j none) hw

theorem playerProcessCombat (h : Member w) {i : Nat} {c : Chance} {w' : World}
    (hw : Ref.World.playerProcessCombat w i c = .ok w') : Member w' := by
  refine steady.playerProcessCombat (fun _ h => h) h (fun j _ w₁ h₁ => ?_)
    (fun j _ w₁ h₁ roll melee hdamage => npcDamage h₁ hdamage) hw
  exact MemberBut.modify h₁ fun _ _ => ⟨rfl, rfl⟩

theorem npcProcessMovement (h : Member w) {j : Nat} {t : NpcTurn} {w' : World}
    (hw : Ref.World.npcProcessMovement w j t = .ok w') : Member w' := by
  cases hn : w.npcs j with
  | none =>
      unfold Ref.World.npcProcessMovement at hw
      rw [hn] at hw
      exact Except.ok.inj hw ▸ h
  | some n =>
      have hin : NpcIn j (zoneOf n.mob) w := fun n' hn' => by
        rw [Option.some.inj (hn.symm.trans hn')]
      refine (steady.toTamed.and (NpcIn.tamed j (zoneOf n.mob))).npcProcessMovement
        (fun _ h => h.1) ⟨h, hin⟩ (fun n' hn' w₁ h₁ => ?_) hw
      obtain rfl := Option.some.inj (hn.symm.trans hn')
      exact MemberBut.npcWalk (MemberBut.depart h₁.1 (NpcIn.at_home h₁.2)) rfl t

/-! ## Script calls -/

theorem changeLevelUp (h : Member w) {i : Nat} (hsafe : ZoneSafe w (.api (.changeLevelUp i))) :
    Member (Ref.World.scriptChangelevelup w i) := by
  have hhome : ∀ p, w.players i = some p → p.loginOk = true →
      serverFindZone p.mob.x
        (if p.mob.y < planeInc * 3 then p.mob.y + planeInc else p.mob.y - planeInc * 3) =
      zoneOf p.mob := hsafe
  refine MemberBut.of_same h (fun k p' hk hok => ?_) (fun j n hj => ⟨n, hj, rfl⟩) (fun _ hj => hj)
    rfl rfl
  rw [Ref.World.scriptChangelevelup, players_modifyPlayer] at hk
  split at hk
  · next heq =>
    subst heq
    obtain ⟨p, hp, rfl⟩ := Option.map_eq_some_iff.1 hk
    refine ⟨p, hp, hok, ?_⟩
    rw [home_here rfl, home_here rfl]
    exact hhome p hp hok
  · exact ⟨p', hk, hok, rfl⟩

theorem npcTalkReturn (h : Member w) {i j x y : Nat} {result : Bool} {c : Chance}
    (hsafe : ∀ p n n', w.players i = some p → w.npcs j = some n → result = true → p.mob.x = x →
      p.mob.y = y → (n.mob.x ≠ (besideOf x y c.beside).1 ∨ n.mob.y ≠ (besideOf x y c.beside).2) →
      (talkWalk w i j x y c).npcs j = some n' → zoneOf n'.mob = zoneOf n.mob) :
    Member (Ref.World.npcTalkReturn w i j x y result c) := by
  refine steady.npcTalkReturn h fun htalk p hp hresult hx hy haway => ?_
  obtain ⟨m, hm, haway⟩ := (Option.any_eq_true _ _).1 haway
  obtain ⟨n, hn, rfl⟩ := Option.map_eq_some_iff.1 hm
  have hin : NpcIn j (zoneOf n.mob) (w.modifyNpc j fun n => { n with talkTarget := i }) := by
    refine NpcIn.modifyNpc (fun n' hn' => ?_) fun _ => ⟨rfl, rfl⟩
    rw [Option.some.inj (hn.symm.trans hn')]
  have hgone : MemberBut (Away.nobody.but (.npc j) (zoneOf n.mob))
      (w.modifyNpc j fun n => { n with talkTarget := i }) := MemberBut.depart htalk (NpcIn.at_home hin)
  have hwalked : MemberBut (Away.nobody.but (.npc j) (zoneOf n.mob)) (talkWalk w i j x y c) := by
    refine MemberBut.mobProcessWalkQueue ?_ (MemberBut.but_away _ _ _) c.path
    exact hgone.modify_away (MemberBut.but_away _ _ _) _
  refine hwalked.settle fun m hm => ?_
  obtain ⟨n', hn', rfl⟩ := Option.map_eq_some_iff.1 hm
  rw [home_here rfl]
  exact hsafe p n n' hp hn hresult hx hy (by simpa using haway) hn'

theorem newNpc (h : Member w) {j : Nat} {n : Npc} {lists : Zone → List (Option Nat)}
    (hempty : w.npcs j = none) (hself : Listed w.zoneNpcs j none → Listed lists j (zoneOf n.mob))
    (hother : ∀ k home, k ≠ j → Listed w.zoneNpcs k home → Listed lists k home) :
    Member { w with npcs := fun k => if k = j then some n else w.npcs k, zoneNpcs := lists } := by
  refine ⟨h.player, fun k n' hn' => ?_, fun k hk => ?_⟩
  · dsimp only at hn'
    split at hn'
    · next heq =>
      subst heq
      obtain rfl := Option.some.inj hn'
      rw [home_here rfl]
      exact hself (h.free k hempty)
    · next hne => exact hother k _ hne (h.npc k n' hn')
  · dsimp only at hk
    split at hk
    · cases hk
    · next hne => exact hother k _ hne (h.free k hk)

theorem serverAddNpc (h : Member w) {config : NpcConfig} {x y : Nat}
    (hsafe : serverFindZone x y = serverFindZone (x % 65536) (y % 65536)) :
    Member (Ref.World.serverAddNpc w config x y) := by
  unfold Ref.World.serverAddNpc
  split
  · exact h
  · next j hslot =>
    have hempty : w.npcs j = none := by simpa using freeSlot_free hslot
    dsimp only
    split
    · next hnone =>
      refine newNpc h hempty (fun hlisted => ?_) fun _ _ _ hlisted => hlisted
      rwa [zoneOf, ← hsafe, hnone]
    · next zone hzone =>
      refine newNpc h hempty (fun hlisted => ?_) fun k home hne hlisted => ?_
      · rw [zoneOf, ← hsafe, hzone]
        exact listed_added 2 hlisted
      · exact listed_add_other 2 hne hlisted

theorem scriptDelnpc (h : Member w) {j : Nat} {w' : World}
    (hw : Ref.World.scriptDelnpc w j = .ok w') : Member w' := by
  unfold Ref.World.scriptDelnpc at hw
  split at hw
  · exact Except.ok.inj hw ▸ h
  · next n hn =>
    split at hw
    · cases hw
    · next zone hzone =>
      obtain rfl := Except.ok.inj hw
      have hlisted : Listed w.zoneNpcs j (some zone) := by
        have hnpc := h.npc j n hn
        rwa [home_here rfl, zoneOf, hzone] at hnpc
      refine ⟨h.player, fun k n' hn' => ?_, fun k hk => ?_⟩
      · dsimp only at hn'
        split at hn'
        · cases hn'
        · next hkj => exact listed_remove_other hkj (h.npc k n' hn')
      · dsimp only at hk
        split at hk
        · next heq =>
          subst heq
          exact listed_removed hlisted
        · next hkj => exact listed_remove_other hkj (h.free k hk)

theorem runApi (h : Member w) {a : Api} (hsafe : ZoneSafe w (.api a)) {w' : World}
    (hw : Ref.World.runApi w a = .ok w') : Member w' := by
  by_cases ha : Api.wild a = false
  · exact steady.runApi h ha hw
  · cases a with
    | npcSubStat j damage => exact h.npcDamage hw
    | shootNpc i j projectile c =>
        rw [Ref.World.runApi] at hw
        split at hw
        · refine steady.playerShootPvm (fun _ h => h) h (fun _ _ _ _ w₁ h₁ hdamage => ?_) hw
          exact npcDamage h₁ hdamage
        · exact Except.ok.inj hw ▸ h
    | changeLevelUp i => exact Except.ok.inj hw ▸ h.changeLevelUp hsafe
    | addNpc config x y => exact Except.ok.inj hw ▸ h.serverAddNpc hsafe
    | delNpc j => exact h.scriptDelnpc hw
    | _ => exact absurd rfl ha

theorem hookReturn (h : Member w) {result : Bool} {c : Chance}
    (hsafe : ZoneSafe w (.hookReturn result c)) {w' : World}
    (hw : Ref.World.hookReturn w result c = .ok w') : Member w' := by
  unfold Ref.World.hookReturn at hw
  split at hw
  · cases hw
  · next frame rest hframes =>
    have hpop : Member { w with frames := rest } := ⟨h.player, h.npc, h.free⟩
    rw [ZoneSafe, hframes] at hsafe
    dsimp only at hw hsafe
    split at hw
    · exact Except.ok.inj hw ▸ hpop.npcDieReturn _ _ _ result
    · refine Except.ok.inj hw ▸ steady.npcInitReturn hpop fun w₁ h₁ => ?_
      exact MemberBut.modify h₁ fun _ _ => ⟨rfl, rfl⟩
    · exact Except.ok.inj hw ▸ hpop.npcTalkReturn hsafe

/-! ## Connections -/

/-- A player that has not logged in may be anywhere. -/
theorem modify_guest (h : Member w) {i : Nat} {f : Player → Player}
    (hguest : ∀ p, w.players i = some p → (f p).loginOk = false) :
    Member (w.modifyPlayer i f) :=
  MemberBut.modifyPlayer h fun p hp hok => by
    rw [hguest p hp] at hok
    cases hok

/-- And one that is listed where it is may log in. -/
theorem modify_listed (h : Member w) {i : Nat} {f : Player → Player}
    (hself : ∀ p, w.players i = some p → Listed w.zonePlayers i (zoneOf (f p).mob)) :
    Member (w.modifyPlayer i f) := by
  refine ⟨fun k p' hk hok => ?_, h.npc, h.free⟩
  rw [players_modifyPlayer] at hk
  split at hk
  · next heq =>
    subst heq
    obtain ⟨p, hp, rfl⟩ := Option.map_eq_some_iff.1 hk
    rw [home_here rfl]
    exact hself p hp
  · exact h.player k p' hk hok

theorem playerMoved_listed {i fromX fromY : Nat} {p : Player} (hp : w.players i = some p)
    (h : Listed w.zonePlayers i (serverFindZone fromX fromY)) :
    Listed (Ref.World.playerMoved w i fromX fromY).zonePlayers i (zoneOf p.mob) := by
  have hzones : Listed (changeZone (fun w zone => w.zoneRemovePlayer zone i)
      (fun w zone => w.zoneAddPlayer zone i) w (serverFindZone fromX fromY)
      (zoneOf p.mob)).zonePlayers i (zoneOf p.mob) :=
    changeZone_listed World.zonePlayers (fun _ _ => rfl) (fun _ _ => rfl) h
  unfold Ref.World.playerMoved
  rw [hp]
  dsimp only
  split
  · exact hzones
  · split
    · exact hzones
    · split
      · exact hzones
      · exact hzones

theorem playerMoved_player {i : Nat} {p : Player} (hp : w.players i = some p)
    (fromX fromY : Nat) :
    ∃ p', (Ref.World.playerMoved w i fromX fromY).players i = some p' ∧ p'.mob = p.mob ∧
      p'.loginOk = p.loginOk := by
  have hzones : (changeZone (fun w zone => w.zoneRemovePlayer zone i)
      (fun w zone => w.zoneAddPlayer zone i) w (serverFindZone fromX fromY)
      (serverFindZone p.mob.x p.mob.y)).players i = some p := by
    rw [← hp]
    refine congrFun (?_ : _ = w.players) i
    exact changeZone_frame (v := World.players) (fun _ _ => rfl) fun _ _ => rfl
  unfold Ref.World.playerMoved
  rw [hp]
  dsimp only
  split
  · exact ⟨p, hzones, rfl, rfl⟩
  · split
    · exact ⟨p, hzones, rfl, rfl⟩
    · split
      · exact ⟨p, hzones, rfl, rfl⟩
      · refine ⟨{ p with chasedByNpc := none }, ?_, rfl, rfl⟩
        rw [players_modifyPlayer, if_pos rfl, hzones, Option.map_some]

theorem playerMoved_startTile (w : World) (i fromX fromY : Nat) :
    (Ref.World.playerMoved w i fromX fromY).startTileX = w.startTileX ∧
      (Ref.World.playerMoved w i fromX fromY).startTileY = w.startTileY := by
  unfold Ref.World.playerMoved
  split
  · exact ⟨rfl, rfl⟩
  · next p _ =>
    have hx : (changeZone (fun w zone => w.zoneRemovePlayer zone i)
        (fun w zone => w.zoneAddPlayer zone i) w (serverFindZone fromX fromY)
        (serverFindZone p.mob.x p.mob.y)).startTileX = w.startTileX :=
      changeZone_frame (v := World.startTileX) (fun _ _ => rfl) fun _ _ => rfl
    have hy : (changeZone (fun w zone => w.zoneRemovePlayer zone i)
        (fun w zone => w.zoneAddPlayer zone i) w (serverFindZone fromX fromY)
        (serverFindZone p.mob.x p.mob.y)).startTileY = w.startTileY :=
      changeZone_frame (v := World.startTileY) (fun _ _ => rfl) fun _ _ => rfl
    dsimp only
    split
    · exact ⟨hx, hy⟩
    · split
      · exact ⟨hx, hy⟩
      · split
        · exact ⟨hx, hy⟩
        · exact ⟨hx, hy⟩

theorem playerLogin (h : Member w) {i : Nat} {l : Login} (hsafe : ZoneSafe w (.login i l)) :
    Member (Ref.World.playerLogin w i l) := by
  unfold Ref.World.playerLogin
  split
  · exact h
  · next p hp =>
    split
    · exact h
    · next hguest =>
      obtain ⟨hout, hname⟩ := not_or.1 hguest
      have hout : p.loginOk = false := by simpa using hout
      have hname : p.name = -1 := by simpa using hname
      dsimp only
      generalize hload : (fun p : Player => { p with
          name := l.name
          projectile := l.projectile
          mob := { p.mob with x := l.x, y := l.y, hits := l.hits, baseHits := l.hits } }) = load
      have hp₁ : (w.modifyPlayer i load).players i = some (load p) := by
        rw [players_modifyPlayer, if_pos rfl, hp, Option.map_some]
      have hload₁ : (load p).loginOk = false ∧ zoneOf (load p).mob = serverFindZone l.x l.y := by
        subst hload
        exact ⟨hout, rfl⟩
      have h₁ : Member (w.modifyPlayer i load) := h.modify_guest fun q hq => by
        obtain rfl := Option.some.inj (hp.symm.trans hq)
        exact hload₁.1
      have h₂ : Member (Ref.World.playerMoved (w.modifyPlayer i load) i 65535 65535) := by
        refine MemberBut.playerMoved (h₁.depart_guest _ fun q hq => ?_) rfl
        obtain rfl := Option.some.inj (hp₁.symm.trans hq)
        exact hload₁.1
      obtain ⟨p₂, hp₂, hmob₂, hout₂⟩ := playerMoved_player hp₁ 65535 65535
      split
      · exact steady.modifyPlayer h₂ fun p => ⟨rfl, .same p.mob⟩
      · next hok =>
        obtain ⟨hnew, hfirst⟩ := hsafe p hp hout hname (by simpa using hok)
        have hlisted : Listed (Ref.World.playerMoved (w.modifyPlayer i load) i 65535
            65535).zonePlayers i (zoneOf (load p).mob) := by
          refine playerMoved_listed hp₁ ?_
          have hnowhere : serverFindZone 65535 65535 = none := by decide
          rw [hnowhere]
          exact Listed.nowhere_iff.2 hnew
        split
        · next hstart =>
          refine modify_listed (modify_guest h₂ fun q hq => ?_) fun q hq => ?_
          · obtain rfl := Option.some.inj (hp₂.symm.trans hq)
            exact hout₂.trans hload₁.1
          · rw [players_modifyPlayer, if_pos rfl, hp₂, Option.map_some] at hq
            obtain rfl := Option.some.inj hq
            obtain ⟨hx, hy⟩ := playerMoved_startTile (w.modifyPlayer i load) i 65535 65535
            rw [hload₁.2, ← hfirst hstart] at hlisted
            rw [zoneOf]
            dsimp only
            rw [hx, hy]
            exact hlisted
        · refine modify_listed h₂ fun q hq => ?_
          obtain rfl := Option.some.inj (hp₂.symm.trans hq)
          rw [hmob₂]
          exact hlisted

/-! ## Every event -/

theorem playerCreate (h : Member w) : Member (Ref.World.playerCreate w) := by
  unfold Ref.World.playerCreate
  split
  · exact h
  · refine ⟨fun k p hp hok => ?_, h.npc, h.free⟩
    dsimp only at hp
    split at hp
    · obtain rfl := Option.some.inj hp
      cases hok
    · exact h.player k p hp hok

theorem serverRemovePlayer (h : Member w) (i : Nat) :
    Member (Ref.World.serverRemovePlayer w i) := by
  unfold Ref.World.serverRemovePlayer
  split
  · refine ⟨fun k p hp hok => ?_, h.npc, h.free⟩
    dsimp only at hp
    split at hp
    · cases hp
    · exact h.player k p hp hok
  · exact h

/-- Looking for players takes out only those that are gone. -/
theorem findPlayers (h : Member w) (zone : Zone) (shown : Nat → Bool) (max : Nat) :
    Member (w.setZonePlayers zone
      (zoneFind (fun i => (w.players i).isSome) shown max (w.zonePlayers zone)).2) := by
  refine ⟨fun i p hp hok => ?_, h.npc, h.free⟩
  have hp : w.players i = some p := hp
  refine (h.player i p hp hok).setBin_same ?_
  exact count_zoneFind _ shown (by simp [hp]) _ max

theorem findNpcs (h : Member w) (zone : Zone) (shown : Nat → Bool) (max : Nat) :
    Member (w.setZoneNpcs zone
      (zoneFind (fun j => (w.npcs j).isSome) shown max (w.zoneNpcs zone)).2) := by
  refine ⟨h.player, fun j n hn => ?_, fun j hj => ?_⟩
  · have hn : w.npcs j = some n := hn
    refine (h.npc j n hn).setBin_same ?_
    exact count_zoneFind _ shown (by simp [hn]) _ max
  · have hlisted := h.free j hj
    have hzero : (w.zoneNpcs zone).count (some j) = 0 := hlisted zone
    refine hlisted.setBin_same ?_
    rw [hzero]
    exact notMem_zoneFind _ shown max hzero

theorem endTick (h : Member w) (regen : Nat → Bool) : Member (Ref.World.endTick w regen) := by
  refine MemberBut.of_same h (fun i p' hp' hok => ?_) (fun j n' hn' => ?_) (fun j hj => ?_) rfl rfl
  · obtain ⟨p, hp, rfl⟩ := Option.map_eq_some_iff.1 hp'
    exact ⟨p, hp, hok, rfl⟩
  · obtain ⟨n, hn, rfl⟩ := Option.map_eq_some_iff.1 hn'
    exact ⟨n, hn, rfl⟩
  · exact Option.map_eq_none_iff.1 hj

theorem run (h : Member w) {e : Event} (hsafe : ZoneSafe w e) {w' : World}
    (hw : Ref.World.run w e = .ok w') : Member w' := by
  by_cases he : Event.wild e = false
  · exact steady.run h he hw
  · cases e with
    | connect => exact Except.ok.inj hw ▸ h.playerCreate
    | login i l => exact Except.ok.inj hw ▸ h.playerLogin hsafe
    | remove i => exact Except.ok.inj hw ▸ h.serverRemovePlayer i
    | playerCombat i c => exact h.playerProcessCombat hw
    | playerMovement i path =>
        have hstart : Member { w with walked := i :: w.walked } := ⟨h.player, h.npc, h.free⟩
        exact Except.ok.inj hw ▸ MemberBut.playerProcessMovement hstart rfl path
    | npcCombat j t => exact steady.npcProcessCombat h hw
    | npcMovement j t => exact h.npcProcessMovement hw
    | api a => exact h.runApi hsafe hw
    | hookReturn result c => exact h.hookReturn hsafe hw
    | findPlayers zone shown max => exact Except.ok.inj hw ▸ h.findPlayers zone shown max
    | findNpcs zone shown max => exact Except.ok.inj hw ▸ h.findNpcs zone shown max
    | endTick regen => exact Except.ok.inj hw ▸ h.endTick regen
    | _ => exact absurd rfl he

theorem start (hw : Fresh w) : Member w := by
  obtain ⟨x, y, rfl⟩ := hw
  refine ⟨fun i p hp => ?_, fun j n hn => ?_, fun j _ => ?_⟩
  · cases hp
  · cases hn
  · exact Listed.nowhere_iff.2 fun zone => List.not_mem_nil

end Member

/-- In every run whose steps meet the condition the zones' lists are right: who
is logged in and every NPC is in its zone's once, and in no other. -/
theorem zone_member {tr : List (World × Event)} {w : World} (hrun : Run Fresh step tr w)
    (hsafe : ∀ x ∈ tr, ZoneSafe x.1 x.2) :
    ∀ c ∈ statesOf tr w,
      (∀ i p, c.players i = some p → p.loginOk = true →
        Listed c.zonePlayers i (zoneOf p.mob)) ∧
      ∀ j n, c.npcs j = some n → Listed c.zoneNpcs j (zoneOf n.mob) := by
  intro c hc
  obtain ⟨tr', hpre, hrun'⟩ := hrun.reaches hc
  have hmember : Member c := by
    refine hrun'.invariant (fun _ => Member.start) ?_ fun x hx => hsafe x (hpre.subset hx)
    intro s e s' hs hsafe hstep
    unfold step at hstep
    split at hstep
    · exact hs.run hsafe hstep
    · cases hstep
  exact ⟨hmember.player, hmember.npc⟩

/-- A player logs in at the edge of a zone, next to a chicken. -/
def atEdge : List Event :=
  [.connect, .login 0 ⟨5, 47, 10, 10, false, true, none⟩, .api (.addNpc chicken 48 10)]

/-- It walks into the chicken's zone. -/
theorem zone_member_walk : ∃ tr w, exec step {} (atEdge ++
    [.walkTile 0 [(48, 11)], .playerMovement 0 {}]) = .ok (tr, w) ∧
    ∀ c ∈ statesOf tr w,
      (∀ i p, c.players i = some p → p.loginOk = true →
        Listed c.zonePlayers i (zoneOf p.mob)) ∧
      ∀ j n, c.npcs j = some n → Listed c.zoneNpcs j (zoneOf n.mob) := by
  have hrun : Run Fresh step _ _ := Run.of_exec (atEdge ++
    [.walkTile 0 [(48, 11)], .playerMovement 0 {}]) ⟨0, 0, rfl⟩ rfl
  refine ⟨_, _, rfl, zone_member hrun ?_⟩
  intro x hx
  simp only [List.mem_cons, List.not_mem_nil, or_false] at hx
  rcases hx with rfl | rfl | rfl | rfl | rfl
  · trivial
  · exact fun _ _ _ _ _ => ⟨fun _ => List.not_mem_nil, fun hfirst => by cases hfirst⟩
  · rfl
  · trivial
  · trivial

/-- A script takes it up one level instead, and it is still listed below. -/
theorem level_up_unlisted : ¬ ∀ (tr : List (World × Event)) (w : World),
    Run Fresh step tr w → ∀ i p, w.players i = some p → p.loginOk = true →
      Listed w.zonePlayers i (zoneOf p.mob) := by
  intro hall
  have hrun : Run Fresh step _ _ :=
    Run.of_exec (atEdge ++ [.api (.changeLevelUp 0)]) ⟨0, 0, rfl⟩ rfl
  have hlisted := hall _ _ hrun 0 _ rfl rfl ⟨5, 1, 0⟩
  exact absurd hlisted (by decide)

end Sundae.Proofs
