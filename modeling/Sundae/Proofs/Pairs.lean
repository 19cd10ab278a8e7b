import Sundae.Lib.Pairing
import Sundae.Proofs.Kept

/-!
# Who fights whom

Of a mob only its fight is looked at here: whether it is in one, and its two
targets. Most functions leave every fight alone, and most of the others end
fights, which does no harm as long as both sides let go; a mob that is in no
fight may still have a target that is, and ending that one's fight does.
-/

namespace Sundae.Proofs

open Sundae.Lib Sundae.Ref.World
open Sundae.Ref (World Zone serverFindZone)

/-- One has the other as target. -/
def Fight.Targets (f : Fight) : MobRef → Prop
  | .player i => f.targetPlayer = some i
  | .npc j => f.targetNpc = some j

theorem targets_player {b : Bool} {i : Nat} (a : MobRef) :
    Fight.Targets ⟨b, some i, none⟩ a ↔ a = .player i := by
  cases a with
  | player k => simp [Fight.Targets, eq_comm]
  | npc k => simp [Fight.Targets]

theorem targets_npc {b : Bool} {j : Nat} (a : MobRef) :
    Fight.Targets ⟨b, none, some j⟩ a ↔ a = .npc j := by
  cases a with
  | player k => simp [Fight.Targets]
  | npc k => simp [Fight.Targets, eq_comm]

/-- Fights, as engagements between mobs. No NPC has an NPC as target. -/
def duel : Engagement MobRef Fight where
  engaged f := f.inCombat
  names f r := f.Targets r
  ok r f := r.isNpc = true → f.targetNpc = none

/-- `mob_combat_reset` -/
def Fight.rest : Fight := ⟨false, none, none⟩

/-- Every mob's fight. -/
def view (w : World) (r : MobRef) : Option Fight := (w.mob? r).map fightOf

/-- Who is in combat has a target that is in combat with it. -/
def Duel (w : World) : Prop := duel.Paired (view w)

/-- A mob that is not in combat, or not there. -/
def AtPeace (w : World) (r : MobRef) : Prop := ∀ m, w.mob? r = some m → m.inCombat = false

/-- A mob that is in combat, or has no target that is. -/
def Loose (w : World) (r : MobRef) : Prop :=
  AtPeace w r → ∀ m, w.mob? r = some m → ∀ q, (fightOf m).Targets q → AtPeace w q

theorem idle_iff {w : World} {r : MobRef} : duel.Idle (view w) r ↔ AtPeace w r := by
  unfold Engagement.Idle AtPeace view
  constructor
  · intro h m hm
    exact h (fightOf m) (by rw [hm]; rfl)
  · intro h f hf
    obtain ⟨m, hm, rfl⟩ := Option.map_eq_some_iff.1 hf
    exact h m hm

theorem view_some {w : World} {r : MobRef} {m : Mob} (hm : w.mob? r = some m) :
    view w r = some (fightOf m) := by
  rw [view, hm]
  rfl

theorem AtPeace.congr {w w' : World} {r : MobRef} (h : AtPeace w r) (heq : view w' r = view w r) :
    AtPeace w' r :=
  idle_iff.1 ((idle_iff.2 h).congr heq)

theorem AtPeace.of_mob {w : World} {r : MobRef} {m : Mob} (hm : w.mob? r = some m)
    (hout : m.inCombat = false) : AtPeace w r := by
  intro m' hm'
  rwa [← Option.some.inj (hm.symm.trans hm')]

theorem not_atPeace {w : World} {r : MobRef} {m : Mob} (hm : w.mob? r = some m)
    (hin : m.inCombat = true) : ¬ AtPeace w r := by
  intro h
  rw [h m hm] at hin
  cases hin

theorem Loose.of_combat {w : World} {r : MobRef} {m : Mob} (hm : w.mob? r = some m)
    (hin : m.inCombat = true) : Loose w r :=
  fun h => absurd h (not_atPeace hm hin)

theorem Loose.congr {w w' : World} {r : MobRef} (h : Loose w r) (heq : view w' = view w) :
    Loose w' r := by
  have hpeace : ∀ s, AtPeace w' s ↔ AtPeace w s := fun s => by
    rw [← idle_iff, heq, idle_iff]
  intro hr m hm q hq
  have hsome : view w r = some (fightOf m) := by
    rw [← heq]
    exact view_some hm
  obtain ⟨m₀, hm₀, hfight⟩ := Option.map_eq_some_iff.1 hsome
  exact (hpeace q).2 (h ((hpeace r).1 hr) m₀ hm₀ q (hfight ▸ hq))

/-! ## Writes -/

section Writes

variable {w : World} {r s : MobRef}

theorem view_modify {f : Mob → Mob} {g : Fight → Fight} (hf : ∀ m, fightOf (f m) = g (fightOf m)) :
    view (w.modify r f) s = if s = r then (view w s).map g else view w s := by
  unfold view
  rw [mob?_modify]
  split
  · rw [Option.map_map, Option.map_map]
    congr 1
    exact funext hf
  · rfl

theorem view_same {f : Mob → Mob} (hf : ∀ m, fightOf (f m) = fightOf m) :
    view (w.modify r f) = view w := by
  funext s
  rw [view_modify (g := id) hf]
  split
  · exact Option.map_id_apply
  · rfl

theorem view_modifyPlayer {i : Nat} {f : Player → Player}
    (hf : ∀ p, fightOf (f p).mob = fightOf p.mob) : view (w.modifyPlayer i f) = view w :=
  funext fun s => map_mob?_modifyPlayer w i s hf

theorem view_modifyNpc {j : Nat} {f : Npc → Npc} (hf : ∀ n, fightOf (f n).mob = fightOf n.mob) :
    view (w.modifyNpc j f) = view w := by
  funext s
  cases s with
  | player i => rfl
  | npc k =>
      rw [view, view, mob?_npc, mob?_npc, npcs_modifyNpc]
      split
      · simp only [Option.map_map]
        congr 1
        exact funext hf
      · rfl

theorem modifyPlayer_congr {i : Nat} {f g : Player → Player}
    (h : ∀ p, w.players i = some p → f p = g p) : w.modifyPlayer i f = w.modifyPlayer i g := by
  unfold World.modifyPlayer
  congr 1
  funext k
  split
  · next hk =>
    subst hk
    cases hp : w.players k with
    | none => rfl
    | some p => exact congrArg some (h p hp)
  · rfl

theorem modifyNpc_congr {j : Nat} {f g : Npc → Npc} (h : ∀ n, w.npcs j = some n → f n = g n) :
    w.modifyNpc j f = w.modifyNpc j g := by
  unfold World.modifyNpc
  congr 1
  funext k
  split
  · next hk =>
    subst hk
    cases hn : w.npcs k with
    | none => rfl
    | some n => exact congrArg some (h n hn)
  · rfl

/-- Only what a write does to the mob that is there counts. -/
theorem modify_congr {f g : Mob → Mob} (h : ∀ m, w.mob? r = some m → f m = g m) :
    w.modify r f = w.modify r g := by
  cases r with
  | player i =>
      refine modifyPlayer_congr fun p hp => ?_
      rw [h p.mob (by rw [mob?_player, hp]; rfl)]
  | npc j =>
      refine modifyNpc_congr fun n hn => ?_
      rw [h n.mob (by rw [mob?_npc, hn]; rfl)]

/-- Nothing but the mobs matters. -/
theorem view_tables {w' : World} (hplayers : w'.players = w.players) (hnpcs : w'.npcs = w.npcs) :
    view w' = view w := by
  funext s
  cases s with
  | player i => rw [view, view, mob?_player, mob?_player, hplayers]
  | npc j => rw [view, view, mob?_npc, mob?_npc, hnpcs]

theorem view_changeZone {remove add : World → Zone → World}
    (hremove : ∀ w zone, view (remove w zone) = view w)
    (hadd : ∀ w zone, view (add w zone) = view w) (old new : Option Zone) :
    view (changeZone remove add w old new) = view w := by
  unfold changeZone
  split
  · rfl
  · cases old with
    | none =>
        cases new with
        | none => rfl
        | some new => exact hadd w new
    | some old =>
        cases new with
        | none => exact hremove w old
        | some new => exact (hadd _ new).trans (hremove w old)

theorem view_playerZones (i : Nat) (old new : Option Zone) :
    view (changeZone (fun w zone => w.zoneRemovePlayer zone i)
      (fun w zone => w.zoneAddPlayer zone i) w old new) = view w := by
  refine view_changeZone (fun w zone => ?_) (fun w zone => ?_) old new
  · exact view_tables rfl rfl
  · exact view_tables rfl rfl

theorem view_npcZones (j : Nat) (old new : Option Zone) :
    view (changeZone (fun w zone => w.zoneRemoveNpc zone j)
      (fun w zone => w.zoneAddNpc zone j) w old new) = view w := by
  refine view_changeZone (fun w zone => ?_) (fun w zone => ?_) old new
  · exact view_tables rfl rfl
  · exact view_tables rfl rfl

theorem view_playerMoved (w : World) (i fromX fromY : Nat) :
    view (playerMoved w i fromX fromY) = view w := by
  unfold playerMoved
  split
  · rfl
  · next p _ =>
    have hzones := view_playerZones (w := w) i (serverFindZone fromX fromY)
      (serverFindZone p.mob.x p.mob.y)
    dsimp only
    split
    · exact hzones
    · split
      · exact hzones
      · split
        · exact hzones
        · refine (view_modifyPlayer fun _ => ?_).trans hzones
          rfl

/-- A light write leaves every fight alone. -/
theorem kept_view (v : MobRef → Option Fight) : Kept fun w => view w = v where
  light h hf := (view_same fun m => (hf m).fight).trans h
  modifyPlayer h hf := (view_modifyPlayer fun p => (hf p).2.fight).trans h
  modifyNpc h hf := (view_modifyNpc fun n => (hf n).2.2.2.2.fight).trans h
  push h _ := h

theorem view_light {f : Mob → Mob} (hf : ∀ m, Light m (f m)) : view (w.modify r f) = view w :=
  view_same fun m => (hf m).fight

end Writes

/-! ## Fights that end -/

namespace Duel

variable {w w' : World} {r s : MobRef}

theorem congr (h : Duel w) (heq : view w' = view w) : Duel w' := by
  unfold Duel
  rw [heq]
  exact h

theorem kept : Kept Duel where
  light h hf := h.congr (view_light hf)
  modifyPlayer h hf := h.congr (view_modifyPlayer fun p => (hf p).2.fight)
  modifyNpc h hf := h.congr (view_modifyNpc fun n => (hf n).2.2.2.2.fight)
  push h _ := h.congr (view_tables rfl rfl)

/-- A write to a mob that is at peace and stays so. -/
theorem write {f : Mob → Mob} {g : Fight → Fight} (h : Duel w)
    (hf : ∀ m, fightOf (f m) = g (fightOf m)) (hpeace : AtPeace w r)
    (hg : ∀ a, a.inCombat = false → (g a).inCombat = false)
    (hok : r.isNpc = true → ∀ a, a.targetNpc = none → (g a).targetNpc = none) :
    Duel (w.modify r f) := by
  have hat : ∀ a, view (w.modify r f) r = some a → ∃ a₀, view w r = some a₀ ∧ a = g a₀ := by
    intro a ha
    rw [view_modify hf, if_pos rfl] at ha
    obtain ⟨a₀, ha₀, rfl⟩ := Option.map_eq_some_iff.1 ha
    exact ⟨a₀, ha₀, rfl⟩
  refine h.ends (.write (fun c hc => ?_) (idle_iff.2 hpeace) (fun a ha => ?_) fun a ha hnpc => ?_)
  · rw [view_modify hf, if_neg hc]
  · obtain ⟨a₀, ha₀, rfl⟩ := hat a ha
    exact hg a₀ (idle_iff.2 hpeace a₀ ha₀)
  · obtain ⟨a₀, ha₀, rfl⟩ := hat a ha
    exact hok hnpc a₀ (h.ok r a₀ ha₀ hnpc)

/-- `mob_combat_reset` of a mob that is at peace. -/
theorem reset {f : Mob → Mob} (h : Duel w) (hf : ∀ m, fightOf (f m) = Fight.rest)
    (hpeace : AtPeace w r) : Duel (w.modify r f) :=
  h.write (g := fun _ => Fight.rest) hf hpeace (fun _ _ => rfl) fun _ _ _ => rfl

/-- Who has a target that is at peace is at peace. -/
theorem peace_of_target (h : Duel w) {m : Mob} (hm : w.mob? r = some m)
    (htarget : (fightOf m).Targets s) (hs : AtPeace w s) : AtPeace w r :=
  idle_iff.1 (h.idle_of_names (view_some hm) htarget (idle_iff.2 hs))

/-- Who is in combat fights its target. -/
theorem opponent (h : Duel w) {m : Mob} (hm : w.mob? r = some m) (hin : m.inCombat = true)
    (htarget : (fightOf m).Targets s) :
    duel.Faces (view w) r s ∧ duel.Faces (view w) s r := by
  obtain ⟨b, hrb, hbr⟩ := h.pair r _ (view_some hm) hin
  obtain ⟨f, hf, -, honly⟩ := id hrb
  obtain rfl := Option.some.inj ((view_some hm).symm.trans hf)
  obtain rfl := (honly s).1 htarget
  exact ⟨hrb, hbr⟩

theorem faces_mob (h : duel.Faces (view w) r s) :
    ∃ m, w.mob? r = some m ∧ m.inCombat = true ∧ (fightOf m).Targets s := by
  obtain ⟨f, hf, hin, honly⟩ := h
  obtain ⟨m, hm, rfl⟩ := Option.map_eq_some_iff.1 hf
  exact ⟨m, hm, hin, (honly s).2 rfl⟩

/-- The opponent of a mob in combat is there, and in combat with it. -/
theorem target_fights (h : Duel w) {m : Mob} (hm : w.mob? r = some m) (hin : m.inCombat = true)
    (htarget : (fightOf m).Targets s) :
    ∃ n, w.mob? s = some n ∧ n.inCombat = true ∧ (fightOf n).Targets r :=
  faces_mob (h.opponent hm hin htarget).2

end Duel

/-! ## Letting go of both sides -/

section Release

variable {w : World} {r : MobRef}

/-- The mob at one place reset. -/
def resetAt (v : MobRef → Option Fight) (s : MobRef) : MobRef → Option Fight :=
  fun a => if a = s then (v a).map fun _ => Fight.rest else v a

theorem view_resetAt {s : MobRef} {f : Mob → Mob} (hf : ∀ m, fightOf (f m) = Fight.rest) :
    view (w.modify s f) = resetAt (view w) s :=
  funext fun _ => view_modify (g := fun _ => Fight.rest) hf

/-- The one that a target field names reset. -/
def resetNamed (v : MobRef → Option Fight) (place : Nat → MobRef) :
    Option Nat → MobRef → Option Fight
  | some k => resetAt v (place k)
  | none => v

/-- The targets of one, and then the one itself. -/
def releaseAt (v : MobRef → Option Fight) (r : MobRef) : MobRef → Option Fight :=
  let v₁ := resetNamed v .player ((v r).bind Fight.targetPlayer)
  let v₂ := resetNamed v₁ .npc ((v₁ r).bind Fight.targetNpc)
  resetAt v₂ r

theorem view_targetPlayer (w : World) (r : MobRef) :
    (w.mob? r).bind Mob.targetPlayer = (view w r).bind Fight.targetPlayer := by
  unfold view
  cases w.mob? r with
  | none => rfl
  | some m => rfl

theorem view_targetNpc (w : World) (r : MobRef) :
    (w.mob? r).bind Mob.targetNpc = (view w r).bind Fight.targetNpc := by
  unfold view
  cases w.mob? r with
  | none => rfl
  | some m => rfl

theorem view_release {f g : Mob → Mob} (hg : ∀ m, fightOf (g m) = Fight.rest) :
    view ((w.resetTargets r f).modify r g) = releaseAt (view w) r := by
  have hnamed : ∀ (w : World) (place : Nat → MobRef) (o : Option Nat),
      view (match o with
        | some k => w.modify (place k) fun m => (f m).combatReset
        | none => w) = resetNamed (view w) place o := by
    intro w place o
    cases o with
    | none => rfl
    | some k => exact view_resetAt fun _ => rfl
  rw [view_resetAt hg, releaseAt]
  congr 1
  unfold World.resetTargets
  refine (hnamed _ .npc _).trans ?_
  rw [view_targetNpc, view_targetPlayer]
  cases (view w r).bind Fight.targetPlayer with
  | none => rfl
  | some i =>
      dsimp only
      rw [hnamed w .player (some i)]

theorem resetAt_self (v : MobRef → Option Fight) (s : MobRef) :
    resetAt v s s = (v s).map fun _ => Fight.rest := if_pos rfl

theorem resetAt_ne {v : MobRef → Option Fight} {s a : MobRef} (h : a ≠ s) :
    resetAt v s a = v a := if_neg h

theorem resetNamed_cases (v : MobRef → Option Fight) (place : Nat → MobRef) (o : Option Nat)
    (a : MobRef) : resetNamed v place o a = v a ∨
      (∃ k, o = some k ∧ a = place k) ∧ resetNamed v place o a = (v a).map fun _ => Fight.rest := by
  cases o with
  | none => exact .inl rfl
  | some k =>
      by_cases ha : a = place k
      · subst ha
        exact .inr ⟨⟨k, rfl, rfl⟩, resetAt_self v _⟩
      · exact .inl (resetAt_ne ha)

theorem resetNamed_named (v : MobRef → Option Fight) (place : Nat → MobRef) (k : Nat) :
    resetNamed v place (some k) (place k) = (v (place k)).map fun _ => Fight.rest :=
  resetAt_self v _

theorem map_rest_rest (o : Option Fight) :
    (o.map fun _ => Fight.rest).map (fun _ => Fight.rest) = o.map fun _ => Fight.rest := by
  cases o with
  | none => rfl
  | some f => rfl

theorem resetNamed_map (v : MobRef → Option Fight) (place : Nat → MobRef) (o : Option Nat)
    (a : MobRef) : (resetNamed v place o a).map (fun _ => Fight.rest) =
      (v a).map fun _ => Fight.rest := by
  rcases resetNamed_cases v place o a with heq | ⟨-, heq⟩
  · rw [heq]
  · rw [heq, map_rest_rest]

/-- Resetting a mob's targets and the mob itself lets go of its opponent, if it
has one, on both sides. -/
theorem releases_at (v : MobRef → Option Fight) (r : MobRef) :
    duel.Releases v (releaseAt v r) (fun _ => Fight.rest) r := by
  have hsecond : ∀ j, (resetNamed v .player ((v r).bind Fight.targetPlayer) r).bind
      Fight.targetNpc = some j → (v r).bind Fight.targetNpc = some j := by
    intro j hj
    rcases resetNamed_cases v .player ((v r).bind Fight.targetPlayer) r with heq | ⟨-, heq⟩
    · rwa [heq] at hj
    · rw [heq] at hj
      cases hv : v r with
      | none =>
          rw [hv] at hj
          cases hj
      | some f =>
          rw [hv] at hj
          cases hj
  have hnames : ∀ {π : Fight → Option Nat} {k : Nat}, (v r).bind π = some k →
      ∃ f, v r = some f ∧ π f = some k := fun h => Option.bind_eq_some_iff.1 h
  refine ⟨?_, fun a ha => ?_, fun b hb hrb => ?_⟩
  · rw [releaseAt, resetAt_self, resetNamed_map, resetNamed_map]
  · rw [releaseAt, resetAt_ne ha]
    rcases resetNamed_cases (resetNamed v .player ((v r).bind Fight.targetPlayer)) .npc
      ((resetNamed v .player ((v r).bind Fight.targetPlayer) r).bind Fight.targetNpc) a with
      heq | ⟨⟨j, hj, rfl⟩, heq⟩
    · rw [heq]
      rcases resetNamed_cases v .player ((v r).bind Fight.targetPlayer) a with
        heq' | ⟨⟨i, hi, rfl⟩, heq'⟩
      · exact .inl heq'
      · exact .inr ⟨heq', hnames hi⟩
    · rw [heq, resetNamed_map]
      exact .inr ⟨rfl, hnames (hsecond j hj)⟩
  · obtain ⟨f, hf, -, honly⟩ := hrb
    rw [releaseAt, resetAt_ne hb]
    cases b with
    | player i =>
        have hi : (v r).bind Fight.targetPlayer = some i := by
          rw [hf]
          exact (honly (.player i)).2 rfl
        rcases resetNamed_cases (resetNamed v .player ((v r).bind Fight.targetPlayer)) .npc
          ((resetNamed v .player ((v r).bind Fight.targetPlayer) r).bind Fight.targetNpc)
          (.player i) with heq | ⟨⟨j, -, hj⟩, -⟩
        · rw [heq, hi]
          exact resetNamed_named v .player i
        · cases hj
    | npc j =>
        have hnone : (v r).bind Fight.targetPlayer = none := by
          rw [hf]
          cases htarget : f.targetPlayer with
          | none => exact htarget
          | some i =>
              have hi := (honly (.player i)).1 htarget
              cases hi
        have hj : (v r).bind Fight.targetNpc = some j := by
          rw [hf]
          exact (honly (.npc j)).2 rfl
        rw [hnone]
        dsimp only [resetNamed]
        rw [hj]
        exact resetNamed_named v .npc j

end Release

namespace Duel

variable {w : World} {r s : MobRef}

theorem release (h : Duel w) (hloose : Loose w r) {f g : Mob → Mob}
    (hg : ∀ m, fightOf (g m) = Fight.rest) : Duel ((w.resetTargets r f).modify r g) := by
  unfold Duel
  rw [view_release hg]
  refine h.ends ((releases_at (view w) r).ends (fun _ => rfl) (fun _ _ _ => rfl) h ?_)
  intro hidle a ha b hb
  obtain ⟨m, hm, rfl⟩ := Option.map_eq_some_iff.1 ha
  exact idle_iff.2 (hloose (idle_iff.1 hidle) m hm b hb)

/-- Two that fight each other, reset one after the other. -/
theorem part (h : Duel w) {m : Mob} (hm : w.mob? r = some m) (hin : m.inCombat = true)
    (htarget : (fightOf m).Targets s) {f g : Mob → Mob} (hf : ∀ m, fightOf (f m) = Fight.rest)
    (hg : ∀ m, fightOf (g m) = Fight.rest) : Duel ((w.modify s f).modify r g) := by
  obtain ⟨hrs, hsr⟩ := h.opponent hm hin htarget
  have hview : view ((w.modify s f).modify r g) = resetAt (resetAt (view w) s) r := by
    rw [view_resetAt hg, view_resetAt hf]
  have hrest : ∀ a, a = r ∨ a = s → ∀ x, view ((w.modify s f).modify r g) a = some x →
      x = Fight.rest := by
    intro a ha x hx
    rw [hview] at hx
    have hmap : resetAt (resetAt (view w) s) r a = (view w a).map fun _ => Fight.rest := by
      unfold resetAt
      rcases ha with rfl | rfl
      · rw [if_pos rfl]
        split
        · exact map_rest_rest _
        · rfl
      · rw [if_pos rfl]
        split
        · exact map_rest_rest _
        · rfl
    obtain ⟨_, _, rfl⟩ := Option.map_eq_some_iff.1 (hmap.symm.trans hx)
    rfl
  refine h.ends (.part hrs hsr (fun c hcr hcs => ?_) ?_ ?_ ?_ ?_)
  · rw [hview, resetAt_ne hcr, resetAt_ne hcs]
  · intro x hx
    rw [hrest r (.inl rfl) x hx]
    rfl
  · intro x hx
    rw [hrest s (.inr rfl) x hx]
    rfl
  · intro x hx
    rw [hrest r (.inl rfl) x hx]
    exact fun _ => rfl
  · intro x hx
    rw [hrest s (.inr rfl) x hx]
    exact fun _ => rfl

end Duel

/-! ## Mobs without targets -/

/-- A mob in no fight and without targets, or one that is not there. -/
def Resting (w : World) (r : MobRef) : Prop := ∀ f, view w r = some f → f = Fight.rest

namespace Resting

variable {w w' : World} {r : MobRef}

theorem congr (h : Resting w r) (heq : view w' = view w) : Resting w' r := by
  unfold Resting
  rw [heq]
  exact h

theorem reset {f : Mob → Mob} (hf : ∀ m, fightOf (f m) = Fight.rest) : Resting (w.modify r f) r := by
  intro a ha
  rw [view_resetAt hf, resetAt_self] at ha
  obtain ⟨_, _, rfl⟩ := Option.map_eq_some_iff.1 ha
  rfl

theorem peace (h : Resting w r) : AtPeace w r :=
  fun _ hm => congrArg Fight.inCombat (h _ (view_some hm))

theorem loose (h : Resting w r) : Loose w r := by
  intro _ m hm q hq
  rw [h _ (view_some hm)] at hq
  cases q with
  | player i => cases hq
  | npc j => cases hq

end Resting

end Sundae.Proofs
