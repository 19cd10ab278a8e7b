import Sundae.Proofs.Combat
import Sundae.Proofs.Duel

/-!
# Two to a fight

Who is in combat is in combat with somebody who is in combat with it, in every
run in which nobody is reset, shot dead, sent away or removed whose target, or
whose attacker, goes on fighting alone.
-/

namespace Sundae.Proofs

open Sundae.Lib Sundae.Ref.World
open Sundae.Ref (World Zone serverFindZone)

theorem AtPeace.modify {w : World} {r s : MobRef} {f : Mob → Mob} (h : AtPeace w r)
    (hf : ∀ m, (f m).inCombat = true → m.inCombat = true) : AtPeace (w.modify s f) r := by
  intro m hm
  rw [mob?_modify] at hm
  split at hm
  · obtain ⟨m₀, hm₀, rfl⟩ := Option.map_eq_some_iff.1 hm
    cases hin : (f m₀).inCombat with
    | false => rfl
    | true =>
        have hout := h m₀ hm₀
        rw [hf m₀ hin] at hout
        cases hout
  · exact h m hm

namespace Duel

variable {w : World}

/-! ## npc.c -/

theorem npcRetreat (h : Duel w) (j : Nat) (t : NpcTurn) : Duel (npcRetreat w j t) := by
  unfold Ref.World.npcRetreat
  refine kept.light ?_ fun _ => .still rfl rfl rfl rfl rfl
  split
  · exact h
  · next n hn =>
    have hm : w.mob? (.npc j) = some n.mob := by rw [mob?_npc, hn]; rfl
    split
    · exact h
    · next i hi =>
      split
      · next hfight =>
        obtain ⟨m, hm', hin, htarget⟩ := h.target_fights (s := .player i) hm hfight.1 hi
        exact h.part hm' hin htarget (fun _ => rfl) fun _ => rfl
      · exact h

/-- Hunting takes a target away only from who is not in a fight with it. -/
theorem huntAmong {j : Nat} {n : Npc} (near : List Nat) (h : Duel w)
    (hpeace : AtPeace w (.npc j)) {w' : World} (hw : huntAmong w j n near = .ok w') : Duel w' := by
  induction near with
  | nil => exact Except.ok.inj hw ▸ h
  | cons i rest ih =>
      have hcatch : ∀ {w : World}, Duel w → AtPeace w (.npc j) →
          Duel ((w.modifyPlayer i fun p => { p with chasedByNpc := some j }).modify (.npc j)
            fun m => { m with targetPlayer := some i }) := by
        intro w h hpeace
        have hchase : view (w.modifyPlayer i fun p => { p with chasedByNpc := some j }) = view w :=
          view_modifyPlayer fun _ => rfl
        exact (h.congr hchase).setTargetPlayer (hpeace.congr (by rw [hchase])) (some i)
      rw [Ref.World.huntAmong] at hw
      split at hw
      · exact ih hw
      · next p hp =>
        split at hw
        · exact ih hw
        · next hout =>
          split at hw
          · exact ih hw
          · dsimp only at hw
            split at hw
            · exact Except.ok.inj hw ▸ hcatch h hpeace
            · next k _ =>
              split at hw
              · cases hw
              · next npc2 hnpc2 =>
                split at hw
                · exact ih hw
                · obtain rfl := Except.ok.inj hw
                  refine hcatch ?_ (hpeace.modify fun _ hin => hin)
                  have hm : w.mob? (.npc k) = some npc2.mob := by rw [mob?_npc, hnpc2]; rfl
                  have hprey : AtPeace w (.player i) := by
                    refine .of_mob (m := p.mob) ?_ (by simpa using hout)
                    rw [mob?_player, hp]
                    rfl
                  by_cases htarget : npc2.mob.targetPlayer = some i
                  · exact h.write (g := fun f => { f with
                      targetPlayer := if f.targetPlayer = some i then none else f.targetPlayer })
                      (fun _ => rfl) (h.peace_of_target (s := .player i) hm htarget hprey)
                      (fun _ hout => hout) fun _ _ hnone => hnone
                  · rw [modify_congr (g := fun m => { m with followingPlayer := none })
                      fun m hm' => ?_]
                    · exact h.congr (view_same fun _ => rfl)
                    · obtain rfl := Option.some.inj (hm.symm.trans hm')
                      rw [if_neg htarget]

theorem npcHuntTarget (h : Duel w) {j : Nat} {t : NpcTurn} (hpeace : AtPeace w (.npc j))
    {w' : World} (hw : npcHuntTarget w j t = .ok w') : Duel w' := by
  unfold Ref.World.npcHuntTarget at hw
  split at hw
  · exact Except.ok.inj hw ▸ h
  · split at hw
    · exact Except.ok.inj hw ▸ h
    · split at hw
      · exact Except.ok.inj hw ▸ h
      · exact huntAmong t.nearby h hpeace hw

theorem npcWalk (h : Duel w) (j : Nat) (old : Option Zone) (t : NpcTurn) :
    Duel (npcWalk w j old t) := by
  have hwalk := h.mobProcessWalkQueue (.npc j) t.path
  unfold Ref.World.npcWalk
  dsimp only
  split
  · exact hwalk
  · exact hwalk.congr (view_npcZones j old _)

theorem npcProcessMovement (h : Duel w) {j : Nat} {t : NpcTurn} {w' : World}
    (hw : npcProcessMovement w j t = .ok w') : Duel w' := by
  have hqueue : ∀ {w : World} (old : Option Zone), Duel w → Duel (npcWalkQueue w j old t) :=
    fun old h => kept.npcWalkQueue (fun _ h => h) h fun _ h => h.npcWalk j old t
  unfold Ref.World.npcProcessMovement at hw
  split at hw
  · exact Except.ok.inj hw ▸ h
  · next n hn =>
    have hm : w.mob? (.npc j) = some n.mob := by rw [mob?_npc, hn]; rfl
    split at hw
    · exact Except.ok.inj hw ▸ h
    · dsimp only at hw
      split at hw
      · split at hw
        · cases hw
        · refine Except.ok.inj hw ▸ hqueue _ ?_
          split
          · exact kept.light h fun _ => .still rfl rfl rfl rfl rfl
          · exact h
      · next hout =>
        have hpeace : AtPeace w (.npc j) := .of_mob hm (by simpa using hout)
        split at hw
        · next i _ =>
          split at hw
          · refine Except.ok.inj hw ▸ kept.light h fun _ => ?_
            exact .still rfl rfl rfl rfl rfl
          · split at hw
            · have hchase : view (w.modifyPlayer i fun p => { p with chasedByNpc := none }) =
                  view w :=
                view_modifyPlayer fun _ => rfl
              refine Except.ok.inj hw ▸ Duel.write (g := fun f => { f with targetPlayer := none })
                (h.congr hchase) (fun _ => ?_) (hpeace.congr (by rw [hchase]))
                (fun _ hout => hout) fun _ _ hnone => hnone
              rfl
            · exact Except.ok.inj hw ▸ h.npcWalk j _ t
        · split at hw
          · cases hw
          · next w₁ hhunt =>
            have h₁ : Duel w₁ := by
              split at hhunt
              · exact h.npcHuntTarget hpeace hhunt
              · exact Except.ok.inj hhunt ▸ h
            exact Except.ok.inj hw ▸ hqueue _ (kept.npcWander h₁ j t)

theorem npcInitCombat (h : Duel w) {j : Nat} {n : Npc} (hn : w.npcs j = some n)
    (hout : n.mob.inCombat = false) (i : Nat) (target : Player) (t : NpcTurn) :
    Duel (npcInitCombat w j i n target t) := by
  have hm : w.mob? (.npc j) = some n.mob := by rw [mob?_npc, hn]; rfl
  unfold Ref.World.npcInitCombat
  split
  · have hchase : view (w.modifyPlayer i fun p => { p with chasedByNpc := none }) = view w :=
      view_modifyPlayer fun _ => rfl
    exact (h.congr hchase).reset (fun _ => rfl)
      ((AtPeace.of_mob hm hout).congr (by rw [hchase]))
  · have hwalk : Duel (w.modify (.npc j) fun m => { m with actionWalk := true }) :=
      kept.light h fun _ => .still rfl rfl rfl rfl rfl
    dsimp only
    split
    · exact kept.light hwalk fun _ => .still rfl rfl rfl rfl rfl
    · split
      · exact hwalk
      · exact hwalk.congr (view_tables rfl rfl)

theorem npcFight (h : Duel w) {i : Nat} (hlast : Loose w (.player i)) (j : Nat) (n : Npc)
    (t : NpcTurn) : Duel (npcFight w j i n t) := by
  have hview : view (w.modify (.npc j) fun m =>
      if !m.moved then { m with dir := .combatLeft } else m) = view w := by
    refine view_same fun m => ?_
    split
    · rfl
    · rfl
  unfold Ref.World.npcFight
  dsimp only
  split
  · exact (h.congr hview).npcRetreat j t
  · split
    · exact (h.congr hview).congr (view_same fun _ => rfl)
    · refine kept.light (kept.light (playerDamage (h.congr hview) none fun _ _ _ => ?_)
        fun _ => ?_) fun _ => ?_
      · exact hlast.congr hview
      · exact .still rfl rfl rfl rfl rfl
      · exact .still rfl rfl rfl rfl rfl

theorem npcProcessCombat (h : Duel w) {j : Nat} {t : NpcTurn} {w' : World}
    (hw : npcProcessCombat w j t = .ok w') : Duel w' := by
  unfold Ref.World.npcProcessCombat at hw
  split at hw
  · exact Except.ok.inj hw ▸ h
  · next n hn =>
    have hm : w.mob? (.npc j) = some n.mob := by rw [mob?_npc, hn]; rfl
    split at hw
    · exact Except.ok.inj hw ▸ h
    · next i hi =>
      split at hw
      · next hnone =>
        have hgone : AtPeace w (.player i) := by
          intro m hm
          rw [mob?_player, hnone] at hm
          cases hm
        exact Except.ok.inj hw ▸ h.reset (fun _ => rfl)
          (h.peace_of_target (s := .player i) hm hi hgone)
      · next target htarget =>
        split at hw
        · next hout =>
          exact Except.ok.inj hw ▸ h.npcInitCombat hn (by simpa using hout) i target t
        · split at hw
          · cases hw
          · next hfights =>
            have hlast : Loose w (.player i) := by
              refine .of_combat (m := target.mob) ?_ (by simpa using hfights)
              rw [mob?_player, htarget]
              rfl
            have hview : view ((w.modifyPlayer i fun p => { p with chasedByNpc := none }).modify
                (.npc j) fun m => { m with followingPlayer := none }) = view w := by
              refine (view_same fun _ => ?_).trans (view_modifyPlayer fun _ => ?_)
              · rfl
              · rfl
            dsimp only at hw
            split at hw
            · exact Except.ok.inj hw ▸ h.congr hview
            · exact Except.ok.inj hw ▸ (h.congr hview).npcFight (hlast.congr hview) j n t

/-! ## Entries that come and go -/

/-- A slot of a mob at peace is emptied, or filled with a mob without targets. -/
theorem put (h : Duel w) {w' : World} {r : MobRef} (hpeace : AtPeace w r)
    (hother : ∀ s, s ≠ r → w'.mob? s = w.mob? s)
    (hat : ∀ m, w'.mob? r = some m → fightOf m = Fight.rest) : Duel w' := by
  have hrest : ∀ f, view w' r = some f → f = Fight.rest := by
    intro f hf
    obtain ⟨m, hm, rfl⟩ := Option.map_eq_some_iff.1 hf
    exact hat m hm
  refine h.ends (.write (fun c hc => ?_) (idle_iff.2 hpeace) (fun f hf => ?_) fun f hf _ => ?_)
  · exact congrArg (Option.map fightOf) (hother c hc)
  · rw [hrest f hf]
    rfl
  · rw [hrest f hf]
    rfl

theorem playerCreate (h : Duel w) : Duel (playerCreate w) := by
  unfold Ref.World.playerCreate
  split
  · exact h
  · next i hslot =>
    have hempty : w.players i = none := by simpa using freeSlot_free hslot
    refine h.put (r := .player i) (fun m hm => ?_) (fun s hs => ?_) fun m hm => ?_
    · rw [mob?_player, hempty] at hm
      cases hm
    · cases s with
      | player k =>
          have hne : k ≠ i := fun hk => hs (by rw [hk])
          rw [mob?_player, mob?_player]
          dsimp only
          rw [if_neg hne]
      | npc k => rfl
    · rw [mob?_player] at hm
      dsimp only at hm
      rw [if_pos rfl] at hm
      obtain rfl := Option.some.inj hm
      rfl

theorem serverRemovePlayer (h : Duel w) {i : Nat}
    (hpeace : (w.players i).any Player.logoutConfirmed = true → AtPeace w (.player i)) :
    Duel (serverRemovePlayer w i) := by
  unfold Ref.World.serverRemovePlayer
  split
  · next hlogout =>
    refine h.put (hpeace hlogout) (fun s hs => ?_) fun m hm => ?_
    · cases s with
      | player k =>
          have hne : k ≠ i := fun hk => hs (by rw [hk])
          rw [mob?_player, mob?_player]
          dsimp only
          rw [if_neg hne]
      | npc k => rfl
    · rw [mob?_player] at hm
      dsimp only at hm
      rw [if_pos rfl] at hm
      cases hm
  · exact h

theorem serverAddNpc (h : Duel w) (config : NpcConfig) (x y : Nat) :
    Duel (serverAddNpc w config x y) := by
  unfold Ref.World.serverAddNpc
  split
  · exact h
  · next j hslot =>
    have hempty : w.npcs j = none := by simpa using freeSlot_free hslot
    have hnew : Duel { w with npcs := fun k => if k = j then some {
        mob := { x := x % 65536, y := y % 65536, hits := config.hits, baseHits := config.hits }
        config := config
        spawnX := x % 65536
        spawnY := y % 65536 } else w.npcs k } := by
      refine h.put (r := .npc j) (fun m hm => ?_) (fun s hs => ?_) fun m hm => ?_
      · rw [mob?_npc, hempty] at hm
        cases hm
      · cases s with
        | player k => rfl
        | npc k =>
            have hne : k ≠ j := fun hk => hs (by rw [hk])
            rw [mob?_npc, mob?_npc]
            dsimp only
            rw [if_neg hne]
      · rw [mob?_npc] at hm
        dsimp only at hm
        rw [if_pos rfl] at hm
        obtain rfl := Option.some.inj hm
        rfl
    dsimp only
    split
    · exact hnew
    · exact hnew.congr (view_tables rfl rfl)

theorem scriptDelnpc (h : Duel w) {j : Nat} (hpeace : AtPeace w (.npc j)) {w' : World}
    (hw : scriptDelnpc w j = .ok w') : Duel w' := by
  unfold Ref.World.scriptDelnpc at hw
  split at hw
  · exact Except.ok.inj hw ▸ h
  · split at hw
    · cases hw
    · obtain rfl := Except.ok.inj hw
      refine h.put hpeace (fun s hs => ?_) fun m hm => ?_
      · cases s with
        | player k => rfl
        | npc k =>
            have hne : k ≠ j := fun hk => hs (by rw [hk])
            rw [mob?_npc, mob?_npc]
            dsimp only
            rw [if_neg hne]
            rfl
      · rw [mob?_npc] at hm
        dsimp only at hm
        rw [if_pos rfl] at hm
        cases hm

end Duel

/-! ## From event to event -/

/-- The NPC whose attack hook returns still has the player as target, and neither
is in a fight. -/
def InitSafe (w : World) (j i : Nat) : Prop :=
  ∃ n p, w.npcs j = some n ∧ w.players i = some p ∧ n.mob.targetPlayer = some i ∧
    n.mob.inCombat = false ∧ p.mob.inCombat = false

/-- What a script does to a fight it does to both sides. -/
def ApiSafe (w : World) : Api → Prop
  | .npcAttack j i => ∀ n, w.npcs j = some n → n.mob.inCombat = true → n.mob.targetPlayer = some i
  | .subStat i damage => ∀ p, w.players i = some p → p.mob.hits ≤ damage → Loose w (.player i)
  | .npcSubStat j damage => ∀ n, w.npcs j = some n → n.mob.hits ≤ damage → Loose w (.npc j)
  | .shootPlayer i t projectile c =>
    (∀ p target, w.players i = some p → w.players t = some target →
      AimSafe p target.mob projectile target.protectFromMissiles c) ∧ ShotSafe w i t projectile c
  | .shootNpc i j projectile c => ∀ p target, w.players i = some p → w.npcs j = some target →
      AimSafe p target.mob projectile false c
  | .teleport i _ _ | .changeLevelDown i => Loose w (.player i)
  | .noDefault i => ∀ p j, w.players i = some p → p.mob.targetNpc = some j →
      p.mob.inCombat = true ∨ AtPeace w (.npc j)
  | .delNpc j => AtPeace w (.npc j)
  | _ => True

/-- No player leaves in a fight, and who is shot dead, dies in a script's hands
or is sent away takes nobody out of a fight it is not in. -/
def PairSafe (w : World) : Event → Prop
  | .remove i => (w.players i).any Player.logoutConfirmed = true → AtPeace w (.player i)
  | .playerCombat i c => ∀ p t projectile, w.players i = some p → p.mob.inCombat = false →
      p.mob.targetPlayer = some t → p.projectile = some projectile → c.wild = true →
      ShotSafe w i t projectile c
  | .api a => ApiSafe w a
  | .hookReturn result _ =>
    match w.frames with
    | .killNpc j i _ :: _ => ∀ n, w.npcs j = some n → ¬ (result = true ∧ 0 < n.mob.hits) →
        (w.players i).any Player.heldByScript = false → Loose w (.npc j)
    | .npcInit j i :: _ => InitSafe w j i
    | _ => True
  | _ => True

namespace Duel

variable {w : World}

theorem npcInitReturn (h : Duel w) {j i : Nat} (hsafe : InitSafe w j i) :
    Duel (npcInitReturn w j i) := by
  obtain ⟨n, p, hn, hp, hi, hnout, hpout⟩ := hsafe
  have hm : w.mob? (.npc j) = some n.mob := by rw [mob?_npc, hn]; rfl
  have hm' : w.mob? (.player i) = some p.mob := by rw [mob?_player, hp]; rfl
  have hfight : fightOf n.mob = ⟨false, some i, none⟩ := by
    rw [← hnout, ← hi, ← h.ok (.npc j) _ (view_some hm) rfl]
    rfl
  have hclear : view ((((w.modify (.npc j) Mob.clearQueue).modify (.player i)
      fun m => m.clearQueue.followNobody).modify (.npc j) Mob.followNobody).modifyPlayer i
      fun p => p.closeUi.clearActions) = view w := by
    refine (view_modifyPlayer fun _ => ?_).trans ((view_same fun _ => ?_).trans
      ((view_same fun _ => ?_).trans (view_same fun _ => ?_)))
    · rfl
    · rfl
    · rfl
    · rfl
  have hlast : ∀ s, view (Ref.World.npcInitReturn w j i) s =
      if s = .player i then (view w s).map fun _ => ⟨true, none, some j⟩
      else if s = .npc j then (view w s).map fun f => { f with inCombat := true }
      else view w s := by
    intro s
    unfold Ref.World.npcInitReturn
    dsimp only
    rw [view_modify (g := fun _ => ⟨true, none, some j⟩) fun _ => rfl,
      view_modify (g := fun f => { f with inCombat := true }) fun _ => rfl, hclear]
    split
    · next hs =>
      have hne : s ≠ .npc j := fun heq => by
        rw [hs] at heq
        cases heq
      rw [if_neg hne]
    · rfl
  refine h.begin_fight (f := ⟨true, none, some j⟩) (.of_mob hm' hpout) (.of_mob hm hnout)
    (fun a ha har => ?_) ?_ rfl targets_npc ?_
  · rw [hlast, if_neg ha, if_neg har]
  · rw [hlast, if_pos rfl, view_some hm']
    rfl
  · rw [hlast, if_neg (fun heq => by cases heq), if_pos rfl, view_some hm, hfight]
    rfl

theorem hookReturn (h : Duel w) {result : Bool} {c : Chance}
    (hsafe : PairSafe w (.hookReturn result c)) {w' : World}
    (hw : hookReturn w result c = .ok w') : Duel w' := by
  unfold Ref.World.hookReturn at hw
  split at hw
  · cases hw
  · next frame rest hframes =>
    have hpop : view { w with frames := rest } = view w := view_tables rfl rfl
    rw [PairSafe, hframes] at hsafe
    dsimp only at hw hsafe
    split at hw
    · refine Except.ok.inj hw ▸ (h.congr hpop).npcDieReturn fun n hn hfinal hfree => ?_
      exact (hsafe n hn hfinal hfree).congr hpop
    · exact Except.ok.inj hw ▸ (h.congr hpop).npcInitReturn hsafe
    · refine Except.ok.inj hw ▸ kept.npcTalkReturn (h.congr hpop) fun htalk _ _ _ _ _ _ => ?_
      refine mobProcessWalkQueue ?_ _ _
      exact htalk.congr (view_same fun _ => rfl)

theorem scriptNodefault (h : Duel w) {i : Nat} (hsafe : ApiSafe w (.noDefault i)) :
    Duel (scriptNodefault w i) := by
  unfold Ref.World.scriptNodefault
  split
  · exact h
  · next j hj =>
    obtain ⟨p, hp, htarget⟩ := Option.bind_eq_some_iff.1 hj
    have hm : w.mob? (.player i) = some p.mob := by rw [mob?_player, hp]; rfl
    by_cases hin : p.mob.inCombat = true
    · exact h.part (s := .npc j) hm hin htarget (fun _ => rfl) fun _ => rfl
    · have hpeace := (hsafe p j hp htarget).resolve_left hin
      have hown : AtPeace w (.player i) := .of_mob hm (by simpa using hin)
      refine Duel.reset (h.reset (fun _ => rfl) hpeace) (fun _ => rfl) (hown.modify fun _ hin' => ?_)
      cases hin'

theorem runApi (h : Duel w) {a : Api} (hsafe : ApiSafe w a) {w' : World}
    (hw : runApi w a = .ok w') : Duel w' := by
  cases a with
  | face i j => exact Except.ok.inj hw ▸ kept.scriptFace h i j
  | npcSay j => exact Except.ok.inj hw ▸ kept.scriptNpcsay h j
  | nearVisNpc i j => exact Except.ok.inj hw ▸ kept.scriptNearvisnpc h i j
  | npcAttack j i =>
      obtain rfl := Except.ok.inj hw
      by_cases hin : ∃ n, w.npcs j = some n ∧ n.mob.inCombat = true
      · obtain ⟨n, hn, hin⟩ := hin
        have hm : w.mob? (.npc j) = some n.mob := by rw [mob?_npc, hn]; rfl
        rw [modify_congr (g := id) fun m hm' => ?_]
        · exact h.congr (view_same fun _ => rfl)
        · obtain rfl := Option.some.inj (hm.symm.trans hm')
          rw [← hsafe n hn hin]
          rfl
      · refine h.setTargetPlayer (fun m hm => ?_) (some i)
        obtain ⟨n, hn, rfl⟩ := Option.map_eq_some_iff.1 hm
        cases hm : n.mob.inCombat with
        | false => rfl
        | true => exact absurd ⟨n, hn, hm⟩ hin
  | npcBusy j busy =>
      refine Except.ok.inj hw ▸ kept.modifyNpc h fun n => ?_
      exact ⟨rfl, rfl, rfl, rfl, .same n.mob⟩
  | playerBusy i busy =>
      refine Except.ok.inj hw ▸ kept.modifyPlayer h fun p => ?_
      exact ⟨rfl, .same p.mob⟩
  | multi i shown =>
      refine Except.ok.inj hw ▸ kept.modifyPlayer h fun p => ?_
      exact ⟨rfl, .same p.mob⟩
  | subStat i damage => exact Except.ok.inj hw ▸ h.playerDamage none hsafe
  | npcSubStat j damage => exact h.npcDamage (fun _ => hsafe) hw
  | npcAddStat j amount => exact Except.ok.inj hw ▸ h.congr (view_same fun _ => rfl)
  | setHits i hits => exact Except.ok.inj hw ▸ h.congr (view_same fun _ => rfl)
  | shootPlayer i t projectile c =>
      obtain rfl := Except.ok.inj hw
      split
      · exact h.playerShootPvp hsafe.1 hsafe.2
      · exact h
  | shootNpc i j projectile c =>
      rw [Ref.World.runApi] at hw
      split at hw
      · exact h.playerShootPvm hsafe hw
      · exact Except.ok.inj hw ▸ h
  | teleport i x y => exact Except.ok.inj hw ▸ h.playerTeleport hsafe x y
  | changeLevelUp i => exact Except.ok.inj hw ▸ h.congr (view_modifyPlayer fun _ => rfl)
  | changeLevelDown i =>
      obtain rfl := Except.ok.inj hw
      unfold scriptChangeleveldown
      split
      · exact h
      · exact h.playerTeleport hsafe _ _
  | noDefault i => exact Except.ok.inj hw ▸ h.scriptNodefault hsafe
  | addNpc config x y => exact Except.ok.inj hw ▸ h.serverAddNpc config x y
  | changeNpc j config =>
      refine Except.ok.inj hw ▸ kept.modifyNpc h fun n => ?_
      exact ⟨rfl, rfl, rfl, rfl, .same n.mob⟩
  | delNpc j => exact h.scriptDelnpc hsafe hw

/-- A player in a fight has to get out of it before it walks. -/
theorem opWalkTile (h : Duel w) (i : Nat) (queue : List (Nat × Nat)) :
    Duel (opWalkTile w i queue) := by
  unfold Ref.World.opWalkTile
  split
  · exact h
  · next p hp =>
    have hm : w.mob? (.player i) = some p.mob := by rw [mob?_player, hp]; rfl
    split
    · exact h
    · split
      · exact h
      · next w₁ hretreat =>
        have hready : Duel w₁ ∧ AtPeace w₁ (.player i) := by
          split at hretreat
          · next hin =>
            obtain ⟨h₁, hrest⟩ := h.playerRetreat hp hin hretreat
            exact ⟨h₁, hrest.peace⟩
          · next hout =>
            obtain rfl := Option.some.inj hretreat
            exact ⟨h, .of_mob hm (by simpa using hout)⟩
        have hstart : view ((w₁.modify (.player i) fun m => m.putQueue queue).modifyPlayer i
            Player.closeUi) = view w₁ := by
          refine (view_modifyPlayer fun _ => ?_).trans (view_same fun _ => ?_)
          · rfl
          · rfl
        refine kept.light ?_ fun m => Kept.light_startWalk m queue false
        refine kept.modifyPlayer ?_ fun _ => ⟨rfl, .still rfl rfl rfl rfl rfl⟩
        exact Duel.write (g := fun f => { f with targetNpc := none, targetPlayer := none })
          (hready.1.congr hstart) (fun _ => rfl) (hready.2.congr (by rw [hstart]))
          (fun _ hout => hout) fun _ _ _ => rfl

theorem playerLogin (h : Duel w) (i : Nat) (l : Login) : Duel (playerLogin w i l) := by
  unfold Ref.World.playerLogin
  split
  · exact h
  · split
    · exact h
    · have hload : Duel (Ref.World.playerMoved (w.modifyPlayer i fun p => { p with
          name := l.name
          projectile := l.projectile
          mob := { p.mob with x := l.x, y := l.y, hits := l.hits, baseHits := l.hits } })
          i 65535 65535) := by
        refine playerMoved ?_ i 65535 65535
        exact h.congr (view_modifyPlayer fun _ => rfl)
      dsimp only
      split
      · exact kept.modifyPlayer hload fun p => ⟨rfl, .same p.mob⟩
      · refine Duel.congr ?_ (view_modifyPlayer fun _ => rfl)
        split
        · exact hload.congr (view_same fun _ => rfl)
        · exact hload

theorem endTick (h : Duel w) (regen : Nat → Bool) : Duel (endTick w regen) := by
  refine h.congr (funext fun s => ?_)
  unfold view
  cases s with
  | player i =>
      rw [mob?_player, mob?_player]
      unfold Ref.World.endTick
      simp only [Option.map_map]
      rfl
  | npc j =>
      rw [mob?_npc, mob?_npc]
      unfold Ref.World.endTick
      simp only [Option.map_map]
      rfl

theorem run (h : Duel w) {e : Event} (hsafe : PairSafe w e) {w' : World}
    (hw : run w e = .ok w') : Duel w' := by
  cases e with
  | connect => exact Except.ok.inj hw ▸ h.playerCreate
  | login i l => exact Except.ok.inj hw ▸ h.playerLogin i l
  | logout i =>
      refine Except.ok.inj hw ▸ kept.modifyPlayer h fun p => ?_
      exact ⟨rfl, .same p.mob⟩
  | remove i => exact Except.ok.inj hw ▸ h.serverRemovePlayer hsafe
  | walkTile i queue => exact Except.ok.inj hw ▸ h.opWalkTile i queue
  | walkEntity i queue => exact Except.ok.inj hw ▸ kept.opWalkEntity h i queue
  | followPlayer i target => exact Except.ok.inj hw ▸ kept.opFollowPlayer h i target
  | setAction i action =>
      refine Except.ok.inj hw ▸ kept.modifyPlayer h fun p => ?_
      exact ⟨rfl, .same p.mob⟩
  | projectile i projectile =>
      refine Except.ok.inj hw ▸ kept.modifyPlayer h fun p => ?_
      exact ⟨rfl, .same p.mob⟩
  | protection i shown =>
      refine Except.ok.inj hw ▸ kept.modifyPlayer h fun p => ?_
      exact ⟨rfl, .same p.mob⟩
  | playerCombat i c => exact h.playerProcessCombat hsafe hw
  | playerAction i c => exact Except.ok.inj hw ▸ h.playerProcessAction i c
  | playerMovement i path =>
      have hstart : Duel { w with walked := i :: w.walked } := h.congr (view_tables rfl rfl)
      exact Except.ok.inj hw ▸ hstart.playerProcessMovement i path
  | npcCombat j t => exact h.npcProcessCombat hw
  | npcMovement j t => exact h.npcProcessMovement hw
  | api a => exact h.runApi hsafe hw
  | hookReturn result c => exact h.hookReturn hsafe hw
  | findPlayers zone shown max => exact Except.ok.inj hw ▸ h.congr (view_tables rfl rfl)
  | findNpcs zone shown max => exact Except.ok.inj hw ▸ h.congr (view_tables rfl rfl)
  | sendMovement known =>
      simp only [Ref.World.run, Ref.World.sendMovement] at hw
      split at hw
      · cases hw
      · exact Except.ok.inj hw ▸ h
  | endTick regen => exact Except.ok.inj hw ▸ h.endTick regen

theorem start (hw : Fresh w) : Duel w := by
  obtain ⟨x, y, rfl⟩ := hw
  refine ⟨fun r f hf => ?_, fun r f hf => ?_⟩
  · cases r with
    | player i => cases hf
    | npc j => cases hf
  · cases r with
    | player i => cases hf
    | npc j => cases hf

end Duel

/-- The target of a mob in combat is there, is in combat and has that mob as its
only target, and an NPC in combat has a player as target that is there. -/
structure CombatPaired (w : World) : Prop where
  paired : ∀ r m q, w.mob? r = some m → m.inCombat = true → (fightOf m).Targets q →
    ∃ n, w.mob? q = some n ∧ n.inCombat = true ∧ ∀ a, (fightOf n).Targets a ↔ a = r
  occupied : ∀ j n, w.npcs j = some n → n.mob.inCombat = true →
    ∃ i, n.mob.targetPlayer = some i ∧ (w.players i).isSome = true

namespace Duel

variable {w : World}

theorem combatPaired (h : Duel w) : CombatPaired w := by
  refine ⟨fun r m q hm hin htarget => ?_, fun j n hn hin => ?_⟩
  · obtain ⟨f, hf, hfights, honly⟩ := (h.opponent hm hin htarget).2
    obtain ⟨n, hn, rfl⟩ := Option.map_eq_some_iff.1 hf
    exact ⟨n, hn, hfights, honly⟩
  · have hm : w.mob? (.npc j) = some n.mob := by rw [mob?_npc, hn]; rfl
    have hnone := h.ok (.npc j) _ (view_some hm) rfl
    cases hi : n.mob.targetPlayer with
    | none =>
        rcases h.has_target hm hin with htarget | htarget
        · exact absurd hi htarget
        · exact absurd hnone htarget
    | some i =>
        obtain ⟨m, hm', -, -⟩ := h.target_fights (s := .player i) hm hin hi
        obtain ⟨p, hp, -⟩ := Option.map_eq_some_iff.1 hm'
        exact ⟨i, rfl, by rw [hp]; rfl⟩

end Duel

/-- What the assertion and the read through the target's slot ask is there. -/
theorem CombatPaired.no_fault {w : World} (h : CombatPaired w) (e : Event) :
    step w e ≠ .error .opponent ∧ step w e ≠ .error .nullOpponent := by
  have hfault : ∀ f, step w e = .error f → f ≠ .opponent ∧ f ≠ .nullOpponent := by
    intro f hf
    unfold step at hf
    split at hf
    · cases e with
      | playerCombat i c =>
          rcases playerProcessCombat_fault hf with rfl | ⟨rfl, -⟩
          · exact ⟨by decide, by decide⟩
          · exact ⟨by decide, by decide⟩
      | npcCombat j t =>
          obtain ⟨-, n, i, p, hn, hin, hi, hp, hout⟩ := npcProcessCombat_fault hf
          obtain ⟨m, hm, hfights, -⟩ := h.paired (.npc j) n.mob (.player i)
            (by rw [mob?_npc, hn]; rfl) hin hi
          rw [mob?_player, hp] at hm
          obtain rfl := Option.some.inj hm
          rw [hout] at hfights
          cases hfights
      | npcMovement j t =>
          rcases npcProcessMovement_fault hf with rfl | ⟨-, n, hn, hin, hnone⟩
          · exact ⟨by decide, by decide⟩
          · obtain ⟨i, hi, hthere⟩ := h.occupied j n hn hin
            rw [hi, Option.bind_some] at hnone
            rw [hnone] at hthere
            cases hthere
      | api a =>
          rcases runApi_fault hf with rfl | rfl
          · exact ⟨by decide, by decide⟩
          · exact ⟨by decide, by decide⟩
      | hookReturn result c =>
          obtain rfl := hookReturn_fault hf
          exact ⟨by decide, by decide⟩
      | sendMovement known =>
          simp only [Ref.World.run, Ref.World.sendMovement] at hf
          split at hf
          · obtain rfl := Except.error.inj hf
            exact ⟨by decide, by decide⟩
          · cases hf
      | _ => cases hf
    · obtain rfl := Except.error.inj hf
      exact ⟨by decide, by decide⟩
  exact ⟨fun hf => (hfault _ hf).1 rfl, fun hf => (hfault _ hf).2 rfl⟩

/-- In every run in which nobody is taken out of a fight from one side, the fights
are paired in every state, and no turn of an NPC stops the server over it. -/
theorem combat_paired {tr : List (World × Event)} {w : World} (hrun : Run Fresh step tr w)
    (hsafe : ∀ x ∈ tr, PairSafe x.1 x.2) :
    ∀ c ∈ statesOf tr w, CombatPaired c ∧
      ∀ e, step c e ≠ .error .opponent ∧ step c e ≠ .error .nullOpponent := by
  intro c hc
  obtain ⟨tr', hpre, hrun'⟩ := hrun.reaches hc
  have hduel : Duel c := by
    refine hrun'.invariant (fun _ => Duel.start) ?_ fun x hx => hsafe x (hpre.subset hx)
    intro s e s' hs hsafe hstep
    unfold step at hstep
    split at hstep
    · exact hs.run hsafe hstep
    · cases hstep
  exact ⟨hduel.combatPaired, hduel.combatPaired.no_fault⟩

/-- A player fights the chicken and is then sent away by a script, which ends the
fight for both. -/
theorem combat_paired_sent_away : ∃ tr w, exec step {} (atChicken ++
    [.playerCombat 0 {}, .api (.teleport 0 20 20)]) = .ok (tr, w) ∧
    ∀ c ∈ statesOf tr w, CombatPaired c ∧
      ∀ e, step c e ≠ .error .opponent ∧ step c e ≠ .error .nullOpponent := by
  have hrun : Run Fresh step _ _ := Run.of_exec (atChicken ++
    [.playerCombat 0 {}, .api (.teleport 0 20 20)]) ⟨0, 0, rfl⟩ rfl
  refine ⟨_, _, rfl, combat_paired hrun ?_⟩
  intro x hx
  simp only [List.mem_cons, List.not_mem_nil, or_false] at hx
  rcases hx with rfl | rfl | rfl | rfl | rfl | rfl | rfl
  · trivial
  · trivial
  · trivial
  · trivial
  · trivial
  · intro p t projectile hp _ ht
    obtain rfl := Option.some.inj hp
    cases ht
  · exact fun hpeace => absurd (hpeace _ rfl) (by decide)

/-- While one player fights the chicken another one takes that player as target
and is sent away. The player is out of the fight, the chicken is not, and its
turn stops the server. -/
theorem sent_away_from_third : ¬ ∀ (tr : List (World × Event)) (w : World),
    Run Fresh step tr w → CombatPaired w ∧
      ∀ e, step w e ≠ .error .opponent ∧ step w e ≠ .error .nullOpponent := by
  intro hall
  have hrun : Run Fresh step _ _ := Run.of_exec (atChicken ++
    [.playerCombat 0 {}, .connect, .login 1 ⟨6, 10, 11, 10, false, true, none⟩,
      .setAction 1 (.playerAttack 0), .playerAction 1 {}, .api (.teleport 1 20 20)])
    ⟨0, 0, rfl⟩ rfl
  exact ((hall _ _ hrun).2 (.npcCombat 0 {})).1 rfl

end Sundae.Proofs
