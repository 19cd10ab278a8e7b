import Sundae.Proofs.Stance

/-!
# The combat stance from tick to tick

The turns of players and NPCs, the calls of scripts and what comes from
outside keep every stance, as long as no player's combat turn meets a target
that has just moved or has left the fight. So the assertions on it hold in
every such run.
-/

namespace Sundae.Proofs

open Sundae.Lib Sundae.Ref.World
open Sundae.Ref (World Zone serverFindZone)

/-! ## What a turn must not meet -/

/-- Out of combat: an attacker without a projectile, which the wilderness and
the target's last fight allow, does not close in on a target that has stepped
onto its tile in this tick. -/
def AttackSafe (w : World) (p : Player) (c : Chance) : Prop :=
  match p.mob.targetPlayer, p.mob.targetNpc with
  | some t, _ => ∀ target, w.players t = some target → p.projectile = none → c.wild = true →
      target.mob.combatTimer + 6 ≤ w.tick → CloseSafe p.mob target.mob c
  | none, some j => ∀ target, w.npcs j = some target → p.projectile = none →
      CloseSafe p.mob target.mob c
  | none, none => True

/-- In combat: the one whose stance is taken for it is in the fight, and an NPC
has not moved. -/
def FightSafe (w : World) (p : Player) : Prop :=
  match p.mob.targetPlayer, p.mob.targetNpc with
  | some t, _ => ∀ target, w.players t = some target →
      p.mob.x = target.mob.x ∧ p.mob.y = target.mob.y → target.mob.dir.combat = false →
      target.mob.moved = false → target.mob.inCombat = true
  | none, some j => ∀ target, w.npcs j = some target →
      p.mob.x = target.mob.x ∧ p.mob.y = target.mob.y → p.mob.dir.combat = false →
      target.mob.moved = false ∧ target.mob.inCombat = true
  | none, none => True

/-- Only the combat turn of a player can upset a stance. -/
def StanceSafe (w : World) : Event → Prop
  | .playerCombat i c => ∀ p, w.players i = some p →
      if p.mob.inCombat then FightSafe w p else AttackSafe w p c
  | _ => True

namespace Poised

variable {w : World}

theorem playerProcessCombat (h : Poised w) {i : Nat} {c : Chance} (hturn : i ∉ w.walked)
    (hsafe : StanceSafe w (.playerCombat i c)) {w' : World}
    (hw : Ref.World.playerProcessCombat w i c = .ok w') : Poised w' := by
  unfold Ref.World.playerProcessCombat at hw
  split at hw
  · exact Except.ok.inj hw ▸ h
  · next p hp =>
    have hsafe := hsafe p hp
    split at hw
    · cases hw
    · split at hw
      · next hout =>
        rw [if_neg (by simpa using hout), AttackSafe] at hsafe
        split at hw
        · next t ht =>
          rw [ht] at hsafe
          refine Except.ok.inj hw ▸ h.playerAttackPlayer hturn fun q target hq htarget => ?_
          rw [hp] at hq
          obtain rfl := Option.some.inj hq
          exact hsafe target htarget
        · next j ht hj =>
          rw [ht, hj] at hsafe
          refine h.playerAttackNpc hturn (fun q target hq htarget => ?_) hw
          rw [hp] at hq
          obtain rfl := Option.some.inj hq
          exact hsafe target htarget
        · exact Except.ok.inj hw ▸ h
      · next hin =>
        have hin : p.mob.inCombat = true := by simpa using hin
        rw [if_pos hin, FightSafe] at hsafe
        have hcombat : ∀ m, w.mob? (.player i) = some m → m.inCombat = true := by
          intro m hm
          simp only [mob?_player, hp, Option.map_some, Option.some.injEq] at hm
          exact hm ▸ hin
        split at hw
        · next t ht =>
          rw [ht] at hsafe
          refine Except.ok.inj hw ▸ h.playerFightPlayer hcombat fun q target hq htarget => ?_
          rw [hp] at hq
          obtain rfl := Option.some.inj hq
          exact hsafe target htarget
        · next j ht hj =>
          rw [ht, hj] at hsafe
          refine h.playerFightNpc hturn hcombat (fun q target hq htarget => ?_) hw
          rw [hp] at hq
          obtain rfl := Option.some.inj hq
          exact hsafe target htarget
        · exact Except.ok.inj hw ▸ h

/-! ## npc.c -/

theorem npcWalk (h : Poised w) (j : Nat) (old : Option Zone) (t : NpcTurn) :
    Poised (Ref.World.npcWalk w j old t) := by
  have hwalk := h.mobProcessWalkQueue (r := .npc j) (fun k hk => by cases hk) t.path
  unfold Ref.World.npcWalk
  dsimp only
  split
  · exact hwalk
  · exact blind.npcZones hwalk j _ _

theorem npcProcessMovement (h : Poised w) {j : Nat} {t : NpcTurn} {w' : World}
    (hw : Ref.World.npcProcessMovement w j t = .ok w') : Poised w' :=
  tamed.npcProcessMovement (fun _ h => h) h (fun _ _ _ h => h.npcWalk j _ t) hw

/-- The hook of an NPC about to fight is called before any player has moved. -/
theorem npcInitCombat (h : Poised w) (hnpcs : w.walked = []) (j i : Nat) (n : Npc)
    (target : Player) (t : NpcTurn) : Poised (Ref.World.npcInitCombat w j i n target t) := by
  unfold Ref.World.npcInitCombat
  split
  · refine Poised.modify ?_ (fun m _ _ => stance_combatReset m.clearQueue) fun _ => rfl
    exact h.modifyPlayer fun _ => .still rfl rfl rfl
  · have hwalk : Poised (w.modify (.npc j) fun m => { m with actionWalk := true }) :=
      blind.modify h fun _ => .still rfl rfl rfl
    dsimp only
    split
    · exact blind.modify hwalk fun _ => .still rfl rfl rfl
    · split
      · exact hwalk
      · exact ⟨hwalk.stance, hwalk.walked, fun _ _ _ => hnpcs⟩

theorem npcInitReturn (h : Poised w) (hnpcs : w.walked = []) (j i : Nat) :
    Poised (Ref.World.npcInitReturn w j i) := by
  have hready : Poised (((((w.modify (.npc j) Mob.clearQueue).modify (.player i)
      fun m => m.clearQueue.followNobody).modify (.npc j) Mob.followNobody).modifyPlayer i
      fun p => p.closeUi.clearActions)) := by
    refine Poised.modifyPlayer ?_ fun _ => .still rfl rfl rfl
    refine blind.modify ?_ fun _ => .still rfl rfl rfl
    refine blind.modify ?_ fun _ => .still rfl rfl rfl
    exact blind.modify h fun _ => .still rfl rfl rfl
  have hlocked : Poised ((((((w.modify (.npc j) Mob.clearQueue).modify (.player i)
      fun m => m.clearQueue.followNobody).modify (.npc j) Mob.followNobody).modifyPlayer i
      fun p => p.closeUi.clearActions)).modify (.npc j)
      fun m => { m with inCombat := true, combatNextHit := 0, combatRounds := 0 }) :=
    hready.modify (fun m _ hstance => ⟨fun _ => rfl, hstance.standing⟩) fun _ => rfl
  unfold Ref.World.npcInitReturn
  refine hlocked.modify (fun m hm _ => ⟨fun _ => rfl, fun hm' => ?_⟩) fun _ => rfl
  have hin := hlocked.walked i m hm hm'
  have hnil : i ∈ w.walked := hin
  rw [hnpcs] at hnil
  cases hnil

theorem npcFight (h : Poised w) {j : Nat}
    (hcombat : ∀ m, w.mob? (.npc j) = some m → m.inCombat = true) (i : Nat) (n : Npc)
    (t : NpcTurn) : Poised (Ref.World.npcFight w j i n t) := by
  have hstance : Poised (w.modify (.npc j) fun m =>
      if !m.moved then { m with dir := .combatLeft } else m) := by
    refine h.modify (fun m hm hstance => ?_) fun m => ?_
    · split
      · next hstill =>
        refine ⟨fun _ => hcombat m hm, fun hm' => ?_⟩
        have hm'' : m.moved = true := hm'
        rw [hm''] at hstill
        cases hstill
      · exact hstance
    · split
      · rfl
      · rfl
  unfold Ref.World.npcFight
  dsimp only
  split
  · exact tamed.npcRetreat hstance j t
  · split
    · exact blind.modify hstance fun _ => .still rfl rfl rfl
    · refine blind.modify ?_ fun _ => .still rfl rfl rfl
      refine blind.modify ?_ fun _ => .still rfl rfl rfl
      exact tamed.playerDamage hstance i none t.roll

theorem npcProcessCombat (h : Poised w) (hnpcs : w.walked = []) {j : Nat} {t : NpcTurn}
    {w' : World} (hw : Ref.World.npcProcessCombat w j t = .ok w') : Poised w' := by
  unfold Ref.World.npcProcessCombat at hw
  split at hw
  · exact Except.ok.inj hw ▸ h
  · next n hn =>
    split at hw
    · exact Except.ok.inj hw ▸ h
    · next i _ =>
      split at hw
      · exact Except.ok.inj hw ▸ tamed.combatReset h _
      · next target _ =>
        split at hw
        · exact Except.ok.inj hw ▸ h.npcInitCombat hnpcs j i n target t
        · next hin =>
          split at hw
          · cases hw
          · have h₁ : Poised ((w.modifyPlayer i fun p => { p with chasedByNpc := none }).modify
                (.npc j) fun m => { m with followingPlayer := none }) := by
              refine blind.modify ?_ fun _ => .still rfl rfl rfl
              exact h.modifyPlayer fun _ => .still rfl rfl rfl
            dsimp only at hw
            split at hw
            · exact Except.ok.inj hw ▸ h₁
            · refine Except.ok.inj hw ▸ h₁.npcFight (fun m hm => ?_) i n t
              rw [mob?_modify, if_pos rfl] at hm
              obtain ⟨m₀, hm₀, rfl⟩ := Option.map_eq_some_iff.1 hm
              have hm₁ : (w.npcs j).map Npc.mob = some m₀ := hm₀
              rw [hn, Option.map_some, Option.some.injEq] at hm₁
              subst hm₁
              simpa using hin

/-! ## Script calls -/

theorem serverAddNpc (h : Poised w) (config : NpcConfig) (x y : Nat) :
    Poised (Ref.World.serverAddNpc w config x y) := by
  unfold Ref.World.serverAddNpc
  split
  · exact h
  · next j _ =>
    have hnew : ∀ w' : World, w'.players = w.players →
        (∀ k n, w'.npcs k = some n → w.npcs k = some n ∨
          n.mob.moved = false ∧ n.mob.dir = .north) →
        w'.walked = w.walked → w'.frames = w.frames → Poised w' := by
      intro w' hplayers hnpcs hwalked hframes
      refine h.remove (fun r m hr => ?_) hwalked hframes
      cases r with
      | player i =>
          rw [mob?_player, hplayers] at hr
          exact .inl hr
      | npc k =>
          rw [mob?_npc] at hr
          obtain ⟨n, hn, rfl⟩ := Option.map_eq_some_iff.1 hr
          rcases hnpcs k n hn with hold | hfresh
          · exact .inl (by simp [hold])
          · exact .inr hfresh
    have hfresh : ∀ k n, (if k = j then some ({
        mob := { x := x % 65536, y := y % 65536, hits := config.hits, baseHits := config.hits }
        config := config
        spawnX := x % 65536
        spawnY := y % 65536 } : Npc) else w.npcs k) = some n →
          w.npcs k = some n ∨ n.mob.moved = false ∧ n.mob.dir = .north := by
      intro k n hn
      split at hn
      · obtain rfl := Option.some.inj hn
        exact .inr ⟨rfl, rfl⟩
      · exact .inl hn
    dsimp only
    split
    · exact hnew _ rfl hfresh rfl rfl
    · exact hnew _ rfl hfresh rfl rfl

theorem scriptDelnpc (h : Poised w) {j : Nat} {w' : World}
    (hw : Ref.World.scriptDelnpc w j = .ok w') : Poised w' := by
  unfold Ref.World.scriptDelnpc at hw
  split at hw
  · exact Except.ok.inj hw ▸ h
  · split at hw
    · cases hw
    · refine Except.ok.inj hw ▸ h.remove (fun r m hr => ?_) rfl rfl
      cases r with
      | player i => exact .inl hr
      | npc k =>
          rw [mob?_npc] at hr
          dsimp only at hr
          split at hr
          · cases hr
          · exact .inl hr

theorem runApi (h : Poised w) {a : Api} {w' : World} (hw : Ref.World.runApi w a = .ok w') :
    Poised w' := by
  by_cases ha : Api.wild a = false
  · exact tamed.runApi h ha hw
  · cases a with
    | npcSubStat j damage => exact h.npcDamage hw
    | shootNpc i j projectile c =>
        rw [Ref.World.runApi] at hw
        split at hw
        · exact h.playerShootPvm hw
        · exact Except.ok.inj hw ▸ h
    | changeLevelUp i =>
        refine Except.ok.inj hw ▸ h.modifyPlayer fun _ => ?_
        exact .still rfl rfl rfl
    | addNpc config x y => exact Except.ok.inj hw ▸ h.serverAddNpc config x y
    | delNpc j => exact h.scriptDelnpc hw
    | _ => exact absurd rfl ha

/-- The NPC that is talked to may take a step: it is not a player. -/
theorem npcTalkReturn (h : Poised w) (i j x y : Nat) (result : Bool) (c : Chance) :
    Poised (Ref.World.npcTalkReturn w i j x y result c) := by
  refine tamed.npcTalkReturn h fun htalk _ _ _ _ _ _ => ?_
  refine Poised.mobProcessWalkQueue ?_ (fun k hk => by cases hk) c.path
  exact blind.modify htalk fun _ => .still rfl rfl rfl

theorem hookReturn (h : Poised w) {result : Bool} {c : Chance} {w' : World}
    (hw : Ref.World.hookReturn w result c = .ok w') : Poised w' := by
  unfold Ref.World.hookReturn at hw
  split at hw
  · cases hw
  · next frame rest hframes =>
    have hpop : Poised { w with frames := rest } := by
      refine ⟨h.stance, h.walked, fun j i hin => h.npcInit j i ?_⟩
      rw [hframes]
      exact List.mem_cons_of_mem _ hin
    dsimp only at hw
    split at hw
    · exact Except.ok.inj hw ▸ hpop.npcDieReturn _ _ _ result
    · next j i =>
      have hnpcs : w.walked = [] := by
        refine h.npcInit j i ?_
        rw [hframes]
        exact List.mem_cons_self
      exact Except.ok.inj hw ▸ hpop.npcInitReturn hnpcs j i
    · exact Except.ok.inj hw ▸ hpop.npcTalkReturn _ _ _ _ result c

/-! ## Connections, packets and the end of the tick -/

theorem playerCreate (h : Poised w) : Poised (Ref.World.playerCreate w) := by
  unfold Ref.World.playerCreate
  split
  · exact h
  · refine h.remove (fun r m hr => ?_) rfl rfl
    cases r with
    | player k =>
        rw [mob?_player] at hr
        dsimp only at hr
        split at hr
        · obtain rfl := Option.some.inj hr
          exact .inr ⟨rfl, rfl⟩
        · exact .inl hr
    | npc k => exact .inl hr

theorem serverRemovePlayer (h : Poised w) (i : Nat) :
    Poised (Ref.World.serverRemovePlayer w i) := by
  unfold Ref.World.serverRemovePlayer
  split
  · refine h.remove (fun r m hr => ?_) rfl rfl
    cases r with
    | player k =>
        rw [mob?_player] at hr
        dsimp only at hr
        split at hr
        · cases hr
        · exact .inl hr
    | npc k => exact .inl hr
  · exact h

/-- Everybody stands still again. -/
theorem endTick (h : Poised w) (regen : Nat → Bool) : Poised (Ref.World.endTick w regen) := by
  have hmob : ∀ r m, (Ref.World.endTick w regen).mob? r = some m → m.moved = false ∧
      ∃ m₀, w.mob? r = some m₀ ∧ m.dir = m₀.dir ∧ m.inCombat = m₀.inCombat := by
    intro r m hr
    cases r with
    | player i =>
        simp only [mob?_player, Ref.World.endTick, Option.map_map,
          Option.map_eq_some_iff, Function.comp_apply] at hr
        obtain ⟨p, hp, rfl⟩ := hr
        exact ⟨rfl, p.mob, by simp [hp], rfl, rfl⟩
    | npc j =>
        simp only [mob?_npc, Ref.World.endTick, Option.map_map,
          Option.map_eq_some_iff, Function.comp_apply] at hr
        obtain ⟨n, hn, rfl⟩ := hr
        exact ⟨rfl, n.mob, by simp [hn], rfl, rfl⟩
  constructor
  · intro r m hr
    obtain ⟨hstill, m₀, hm₀, hdir, hcombat⟩ := hmob r m hr
    constructor
    · rw [hdir, hcombat]
      exact (h.stance r m₀ hm₀).fighting
    · intro hm
      rw [hstill] at hm
      cases hm
  · intro i m hr hm
    rw [(hmob _ m hr).1] at hm
    cases hm
  · exact fun _ _ _ => rfl

theorem run (h : Poised w) {e : Event} (hturn : e.inTurn w = true) (hsafe : StanceSafe w e)
    {w' : World} (hw : Ref.World.run w e = .ok w') : Poised w' := by
  by_cases he : Event.wild e = false
  · exact tamed.run h he hw
  · cases e with
    | connect => exact Except.ok.inj hw ▸ h.playerCreate
    | login i l => exact Except.ok.inj hw ▸ blind.playerLogin h i l
    | remove i => exact Except.ok.inj hw ▸ h.serverRemovePlayer i
    | playerCombat i c =>
        have hout : i ∉ w.walked := by
          simp only [Event.inTurn, Bool.and_eq_true, Bool.not_eq_true',
            List.contains_eq_mem, decide_eq_false_iff_not] at hturn
          exact hturn.2
        exact h.playerProcessCombat hout hsafe hw
    | playerMovement i path =>
        have hnone : w.frames = [] := by
          simp only [Event.inTurn, Bool.and_eq_true, List.isEmpty_iff] at hturn
          exact hturn.1
        have hstart : Poised { w with walked := i :: w.walked } := by
          refine ⟨h.stance, fun k m hr hm => List.mem_cons_of_mem _ (h.walked k m hr hm), ?_⟩
          intro j k hin
          have hin' : Frame.npcInit j k ∈ w.frames := hin
          rw [hnone] at hin'
          cases hin'
        exact Except.ok.inj hw ▸ hstart.playerProcessMovement List.mem_cons_self path
    | npcCombat j t =>
        have hnpcs : w.walked = [] := by
          simp only [Event.inTurn, Bool.and_eq_true, List.isEmpty_iff] at hturn
          exact hturn.1.2
        exact h.npcProcessCombat hnpcs hw
    | npcMovement j t => exact h.npcProcessMovement hw
    | api a => exact h.runApi hw
    | hookReturn result c => exact h.hookReturn hw
    | findPlayers zone shown max => exact Except.ok.inj hw ▸ blind.zones h rfl rfl rfl rfl
    | findNpcs zone shown max => exact Except.ok.inj hw ▸ blind.zones h rfl rfl rfl rfl
    | endTick regen => exact Except.ok.inj hw ▸ h.endTick regen
    | _ => exact absurd rfl he

theorem start (hw : Fresh w) : Poised w := by
  obtain ⟨x, y, rfl⟩ := hw
  constructor
  · intro r m hr
    cases r with
    | player i => cases hr
    | npc j => cases hr
  · intro i m hr
    cases hr
  · intro j i hin
    cases hin

/-- What the assertions ask is there. -/
theorem no_fault (h : Poised w) (e : Event) : step w e ≠ .error .combatDir := by
  intro hfault
  unfold step at hfault
  split at hfault
  · cases e with
    | playerCombat i c =>
        rcases playerProcessCombat_fault hfault with hf | ⟨-, p, hp, hout, hdir⟩
        · cases hf
        · have hin := (h.stance (.player i) p.mob (by simp [hp])).fighting hdir
          rw [hout] at hin
          cases hin
    | npcCombat j t => cases (npcProcessCombat_fault hfault).1
    | npcMovement j t =>
        rcases npcProcessMovement_fault hfault with hf | ⟨hf, -⟩
        · cases hf
        · cases hf
    | api a =>
        rcases runApi_fault hfault with hf | hf
        · cases hf
        · cases hf
    | hookReturn result c => cases hookReturn_fault hfault
    | sendMovement known =>
        simp only [Ref.World.run, Ref.World.sendMovement] at hfault
        split at hfault
        · next hany =>
          obtain ⟨r, -, hr⟩ := List.any_eq_true.1 hany
          obtain ⟨m, hm, hbad⟩ := (Option.any_eq_true _ _).1 hr
          obtain ⟨hmoved, hdir⟩ := Bool.and_eq_true_iff.1 hbad
          have hstand := (h.stance r m hm).standing hmoved
          rw [hdir] at hstand
          cases hstand
        · cases hfault
    | _ => cases hfault
  · cases hfault

end Poised

/-- In every run whose combat turns meet the condition every mob has its
stance, and no assertion on it fails. -/
theorem stance_always {tr : List (World × Event)} {w : World}
    (hrun : Run Fresh step tr w) (hsafe : ∀ x ∈ tr, StanceSafe x.1 x.2) :
    ∀ c ∈ statesOf tr w, (∀ r m, c.mob? r = some m → Stance m) ∧
      ∀ e, step c e ≠ .error .combatDir := by
  intro c hc
  obtain ⟨tr', hpre, hrun'⟩ := hrun.reaches hc
  have hpoised : Poised c := by
    refine hrun'.invariant (fun _ => Poised.start) ?_ fun x hx => hsafe x (hpre.subset hx)
    intro s e s' hs hsafe hstep
    unfold step at hstep
    split at hstep
    · next hturn => exact hs.run hturn hsafe hstep
    · cases hstep
  exact ⟨hpoised.stance, hpoised.no_fault⟩

/-- A player next to a chicken, which it is about to attack. -/
def atChicken : List Event :=
  [.connect, .login 0 ⟨5, 10, 10, 10, false, true, none⟩, .api (.addNpc chicken 11 10),
    .setAction 0 (.npcAttack 0), .playerAction 0 {}]

/-- It catches the chicken where that stands. -/
theorem stance_always_catch : ∃ tr w, exec step {} (atChicken ++ [.playerCombat 0 {}]) =
    .ok (tr, w) ∧ ∀ c ∈ statesOf tr w, (∀ r m, c.mob? r = some m → Stance m) ∧
      ∀ e, step c e ≠ .error .combatDir := by
  have hrun : Run Fresh step _ _ :=
    Run.of_exec (atChicken ++ [.playerCombat 0 {}]) ⟨0, 0, rfl⟩ rfl
  refine ⟨_, _, rfl, stance_always hrun ?_⟩
  intro x hx
  simp only [List.mem_cons, List.not_mem_nil, or_false] at hx
  rcases hx with rfl | rfl | rfl | rfl | rfl | rfl
  · trivial
  · trivial
  · trivial
  · trivial
  · trivial
  · intro p hp
    obtain rfl := Option.some.inj hp
    intro target htarget _
    obtain rfl := Option.some.inj htarget
    exact fun h => absurd h.2.2.2 (by decide)

/-- The chicken wanders onto the player's tile before the player's turn. The
player takes its stance, does not get into the fight, and the next tick stops
at its turn. -/
theorem stance_without_fight : ¬ ∀ (tr : List (World × Event)) (w : World),
    Run Fresh step tr w → ∀ e, step w e ≠ .error .combatDir := by
  intro hall
  have hrun : Run Fresh step _ _ := Run.of_exec (atChicken ++
    List.replicate 6 (.endTick fun _ => false) ++
    [.npcMovement 0 { destX := 10, destY := 10 }, .playerCombat 0 {},
      .endTick fun _ => false]) ⟨0, 0, rfl⟩ rfl
  exact hall _ _ hrun (.playerCombat 0 {}) rfl

end Sundae.Proofs
