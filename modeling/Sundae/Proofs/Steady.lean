import Sundae.Proofs.Stance

/-!
# Properties of the world that fighting keeps

A property that does not look at stances, nor at what fights players are in,
is kept by more of the functions: all that a fight does is a lock, which takes
an NPC into it, and damage. The lemmas here leave these two to the property.
-/

namespace Sundae.Proofs

open Sundae.Lib Sundae.Ref.World
open Sundae.Ref (World Zone serverFindZone)

/-- A property that is kept by every write that leaves a mob where it is and
takes no NPC into a fight. -/
structure Steady (I : World → Prop) : Prop extends Tamed I where
  free : ∀ {w : World} {r : MobRef} {f : Mob → Mob}, I w →
    (∀ m, (f m).x = m.x ∧ (f m).y = m.y ∧
      (r.isNpc = true → (f m).inCombat = true → m.inCombat = true)) → I (w.modify r f)
  hook : ∀ {w : World} {frame : Frame}, I w → I { w with frames := frame :: w.frames }

/-! ## What reaches an NPC -/

/-- `player_shoot_pvm` has nothing against the shot and it does damage. -/
def Flies (p : Player) (target : Mob) (projectile : Projectile) (c : Chance) : Prop :=
  (projectile.magic = false →
    p.mob.distance target.x target.y ≤ projectile.range ∧ p.rangedTimer = 0) ∧
  c.reachable = true ∧ c.ammo = true ∧ 0 < projectile.power

/-- The combat turn of a player reaches an NPC: it hits it, shoots at it or takes
it into a fight. -/
def Reaches (w : World) (i j : Nat) (c : Chance) : Prop :=
  ∃ p n, w.players i = some p ∧ w.npcs j = some n ∧
    p.mob.targetPlayer = none ∧ p.mob.targetNpc = some j ∧
    if p.mob.inCombat then
      p.mob.x = n.mob.x ∧ p.mob.y = n.mob.y ∧ p.mob.combatNextHit = 0
    else
      match p.projectile with
      | some projectile => Flies p n.mob projectile c
      | none => WithinGrasp p.mob n.mob c ∧ n.mob.moved = false

theorem playerAim_flies {w : World} {i : Nat} {p : Player} {projectile : Projectile}
    {target : Mob} {follow : Mob → Mob} {shielded : Bool} {c : Chance} (hp : w.players i = some p)
    (hshot : (playerAim w i projectile target follow shielded c).2 = true)
    (hpower : 0 < projectile.power) : Flies p target projectile c := by
  have hstand : (shootStand w i).players i =
      some { p with mob := p.mob.clearQueue.followNobody } := by
    simp [shootStand, World.modify, World.modifyPlayer, hp]
  unfold playerAim at hshot
  dsimp only at hshot
  rw [hstand] at hshot
  dsimp only at hshot
  split at hshot
  · cases hshot
  · next hrange =>
    split at hshot
    · cases hshot
    · split at hshot
      · cases hshot
      · next htimer =>
        split at hshot
        · cases hshot
        · next hreach =>
          split at hshot
          · cases hshot
          · next hammo =>
            refine ⟨fun hmagic => ⟨?_, ?_⟩, by simpa using hreach, by simpa using hammo, hpower⟩
            · have hnear : ¬ projectile.range <
                  p.mob.clearQueue.followNobody.distance target.x target.y :=
                fun hlt => hrange ⟨by simp [hmagic], hlt⟩
              exact Nat.le_of_not_lt hnear
            · have hzero : ¬ 0 < p.rangedTimer := fun hlt => htimer ⟨by simp [hmagic], hlt⟩
              omega

namespace Steady

variable {I : World → Prop} {w : World}

/-! ## player.c -/

theorem player (S : Steady I) (h : I w) {i : Nat} {f : Mob → Mob}
    (hf : ∀ m, (f m).x = m.x ∧ (f m).y = m.y) : I (w.modify (.player i) f) :=
  S.free h fun m => ⟨(hf m).1, (hf m).2, fun hnpc => by cases hnpc⟩

theorem close_still (m target : Mob) :
    (m.close target).x = m.x ∧ (m.close target).y = m.y := by
  unfold Mob.close
  split
  · exact ⟨rfl, rfl⟩
  · exact ⟨rfl, rfl⟩

theorem takeStance_still (m : Mob) (dir : Dir) :
    (m.takeStance dir).x = m.x ∧ (m.takeStance dir).y = m.y := by
  unfold Mob.takeStance
  split
  · exact ⟨rfl, rfl⟩
  · exact ⟨rfl, rfl⟩

theorem initClose (S : Steady I) (h : I w) (i : Nat) (r : MobRef) (target : Mob) :
    I (Ref.World.initClose w i r target) := by
  unfold Ref.World.initClose
  refine S.modifyPlayer ?_ fun _ => ⟨rfl, .still rfl rfl rfl rfl rfl⟩
  refine S.modify ?_ fun _ => .still rfl rfl rfl rfl rfl
  refine S.modify ?_ fun _ => .still rfl rfl rfl rfl rfl
  exact S.player h fun m => close_still m target

/-- What remains is the lock of the target. -/
theorem playerInitCombat (S : Steady I) (h : I w) {i : Nat} {r : MobRef} {c : Chance}
    (hlock : ∀ m target, w.mob? (.player i) = some m → w.mob? r = some target →
      WithinGrasp m target c → target.moved = false →
      ∀ w₁, I w₁ → I (w₁.modify r fun m => m.lockedBy i))
    {w' : World} {caught : Bool}
    (hw : Ref.World.playerInitCombat w i r c = (w', caught)) : I w' := by
  have hfst : (Ref.World.playerInitCombat w i r c).1 = w' := by rw [hw]
  subst hfst
  unfold Ref.World.playerInitCombat
  split
  · next m target hm htarget =>
    split
    · dsimp only
      exact S.modify h Tame.clearQueue_reset
    · next hfree =>
      split
      · exact h
      · next hnear =>
        split
        · dsimp only
          split
          · exact S.combatReset h _
          · exact h
        · next hreach =>
          have hclose := S.initClose h i r target
          dsimp only
          split
          · exact hclose
          · next hstep =>
            have hmoved := Poised.initClose_moved w i r r target
            rw [htarget] at hmoved
            have hstill : target.moved = false := by
              obtain ⟨t, ht, hmv⟩ := Option.map_eq_some_iff.1 hmoved
              rw [ht] at hstep
              rw [← hmv]
              simpa using hstep
            unfold Ref.World.initLock
            dsimp only
            refine hlock m target hm htarget ⟨?_, ?_, ?_⟩ hstill _ ?_
            · simpa using hfree
            · simpa using hnear
            · simpa using hreach
            · exact S.player hclose fun _ => ⟨rfl, rfl⟩
  · exact h

theorem playerAttackPlayer (S : Steady I) (h : I w) (i t : Nat) (c : Chance) :
    I (Ref.World.playerAttackPlayer w i t c) := by
  unfold Ref.World.playerAttackPlayer
  split
  · split
    · exact S.modify h fun _ => .still rfl rfl rfl rfl rfl
    · split
      · exact S.playerShootPvp h i _ t c
      · split
        · exact S.modify h Tame.clearQueue_reset
        · cases hinit : Ref.World.playerInitCombat w i (.player t) c with
          | mk w₁ caught =>
              have h₁ : I w₁ := by
                refine S.playerInitCombat h (fun _ _ _ _ _ _ w₁ h₁ => ?_) hinit
                exact S.player h₁ fun _ => ⟨rfl, rfl⟩
              dsimp only
              split
              · exact S.playerFollow h₁ i _ fun _ => .still rfl rfl rfl rfl rfl
              · refine S.modify ?_ fun _ => .still rfl rfl rfl rfl rfl
                refine S.modifyPlayer ?_ fun _ => ⟨rfl, .still rfl rfl rfl rfl rfl⟩
                exact S.modify h₁ fun _ => .still rfl rfl rfl rfl rfl
  · exact S.combatReset h _
  · exact h

theorem playerFightPlayer (S : Steady I) (h : I w) (i t : Nat) (c : Chance) :
    I (Ref.World.playerFightPlayer w i t c) := by
  unfold Ref.World.playerFightPlayer
  split
  · split
    · exact h
    · have hstances : I ((w.modify (.player i) fun m => m.takeStance .combatRight).modify
          (.player t) fun m => m.takeStance .combatLeft) := by
        refine S.player ?_ fun m => takeStance_still m _
        exact S.player h fun m => takeStance_still m _
      dsimp only
      split
      · exact S.modify hstances fun _ => .still rfl rfl rfl rfl rfl
      · refine S.modify ?_ fun _ => .still rfl rfl rfl rfl rfl
        refine S.modify ?_ fun _ => .still rfl rfl rfl rfl rfl
        exact S.playerDamage hstances t _ _
  · exact S.combatReset h _
  · exact h

section Harm

variable {K : World → Prop}

theorem playerAttackNpc (S : Steady I) (hK : ∀ w, I w → K w) (h : I w) {i j : Nat} {c : Chance}
    {p : Player} (hp : w.players i = some p) (htp : p.mob.targetPlayer = none)
    (htn : p.mob.targetNpc = some j) (hout : p.mob.inCombat = false) {w' : World}
    (hlock : Reaches w i j c → ∀ w₁, I w₁ → I (w₁.modify (.npc j) fun m => m.lockedBy i))
    (hdamage : Reaches w i j c → ∀ w₁, I w₁ → ∀ roll melee,
      Ref.World.npcDamage w₁ j (some i) roll melee = .ok w' → K w')
    (hw : Ref.World.playerAttackNpc w i j c = .ok w') : K w' := by
  unfold Ref.World.playerAttackNpc at hw
  split at hw
  · next q target hq htarget =>
    obtain rfl := Option.some.inj (hp.symm.trans hq)
    split at hw
    · next projectile hproj =>
      refine S.playerShootPvm hK h (fun m hm hshot hpower w₁ h₁ hw₁ => ?_) hw
      rw [mob?_npc, htarget, Option.map_some, Option.some.injEq] at hm
      subst hm
      refine hdamage ⟨p, target, hp, htarget, htp, htn, ?_⟩ w₁ h₁ _ _ hw₁
      rw [if_neg (by simp [hout]), hproj]
      exact playerAim_flies hp hshot hpower
    · next hproj =>
      cases hinit : Ref.World.playerInitCombat w i (.npc j) c with
      | mk w₁ caught =>
          have h₁ : I w₁ := by
            refine S.playerInitCombat h (fun m n hm hn hgrasp hstill => ?_) hinit
            simp only [mob?_player, mob?_npc, hp, htarget, Option.map_some,
              Option.some.injEq] at hm hn
            subst hm hn
            refine hlock ⟨p, target, hp, htarget, htp, htn, ?_⟩
            rw [if_neg (by simp [hout]), hproj]
            exact ⟨hgrasp, hstill⟩
          rw [hinit] at hw
          dsimp only at hw
          split at hw
          · refine Except.ok.inj hw ▸ hK _ (S.playerFollow h₁ i _ fun _ => ?_)
            exact .still rfl rfl rfl rfl rfl
          · refine Except.ok.inj hw ▸ hK _ (S.modify (S.modify h₁ fun _ => ?_) fun _ => ?_)
            · exact .still rfl rfl rfl rfl rfl
            · exact .still rfl rfl rfl rfl rfl
  · exact Except.ok.inj hw ▸ hK _ (S.combatReset h _)
  · exact Except.ok.inj hw ▸ hK _ h

theorem playerFightNpc (S : Steady I) (hK : ∀ w, I w → K w) (h : I w) {i j : Nat} {c : Chance}
    {p : Player} (hp : w.players i = some p) (htp : p.mob.targetPlayer = none)
    (htn : p.mob.targetNpc = some j) (hin : p.mob.inCombat = true) {w' : World}
    (hdamage : Reaches w i j c → ∀ w₁, I w₁ → ∀ roll melee,
      Ref.World.npcDamage w₁ j (some i) roll melee = .ok w' → K w')
    (hw : Ref.World.playerFightNpc w i j c = .ok w') : K w' := by
  unfold Ref.World.playerFightNpc at hw
  split at hw
  · next q target hq htarget =>
    obtain rfl := Option.some.inj (hp.symm.trans hq)
    split at hw
    · exact Except.ok.inj hw ▸ hK _ h
    · next htile =>
      have hstances : I (if !p.mob.dir.combat then
          (w.modify (.player i) fun m => { m with dir := .combatRight }).modify (.npc j)
            fun m => { m with dir := .combatLeft }
          else w) := by
        split
        · refine S.free ?_ fun _ => ⟨rfl, rfl, fun _ hm => hm⟩
          exact S.player h fun _ => ⟨rfl, rfl⟩
        · exact h
      dsimp only at hw
      split at hw
      · refine Except.ok.inj hw ▸ hK _ (S.modify hstances fun _ => ?_)
        exact .still rfl rfl rfl rfl rfl
      · next hhit =>
        refine hdamage ⟨p, target, hp, htarget, htp, htn, ?_⟩ _ hstances _ _ hw
        rw [if_pos hin]
        have htile : p.mob.x = target.mob.x ∧ p.mob.y = target.mob.y := by
          simpa [not_or] using htile
        exact ⟨htile.1, htile.2, by omega⟩
  · exact Except.ok.inj hw ▸ hK _ (S.combatReset h _)
  · exact Except.ok.inj hw ▸ hK _ h

/-- A player's combat turn keeps the property if the lock and the damage do,
where it reaches an NPC. -/
theorem playerProcessCombat (S : Steady I) (hK : ∀ w, I w → K w) (h : I w) {i : Nat} {c : Chance}
    {w' : World}
    (hlock : ∀ j, Reaches w i j c → ∀ w₁, I w₁ → I (w₁.modify (.npc j) fun m => m.lockedBy i))
    (hdamage : ∀ j, Reaches w i j c → ∀ w₁, I w₁ → ∀ roll melee,
      Ref.World.npcDamage w₁ j (some i) roll melee = .ok w' → K w')
    (hw : Ref.World.playerProcessCombat w i c = .ok w') : K w' := by
  unfold Ref.World.playerProcessCombat at hw
  split at hw
  · exact Except.ok.inj hw ▸ hK _ h
  · next p hp =>
    split at hw
    · cases hw
    · split at hw
      · next hout =>
        split at hw
        · exact Except.ok.inj hw ▸ hK _ (S.playerAttackPlayer h i _ c)
        · next j htp htn =>
          exact S.playerAttackNpc hK h hp htp htn (by simpa using hout) (hlock j) (hdamage j) hw
        · exact Except.ok.inj hw ▸ hK _ h
      · next hin =>
        split at hw
        · exact Except.ok.inj hw ▸ hK _ (S.playerFightPlayer h i _ c)
        · next j htp htn =>
          exact S.playerFightNpc hK h hp htp htn (by simpa using hin) (hdamage j) hw
        · exact Except.ok.inj hw ▸ hK _ h

end Harm

/-! ## npc.c -/

theorem npcInitCombat (S : Steady I) (h : I w) (j i : Nat) (n : Npc) (target : Player)
    (t : NpcTurn) : I (Ref.World.npcInitCombat w j i n target t) := by
  unfold Ref.World.npcInitCombat
  split
  · refine S.modify ?_ Tame.clearQueue_reset
    exact S.modifyPlayer h fun p => ⟨rfl, .same p.mob⟩
  · have hwalk : I (w.modify (.npc j) fun m => { m with actionWalk := true }) :=
      S.modify h fun _ => .still rfl rfl rfl rfl rfl
    dsimp only
    split
    · exact S.modify hwalk fun _ => .still rfl rfl rfl rfl rfl
    · split
      · exact hwalk
      · exact S.hook hwalk

theorem npcInitReturn (S : Steady I) (h : I w) {j i : Nat}
    (hlock : ∀ w₁, I w₁ → I (w₁.modify (.npc j) fun m =>
      { m with inCombat := true, combatNextHit := 0, combatRounds := 0 })) :
    I (Ref.World.npcInitReturn w j i) := by
  unfold Ref.World.npcInitReturn
  refine S.player (hlock _ ?_) fun _ => ⟨rfl, rfl⟩
  refine S.modifyPlayer ?_ fun _ => ⟨rfl, .still rfl rfl rfl rfl rfl⟩
  refine S.modify ?_ fun _ => .still rfl rfl rfl rfl rfl
  refine S.modify ?_ fun _ => .still rfl rfl rfl rfl rfl
  exact S.modify h fun _ => .still rfl rfl rfl rfl rfl

theorem npcFight (S : Steady I) (h : I w) (j i : Nat) (n : Npc) (t : NpcTurn) :
    I (Ref.World.npcFight w j i n t) := by
  have hstance : I (w.modify (.npc j) fun m =>
      if !m.moved then { m with dir := .combatLeft } else m) := by
    refine S.free h fun m => ?_
    split
    · exact ⟨rfl, rfl, fun _ hm => hm⟩
    · exact ⟨rfl, rfl, fun _ hm => hm⟩
  unfold Ref.World.npcFight
  dsimp only
  split
  · exact S.npcRetreat hstance j t
  · split
    · exact S.modify hstance fun _ => .still rfl rfl rfl rfl rfl
    · refine S.modify ?_ fun _ => .still rfl rfl rfl rfl rfl
      refine S.modify ?_ fun _ => .still rfl rfl rfl rfl rfl
      exact S.playerDamage hstance i none t.roll

theorem npcProcessCombat (S : Steady I) (h : I w) {j : Nat} {t : NpcTurn} {w' : World}
    (hw : Ref.World.npcProcessCombat w j t = .ok w') : I w' := by
  unfold Ref.World.npcProcessCombat at hw
  split at hw
  · exact Except.ok.inj hw ▸ h
  · next n _ =>
    split at hw
    · exact Except.ok.inj hw ▸ h
    · next i _ =>
      split at hw
      · exact Except.ok.inj hw ▸ S.combatReset h _
      · next target _ =>
        split at hw
        · exact Except.ok.inj hw ▸ S.npcInitCombat h j i n target t
        · split at hw
          · cases hw
          · have h₁ : I ((w.modifyPlayer i fun p => { p with chasedByNpc := none }).modify
                (.npc j) fun m => { m with followingPlayer := none }) := by
              refine S.modify ?_ fun _ => .still rfl rfl rfl rfl rfl
              exact S.modifyPlayer h fun p => ⟨rfl, .same p.mob⟩
            dsimp only at hw
            split at hw
            · exact Except.ok.inj hw ▸ h₁
            · exact Except.ok.inj hw ▸ S.npcFight h₁ j i n t

end Steady

end Sundae.Proofs
