import Sundae.Proofs.Pairs
import Sundae.Proofs.Steady

/-!
# Fights from tick to tick

Every function that ends a fight is gone through here: it lets go of both
sides as long as the mob it is called for is in the fight itself, or has no
target that is in one.
-/

namespace Sundae.Proofs

open Sundae.Lib Sundae.Ref.World
open Sundae.Ref (World Zone serverFindZone)

namespace Resting

variable {w : World} {r s : MobRef}

theorem reset_other (h : Resting w r) {f : Mob → Mob} (hf : ∀ m, fightOf (f m) = Fight.rest) :
    Resting (w.modify s f) r := by
  intro a ha
  rw [view_resetAt hf] at ha
  by_cases hr : r = s
  · subst hr
    rw [resetAt_self] at ha
    obtain ⟨_, _, rfl⟩ := Option.map_eq_some_iff.1 ha
    rfl
  · rw [resetAt_ne hr] at ha
    exact h a ha

theorem mobDie (w : World) (r : MobRef) : Resting (w.mobDie r) r := .reset fun _ => rfl

end Resting

namespace Duel

variable {w : World}

/-! ## mob.c -/

theorem mobDie (h : Duel w) {r : MobRef} (hloose : Loose w r) : Duel (w.mobDie r) := by
  have hhits : view (w.modify r fun m => { m with hits := m.baseHits }) = view w :=
    view_same fun _ => rfl
  exact (h.congr hhits).release (hloose.congr hhits) fun _ => rfl

/-- Who is in combat has a target. -/
theorem has_target (h : Duel w) {r : MobRef} {m : Mob} (hm : w.mob? r = some m)
    (hin : m.inCombat = true) : m.targetPlayer ≠ none ∨ m.targetNpc ≠ none := by
  obtain ⟨s, hrs, -⟩ := h.pair r _ (view_some hm) hin
  obtain ⟨m', hm', -, htarget⟩ := faces_mob hrs
  obtain rfl := Option.some.inj (hm.symm.trans hm')
  cases s with
  | player i =>
      have htarget : m.targetPlayer = some i := htarget
      simp [htarget]
  | npc j =>
      have htarget : m.targetNpc = some j := htarget
      simp [htarget]

theorem mobBlocked (h : Duel w) {r : MobRef} {m : Mob} (hm : w.mob? r = some m) :
    Duel (w.mobBlocked r m) := by
  unfold World.mobBlocked
  refine kept.light ?_ fun _ => .still rfl rfl rfl rfl rfl
  split
  · next hin =>
    split
    · next i hi =>
      exact h.part (s := .player i) hm hin hi (fun _ => rfl) fun _ => rfl
    · next j _ hj =>
      exact h.part (s := .npc j) hm hin hj (fun _ => rfl) fun _ => rfl
    · next hi hj =>
      rcases h.has_target hm hin with hnone | hnone
      · exact absurd hi hnone
      · exact absurd hj hnone
  · exact h

theorem fightOf_stepTo (m : Mob) (x y : Nat) (dir : Dir) : fightOf (m.stepTo x y dir) = fightOf m := by
  unfold Mob.stepTo
  split
  · rfl
  · rfl

theorem mobTakeStep (h : Duel w) {r : MobRef} {m : Mob} (hm : w.mob? r = some m) (path : Path) :
    Duel (w.mobTakeStep r m path) := by
  unfold World.mobTakeStep
  split
  · exact h.congr (view_same fun _ => rfl)
  · dsimp only
    split
    · exact h.mobBlocked hm
    · split
      · split
        · exact h.congr (view_same fun m => (Light.face m.clearQueue _ _).fight)
        · exact h.congr (view_same fun m => fightOf_stepTo _ _ _ _)
      · exact h.congr (view_same fun m => fightOf_stepTo m _ _ _)

theorem mobProcessWalkQueue (h : Duel w) (r : MobRef) (path : Path) :
    Duel (w.mobProcessWalkQueue r path) := by
  unfold World.mobProcessWalkQueue
  split
  · exact h
  · split
    · exact h.congr (view_same fun _ => rfl)
    · split
      · exact h
      · next w₁ hfollow =>
        have h₁ : Duel w₁ := kept.mobFollow h hfollow
        split
        · exact h₁
        · next m hm => exact h₁.mobTakeStep hm path

/-! ## player.c -/

theorem playerMoved (h : Duel w) (i fromX fromY : Nat) : Duel (playerMoved w i fromX fromY) :=
  h.congr (view_playerMoved w i fromX fromY)

theorem playerTeleport (h : Duel w) {i : Nat} (hloose : Loose w (.player i)) (x y : Nat) :
    Duel (playerTeleport w i x y) := by
  unfold Ref.World.playerTeleport
  split
  · exact h
  · have hplace : view (w.modify (.player i) fun m => { m with x := x % 65536, y := y % 65536 }) =
        view w :=
      view_same fun _ => rfl
    refine kept.modifyPlayer (playerMoved ?_ i _ _) fun p => ⟨rfl, .same p.mob⟩
    exact (h.congr hplace).release (hloose.congr hplace) fun _ => rfl

theorem playerDie (h : Duel w) {i : Nat} (victor : Option Nat) (hloose : Loose w (.player i)) :
    Duel (playerDie w i victor) := by
  have hview : view (((w.mobDie (.player i)).modify (.player i) Mob.clearQueue).modifyPlayer i
      Player.clearActions) = view (w.mobDie (.player i)) := by
    rw [view_modifyPlayer (f := Player.clearActions) fun _ => rfl]
    exact view_same fun _ => rfl
  have hdead := (h.mobDie hloose).congr hview
  have hrest := (Resting.mobDie w (.player i)).congr hview
  unfold Ref.World.playerDie
  dsimp only
  split
  · split
    · next v hv =>
      obtain ⟨m, hm, htarget⟩ := Option.bind_eq_some_iff.1 hv
      have hpeace := hdead.peace_of_target (s := .player i) hm htarget hrest.peace
      exact (hdead.reset (fun _ => rfl) hpeace).playerTeleport
        (hrest.reset_other fun _ => rfl).loose _ _
    · exact hdead.playerTeleport hrest.loose _ _
  · exact hdead.playerTeleport hrest.loose _ _

theorem playerDamage (h : Duel w) {i : Nat} (aggressor : Option Nat) {roll : Nat}
    (hloose : ∀ p, w.players i = some p → p.mob.hits ≤ roll → Loose w (.player i)) :
    Duel (playerDamage w i aggressor roll) := by
  unfold Ref.World.playerDamage
  split
  · exact h
  · next p hp =>
    split
    · next hroll => exact h.playerDie aggressor (hloose p hp hroll)
    · exact h.congr (view_same fun _ => rfl)

theorem playerProcessMovement (h : Duel w) (i : Nat) (path : Path) :
    Duel (playerProcessMovement w i path) := by
  unfold Ref.World.playerProcessMovement
  split
  · exact h
  · exact (h.mobProcessWalkQueue _ path).playerMoved i _ _

theorem playerRetreat (h : Duel w) {i : Nat} {p : Player} (hp : w.players i = some p)
    (hin : p.mob.inCombat = true) {w' : World} (hw : playerRetreat w i = some w') :
    Duel w' ∧ Resting w' (.player i) := by
  have hm : w.mob? (.player i) = some p.mob := by rw [mob?_player, hp]; rfl
  unfold Ref.World.playerRetreat at hw
  rw [hp] at hw
  dsimp only at hw
  split at hw
  · cases hw
  · obtain rfl := Option.some.inj hw
    exact ⟨h.release (.of_combat hm hin) fun _ => rfl, .reset fun _ => rfl⟩

/-! ## The death of an NPC -/

theorem npcLetGo (h : Duel w) {j : Nat} (hpeace : AtPeace w (.npc j)) (p : Option Nat) :
    Duel (npcLetGo w j p) := by
  unfold Ref.World.npcLetGo
  split
  · split
    · next i hi =>
      obtain ⟨m, hm, htarget⟩ := Option.bind_eq_some_iff.1 hi
      exact h.reset (fun _ => rfl) (h.peace_of_target (s := .npc j) hm htarget hpeace)
    · exact h
  · exact h

theorem npcToSpawn (h : Duel w) (j : Nat) : Duel (npcToSpawn w j) := by
  unfold Ref.World.npcToSpawn
  split
  · exact h
  · refine h.congr ((view_npcZones j _ _).trans (view_modifyNpc fun _ => ?_))
    rfl

theorem npcDieEnd (h : Duel w) {j : Nat} (p : Option Nat) (hloose : Loose w (.npc j)) :
    Duel (npcDieEnd w j p) := by
  have haward : view (npcAward w j p) = view w := view_modifyNpc fun _ => rfl
  have hdead := (h.congr haward).mobDie (hloose.congr haward)
  exact (hdead.npcLetGo (Resting.mobDie _ _).peace p).npcToSpawn j

theorem npcDie (h : Duel w) {j : Nat} {p : Option Nat} (melee : Bool)
    (hloose : p = none → Loose w (.npc j)) : Duel (npcDie w j p melee) := by
  unfold Ref.World.npcDie
  split
  · exact h.npcDieEnd none (hloose rfl)
  · next i =>
    have hfree : Duel (w.modifyPlayer i fun p =>
        if p.chasedByNpc = some j then { p with chasedByNpc := none } else p) := by
      refine kept.modifyPlayer h fun p => ?_
      split
      · exact ⟨rfl, .same p.mob⟩
      · exact ⟨rfl, .same p.mob⟩
    dsimp only
    split
    · exact kept.afterHit hfree j _ melee
    · exact kept.push hfree fun _ _ h => by cases h

theorem npcDieReturn (h : Duel w) {j i : Nat} {melee result : Bool}
    (hloose : ∀ n, w.npcs j = some n → ¬ (result = true ∧ 0 < n.mob.hits) →
      (w.players i).any Player.heldByScript = false → Loose w (.npc j)) :
    Duel (npcDieReturn w j i melee result) := by
  unfold Ref.World.npcDieReturn
  split
  · exact h
  · next n hn =>
    split
    · exact kept.afterHit h j _ melee
    · next hfinal =>
      have hdrop : view (w.modifyNpc j fun n => { n with drops := n.drops + 1 }) = view w :=
        view_modifyNpc fun _ => rfl
      dsimp only
      split
      · exact kept.afterHit (h.congr hdrop) j _ melee
      · next hheld =>
        have hheld : ¬ (w.players i).any Player.heldByScript = true := hheld
        have hfree : (w.players i).any Player.heldByScript = false := by simpa using hheld
        have hdead := (h.congr hdrop).npcDieEnd (some i) ((hloose n hn hfinal hfree).congr hdrop)
        exact kept.afterHit hdead j _ melee

/-- An NPC without a target is at peace, and may get one. -/
theorem npcWound (h : Duel w) (j i roll : Nat) : Duel (npcWound w j i roll) := by
  unfold Ref.World.npcWound
  by_cases hangry : ∃ n, w.npcs j = some n ∧ n.config.bravery < n.mob.hits ∧
      n.mob.targetPlayer = none
  · obtain ⟨n, hn, hangry⟩ := hangry
    rw [modifyNpc_congr (g := fun n => { n with mob := { n.mob with
      targetPlayer := some i
      followingPlayer := some i
      hits := n.mob.hits - roll
      damage := roll
      damageTimer := w.tick } }) fun n' hn' => ?_]
    · have hm : w.mob? (.npc j) = some n.mob := by rw [mob?_npc, hn]; rfl
      have hpeace : AtPeace w (.npc j) := by
        refine .of_mob hm ?_
        cases hin : n.mob.inCombat with
        | false => rfl
        | true =>
            have hok := h.ok (.npc j) _ (view_some hm) rfl
            rcases h.has_target hm hin with htarget | htarget
            · exact absurd hangry.2 htarget
            · exact absurd hok htarget
      show Duel (w.modify (.npc j) fun m => { m with
        targetPlayer := some i
        followingPlayer := some i
        hits := m.hits - roll
        damage := roll
        damageTimer := w.tick })
      exact h.write (g := fun f => { f with targetPlayer := some i }) (fun _ => rfl) hpeace
        (fun _ hout => hout) fun _ _ hnone => hnone
    · obtain rfl := Option.some.inj (hn.symm.trans hn')
      dsimp only
      rw [if_pos hangry]
  · rw [modifyNpc_congr (g := fun n => { n with mob := { n.mob with
      hits := n.mob.hits - roll
      damage := roll
      damageTimer := w.tick } }) fun n hn => ?_]
    · exact h.congr (view_modifyNpc fun _ => rfl)
    · dsimp only
      rw [if_neg fun hcond => hangry ⟨n, hn, hcond⟩]

/-- Damage by a script kills only who lets go on both sides; a player's death blow
waits for the script. -/
theorem npcDamage (h : Duel w) {j : Nat} {p : Option Nat} {roll : Nat} {melee : Bool}
    (hloose : p = none → ∀ n, w.npcs j = some n → n.mob.hits ≤ roll → Loose w (.npc j))
    {w' : World} (hw : npcDamage w j p roll melee = .ok w') : Duel w' := by
  unfold Ref.World.npcDamage at hw
  split at hw
  · exact Except.ok.inj hw ▸ h
  · next n hn =>
    have hstruck : view (w.modifyNpc j (Npc.struck p)) = view w := view_modifyNpc fun _ => rfl
    dsimp only at hw
    split at hw
    · next hroll =>
      have hdown : view ((w.modifyNpc j (Npc.struck p)).modify (.npc j)
          fun m => { m with hits := 0 }) = view w := by
        rw [← hstruck]
        exact view_same fun _ => rfl
      exact Except.ok.inj hw ▸ (h.congr hdown).npcDie melee fun hnone =>
        (hloose hnone n hn hroll).congr hdown
    · split at hw
      · cases hw
      · exact Except.ok.inj hw ▸ kept.afterHit ((h.congr hstruck).npcWound j _ roll) j _ melee

end Duel

/-! ## Attacks of players -/

/-- An archer's shot at a target in range that is safe from missiles. -/
def Warded (p : Player) (target : Mob) (projectile : Projectile) (shielded : Bool) : Prop :=
  projectile.magic = false ∧ p.mob.distance target.x target.y ≤ projectile.range ∧ shielded = true

/-- A shot that only lacks ammunition. -/
def Dry (p : Player) (target : Mob) (projectile : Projectile) (shielded : Bool) (c : Chance) :
    Prop :=
  (projectile.magic = false → p.mob.distance target.x target.y ≤ projectile.range ∧
    shielded = false ∧ p.rangedTimer = 0) ∧ c.reachable = true ∧ c.ammo = false

/-- A script does not take a fight's target from the player it lets shoot. -/
def AimSafe (p : Player) (target : Mob) (projectile : Projectile) (shielded : Bool) (c : Chance) :
    Prop :=
  p.mob.inCombat = true → ¬ Dry p target projectile shielded c ∧
    (Warded p target projectile shielded → p.mob.targetPlayer = none)

/-- Who is killed by a projectile lets go on both sides. -/
def ShotSafe (w : World) (i t : Nat) (projectile : Projectile) (c : Chance) : Prop :=
  ∀ p target, w.players i = some p → w.players t = some target →
    Flies p target.mob projectile c →
    (projectile.magic = false → target.protectFromMissiles = false) →
    target.mob.hits ≤ c.roll → Loose w (.player t)

theorem playerAim_unshielded {w : World} {i : Nat} {projectile : Projectile} {target : Mob}
    {follow : Mob → Mob} {shielded : Bool} {c : Chance}
    (hshot : (playerAim w i projectile target follow shielded c).2 = true)
    (hmagic : projectile.magic = false) : shielded = false := by
  unfold playerAim at hshot
  dsimp only at hshot
  split at hshot
  · cases hshot
  · split at hshot
    · cases hshot
    · split at hshot
      · cases hshot
      · next hward => simpa [hmagic] using hward

/-- A shot that flies leaves of every mob all but its walk and its direction
alone. -/
theorem map_playerAim {β : Type} {v : Mob → β} (hstand : ∀ m, v m.clearQueue.followNobody = v m)
    (hturn : ∀ m : Mob, v { m with dir := .northwest } = v m) {w : World} {i : Nat}
    {projectile : Projectile} {target : Mob} {follow : Mob → Mob} {shielded : Bool} {c : Chance}
    (hshot : (playerAim w i projectile target follow shielded c).2 = true) :
    (∃ p, w.players i = some p) ∧ ∀ s,
      ((playerAim w i projectile target follow shielded c).1.mob? s).map v = (w.mob? s).map v := by
  have htimer : ∀ s, ((shootTimer (shootTurn (shootStand w i) i projectile) i projectile).mob?
      s).map v = (w.mob? s).map v := by
    intro s
    have hstanding : ((shootStand w i).mob? s).map v = (w.mob? s).map v :=
      map_mob?_modify w _ s hstand
    unfold shootTimer shootTurn
    split
    · exact hstanding
    · refine (map_mob?_modifyPlayer _ i s fun _ => ?_).trans ?_
      · rfl
      · exact (map_mob?_modify _ _ s hturn).trans hstanding
  unfold playerAim at hshot ⊢
  dsimp only at hshot ⊢
  cases hp : w.players i with
  | none =>
      have hnone : (shootStand w i).players i = none := by
        simp [shootStand, World.modify, World.modifyPlayer, hp]
      rw [hnone] at hshot
      cases hshot
  | some p =>
      have hthere : (shootStand w i).players i =
          some { p with mob := p.mob.clearQueue.followNobody } := by
        simp [shootStand, World.modify, World.modifyPlayer, hp]
      rw [hthere] at hshot ⊢
      dsimp only at hshot ⊢
      split at hshot
      · cases hshot
      · split at hshot
        · cases hshot
        · split at hshot
          · cases hshot
          · split at hshot
            · cases hshot
            · split at hshot
              · cases hshot
              · next hrange hward hwait hreach hammo =>
                rw [if_neg hrange, if_neg hward, if_neg hwait, if_neg hreach, if_neg hammo]
                exact ⟨⟨p, rfl⟩, htimer⟩

namespace Duel

variable {w : World}

/-- A mob that is at peace is given a target, or has it taken away. -/
theorem setTargetPlayer (h : Duel w) {r : MobRef} (hpeace : AtPeace w r) (o : Option Nat) :
    Duel (w.modify r fun m => { m with targetPlayer := o }) :=
  h.write (g := fun f => { f with targetPlayer := o }) (fun _ => rfl) hpeace (fun _ hout => hout)
    fun _ _ hnone => hnone

theorem outOfAmmo (h : Duel w) {i : Nat} (hpeace : AtPeace w (.player i)) :
    Duel (outOfAmmo w i) :=
  h.write (g := fun f => { f with targetPlayer := none, targetNpc := none }) (fun _ => rfl) hpeace
    (fun _ hout => hout) fun _ _ _ => rfl

theorem playerAim (h : Duel w) {i : Nat} {projectile : Projectile} {target : Mob}
    (follow : Mob → Mob) {shielded : Bool} {c : Chance}
    (hsafe : ∀ p, w.players i = some p → AimSafe p target projectile shielded c)
    (hfollow : ∀ m, Light m (follow m)) :
    Duel (playerAim w i projectile target follow shielded c).1 := by
  have hstand : Duel (shootStand w i) := kept.shootStand h i
  unfold Ref.World.playerAim
  dsimp only
  cases hp : w.players i with
  | none =>
      have hnone : (shootStand w i).players i = none := by
        simp [shootStand, World.modify, World.modifyPlayer, hp]
      rw [hnone]
      exact hstand
  | some p =>
      have hthere : (shootStand w i).players i =
          some { p with mob := p.mob.clearQueue.followNobody } := by
        simp [shootStand, World.modify, World.modifyPlayer, hp]
      have hm : (shootStand w i).mob? (.player i) = some p.mob.clearQueue.followNobody := by
        rw [mob?_player, hthere]
        rfl
      have hsafe := hsafe p hp
      rw [hthere]
      dsimp only
      split
      · dsimp only
        exact kept.light hstand hfollow
      · next hrange =>
        split
        · next hward =>
          by_cases hin : p.mob.inCombat = true
          · have hnone : p.mob.targetPlayer = none := by
              refine (hsafe hin).2 ⟨by simpa using hward.1, ?_, hward.2⟩
              have hnear : ¬ projectile.range < p.mob.distance target.x target.y :=
                fun hfar => hrange ⟨hward.1, hfar⟩
              omega
            dsimp only
            rw [modify_congr (g := id) fun m' hm' => ?_]
            · exact hstand.congr (view_same fun _ => rfl)
            · obtain rfl := Option.some.inj (hm.symm.trans hm')
              dsimp only [id, Mob.followNobody, Mob.clearQueue]
              rw [hnone]
          · have hout : p.mob.inCombat = false := by simpa using hin
            dsimp only
            exact hstand.setTargetPlayer (.of_mob hm hout) none
        · next hward =>
          have hturn := kept.shootTurn hstand i projectile
          have htimer := kept.shootTimer hturn i projectile
          split
          · exact kept.modifyPlayer hturn fun p => ⟨rfl, .same p.mob⟩
          · next hwait =>
            split
            · exact htimer
            · next hreach =>
              split
              · next hammo =>
                have hpeace : AtPeace (shootStand w i) (.player i) := by
                  refine .of_mob hm ?_
                  cases hin : p.mob.inCombat with
                  | false => exact hin
                  | true =>
                      refine absurd ⟨fun hmagic => ⟨?_, ?_, ?_⟩, ?_, ?_⟩ (hsafe hin).1
                      · have hnear : ¬ projectile.range < p.mob.distance target.x target.y :=
                          fun hfar => hrange ⟨by simp [hmagic], hfar⟩
                        omega
                      · simpa [hmagic] using hward
                      · have hzero : ¬ 0 < p.rangedTimer := fun hpos =>
                          hwait ⟨by simp [hmagic], hpos⟩
                        omega
                      · simpa using hreach
                      · simpa using hammo
                have hview : view (shootTimer (shootTurn (shootStand w i) i projectile) i
                    projectile) = view (shootStand w i) :=
                  have T := kept_view (view (shootStand w i))
                  T.shootTimer (T.shootTurn rfl i projectile) i projectile
                exact htimer.outOfAmmo (hpeace.congr (by rw [hview]))
              · exact htimer

theorem playerShootPvp (h : Duel w) {i t : Nat} {projectile : Projectile} {c : Chance}
    (haim : ∀ p target, w.players i = some p → w.players t = some target →
      AimSafe p target.mob projectile target.protectFromMissiles c)
    (hshot : ShotSafe w i t projectile c) :
    Duel (playerShootPvp w i projectile t c) := by
  unfold Ref.World.playerShootPvp
  split
  · exact h
  · next target htarget =>
    have hend := h.playerAim (fun m => { m with followingPlayer := some t })
      (fun p hp => haim p target hp htarget) fun _ => .still rfl rfl rfl rfl rfl
    dsimp only
    split
    · next hflies =>
      obtain ⟨⟨p, hp⟩, hview⟩ := map_playerAim (v := fightOf) (fun _ => rfl) (fun _ => rfl) hflies.1
      obtain ⟨-, hhits⟩ := map_playerAim (v := Mob.hits) (fun _ => rfl) (fun _ => rfl) hflies.1
      refine hend.playerDamage (some i) fun target' htarget' hroll => ?_
      refine Loose.congr (hshot p target hp htarget ?_ ?_ ?_) (funext hview)
      · exact playerAim_flies hp hflies.1 hflies.2
      · exact playerAim_unshielded hflies.1
      · have hsame := hhits (.player t)
        rw [mob?_player, htarget', mob?_player, htarget] at hsame
        have hsame : target'.mob.hits = target.mob.hits := Option.some.inj hsame
        omega
    · exact hend

theorem playerShootPvm (h : Duel w) {i j : Nat} {projectile : Projectile} {c : Chance}
    (haim : ∀ p target, w.players i = some p → w.npcs j = some target →
      AimSafe p target.mob projectile false c) {w' : World}
    (hw : playerShootPvm w i projectile j c = .ok w') : Duel w' := by
  unfold Ref.World.playerShootPvm at hw
  split at hw
  · exact Except.ok.inj hw ▸ h
  · next target htarget =>
    obtain ⟨n, hn, rfl⟩ := Option.map_eq_some_iff.1 htarget
    have hend := h.playerAim (fun m => { m with followingNpc := some j })
      (fun p hp => haim p n hp hn) fun _ => .still rfl rfl rfl rfl rfl
    dsimp only at hw
    split at hw
    · exact hend.npcDamage (fun hnone => by cases hnone) hw
    · exact Except.ok.inj hw ▸ hend

/-- A fight begins between two that are at peace, or one begins it with itself. -/
theorem begin_fight (h : Duel w) {w' : World} {i : Nat} {r : MobRef} {f : Fight}
    (hi : AtPeace w (.player i)) (hr : AtPeace w r)
    (hother : ∀ a, a ≠ .player i → a ≠ r → view w' a = view w a)
    (hvi : view w' (.player i) = some f) (hin : f.inCombat = true)
    (honly : ∀ a, f.Targets a ↔ a = r) (hvr : view w' r = some ⟨true, some i, none⟩) :
    Duel w' := by
  refine h.begins (idle_iff.2 hi) (idle_iff.2 hr) hother ⟨f, hvi, hin, honly⟩
    ⟨_, hvr, rfl, targets_player⟩ (fun _ _ hnpc => by cases hnpc) fun a ha _ => ?_
  obtain rfl := Option.some.inj (hvr.symm.trans ha)
  rfl

/-- The start of a fight finds both at peace, and leaves the target locked. -/
theorem playerInitCombat (h : Duel w) {i : Nat} {r : MobRef} {c : Chance}
    (hpeace : AtPeace w (.player i)) {w' : World} {caught : Bool}
    (hw : playerInitCombat w i r c = (w', caught)) :
    if caught then (∃ m, w.mob? (.player i) = some m) ∧ (∃ m, w.mob? r = some m) ∧ AtPeace w r ∧
      ∃ w₁, view w₁ = view w ∧ w' = initLock w₁ i r
    else Duel w' := by
  unfold Ref.World.playerInitCombat at hw
  split at hw
  · next m target hm htarget =>
    have hclose : view (initClose w i r target) = view w := by
      have hrun : view (w.modify (.player i) fun m => m.close target) = view w := by
        refine view_same fun m => ?_
        unfold Mob.close
        split
        · rfl
        · rfl
      refine (view_modifyPlayer fun _ => ?_).trans ((view_same fun _ => ?_).trans
        ((view_same fun _ => ?_).trans hrun))
      · rfl
      · rfl
      · rfl
    split at hw
    · obtain ⟨rfl, rfl⟩ := Prod.mk.inj hw
      exact h.reset (fun _ => rfl) hpeace
    · next hfree =>
      split at hw
      · obtain ⟨rfl, rfl⟩ := Prod.mk.inj hw
        exact h
      · split at hw
        · obtain ⟨rfl, rfl⟩ := Prod.mk.inj hw
          rw [if_neg Bool.false_ne_true]
          split
          · exact h.reset (fun _ => rfl) hpeace
          · exact h
        · dsimp only at hw
          split at hw
          · obtain ⟨rfl, rfl⟩ := Prod.mk.inj hw
            exact h.congr hclose
          · obtain ⟨rfl, rfl⟩ := Prod.mk.inj hw
            refine ⟨⟨m, hm⟩, ⟨target, htarget⟩, .of_mob htarget (by simpa using hfree), ?_⟩
            exact ⟨_, hclose, rfl⟩
  · obtain ⟨rfl, rfl⟩ := Prod.mk.inj hw
    exact h

theorem view_initLock (w : World) (i : Nat) (r s : MobRef) :
    view (initLock w i r) s = if s = r then (view w s).map fun _ => ⟨true, some i, none⟩
      else if s = .player i then (view w s).map fun f => { f with inCombat := true }
      else view w s := by
  unfold initLock
  dsimp only
  rw [view_modify (g := fun _ => ⟨true, some i, none⟩) fun _ => rfl,
    view_modify (g := fun f => { f with inCombat := true }) fun _ => rfl]
  split
  · split
    · rw [Option.map_map]
      rfl
    · rfl
  · rfl

/-- The lock and what `player_process_combat` makes of the attacker's targets. -/
theorem lock (h : Duel w) {w₁ w₂ : World} {i : Nat} {r : MobRef} {m n : Mob} {f : Fight}
    {g : Fight → Fight} (hm : w.mob? (.player i) = some m) (hn : w.mob? r = some n)
    (hi : AtPeace w (.player i)) (hr : AtPeace w r) (hview : view w₁ = view w)
    (hlast : ∀ s, view w₂ s = if s = .player i then (view (initLock w₁ i r) s).map g
      else view (initLock w₁ i r) s) (hin : f.inCombat = true) (honly : ∀ a, f.Targets a ↔ a = r)
    (hself : .player i = r → g ⟨true, some i, none⟩ = f ∧ f = ⟨true, some i, none⟩)
    (hother : .player i ≠ r → g { fightOf m with inCombat := true } = f) : Duel w₂ := by
  refine h.begin_fight hi hr (fun a ha har => ?_) (f := f) ?_ hin honly ?_
  · rw [hlast, if_neg ha, view_initLock, if_neg har, if_neg ha, hview]
  · rw [hlast, if_pos rfl, view_initLock, hview, view_some hm]
    split
    · next hself' => exact congrArg some (hself hself').1
    · next hother' =>
      rw [if_pos rfl]
      exact congrArg some (hother hother')
  · rw [hlast, view_initLock, if_pos rfl, hview, view_some hn]
    split
    · next hself' =>
      obtain ⟨hg, hf⟩ := hself hself'.symm
      exact congrArg some (hg.trans hf)
    · rfl

theorem playerAttackPlayer (h : Duel w) {i t : Nat} {c : Chance} {p : Player}
    (hp : w.players i = some p) (hout : p.mob.inCombat = false)
    (hshot : ∀ projectile, p.projectile = some projectile → c.wild = true →
      ShotSafe w i t projectile c) : Duel (playerAttackPlayer w i t c) := by
  have hm : w.mob? (.player i) = some p.mob := by rw [mob?_player, hp]; rfl
  have hpeace : AtPeace w (.player i) := .of_mob hm hout
  unfold Ref.World.playerAttackPlayer
  rw [hp]
  split
  · next q target hq htarget =>
    obtain rfl := Option.some.inj hq
    split
    · exact h.setTargetPlayer hpeace none
    · next hwild =>
      split
      · next projectile hproj =>
        refine h.playerShootPvp (fun q _ hq _ => ?_) (hshot projectile hproj (by simpa using hwild))
        obtain rfl := Option.some.inj (hp.symm.trans hq)
        intro hin
        rw [hout] at hin
        cases hin
      · split
        · exact h.reset (fun _ => rfl) hpeace
        · cases hinit : Ref.World.playerInitCombat w i (.player t) c with
          | mk w' caught =>
              have hspec := h.playerInitCombat hpeace hinit
              cases caught with
              | false => exact kept.playerFollow hspec i _ fun _ => .still rfl rfl rfl rfl rfl
              | true =>
                  obtain ⟨-, ⟨n, hn⟩, hfree, w₁, hview, rfl⟩ := hspec
                  dsimp only
                  rw [if_neg (by decide)]
                  refine h.lock (f := ⟨true, some t, none⟩)
                    (g := fun f => ⟨f.inCombat, some t, none⟩) hm hn hpeace hfree hview
                    (fun s => ?_) rfl targets_player (fun hself => ?_) fun _ => rfl
                  · refine Eq.trans ?_ (view_modify (f := fun m =>
                      { m with targetPlayer := some t, targetNpc := none }) fun _ => rfl)
                    refine congrFun ((view_same fun _ => ?_).trans (view_modifyPlayer fun _ => ?_)) s
                    · rfl
                    · rfl
                  · obtain rfl := MobRef.player.inj hself
                    exact ⟨rfl, rfl⟩
  · exact h.reset (fun _ => rfl) hpeace
  · exact h

theorem playerAttackNpc (h : Duel w) {i j : Nat} {c : Chance} {p : Player}
    (hp : w.players i = some p) (hout : p.mob.inCombat = false)
    (htarget : p.mob.targetNpc = some j) {w' : World} (hw : playerAttackNpc w i j c = .ok w') :
    Duel w' := by
  have hm : w.mob? (.player i) = some p.mob := by rw [mob?_player, hp]; rfl
  have hpeace : AtPeace w (.player i) := .of_mob hm hout
  unfold Ref.World.playerAttackNpc at hw
  rw [hp] at hw
  split at hw
  · next q n hq hn =>
    obtain rfl := Option.some.inj hq
    split at hw
    · refine h.playerShootPvm (fun q _ hq _ => ?_) hw
      obtain rfl := Option.some.inj (hp.symm.trans hq)
      intro hin
      rw [hout] at hin
      cases hin
    · cases hinit : Ref.World.playerInitCombat w i (.npc j) c with
      | mk w₁ caught =>
          have hspec := h.playerInitCombat hpeace hinit
          rw [hinit] at hw
          cases caught with
          | false =>
              refine Except.ok.inj hw ▸ kept.playerFollow hspec i _ fun _ => ?_
              exact .still rfl rfl rfl rfl rfl
          | true =>
              obtain ⟨-, ⟨n, hn⟩, hfree, w₀, hview, rfl⟩ := hspec
              dsimp only at hw
              rw [if_neg (by decide)] at hw
              obtain rfl := Except.ok.inj hw
              refine h.lock (f := ⟨true, none, some j⟩) (g := fun f => { f with targetPlayer := none })
                hm hn hpeace hfree hview (fun s => ?_) rfl targets_npc (fun hself => ?_) fun _ => ?_
              · rw [view_modify (g := fun f => { f with targetPlayer := none }) fun _ => rfl]
                have hsame : view ((initLock w₀ i (.npc j)).modify (.npc j) fun m =>
                    { m with combatNextHit := 3 }) = view (initLock w₀ i (.npc j)) :=
                  view_same fun _ => rfl
                rw [hsame]
              · cases hself
              · have hfight : fightOf p.mob = ⟨false, p.mob.targetPlayer, some j⟩ := by
                  rw [← hout, ← htarget]
                  rfl
                rw [hfight]
  · exact Except.ok.inj hw ▸ h.reset (fun _ => rfl) hpeace
  · exact Except.ok.inj hw ▸ h

theorem fightOf_takeStance (m : Mob) (dir : Dir) : fightOf (m.takeStance dir) = fightOf m := by
  unfold Mob.takeStance
  split
  · rfl
  · rfl

theorem playerFightPlayer (h : Duel w) {i t : Nat} {c : Chance} {p : Player}
    (hp : w.players i = some p) (hin : p.mob.inCombat = true) (ht : p.mob.targetPlayer = some t) :
    Duel (playerFightPlayer w i t c) := by
  have hm : w.mob? (.player i) = some p.mob := by rw [mob?_player, hp]; rfl
  obtain ⟨n, hn, hfights, -⟩ := h.target_fights (s := .player t) hm hin ht
  obtain ⟨target, htarget, rfl⟩ := Option.map_eq_some_iff.1 hn
  unfold Ref.World.playerFightPlayer
  rw [hp, htarget]
  dsimp only
  split
  · exact h
  · have hview : view ((w.modify (.player i) fun m => m.takeStance .combatRight).modify
        (.player t) fun m => m.takeStance .combatLeft) = view w :=
      (view_same fun m => fightOf_takeStance m _).trans (view_same fun m => fightOf_takeStance m _)
    split
    · exact (h.congr hview).congr (view_same fun _ => rfl)
    · have hlast : Loose w (.player t) := .of_combat hn hfights
      refine kept.light (kept.light (playerDamage (h.congr hview) _ fun _ _ _ => ?_) fun _ => ?_)
        fun _ => ?_
      · exact hlast.congr hview
      · exact .still rfl rfl rfl rfl rfl
      · exact .still rfl rfl rfl rfl rfl

theorem playerFightNpc (h : Duel w) {i j : Nat} {c : Chance} {p : Player}
    (hp : w.players i = some p) (hin : p.mob.inCombat = true) (hj : p.mob.targetNpc = some j)
    {w' : World} (hw : playerFightNpc w i j c = .ok w') : Duel w' := by
  have hm : w.mob? (.player i) = some p.mob := by rw [mob?_player, hp]; rfl
  obtain ⟨n, hn, -, -⟩ := h.target_fights (s := .npc j) hm hin hj
  obtain ⟨target, htarget, rfl⟩ := Option.map_eq_some_iff.1 hn
  unfold Ref.World.playerFightNpc at hw
  rw [hp, htarget] at hw
  dsimp only at hw
  split at hw
  · exact Except.ok.inj hw ▸ h
  · have hstances : Duel (if !p.mob.dir.combat then
        (w.modify (.player i) fun m => { m with dir := .combatRight }).modify (.npc j)
          fun m => { m with dir := .combatLeft }
        else w) := by
      split
      · refine Duel.congr (h.congr (view_same fun _ => ?_)) (view_same fun _ => ?_)
        · rfl
        · rfl
      · exact h
    split at hw
    · exact Except.ok.inj hw ▸ hstances.congr (view_same fun _ => rfl)
    · exact hstances.npcDamage (fun hnone => by cases hnone) hw

theorem playerProcessCombat (h : Duel w) {i : Nat} {c : Chance}
    (hshot : ∀ p t projectile, w.players i = some p → p.mob.inCombat = false →
      p.mob.targetPlayer = some t → p.projectile = some projectile → c.wild = true →
      ShotSafe w i t projectile c) {w' : World} (hw : playerProcessCombat w i c = .ok w') :
    Duel w' := by
  unfold Ref.World.playerProcessCombat at hw
  split at hw
  · exact Except.ok.inj hw ▸ h
  · next p hp =>
    split at hw
    · cases hw
    · split at hw
      · next hout =>
        have hout : p.mob.inCombat = false := by simpa using hout
        split at hw
        · next t ht =>
          exact Except.ok.inj hw ▸ h.playerAttackPlayer hp hout fun projectile hproj hwild =>
            hshot p t projectile hp hout ht hproj hwild
        · next j _ hj => exact h.playerAttackNpc hp hout hj hw
        · exact Except.ok.inj hw ▸ h
      · next hin =>
        have hin : p.mob.inCombat = true := by simpa using hin
        split at hw
        · next t ht => exact Except.ok.inj hw ▸ h.playerFightPlayer hp hin ht
        · next j _ hj => exact h.playerFightNpc hp hin hj hw
        · exact Except.ok.inj hw ▸ h

/-! ## player_process_action -/

theorem actionNpcAttack (h : Duel w) {i : Nat} (j : Nat) {p : Player} (hp : w.players i = some p) :
    Duel (actionNpcAttack w i j p) := by
  have hm : w.mob? (.player i) = some p.mob := by rw [mob?_player, hp]; rfl
  unfold Ref.World.actionNpcAttack
  split
  · exact kept.noAction h i
  · next hout =>
    have hpeace : AtPeace w (.player i) := .of_mob hm (by simpa using hout)
    split
    · exact kept.noAction h i
    · next npc _ =>
      have T := kept_view (view w)
      have hstand := T.standToShoot rfl i npc.mob
      refine kept.noAction ?_ i
      exact (h.congr hstand).write (g := fun f => { f with targetNpc := some j }) (fun _ => rfl)
        (hpeace.congr (by rw [hstand])) (fun _ hout => hout) fun hnpc => by cases hnpc

theorem actionPlayerAttack (h : Duel w) {i : Nat} (t : Nat) {p : Player}
    (hp : w.players i = some p) : Duel (actionPlayerAttack w i t p) := by
  have hm : w.mob? (.player i) = some p.mob := by rw [mob?_player, hp]; rfl
  unfold Ref.World.actionPlayerAttack
  split
  · exact kept.noAction h i
  · next hout =>
    have hpeace : AtPeace w (.player i) := .of_mob hm (by simpa using hout)
    split
    · exact kept.noAction h i
    · next target _ =>
      have T := kept_view (view w)
      have hstand := T.standToShoot rfl i target.mob
      refine kept.noAction ?_ i
      exact (h.congr hstand).setTargetPlayer (hpeace.congr (by rw [hstand])) (some t)

theorem playerProcessAction (h : Duel w) (i : Nat) (c : Chance) :
    Duel (playerProcessAction w i c) :=
  kept.playerProcessAction h i c (fun _ _ hp => h.actionNpcAttack _ hp)
    fun _ _ hp => h.actionPlayerAttack _ hp

end Duel

end Sundae.Proofs
