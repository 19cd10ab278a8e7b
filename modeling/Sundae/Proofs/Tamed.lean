import Sundae.Proofs.Kept

/-!
# Properties of the world that harmless writes keep

Most of what the functions of the world write is a queue, a timer, a target,
or the end of a fight. A property that such writes keep, and a teleport, is
kept by most of the functions; the lemmas here go through them once, for
everything that is later proved of every reachable state.
-/

namespace Sundae.Proofs

open Sundae.Lib Sundae.Ref.World
open Sundae.Ref (World Zone serverFindZone)

/-- A property that is kept by harmless writes. -/
structure Still (I : World → Prop) : Prop extends Kept I where
  modify : ∀ {w : World} {r : MobRef} {f : Mob → Mob}, I w → (∀ m, Tame m (f m)) →
    I (w.modify r f)
  wound : ∀ {w : World} {j : Nat} {f : Npc → Npc}, I w →
    (∀ n, (f n).respawnTime = n.respawnTime ∧ (f n).drops = n.drops ∧ (f n).awards = n.awards ∧
      (f n).wounds = n.wounds ∧ Tame n.mob (f n).mob) → I (w.modifyNpc j f)

/-- And by a teleport. -/
structure Tamed (I : World → Prop) : Prop extends Still I where
  teleport : ∀ {w : World} (i x y : Nat), I w → I (playerTeleport w i x y)

theorem Tamed.and {I J : World → Prop} (hI : Tamed I) (hJ : Tamed J) :
    Tamed fun w => I w ∧ J w where
  light h hf := ⟨hI.light h.1 hf, hJ.light h.2 hf⟩
  modify h hf := ⟨hI.modify h.1 hf, hJ.modify h.2 hf⟩
  wound h hf := ⟨hI.wound h.1 hf, hJ.wound h.2 hf⟩
  modifyPlayer h hf := ⟨hI.modifyPlayer h.1 hf, hJ.modifyPlayer h.2 hf⟩
  modifyNpc h hf := ⟨hI.modifyNpc h.1 hf, hJ.modifyNpc h.2 hf⟩
  push h hframe := ⟨hI.push h.1 hframe, hJ.push h.2 hframe⟩
  teleport i x y h := ⟨hI.teleport i x y h.1, hJ.teleport i x y h.2⟩

/-- A property that looks neither at the zones' lists nor at where a mob is. -/
structure Blind (I : World → Prop) : Prop where
  modify : ∀ {w : World} {r : MobRef} {f : Mob → Mob}, I w → (∀ m, Calm m (f m)) →
    I (w.modify r f)
  modifyPlayer : ∀ {w : World} {i : Nat} {f : Player → Player}, I w →
    (∀ p, Calm p.mob (f p).mob) → I (w.modifyPlayer i f)
  modifyNpc : ∀ {w : World} {j : Nat} {f : Npc → Npc}, I w →
    (∀ n, (f n).respawnTime = n.respawnTime ∧ (f n).drops = n.drops ∧ (f n).awards = n.awards ∧
      (f n).wounds = n.wounds ∧ Calm n.mob (f n).mob) → I (w.modifyNpc j f)
  push : ∀ {w : World} {frame : Frame}, I w → (∀ j i, frame ≠ .npcInit j i) →
    I { w with frames := frame :: w.frames }
  zones : ∀ {w w' : World}, I w → w'.players = w.players → w'.npcs = w.npcs →
    w'.frames = w.frames → w'.walked = w.walked → I w'

/-- What `resetTargets` keeps, for a property of which only writes to mobs are
known. -/
theorem resetTargets_of {I : World → Prop} {w : World} {f : Mob → Mob}
    (hmodify : ∀ {w : World} (r : MobRef), I w → I (w.modify r fun m => (f m).combatReset))
    (h : I w) (r : MobRef) : I (w.resetTargets r f) := by
  unfold World.resetTargets
  cases (w.mob? r).bind Mob.targetPlayer with
  | none =>
      dsimp only
      split
      · exact hmodify _ h
      · exact h
  | some i =>
      have hfirst := hmodify (.player i) h
      dsimp only
      split
      · exact hmodify _ hfirst
      · exact hfirst

/-- And likewise for a change of zone. -/
theorem changeZone_of {I : World → Prop} {w : World} {remove add : World → Zone → World}
    (hremove : ∀ w zone, I w → I (remove w zone)) (hadd : ∀ w zone, I w → I (add w zone))
    (h : I w) (old new : Option Zone) : I (World.changeZone remove add w old new) := by
  unfold World.changeZone
  split
  · exact h
  · cases old with
    | none =>
        cases new with
        | none => exact h
        | some new => exact hadd _ _ h
    | some old =>
        cases new with
        | none => exact hremove _ _ h
        | some new => exact hadd _ _ (hremove _ _ h)

namespace Blind

variable {I : World → Prop} {w : World}

theorem playerZones (B : Blind I) (h : I w) (i : Nat) (old new : Option Zone) :
    I (World.changeZone (fun w zone => w.zoneRemovePlayer zone i)
      (fun w zone => w.zoneAddPlayer zone i) w old new) := by
  refine changeZone_of (fun w zone hw => ?_) (fun w zone hw => ?_) h old new
  · exact B.zones hw rfl rfl rfl rfl
  · exact B.zones hw rfl rfl rfl rfl

theorem npcZones (B : Blind I) (h : I w) (j : Nat) (old new : Option Zone) :
    I (World.changeZone (fun w zone => w.zoneRemoveNpc zone j)
      (fun w zone => w.zoneAddNpc zone j) w old new) := by
  refine changeZone_of (fun w zone hw => ?_) (fun w zone hw => ?_) h old new
  · exact B.zones hw rfl rfl rfl rfl
  · exact B.zones hw rfl rfl rfl rfl

theorem playerMoved (B : Blind I) (h : I w) (i fromX fromY : Nat) :
    I (Ref.World.playerMoved w i fromX fromY) := by
  unfold Ref.World.playerMoved
  split
  · exact h
  · next p _ =>
    have hzones := B.playerZones h i (serverFindZone fromX fromY) (serverFindZone p.mob.x p.mob.y)
    dsimp only
    split
    · exact hzones
    · split
      · exact hzones
      · split
        · exact hzones
        · exact B.modifyPlayer hzones fun _ => .still rfl rfl rfl

theorem playerTeleport (B : Blind I) (h : I w) (i x y : Nat) :
    I (Ref.World.playerTeleport w i x y) := by
  unfold Ref.World.playerTeleport
  split
  · exact h
  · refine B.modifyPlayer (B.playerMoved ?_ _ _ _) fun _ => .still rfl rfl rfl
    refine B.modify ?_ fun m => (Tame.combatReset m).toCalm
    refine resetTargets_of (fun r hw => ?_) ?_ _
    · exact B.modify hw fun m => (Tame.clearQueue_reset m).toCalm
    · exact B.modify h fun _ => .still rfl rfl rfl

theorem playerLogin (B : Blind I) (h : I w) (i : Nat) (l : Login) :
    I (Ref.World.playerLogin w i l) := by
  unfold Ref.World.playerLogin
  split
  · exact h
  · split
    · exact h
    · have hload : I (Ref.World.playerMoved (w.modifyPlayer i fun p => { p with
          name := l.name
          projectile := l.projectile
          mob := { p.mob with x := l.x, y := l.y, hits := l.hits, baseHits := l.hits } })
          i 65535 65535) := by
        refine B.playerMoved ?_ i 65535 65535
        exact B.modifyPlayer h fun _ => .still rfl rfl rfl
      dsimp only
      split
      · exact B.modifyPlayer hload fun p => .same p.mob
      · refine B.modifyPlayer ?_ fun p => .same p.mob
        split
        · exact B.modify hload fun _ => .still rfl rfl rfl
        · exact hload

theorem tamed (B : Blind I) : Tamed I where
  light h hf := B.modify h fun m => (hf m).toCalm
  modify h hf := B.modify h fun m => (hf m).toCalm
  modifyPlayer h hf := B.modifyPlayer h fun p => (hf p).2.toCalm
  modifyNpc h hf := B.modifyNpc h fun n =>
    ⟨(hf n).1, (hf n).2.1, (hf n).2.2.1, (hf n).2.2.2.1, (hf n).2.2.2.2.toCalm⟩
  wound h hf := B.modifyNpc h fun n =>
    ⟨(hf n).1, (hf n).2.1, (hf n).2.2.1, (hf n).2.2.2.1, (hf n).2.2.2.2.toCalm⟩
  push := B.push
  teleport i x y h := B.playerTeleport h i x y

end Blind

namespace Still

variable {I : World → Prop} {w : World}

theorem combatReset (T : Still I) (h : I w) (r : MobRef) : I (w.modify r Mob.combatReset) :=
  T.modify h Tame.combatReset

/-! ## mob.c -/

theorem resetTargets (T : Still I) (h : I w) (r : MobRef) {f : Mob → Mob}
    (hf : ∀ m, Tame m (f m).combatReset) : I (w.resetTargets r f) :=
  resetTargets_of (fun _ hw => T.modify hw hf) h r

theorem mobDie (T : Still I) (h : I w) (r : MobRef) : I (w.mobDie r) := by
  have hhits : I (w.modify r fun m => { m with hits := m.baseHits }) :=
    T.modify h fun _ => .still rfl rfl rfl rfl rfl
  exact T.modify (T.resetTargets hhits r Tame.combatReset) Tame.timers_reset

theorem mobBlocked (T : Still I) (h : I w) (r : MobRef) (m : Mob) :
    I (World.mobBlocked w r m) := by
  unfold World.mobBlocked
  refine T.modify ?_ fun _ => .still rfl rfl rfl rfl rfl
  split
  · refine T.combatReset ?_ r
    split
    · exact T.combatReset h _
    · exact T.combatReset h _
    · exact h
  · exact h

end Still

namespace Tamed

variable {I : World → Prop} {w : World}

/-! ## player.c -/

theorem playerDie (T : Tamed I) (h : I w) (i : Nat) (victor : Option Nat) :
    I (Ref.World.playerDie w i victor) := by
  unfold Ref.World.playerDie
  refine T.teleport _ _ _ ?_
  have hdead : I (((w.mobDie (.player i)).modify (.player i) Mob.clearQueue).modifyPlayer i
      Player.clearActions) := by
    refine T.modifyPlayer ?_ fun _ => ⟨rfl, .still rfl rfl rfl rfl rfl⟩
    exact T.modify (T.mobDie h _) fun _ => .still rfl rfl rfl rfl rfl
  split
  · split
    · exact T.combatReset hdead _
    · exact hdead
  · exact hdead

theorem playerDamage (T : Tamed I) (h : I w) (i : Nat) (aggressor : Option Nat) (roll : Nat) :
    I (Ref.World.playerDamage w i aggressor roll) := by
  unfold Ref.World.playerDamage
  split
  · exact h
  · split
    · exact T.playerDie h i aggressor
    · exact T.modify h fun _ => .still rfl rfl rfl rfl rfl

theorem playerRetreat (T : Tamed I) (h : I w) {i : Nat} {w' : World}
    (hw : Ref.World.playerRetreat w i = some w') : I w' := by
  unfold Ref.World.playerRetreat at hw
  split at hw
  · cases hw
  · split at hw
    · cases hw
    · exact Option.some.inj hw ▸ T.combatReset (T.resetTargets h _ Tame.clearQueue_reset) _

theorem npcLetGo (T : Tamed I) (h : I w) (j : Nat) (p : Option Nat) :
    I (Ref.World.npcLetGo w j p) := by
  unfold Ref.World.npcLetGo
  split
  · split
    · exact T.combatReset h _
    · exact h
  · exact h

theorem npcWound (T : Tamed I) (h : I w) (j i roll : Nat) : I (Ref.World.npcWound w j i roll) := by
  refine T.wound h fun n => ⟨rfl, rfl, rfl, rfl, ?_⟩
  dsimp only
  split
  · exact .still rfl rfl rfl rfl rfl
  · exact .still rfl rfl rfl rfl rfl

theorem outOfAmmo (T : Tamed I) (h : I w) (i : Nat) : I (Ref.World.outOfAmmo w i) :=
  T.modify h fun _ => .still rfl rfl rfl rfl rfl

theorem playerAim (T : Tamed I) (h : I w) {i : Nat} {projectile : Projectile} {target : Mob}
    {follow : Mob → Mob} {shielded : Bool} {c : Chance} {w' : World} {shot : Bool}
    (hw : Ref.World.playerAim w i projectile target follow shielded c = (w', shot))
    (hfollow : ∀ m, Tame m (follow m)) : I w' := by
  have hfst : (Ref.World.playerAim w i projectile target follow shielded c).1 = w' := by rw [hw]
  subst hfst
  have hstand := T.shootStand h i
  unfold Ref.World.playerAim
  dsimp only
  split
  · exact hstand
  · split
    · dsimp only
      exact T.modify hstand hfollow
    · split
      · dsimp only
        refine T.modify hstand fun _ => ?_
        exact .still rfl rfl rfl rfl rfl
      · have hturn := T.shootTurn hstand i projectile
        split
        · refine T.modifyPlayer hturn fun p => ?_
          exact ⟨rfl, .same p.mob⟩
        · have htimer := T.shootTimer hturn i projectile
          split
          · exact htimer
          · split
            · exact T.outOfAmmo htimer i
            · exact htimer

theorem playerShootPvp (T : Tamed I) (h : I w) (i : Nat) (projectile : Projectile) (t : Nat)
    (c : Chance) : I (Ref.World.playerShootPvp w i projectile t c) := by
  unfold Ref.World.playerShootPvp
  split
  · exact h
  · next target _ =>
    cases haim : Ref.World.playerAim w i projectile target.mob
        (fun m => { m with followingPlayer := some t }) target.protectFromMissiles c with
    | mk w₁ shot =>
        have h₁ : I w₁ := T.playerAim h haim fun _ => .still rfl rfl rfl rfl rfl
        dsimp only
        split
        · exact T.playerDamage h₁ t _ _
        · exact h₁

/-! ## player_process_action -/

theorem actionNpcAttack (T : Tamed I) (h : I w) (i j : Nat) (p : Player) :
    I (Ref.World.actionNpcAttack w i j p) := by
  unfold Ref.World.actionNpcAttack
  split
  · exact T.noAction h i
  · split
    · exact T.noAction h i
    · next npc _ =>
      refine T.noAction ?_ i
      refine T.modify ?_ fun _ => .still rfl rfl rfl rfl rfl
      exact T.standToShoot h i npc.mob

theorem actionPlayerAttack (T : Tamed I) (h : I w) (i t : Nat) (p : Player) :
    I (Ref.World.actionPlayerAttack w i t p) := by
  unfold Ref.World.actionPlayerAttack
  split
  · exact T.noAction h i
  · split
    · exact T.noAction h i
    · next target _ =>
      refine T.noAction ?_ i
      refine T.modify ?_ fun _ => .still rfl rfl rfl rfl rfl
      exact T.standToShoot h i target.mob

theorem playerProcessAction (T : Tamed I) (h : I w) (i : Nat) (c : Chance) :
    I (Ref.World.playerProcessAction w i c) :=
  T.toKept.playerProcessAction h i c (fun j p _ => T.actionNpcAttack h i j p)
    fun t p _ => T.actionPlayerAttack h i t p

/-! ## npc.c -/

theorem npcRetreat (T : Tamed I) (h : I w) (j : Nat) (t : NpcTurn) :
    I (Ref.World.npcRetreat w j t) := by
  unfold Ref.World.npcRetreat
  refine T.modify ?_ fun _ => .still rfl rfl rfl rfl rfl
  split
  · exact h
  · split
    · exact h
    · split
      · exact T.combatReset (T.combatReset h _) _
      · exact h

theorem huntAmong (T : Tamed I) (h : I w) (j : Nat) (n : Npc) (near : List Nat) {w' : World}
    (hw : Ref.World.huntAmong w j n near = .ok w') : I w' := by
  induction near with
  | nil => exact Except.ok.inj hw ▸ h
  | cons i rest ih =>
      have hcatch : ∀ {w : World}, I w →
          I ((w.modifyPlayer i fun p => { p with chasedByNpc := some j }).modify (.npc j)
            fun m => { m with targetPlayer := some i }) := by
        intro w hw
        refine T.modify ?_ fun _ => .still rfl rfl rfl rfl rfl
        exact T.modifyPlayer hw fun p => ⟨rfl, .same p.mob⟩
      rw [Ref.World.huntAmong] at hw
      split at hw
      · exact ih hw
      · split at hw
        · exact ih hw
        · split at hw
          · exact ih hw
          · dsimp only at hw
            split at hw
            · exact Except.ok.inj hw ▸ hcatch h
            · split at hw
              · cases hw
              · split at hw
                · exact ih hw
                · refine Except.ok.inj hw ▸ hcatch (T.modify h fun _ => ?_)
                  exact .still rfl rfl rfl rfl rfl

theorem npcHuntTarget (T : Tamed I) (h : I w) {j : Nat} {t : NpcTurn} {w' : World}
    (hw : Ref.World.npcHuntTarget w j t = .ok w') : I w' := by
  unfold Ref.World.npcHuntTarget at hw
  split at hw
  · exact Except.ok.inj hw ▸ h
  · split at hw
    · exact Except.ok.inj hw ▸ h
    · split at hw
      · exact Except.ok.inj hw ▸ h
      · exact T.huntAmong h j _ _ hw

/-! ## Scripts and packets -/

theorem scriptChangeleveldown (T : Tamed I) (h : I w) (i : Nat) :
    I (Ref.World.scriptChangeleveldown w i) := by
  unfold Ref.World.scriptChangeleveldown
  split
  · exact h
  · exact T.teleport i _ _ h

theorem scriptNodefault (T : Tamed I) (h : I w) (i : Nat) :
    I (Ref.World.scriptNodefault w i) := by
  unfold Ref.World.scriptNodefault
  split
  · exact h
  · exact T.combatReset (T.combatReset h _) _

theorem opWalkTile (T : Tamed I) (h : I w) (i : Nat) (queue : List (Nat × Nat)) :
    I (Ref.World.opWalkTile w i queue) := by
  unfold Ref.World.opWalkTile
  split
  · exact h
  · split
    · exact h
    · split
      · exact h
      · next w₁ hretreat =>
        have h₁ : I w₁ := by
          split at hretreat
          · exact T.playerRetreat h hretreat
          · exact Option.some.inj hretreat ▸ h
        refine T.modify ?_ fun m => (Kept.light_startWalk m queue false).toTame
        refine T.modifyPlayer ?_ fun _ => ⟨rfl, .still rfl rfl rfl rfl rfl⟩
        refine T.modify ?_ fun _ => .still rfl rfl rfl rfl rfl
        refine T.modifyPlayer ?_ fun p => ⟨rfl, .same p.mob⟩
        exact T.modify h₁ fun _ => .still rfl rfl rfl rfl rfl

/-! ## Functions with a step that is not harmless

The step is a hypothesis here, and `K` is what it leaves. -/

section Wild

variable {K : World → Prop}

theorem npcDie (T : Tamed I) (hK : ∀ w, I w → K w) (h : I w) {j : Nat} {p : Option Nat}
    (hend : p = none → K (Ref.World.npcDieEnd w j none)) (melee : Bool) :
    K (Ref.World.npcDie w j p melee) := by
  unfold Ref.World.npcDie
  split
  · exact hend rfl
  · next i =>
    have hfree : I (w.modifyPlayer i fun p =>
        if p.chasedByNpc = some j then { p with chasedByNpc := none } else p) := by
      refine T.modifyPlayer h fun p => ?_
      split
      · exact ⟨rfl, .same p.mob⟩
      · exact ⟨rfl, .same p.mob⟩
    refine hK _ ?_
    dsimp only
    split
    · exact T.afterHit hfree j _ melee
    · exact T.push hfree fun _ _ h => by cases h

theorem npcDamage (T : Tamed I) (hK : ∀ w, I w → K w) (h : I w) {j : Nat} {p : Option Nat}
    {roll : Nat} {melee : Bool} (hstruck : I (w.modifyNpc j (Npc.struck p)))
    (hend : ∀ w, I w → K (Ref.World.npcDieEnd w j none)) {w' : World}
    (hw : Ref.World.npcDamage w j p roll melee = .ok w') : K w' := by
  unfold Ref.World.npcDamage at hw
  split at hw
  · exact Except.ok.inj hw ▸ hK _ h
  · dsimp only at hw
    split at hw
    · have hdown : I ((w.modifyNpc j (Npc.struck p)).modify (.npc j) fun m => { m with hits := 0 }) :=
        T.modify hstruck fun _ => .still rfl rfl rfl rfl rfl
      exact Except.ok.inj hw ▸ T.npcDie hK hdown (fun _ => hend _ hdown) melee
    · split at hw
      · cases hw
      · exact Except.ok.inj hw ▸ hK _ (T.afterHit (T.npcWound hstruck j _ roll) j _ melee)

theorem playerShootPvm (T : Tamed I) (hK : ∀ w, I w → K w) (h : I w) {i j : Nat}
    {projectile : Projectile} {c : Chance} {w' : World}
    (hdamage : ∀ target, w.mob? (.npc j) = some target →
      (Ref.World.playerAim w i projectile target (fun m => { m with followingNpc := some j })
        false c).2 = true → 0 < projectile.power → ∀ w₁, I w₁ →
      Ref.World.npcDamage w₁ j (some i) c.roll false = .ok w' → K w')
    (hw : Ref.World.playerShootPvm w i projectile j c = .ok w') : K w' := by
  unfold Ref.World.playerShootPvm at hw
  split at hw
  · exact Except.ok.inj hw ▸ hK _ h
  · next target htarget =>
    cases haim : Ref.World.playerAim w i projectile target
        (fun m => { m with followingNpc := some j }) false c with
    | mk w₁ shot =>
        have h₁ : I w₁ := T.playerAim h haim fun _ => .still rfl rfl rfl rfl rfl
        rw [haim] at hw
        dsimp only at hw
        split at hw
        · next hshot =>
          refine hdamage target htarget ?_ hshot.2 w₁ h₁ hw
          rw [haim]
          exact hshot.1
        · exact Except.ok.inj hw ▸ hK _ h₁

theorem npcProcessMovement (T : Tamed I) (hK : ∀ w, I w → K w) (h : I w) {j : Nat} {t : NpcTurn}
    (hwalk : ∀ n, w.npcs j = some n → ∀ w₁, I w₁ →
      K (Ref.World.npcWalk w₁ j (serverFindZone n.mob.x n.mob.y) t)) {w' : World}
    (hw : Ref.World.npcProcessMovement w j t = .ok w') : K w' := by
  unfold Ref.World.npcProcessMovement at hw
  split at hw
  · exact Except.ok.inj hw ▸ hK _ h
  · next n hn =>
    split at hw
    · exact Except.ok.inj hw ▸ hK _ h
    · dsimp only at hw
      split at hw
      · split at hw
        · cases hw
        · refine Except.ok.inj hw ▸ T.npcWalkQueue hK ?_ (hwalk n hn)
          split
          · exact T.modify h fun _ => .still rfl rfl rfl rfl rfl
          · exact h
      · split at hw
        · split at hw
          · refine Except.ok.inj hw ▸ hK _ (T.modify h fun _ => ?_)
            exact .still rfl rfl rfl rfl rfl
          · split at hw
            · refine Except.ok.inj hw ▸ hK _ (T.modify (T.modifyPlayer h fun p => ?_) fun _ => ?_)
              · exact ⟨rfl, .same p.mob⟩
              · exact .still rfl rfl rfl rfl rfl
            · exact Except.ok.inj hw ▸ hwalk n hn _ h
        · split at hw
          · cases hw
          · next w₁ hhunt =>
            have h₁ : I w₁ := by
              split at hhunt
              · exact T.npcHuntTarget h hhunt
              · exact Except.ok.inj hhunt ▸ h
            exact Except.ok.inj hw ▸ T.npcWalkQueue hK (T.npcWander h₁ j t) (hwalk n hn)

end Wild

end Tamed

/-! ## Calls and events that are harmless -/

/-- Script calls that may do more than harmless writes. -/
def Api.wild : Api → Bool
  | .npcSubStat _ _ | .shootNpc _ _ _ _ | .changeLevelUp _ | .addNpc _ _ _ | .delNpc _ => true
  | _ => false

/-- Events that may. -/
def Event.wild : Event → Bool
  | .api a => Api.wild a
  | .logout _ | .walkTile _ _ | .walkEntity _ _ | .followPlayer _ _ | .setAction _ _
  | .projectile _ _ | .protection _ _ | .playerAction _ _ | .sendMovement _ => false
  | _ => true

namespace Tamed

variable {I : World → Prop} {w : World}

theorem runApi (T : Tamed I) (h : I w) {a : Api} (ha : Api.wild a = false) {w' : World}
    (hw : Ref.World.runApi w a = .ok w') : I w' := by
  cases a with
  | face i j => exact Except.ok.inj hw ▸ T.scriptFace h i j
  | npcSay j => exact Except.ok.inj hw ▸ T.scriptNpcsay h j
  | nearVisNpc i j => exact Except.ok.inj hw ▸ T.scriptNearvisnpc h i j
  | npcAttack j i =>
      refine Except.ok.inj hw ▸ T.modify h fun _ => ?_
      exact .still rfl rfl rfl rfl rfl
  | npcBusy j busy =>
      refine Except.ok.inj hw ▸ T.modifyNpc h fun n => ?_
      exact ⟨rfl, rfl, rfl, rfl, .same n.mob⟩
  | playerBusy i busy =>
      refine Except.ok.inj hw ▸ T.modifyPlayer h fun p => ?_
      exact ⟨rfl, .same p.mob⟩
  | multi i shown =>
      refine Except.ok.inj hw ▸ T.modifyPlayer h fun p => ?_
      exact ⟨rfl, .same p.mob⟩
  | subStat i damage => exact Except.ok.inj hw ▸ T.playerDamage h i none damage
  | npcAddStat j amount =>
      refine Except.ok.inj hw ▸ T.modify h fun _ => ?_
      exact .still rfl rfl rfl rfl rfl
  | setHits i hits =>
      refine Except.ok.inj hw ▸ T.modify h fun _ => ?_
      exact .still rfl rfl rfl rfl rfl
  | shootPlayer i t projectile c =>
      refine Except.ok.inj hw ▸ ?_
      split
      · exact T.playerShootPvp h i projectile t c
      · exact h
  | teleport i x y => exact Except.ok.inj hw ▸ T.teleport i x y h
  | changeLevelDown i => exact Except.ok.inj hw ▸ T.scriptChangeleveldown h i
  | noDefault i => exact Except.ok.inj hw ▸ T.scriptNodefault h i
  | changeNpc j config =>
      refine Except.ok.inj hw ▸ T.modifyNpc h fun n => ?_
      exact ⟨rfl, rfl, rfl, rfl, .same n.mob⟩
  | npcSubStat _ _ | shootNpc _ _ _ _ | changeLevelUp _ | addNpc _ _ _ | delNpc _ => cases ha

theorem run (T : Tamed I) (h : I w) {e : Event} (he : Event.wild e = false) {w' : World}
    (hw : Ref.World.run w e = .ok w') : I w' := by
  cases e with
  | logout i =>
      refine Except.ok.inj hw ▸ T.modifyPlayer h fun p => ?_
      exact ⟨rfl, .same p.mob⟩
  | walkTile i queue => exact Except.ok.inj hw ▸ T.opWalkTile h i queue
  | walkEntity i queue => exact Except.ok.inj hw ▸ T.opWalkEntity h i queue
  | followPlayer i target => exact Except.ok.inj hw ▸ T.opFollowPlayer h i target
  | setAction i action =>
      refine Except.ok.inj hw ▸ T.modifyPlayer h fun p => ?_
      exact ⟨rfl, .same p.mob⟩
  | projectile i projectile =>
      refine Except.ok.inj hw ▸ T.modifyPlayer h fun p => ?_
      exact ⟨rfl, .same p.mob⟩
  | protection i shown =>
      refine Except.ok.inj hw ▸ T.modifyPlayer h fun p => ?_
      exact ⟨rfl, .same p.mob⟩
  | playerAction i c => exact Except.ok.inj hw ▸ T.playerProcessAction h i c
  | api a => exact T.runApi h he hw
  | sendMovement known =>
      simp only [Ref.World.run, Ref.World.sendMovement] at hw
      split at hw
      · cases hw
      · exact Except.ok.inj hw ▸ h
  | _ => cases he

end Tamed

end Sundae.Proofs
