import Sundae.Proofs.Steady

/-!
# The lives of an NPC

An NPC that dies drops its items, gives experience and is gone until its
respawn timer has run out. The drops come before the timer is set, and neither
a hook in between nor another attacker later looks at it; where they meet an
NPC that is dead already is the condition of the result.
-/

namespace Sundae.Proofs

open Sundae.Lib Sundae.Ref.World
open Sundae.Ref (World Zone serverFindZone)

/-- An NPC in its life, or dead once. -/
structure Life (n : Npc) : Prop where
  alive : n.respawnTime = 0 → n.drops = 0 ∧ n.awards = 0
  dead : 0 < n.respawnTime → n.drops ≤ 1 ∧ n.awards ≤ 1 ∧ n.mob.inCombat = false
  unhurt : n.wounds = 0

/-- One that is about to die, with what it may still give. -/
structure Dying (more : Nat) (n : Npc) : Prop where
  drops : n.drops ≤ 1
  awards : n.awards + more ≤ 1
  unhurt : n.wounds = 0

/-! ## Properties of NPCs one by one -/

/-- Every NPC has the property of its slot. -/
def EachNpc (P : Nat → Npc → Prop) (w : World) : Prop := ∀ j n, w.npcs j = some n → P j n

/-- A property of the counters and the timer, and of being out of combat. -/
def Counted (P : Nat → Npc → Prop) : Prop :=
  ∀ j n n', n'.respawnTime = n.respawnTime → n'.drops = n.drops → n'.awards = n.awards →
    n'.wounds = n.wounds → (n'.mob.inCombat = true → n.mob.inCombat = true) → P j n → P j n'

theorem counted_life : Counted fun _ => Life := by
  intro j n n' htime hdrops hawards hwounds hcombat h
  refine ⟨fun hz => ?_, fun hpos => ?_, by rw [hwounds, h.unhurt]⟩
  · rw [htime] at hz
    rw [hdrops, hawards]
    exact h.alive hz
  · rw [htime] at hpos
    obtain ⟨hd, ha, hout⟩ := h.dead hpos
    refine ⟨by omega, by omega, ?_⟩
    cases hc : n'.mob.inCombat with
    | false => rfl
    | true => simp [hcombat hc] at hout

theorem counted_dying (more : Nat) : Counted fun _ => Dying more := by
  intro j n n' _ hdrops hawards hwounds _ h
  exact ⟨by rw [hdrops]; exact h.drops, by rw [hawards]; exact h.awards,
    by rw [hwounds]; exact h.unhurt⟩

theorem counted_time (k : Nat) : Counted fun j n => j = k → n.respawnTime = 0 := by
  intro j n n' htime _ _ _ _ h hj
  rw [htime]
  exact h hj

theorem counted_out (k : Nat) : Counted fun j n => j = k → n.mob.inCombat = false := by
  intro j n n' _ _ _ _ hcombat h hj
  cases hc : n'.mob.inCombat with
  | false => rfl
  | true => simpa [h hj] using hcombat hc

theorem Counted.and {P Q : Nat → Npc → Prop} (hP : Counted P) (hQ : Counted Q) :
    Counted fun j n => P j n ∧ Q j n :=
  fun j n n' htime hdrops hawards hwounds hcombat h =>
    ⟨hP j n n' htime hdrops hawards hwounds hcombat h.1,
      hQ j n n' htime hdrops hawards hwounds hcombat h.2⟩

/-- One slot has a property of its own. -/
theorem Counted.at {P Q : Nat → Npc → Prop} (k : Nat) (hP : Counted P) (hQ : Counted Q) :
    Counted fun j n => if j = k then Q j n else P j n := by
  intro j n n' htime hdrops hawards hwounds hcombat h
  split
  · next hj =>
    rw [if_pos hj] at h
    exact hQ j n n' htime hdrops hawards hwounds hcombat h
  · next hj =>
    rw [if_neg hj] at h
    exact hP j n n' htime hdrops hawards hwounds hcombat h

namespace EachNpc

variable {P : Nat → Npc → Prop} {w : World}

theorem imp {Q : Nat → Npc → Prop} (h : EachNpc P w) (hPQ : ∀ j n, P j n → Q j n) :
    EachNpc Q w :=
  fun j n hn => hPQ j n (h j n hn)

/-- A write to one NPC; what it is used for may ask another property of it. -/
theorem write {Q : Nat → Npc → Prop} (h : EachNpc P w) {j : Nat} {f : Npc → Npc}
    (hat : ∀ n, w.npcs j = some n → P j n → Q j (f n)) (hother : ∀ k n, k ≠ j → P k n → Q k n) :
    EachNpc Q (w.modifyNpc j f) := by
  intro k n hk
  rw [npcs_modifyNpc] at hk
  split at hk
  · next heq =>
    subst heq
    obtain ⟨n₀, hn₀, rfl⟩ := Option.map_eq_some_iff.1 hk
    exact hat n₀ hn₀ (h k n₀ hn₀)
  · next hne => exact hother k n hne (h k n hk)

theorem modifyNpc (h : EachNpc P w) {j : Nat} {f : Npc → Npc} (hf : ∀ n, P j n → P j (f n)) :
    EachNpc P (w.modifyNpc j f) :=
  h.write (fun n _ => hf n) fun _ _ _ hn => hn

theorem modify (h : EachNpc P w) (hP : Counted P) {r : MobRef} {f : Mob → Mob}
    (hf : r.isNpc = true → ∀ m, (f m).inCombat = true → m.inCombat = true) :
    EachNpc P (w.modify r f) := by
  cases r with
  | player i => exact h
  | npc j => exact h.modifyNpc fun n => hP j n _ rfl rfl rfl rfl (hf rfl n.mob)

theorem blind (hP : Counted P) : Blind (EachNpc P) where
  modify h hf := h.modify hP fun _ m => (hf m).inCombat
  modifyPlayer h _ := h
  modifyNpc h hf := h.modifyNpc fun n =>
    hP _ n _ (hf n).1 (hf n).2.1 (hf n).2.2.1 (hf n).2.2.2.1 (hf n).2.2.2.2.inCombat
  push h _ := h
  zones h _ hnpcs _ _ := fun j n hn => h j n (hnpcs ▸ hn)

theorem steady (hP : Counted P) : Steady (EachNpc P) where
  toTamed := (blind hP).tamed
  free h hf := h.modify hP fun hnpc m => (hf m).2.2 hnpc
  hook h := h

/-- Walking does not count. -/
theorem mobTakeStep (h : EachNpc P w) (hP : Counted P) (r : MobRef) (m : Mob) (path : Path) :
    EachNpc P (World.mobTakeStep w r m path) := by
  have hstep : ∀ {f : Mob → Mob} {x y : Nat} {dir : Dir}, (∀ m, (f m).inCombat = m.inCombat) →
      EachNpc P (w.modify r fun m => (f m).stepTo x y dir) := by
    intro f x y dir hf
    refine h.modify hP fun _ m hm => ?_
    unfold Mob.stepTo at hm
    split at hm
    · exact hf m ▸ hm
    · exact hf m ▸ hm
  have hclear : EachNpc P (w.modify r Mob.clearQueue) :=
    (steady hP).modify h fun _ => .still rfl rfl rfl rfl rfl
  unfold World.mobTakeStep
  split
  · exact hclear
  · dsimp only
    split
    · exact (steady hP).mobBlocked h r m
    · split
      · split
        · refine h.modify hP fun _ m hm => ?_
          rw [face_keeps m.clearQueue _ _ Mob.inCombat fun _ => rfl] at hm
          exact hm
        · exact hstep (f := fun m => { m with walkQueuePos := m.walkQueuePos + 1 }) fun _ => rfl
      · exact hstep (f := id) fun _ => rfl

theorem mobProcessWalkQueue (h : EachNpc P w) (hP : Counted P) (r : MobRef) (path : Path) :
    EachNpc P (World.mobProcessWalkQueue w r path) := by
  unfold World.mobProcessWalkQueue
  split
  · exact h
  · split
    · exact (steady hP).modify h fun _ => .still rfl rfl rfl rfl rfl
    · split
      · exact h
      · next w' hw' =>
        have h' := (steady hP).mobFollow h hw'
        split
        · exact h'
        · exact h'.mobTakeStep hP r _ path

theorem playerProcessMovement (h : EachNpc P w) (hP : Counted P) (i : Nat) (path : Path) :
    EachNpc P (Ref.World.playerProcessMovement w i path) := by
  unfold Ref.World.playerProcessMovement
  split
  · exact h
  · exact (blind hP).playerMoved (h.mobProcessWalkQueue hP _ path) i _ _

theorem npcWalk (h : EachNpc P w) (hP : Counted P) (j : Nat) (old : Option Zone) (t : NpcTurn) :
    EachNpc P (Ref.World.npcWalk w j old t) := by
  have hwalk := h.mobProcessWalkQueue hP (.npc j) t.path
  unfold Ref.World.npcWalk
  dsimp only
  split
  · exact hwalk
  · exact (blind hP).npcZones hwalk j _ _

theorem npcTalkReturn (h : EachNpc P w) (hP : Counted P) (i j x y : Nat) (result : Bool)
    (c : Chance) : EachNpc P (Ref.World.npcTalkReturn w i j x y result c) := by
  refine (steady hP).npcTalkReturn h fun htalk _ _ _ _ _ _ => ?_
  refine EachNpc.mobProcessWalkQueue ?_ hP (.npc j) c.path
  exact (steady hP).modify htalk fun _ => .still rfl rfl rfl rfl rfl

end EachNpc

/-! ## Death -/

/-- Every NPC is in its life, or dead once. -/
def Lives (w : World) : Prop := EachNpc (fun _ => Life) w

/-- And one of them is there. -/
def LivesUp (j : Nat) (w : World) : Prop :=
  EachNpc (fun k n => Life n ∧ (k = j → n.respawnTime = 0)) w

theorem steady_lives : Steady Lives := EachNpc.steady counted_life

theorem steady_livesUp (j : Nat) : Steady (LivesUp j) :=
  EachNpc.steady (counted_life.and (counted_time j))

theorem LivesUp.lives {j : Nat} {w : World} (h : LivesUp j w) : Lives w :=
  h.imp fun _ _ hn => hn.1

theorem Lives.up {j : Nat} {w : World} (h : Lives w)
    (hup : ∀ n, w.npcs j = some n → n.respawnTime = 0) : LivesUp j w :=
  fun k n hn => ⟨h k n hn, fun hk => hup n (hk ▸ hn)⟩

theorem Life.dying {n : Npc} (h : Life n) : Dying 0 n := by
  by_cases hz : n.respawnTime = 0
  · obtain ⟨hd, ha⟩ := h.alive hz
    exact ⟨by omega, by omega, h.unhurt⟩
  · obtain ⟨hd, ha, -⟩ := h.dead (by omega)
    exact ⟨hd, ha, h.unhurt⟩

/-- Every NPC but one that may still be given something for. -/
def LivesBut (j more : Nat) (w : World) : Prop :=
  EachNpc (fun k n => if k = j then Dying more n else Life n) w

theorem steady_livesBut (j more : Nat) : Steady (LivesBut j more) :=
  EachNpc.steady (counted_life.at j (counted_dying more))

namespace Lives

variable {w : World}

theorem npcAward {j : Nat} {p : Option Nat} (h : LivesBut j (if p.isSome then 1 else 0) w) :
    LivesBut j 0 (Ref.World.npcAward w j p) := by
  refine EachNpc.write h (fun n _ hn => ?_) fun k n hne hn => ?_
  · rw [if_pos rfl] at hn ⊢
    refine ⟨hn.drops, ?_, hn.unhurt⟩
    have hawards := hn.awards
    have hone : ∀ b : Bool, n.awards + 1 ≤ 1 → (if b then n.awards + 1 else n.awards) ≤ 1 := by
      intro b hle
      split
      · exact hle
      · omega
    cases p with
    | none => exact hawards
    | some i => exact hone _ hawards
  · rw [if_neg hne] at hn ⊢
    exact hn

/-- `mob_die` ends its fight. -/
theorem mobDie {j : Nat} (h : LivesBut j 0 w) :
    EachNpc (fun k n => (if k = j then Dying 0 n else Life n) ∧ (k = j → n.mob.inCombat = false))
      (w.mobDie (.npc j)) := by
  have S := steady_livesBut j 0
  have hreset : LivesBut j 0 ((w.modify (.npc j) fun m => { m with hits := m.baseHits }).resetTargets
      (.npc j) id) := by
    refine S.resetTargets ?_ (.npc j) Tame.combatReset
    exact S.modify h fun _ => .still rfl rfl rfl rfl rfl
  refine EachNpc.write hreset (fun n _ hn => ⟨?_, fun _ => rfl⟩) fun k n hne hn => ⟨hn, ?_⟩
  · rw [if_pos rfl] at hn ⊢
    exact ⟨hn.drops, hn.awards, hn.unhurt⟩
  · exact fun hk => absurd hk hne

/-- Back at its spawn, dead once or there again. -/
theorem npcToSpawn {j : Nat}
    (h : EachNpc (fun k n => (if k = j then Dying 0 n else Life n) ∧
      (k = j → n.mob.inCombat = false)) w) : Lives (Ref.World.npcToSpawn w j) := by
  unfold Ref.World.npcToSpawn
  split
  · next hnone =>
    intro k n hn
    have hne : k ≠ j := fun hk => by simp [hk, hnone] at hn
    have hlife := (h k n hn).1
    rwa [if_neg hne] at hlife
  · refine (EachNpc.blind counted_life).npcZones ?_ j _ _
    refine EachNpc.write h (fun n _ hn => ?_) fun k n hne hn => ?_
    · obtain ⟨hdying, hout⟩ := hn
      rw [if_pos rfl] at hdying
      refine ⟨fun hz => ?_, fun hpos => ⟨?_, ?_, hout rfl⟩, hdying.unhurt⟩
      · have hz : n.respawnTime = 0 := hz
        exact ⟨if_pos hz, if_pos hz⟩
      · have hpos : 0 < n.respawnTime := hpos
        dsimp only
        rw [if_neg (by omega)]
        exact hdying.drops
      · have hpos : 0 < n.respawnTime := hpos
        dsimp only
        rw [if_neg (by omega)]
        exact hdying.awards
    · have hlife := hn.1
      rwa [if_neg hne] at hlife

theorem npcDieEnd {j : Nat} {p : Option Nat} (h : LivesBut j (if p.isSome then 1 else 0) w) :
    Lives (Ref.World.npcDieEnd w j p) := by
  have S := EachNpc.steady ((counted_life.at j (counted_dying 0)).and (counted_out j))
  exact npcToSpawn (S.npcLetGo (mobDie (npcAward h)) j p)

/-- A script's damage gives nothing. -/
theorem npcDieEnd_none (h : Lives w) (j : Nat) : Lives (Ref.World.npcDieEnd w j none) := by
  refine npcDieEnd (h.imp fun k n hn => ?_)
  split
  · exact hn.dying
  · exact hn

/-- The hook has to come back to an NPC that is there, and to a player no script
has hold of, or to an NPC it has healed. -/
theorem npcDieReturn (h : Lives w) {j i : Nat} {melee result : Bool}
    (hsafe : ∀ n, w.npcs j = some n → (result = true ∧ 0 < n.mob.hits) ∨
      (n.respawnTime = 0 ∧ (w.players i).any Player.heldByScript = false)) :
    Lives (Ref.World.npcDieReturn w j i melee result) := by
  unfold Ref.World.npcDieReturn
  split
  · exact h
  · next n hn =>
    split
    · exact steady_lives.afterHit h j _ melee
    · next hfinal =>
      rcases hsafe n hn with hheal | ⟨htime, hfree⟩
      · exact absurd hheal hfinal
      · have hdrop : LivesBut j 1 (w.modifyNpc j fun n => { n with drops := n.drops + 1 }) := by
          refine EachNpc.write h (fun n' hn' hlife => ?_) fun k n' hne hlife => ?_
          · obtain rfl := Option.some.inj (hn.symm.trans hn')
            obtain ⟨hd, ha⟩ := hlife.alive htime
            rw [if_pos rfl]
            refine ⟨?_, ?_, hlife.unhurt⟩
            · dsimp only
              omega
            · dsimp only
              omega
          · rw [if_neg hne]
            exact hlife
        dsimp only
        split
        · next hheld =>
          have hheld : (w.players i).any Player.heldByScript = true := hheld
          rw [hfree] at hheld
          cases hheld
        · exact steady_lives.afterHit (npcDieEnd (p := some i) hdrop) j _ melee

/-- Damage by a player that finds the NPC there. -/
theorem npcDamage {j i roll : Nat} {melee : Bool} (h : LivesUp j w) {w' : World}
    (hw : Ref.World.npcDamage w j (some i) roll melee = .ok w') : Lives w' := by
  refine (steady_livesUp j).npcDamage (fun _ h => h.lives) h ?_ (fun _ h => npcDieEnd_none h.lives j)
    hw
  refine EachNpc.modifyNpc h fun n ⟨hlife, htime⟩ => ⟨⟨hlife.alive, hlife.dead, ?_⟩, htime⟩
  have hstill : ¬ ((some i).isSome = true ∧ 0 < n.respawnTime) := by
    rw [htime rfl]
    simp
  rw [Npc.struck, if_neg hstill]
  exact hlife.unhurt

theorem npcDamage_none {j roll : Nat} {melee : Bool} (h : Lives w) {w' : World}
    (hw : Ref.World.npcDamage w j none roll melee = .ok w') : Lives w' := by
  refine steady_lives.npcDamage (fun _ h => h) h ?_ (fun _ h => npcDieEnd_none h j) hw
  exact EachNpc.modifyNpc h fun n hn => ⟨hn.alive, hn.dead, hn.unhurt⟩

end Lives

/-! ## From tick to tick -/

/-- Neither a player's turn nor a shot reaches an NPC whose respawn timer runs,
and a script that comes back finds its NPC there, and after a kill the player
free, unless it has healed the NPC. -/
def LifeSafe (w : World) : Event → Prop
  | .playerCombat i c => ∀ j n, w.npcs j = some n → Reaches w i j c → n.respawnTime = 0
  | .api (.shootNpc i j projectile c) => ∀ p n, w.players i = some p → w.npcs j = some n →
      Flies p n.mob projectile c → n.respawnTime = 0
  | .hookReturn result _ =>
    match w.frames with
    | .killNpc j i _ :: _ => ∀ n, w.npcs j = some n → (result = true ∧ 0 < n.mob.hits) ∨
        (n.respawnTime = 0 ∧ (w.players i).any Player.heldByScript = false)
    | .npcInit j _ :: _ => ∀ n, w.npcs j = some n → n.respawnTime = 0
    | _ => True
  | _ => True

namespace Lives

variable {w : World}

/-- A lock of an NPC that is there. -/
theorem lock {j : Nat} (h : LivesUp j w) {f : Mob → Mob} : LivesUp j (w.modify (.npc j) f) :=
  EachNpc.modifyNpc h fun _ ⟨hlife, htime⟩ =>
    ⟨⟨hlife.alive, fun hpos => absurd (htime rfl) (Nat.ne_of_gt hpos), hlife.unhurt⟩, htime⟩

theorem playerProcessCombat (h : Lives w) {i : Nat} {c : Chance}
    (hsafe : LifeSafe w (.playerCombat i c)) {w' : World}
    (hw : Ref.World.playerProcessCombat w i c = .ok w') : Lives w' := by
  by_cases hreach : ∃ j, Reaches w i j c
  · obtain ⟨j, hj⟩ := hreach
    have honly : ∀ k, Reaches w i k c → k = j := by
      intro k ⟨p, _, hp, _, _, hk, _⟩
      obtain ⟨q, _, hq, _, _, htarget, _⟩ := hj
      rw [hp] at hq
      obtain rfl := Option.some.inj hq
      exact Option.some.inj (hk.symm.trans htarget)
    have hup : LivesUp j w := h.up fun n hn => hsafe j n hn hj
    refine (steady_livesUp j).playerProcessCombat (fun _ h => h.lives) hup ?_ ?_ hw
    · intro k hk w₁ h₁
      exact honly k hk ▸ lock h₁
    · intro k hk w₁ h₁ roll melee hdamage
      exact npcDamage h₁ (honly k hk ▸ hdamage)
  · refine steady_lives.playerProcessCombat (fun _ h => h) h ?_ ?_ hw
    · exact fun j hj => absurd ⟨j, hj⟩ hreach
    · exact fun j hj => absurd ⟨j, hj⟩ hreach

theorem shootNpc (h : Lives w) {i j : Nat} {projectile : Projectile} {c : Chance}
    (hsafe : LifeSafe w (.api (.shootNpc i j projectile c))) {p : Player}
    (hp : w.players i = some p) {w' : World}
    (hw : Ref.World.playerShootPvm w i projectile j c = .ok w') : Lives w' := by
  by_cases hflies : ∃ n, w.npcs j = some n ∧ Flies p n.mob projectile c
  · obtain ⟨n, hn, hflies⟩ := hflies
    have hup : LivesUp j w := h.up fun n' hn' => by
      obtain rfl := Option.some.inj (hn.symm.trans hn')
      exact hsafe p n hp hn hflies
    refine (steady_livesUp j).playerShootPvm (fun _ h => h.lives) hup ?_ hw
    exact fun _ _ _ _ w₁ h₁ hdamage => npcDamage h₁ hdamage
  · refine steady_lives.playerShootPvm (fun _ h => h) h (fun m hm hshot hpower => ?_) hw
    obtain ⟨n, hn, rfl⟩ := Option.map_eq_some_iff.1 hm
    exact absurd ⟨n, hn, playerAim_flies hp hshot hpower⟩ hflies

theorem serverAddNpc (h : Lives w) (config : NpcConfig) (x y : Nat) :
    Lives (Ref.World.serverAddNpc w config x y) := by
  unfold Ref.World.serverAddNpc
  split
  · exact h
  · next j _ =>
    have hnew : Lives { w with npcs := fun k => if k = j then some {
        mob := { x := x % 65536, y := y % 65536, hits := config.hits, baseHits := config.hits }
        config := config
        spawnX := x % 65536
        spawnY := y % 65536 } else w.npcs k } := by
      intro k n hn
      dsimp only at hn
      split at hn
      · obtain rfl := Option.some.inj hn
        exact ⟨fun _ => ⟨rfl, rfl⟩, fun hpos => absurd hpos (Nat.lt_irrefl 0), rfl⟩
      · exact h k n hn
    dsimp only
    split
    · exact hnew
    · exact hnew

theorem scriptDelnpc (h : Lives w) {j : Nat} {w' : World}
    (hw : Ref.World.scriptDelnpc w j = .ok w') : Lives w' := by
  unfold Ref.World.scriptDelnpc at hw
  split at hw
  · exact Except.ok.inj hw ▸ h
  · split at hw
    · cases hw
    · obtain rfl := Except.ok.inj hw
      intro k n hn
      dsimp only at hn
      split at hn
      · cases hn
      · exact h k n hn

theorem runApi (h : Lives w) {a : Api} (hsafe : LifeSafe w (.api a)) {w' : World}
    (hw : Ref.World.runApi w a = .ok w') : Lives w' := by
  by_cases ha : Api.wild a = false
  · exact steady_lives.runApi h ha hw
  · cases a with
    | npcSubStat j damage => exact npcDamage_none h hw
    | shootNpc i j projectile c =>
        rw [Ref.World.runApi] at hw
        split at hw
        · next hsome =>
          obtain ⟨p, hp⟩ := Option.isSome_iff_exists.1 hsome
          exact h.shootNpc hsafe hp hw
        · exact Except.ok.inj hw ▸ h
    | changeLevelUp i => exact Except.ok.inj hw ▸ h
    | addNpc config x y => exact Except.ok.inj hw ▸ h.serverAddNpc config x y
    | delNpc j => exact h.scriptDelnpc hw
    | _ => exact absurd rfl ha

theorem hookReturn (h : Lives w) {result : Bool} {c : Chance}
    (hsafe : LifeSafe w (.hookReturn result c)) {w' : World}
    (hw : Ref.World.hookReturn w result c = .ok w') : Lives w' := by
  unfold Ref.World.hookReturn at hw
  split at hw
  · cases hw
  · next frame rest hframes =>
    have hpop : Lives { w with frames := rest } := h
    rw [LifeSafe, hframes] at hsafe
    dsimp only at hw hsafe
    split at hw
    · exact Except.ok.inj hw ▸ hpop.npcDieReturn hsafe
    · next j i =>
      have hup : LivesUp j { w with frames := rest } := hpop.up hsafe
      have hlocked : LivesUp j (Ref.World.npcInitReturn { w with frames := rest } j i) :=
        (steady_livesUp j).npcInitReturn hup fun _ h => lock h
      exact Except.ok.inj hw ▸ hlocked.lives
    · exact Except.ok.inj hw ▸ EachNpc.npcTalkReturn hpop counted_life _ _ _ _ result c

/-- The timer runs out and the NPC is there again. -/
theorem endTick (h : Lives w) (regen : Nat → Bool) : Lives (Ref.World.endTick w regen) := by
  intro j n hn
  obtain ⟨n₀, hn₀, rfl⟩ := Option.map_eq_some_iff.1 hn
  have hlife := h j n₀ hn₀
  refine ⟨fun hz => ?_, fun hpos => ?_, hlife.unhurt⟩
  · have hz : n₀.respawnTime - 1 = 0 := hz
    dsimp only
    split
    · exact ⟨rfl, rfl⟩
    · next hne =>
      have hne : n₀.respawnTime ≠ 1 := by simpa using hne
      exact hlife.alive (by omega)
  · have hpos : 0 < n₀.respawnTime - 1 := hpos
    have hne : (n₀.respawnTime == 1) = false := by
      simp only [beq_eq_false_iff_ne, ne_eq]
      omega
    dsimp only
    rw [hne]
    exact hlife.dead (by omega)

theorem run (h : Lives w) {e : Event} (hsafe : LifeSafe w e) {w' : World}
    (hw : Ref.World.run w e = .ok w') : Lives w' := by
  by_cases he : Event.wild e = false
  · exact steady_lives.run h he hw
  · cases e with
    | connect =>
        obtain rfl := Except.ok.inj hw
        unfold Ref.World.playerCreate
        split
        · exact h
        · exact h
    | login i l => exact Except.ok.inj hw ▸ (EachNpc.blind counted_life).playerLogin h i l
    | remove i =>
        obtain rfl := Except.ok.inj hw
        unfold Ref.World.serverRemovePlayer
        split
        · exact h
        · exact h
    | playerCombat i c => exact h.playerProcessCombat hsafe hw
    | playerMovement i path =>
        have hstart : Lives { w with walked := i :: w.walked } := h
        exact Except.ok.inj hw ▸ EachNpc.playerProcessMovement hstart counted_life i path
    | npcCombat j t => exact steady_lives.npcProcessCombat h hw
    | npcMovement j t =>
        refine steady_lives.npcProcessMovement (fun _ h => h) h (fun _ _ w₁ h₁ => ?_) hw
        exact EachNpc.npcWalk h₁ counted_life j _ t
    | api a => exact h.runApi hsafe hw
    | hookReturn result c => exact h.hookReturn hsafe hw
    | findPlayers zone shown max => exact Except.ok.inj hw ▸ h
    | findNpcs zone shown max => exact Except.ok.inj hw ▸ h
    | endTick regen => exact Except.ok.inj hw ▸ h.endTick regen
    | _ => exact absurd rfl he

theorem start (hw : Fresh w) : Lives w := by
  obtain ⟨x, y, rfl⟩ := hw
  intro j n hn
  cases hn

end Lives

/-- Since it last spawned an NPC has dropped its items and given experience at
most once, and while its respawn timer runs no player has damaged it and it is
in no fight. -/
structure OneDeath (n : Npc) : Prop where
  drops : n.drops ≤ 1
  awards : n.awards ≤ 1
  unhurt : n.wounds = 0
  apart : 0 < n.respawnTime → n.mob.inCombat = false

theorem Life.oneDeath {n : Npc} (h : Life n) : OneDeath n :=
  ⟨h.dying.drops, h.dying.awards, h.unhurt, fun hpos => (h.dead hpos).2.2⟩

/-- In every run in which nothing that kills or fights meets an NPC that is dead
already, an NPC dies once in its life. -/
theorem one_death {tr : List (World × Event)} {w : World} (hrun : Run Fresh step tr w)
    (hsafe : ∀ x ∈ tr, LifeSafe x.1 x.2) :
    ∀ c ∈ statesOf tr w, ∀ j n, c.npcs j = some n → OneDeath n := by
  intro c hc j n hn
  obtain ⟨tr', hpre, hrun'⟩ := hrun.reaches hc
  have hlives : Lives c := by
    refine hrun'.invariant (fun _ => Lives.start) ?_ fun x hx => hsafe x (hpre.subset hx)
    intro s e s' hs hsafe hstep
    unfold step at hstep
    split at hstep
    · exact hs.run hsafe hstep
    · cases hstep
  exact (hlives j n hn).oneDeath

/-- A bow. -/
def shortbow : Projectile where
  magic := false
  range := 4
  power := 1

/-- Two archers with a chicken between them, which is the target of both. -/
def archersAtChicken : List Event :=
  [.connect, .login 0 ⟨5, 10, 10, 10, false, true, some shortbow⟩,
    .connect, .login 1 ⟨6, 12, 10, 10, false, true, some shortbow⟩,
    .api (.addNpc chicken 11 10), .setAction 0 (.npcAttack 0), .setAction 1 (.npcAttack 0),
    .playerAction 0 {}, .playerAction 1 {}]

/-- One of them shoots it. -/
theorem one_death_shot : ∃ tr w, exec step {} (archersAtChicken ++
    [.playerCombat 0 { roll := 3 }, .hookReturn false {}]) = .ok (tr, w) ∧
    ∀ c ∈ statesOf tr w, ∀ j n, c.npcs j = some n → OneDeath n := by
  have hrun : Run Fresh step _ _ := Run.of_exec (archersAtChicken ++
    [.playerCombat 0 { roll := 3 }, .hookReturn false {}]) ⟨0, 0, rfl⟩ rfl
  refine ⟨_, _, rfl, one_death hrun ?_⟩
  intro x hx
  simp only [List.mem_cons, List.not_mem_nil, or_false] at hx
  rcases hx with rfl | rfl | rfl | rfl | rfl | rfl | rfl | rfl | rfl | rfl | rfl
  · trivial
  · trivial
  · trivial
  · trivial
  · trivial
  · trivial
  · trivial
  · trivial
  · trivial
  · intro j n hn ⟨p, _, hp, _, _, htarget, _⟩
    obtain rfl := Option.some.inj hp
    obtain rfl := Option.some.inj htarget
    obtain rfl := Option.some.inj hn
    rfl
  · intro n hn
    obtain rfl := Option.some.inj hn
    exact .inr ⟨rfl, rfl⟩

/-- And then the other shoots the dead chicken, which drops everything again. -/
theorem chicken_dies_twice : ¬ ∀ (tr : List (World × Event)) (w : World),
    Run Fresh step tr w → ∀ j n, w.npcs j = some n → OneDeath n := by
  intro hall
  have hrun : Run Fresh step _ _ := Run.of_exec (archersAtChicken ++
    [.playerCombat 0 { roll := 3 }, .hookReturn false {},
      .playerCombat 1 { roll := 3 }, .hookReturn false {}]) ⟨0, 0, rfl⟩ rfl
  have hdrops := (hall _ _ hrun 0 _ rfl).drops
  exact absurd hdrops (by decide)

end Sundae.Proofs
