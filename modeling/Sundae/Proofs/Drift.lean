import Sundae.Proofs.Tamed
import Sundae.Ref.Walk

/-!
# Where mobs are put, and the bounds of their queues

Only `mob_process_walk_queue` walks. Whatever else happens to a mob leaves it on
its tile, or puts it somewhere else by a teleport, a login or, for an NPC, by
its death; and it leaves the walk queue within its bounds. The functions of the
world are gone through once for both.
-/

namespace Sundae.Proofs

open Sundae.Lib Sundae.Ref.World
open Sundae.Ref (World Zone serverFindZone)

/-- `walk_queue_pos <= walk_queue_len <= WALK_QUEUE_LEN`, and the slots in use
have been written. -/
structure Lined (m : Mob) : Prop where
  pos : m.walkQueuePos ≤ m.walkQueueLen
  written : m.walkQueueLen ≤ m.walkQueue.length
  len : m.walkQueueLen ≤ walkQueueLen

/-- A write that leaves the mob on its tile. -/
structure Parked (m m' : Mob) : Prop where
  x : m'.x = m.x
  y : m'.y = m.y
  lined : Lined m → Lined m'

/-- A write that leaves the queue and the tile of a mob as they are. -/
structure SameQueue (m m' : Mob) : Prop where
  x : m'.x = m.x
  y : m'.y = m.y
  queue : m'.walkQueue = m.walkQueue
  pos : m'.walkQueuePos = m.walkQueuePos
  len : m'.walkQueueLen = m.walkQueueLen

namespace Parked

theorem still {m m' : Mob} (hx : m'.x = m.x) (hy : m'.y = m.y)
    (hqueue : m'.walkQueue = m.walkQueue) (hpos : m'.walkQueuePos = m.walkQueuePos)
    (hlen : m'.walkQueueLen = m.walkQueueLen) : Parked m m' := by
  refine ⟨hx, hy, fun h => ⟨?_, ?_, ?_⟩⟩
  · rw [hpos, hlen]
    exact h.pos
  · rw [hlen, hqueue]
    exact h.written
  · rw [hlen]
    exact h.len

theorem cleared {m m' : Mob} (hx : m'.x = m.x) (hy : m'.y = m.y) (hpos : m'.walkQueuePos = 0)
    (hlen : m'.walkQueueLen = 0) : Parked m m' := by
  refine ⟨hx, hy, fun _ => ⟨?_, ?_, ?_⟩⟩
  · rw [hpos]
    exact Nat.zero_le _
  · rw [hlen]
    exact Nat.zero_le _
  · rw [hlen]
    exact Nat.zero_le _

/-- A queue of one step. -/
theorem sent {m m' : Mob} (hx : m'.x = m.x) (hy : m'.y = m.y) (hpos : m'.walkQueuePos = 0)
    (hlen : m'.walkQueueLen = 1) (hqueue : 0 < m'.walkQueue.length) : Parked m m' := by
  refine ⟨hx, hy, fun _ => ⟨?_, ?_, ?_⟩⟩
  · rw [hpos]
    exact Nat.zero_le _
  · rw [hlen]
    exact hqueue
  · rw [hlen]
    decide

theorem same (m : Mob) : Parked m m := ⟨rfl, rfl, id⟩

theorem trans {m m' m'' : Mob} (h : Parked m m') (h' : Parked m' m'') : Parked m m'' :=
  ⟨h'.x.trans h.x, h'.y.trans h.y, fun hm => h'.lined (h.lined hm)⟩

theorem combatReset (m : Mob) : Parked m m.combatReset := still rfl rfl rfl rfl rfl

theorem clearQueue (m : Mob) : Parked m m.clearQueue := cleared rfl rfl rfl rfl

theorem clearQueue_reset (m : Mob) : Parked m m.clearQueue.combatReset := cleared rfl rfl rfl rfl

theorem walkTo (m : Mob) (x y : Nat) : Parked m (m.walkTo x y) :=
  sent rfl rfl rfl rfl (Nat.succ_pos _)

theorem face (m : Mob) (x y : Nat) : Parked m (m.face x y) := by
  unfold Mob.face
  split
  · exact same m
  · exact still rfl rfl rfl rfl rfl

theorem takeStance (m : Mob) (dir : Dir) : Parked m (m.takeStance dir) := by
  unfold Mob.takeStance
  split
  · exact still rfl rfl rfl rfl rfl
  · exact same m

theorem close (m target : Mob) : Parked m (m.close target) := by
  unfold Mob.close
  split
  · exact cleared rfl rfl rfl rfl
  · exact sent rfl rfl rfl rfl (Nat.succ_pos _)

end Parked

/-! ## Worlds -/

/-- A mob is on the tile it was on, unless mobs are put elsewhere and it is one
that was. -/
structure PlayerDrift (far : Prop) (p p' : Player) : Prop where
  lined : Lined p.mob → Lined p'.mob
  loginOk : p.loginOk = true → p'.loginOk = true
  teleported : p.teleported = true → p'.teleported = true
  place : (p'.mob.x = p.mob.x ∧ p'.mob.y = p.mob.y) ∨
    far ∧ (p.loginOk = false ∨ p'.teleported = true)

/-- And an NPC is put where it spawned. -/
structure NpcDrift (far : Prop) (n n' : Npc) : Prop where
  lined : Lined n.mob → Lined n'.mob
  spawnX : n'.spawnX = n.spawnX
  spawnY : n'.spawnY = n.spawnY
  place : (n'.mob.x = n.mob.x ∧ n'.mob.y = n.mob.y) ∨
    far ∧ n'.mob.x = n.spawnX ∧ n'.mob.y = n.spawnY

/-- What may have become of the mobs of `w₀`, if none has walked. -/
structure Drift (far : Prop) (w₀ w : World) : Prop where
  players : ∀ i p, w.players i = some p → ∃ p₀, w₀.players i = some p₀ ∧ PlayerDrift far p₀ p
  npcs : ∀ j n, w.npcs j = some n → ∃ n₀, w₀.npcs j = some n₀ ∧ NpcDrift far n₀ n

theorem PlayerDrift.trans {far : Prop} {p p' p'' : Player} (h : PlayerDrift far p p')
    (h' : PlayerDrift far p' p'') : PlayerDrift far p p'' := by
  refine ⟨fun hp => h'.lined (h.lined hp), fun hp => h'.loginOk (h.loginOk hp),
    fun hp => h'.teleported (h.teleported hp), ?_⟩
  rcases h'.place with ⟨hx', hy'⟩ | ⟨hfar, hlogin | htele⟩
  · rcases h.place with ⟨hx, hy⟩ | ⟨hfar, hlogin | htele⟩
    · exact .inl ⟨hx'.trans hx, hy'.trans hy⟩
    · exact .inr ⟨hfar, .inl hlogin⟩
    · exact .inr ⟨hfar, .inr (h'.teleported htele)⟩
  · refine .inr ⟨hfar, .inl ?_⟩
    cases hp : p.loginOk with
    | false => rfl
    | true =>
        rw [h.loginOk hp] at hlogin
        cases hlogin
  · exact .inr ⟨hfar, .inr htele⟩

theorem NpcDrift.trans {far : Prop} {n n' n'' : Npc} (h : NpcDrift far n n')
    (h' : NpcDrift far n' n'') : NpcDrift far n n'' := by
  refine ⟨fun hn => h'.lined (h.lined hn), h'.spawnX.trans h.spawnX, h'.spawnY.trans h.spawnY, ?_⟩
  rcases h'.place with ⟨hx', hy'⟩ | ⟨hfar, hx', hy'⟩
  · rcases h.place with ⟨hx, hy⟩ | ⟨hfar, hx, hy⟩
    · exact .inl ⟨hx'.trans hx, hy'.trans hy⟩
    · exact .inr ⟨hfar, hx'.trans hx, hy'.trans hy⟩
  · exact .inr ⟨hfar, hx'.trans h.spawnX, hy'.trans h.spawnY⟩

namespace Drift

variable {far : Prop} {w₀ w w' : World}

theorem refl (far : Prop) (w : World) : Drift far w w where
  players _ p hp := ⟨p, hp, id, id, id, .inl ⟨rfl, rfl⟩⟩
  npcs _ n hn := ⟨n, hn, id, rfl, rfl, .inl ⟨rfl, rfl⟩⟩

theorem trans (h : Drift far w₀ w) (h' : Drift far w w') : Drift far w₀ w' := by
  constructor
  · intro i p' hp'
    obtain ⟨p, hp, hdrift'⟩ := h'.players i p' hp'
    obtain ⟨p₀, hp₀, hdrift⟩ := h.players i p hp
    exact ⟨p₀, hp₀, hdrift.trans hdrift'⟩
  · intro j n' hn'
    obtain ⟨n, hn, hdrift'⟩ := h'.npcs j n' hn'
    obtain ⟨n₀, hn₀, hdrift⟩ := h.npcs j n hn
    exact ⟨n₀, hn₀, hdrift.trans hdrift'⟩

/-! ## Writes to the tables -/

/-- The zones' lists, the hooks and the clock do not matter. -/
theorem of_tables (h : Drift far w₀ w) (hplayers : w'.players = w.players)
    (hnpcs : w'.npcs = w.npcs) : Drift far w₀ w' := by
  constructor
  · rw [hplayers]
    exact h.players
  · rw [hnpcs]
    exact h.npcs

theorem writePlayer (h : Drift far w₀ w) {i : Nat} {f : Player → Player}
    (hf : ∀ p, w.players i = some p → PlayerDrift far p (f p)) :
    Drift far w₀ (w.modifyPlayer i f) := by
  refine h.trans ⟨fun k p' hp' => ?_, (refl far w).npcs⟩
  rw [players_modifyPlayer] at hp'
  split at hp'
  · next hk =>
    obtain ⟨p, hp, rfl⟩ := Option.map_eq_some_iff.1 hp'
    exact ⟨p, hp, hf p (hk ▸ hp)⟩
  · exact (refl far w).players k p' hp'

theorem writeNpc (h : Drift far w₀ w) {j : Nat} {f : Npc → Npc}
    (hf : ∀ n, w.npcs j = some n → NpcDrift far n (f n)) : Drift far w₀ (w.modifyNpc j f) := by
  refine h.trans ⟨(refl far w).players, fun k n' hn' => ?_⟩
  rw [npcs_modifyNpc] at hn'
  split at hn'
  · next hk =>
    obtain ⟨n, hn, rfl⟩ := Option.map_eq_some_iff.1 hn'
    exact ⟨n, hn, hf n (hk ▸ hn)⟩
  · exact (refl far w).npcs k n' hn'

theorem modifyPlayer (h : Drift far w₀ w) {i : Nat} {f : Player → Player}
    (hf : ∀ p, (f p).loginOk = p.loginOk ∧ (f p).teleported = p.teleported ∧
      Parked p.mob (f p).mob) : Drift far w₀ (w.modifyPlayer i f) := by
  refine h.writePlayer fun p _ => ?_
  obtain ⟨hlogin, htele, hparked⟩ := hf p
  exact ⟨hparked.lined, fun hp => hlogin.trans hp, fun hp => htele.trans hp,
    .inl ⟨hparked.x, hparked.y⟩⟩

theorem modifyNpc (h : Drift far w₀ w) {j : Nat} {f : Npc → Npc}
    (hf : ∀ n, (f n).spawnX = n.spawnX ∧ (f n).spawnY = n.spawnY ∧ Parked n.mob (f n).mob) :
    Drift far w₀ (w.modifyNpc j f) := by
  refine h.writeNpc fun n _ => ?_
  obtain ⟨hx, hy, hparked⟩ := hf n
  exact ⟨hparked.lined, hx, hy, .inl ⟨hparked.x, hparked.y⟩⟩

theorem modify (h : Drift far w₀ w) {r : MobRef} {f : Mob → Mob} (hf : ∀ m, Parked m (f m)) :
    Drift far w₀ (w.modify r f) := by
  cases r with
  | player i => exact h.modifyPlayer fun p => ⟨rfl, rfl, hf p.mob⟩
  | npc j => exact h.modifyNpc fun n => ⟨rfl, rfl, hf n.mob⟩

theorem push (h : Drift far w₀ w) (frame : Frame) :
    Drift far w₀ { w with frames := frame :: w.frames } := h.of_tables rfl rfl

/-! ## mob.c -/

theorem combatReset (h : Drift far w₀ w) (r : MobRef) :
    Drift far w₀ (w.modify r Mob.combatReset) := h.modify Parked.combatReset

theorem resetTargets (h : Drift far w₀ w) (r : MobRef) {f : Mob → Mob}
    (hf : ∀ m, Parked m (f m).combatReset) : Drift far w₀ (w.resetTargets r f) :=
  resetTargets_of (fun _ hw => hw.modify hf) h r

theorem mobChase (h : Drift far w₀ w) {r : MobRef} {m following : Mob}
    (hw : World.mobChase w r m following = some w') : Drift far w₀ w' := by
  unfold World.mobChase at hw
  split at hw
  · cases hw
  · split at hw
    · exact Option.some.inj hw ▸ h
    · exact Option.some.inj hw ▸ h.modify fun m => .walkTo m _ _

theorem mobFollow (h : Drift far w₀ w) {r : MobRef} {m : Mob}
    (hw : World.mobFollow w r m = some w') : Drift far w₀ w' := by
  unfold World.mobFollow at hw
  split at hw
  · split at hw
    · exact h.mobChase hw
    · exact Option.some.inj hw ▸ h.modify fun _ => .still rfl rfl rfl rfl rfl
  · split at hw
    · split at hw
      · exact h.mobChase hw
      · exact Option.some.inj hw ▸ h.modify fun _ => .still rfl rfl rfl rfl rfl
    · exact Option.some.inj hw ▸ h

theorem mobBlocked (h : Drift far w₀ w) (r : MobRef) (m : Mob) :
    Drift far w₀ (World.mobBlocked w r m) := by
  unfold World.mobBlocked
  refine modify ?_ Parked.clearQueue
  split
  · refine combatReset ?_ r
    split
    · exact h.combatReset _
    · exact h.combatReset _
    · exact h
  · exact h

theorem mobDie (h : Drift far w₀ w) (r : MobRef) : Drift far w₀ (w.mobDie r) := by
  have hhits : Drift far w₀ (w.modify r fun m => { m with hits := m.baseHits }) :=
    h.modify fun _ => .still rfl rfl rfl rfl rfl
  unfold World.mobDie
  exact (hhits.resetTargets r (f := id) Parked.combatReset).modify fun _ =>
    .still rfl rfl rfl rfl rfl

/-! ## player.c -/

theorem playerMoved (h : Drift far w₀ w) (i fromX fromY : Nat) :
    Drift far w₀ (Ref.World.playerMoved w i fromX fromY) := by
  unfold Ref.World.playerMoved
  split
  · exact h
  · next p _ =>
    have hzones : Drift far w₀ (changeZone (fun w zone => w.zoneRemovePlayer zone i)
        (fun w zone => w.zoneAddPlayer zone i) w (serverFindZone fromX fromY)
        (serverFindZone p.mob.x p.mob.y)) :=
      changeZone_of (fun _ _ hw => hw.of_tables rfl rfl) (fun _ _ hw => hw.of_tables rfl rfl) h _ _
    dsimp only
    split
    · exact hzones
    · split
      · exact hzones
      · split
        · exact hzones
        · exact hzones.modifyPlayer fun p => ⟨rfl, rfl, .same p.mob⟩

end Drift

/-- The same, but that the player in slot `i` may be anywhere. -/
structure Adrift (i : Nat) (w₀ w : World) : Prop where
  players : ∀ k p, w.players k = some p → ∃ p₀, w₀.players k = some p₀ ∧
    (Lined p₀.mob → Lined p.mob) ∧ (p₀.loginOk = true → p.loginOk = true) ∧
      (p₀.teleported = true → p.teleported = true) ∧ (k ≠ i → PlayerDrift True p₀ p)
  npcs : ∀ j n, w.npcs j = some n → ∃ n₀, w₀.npcs j = some n₀ ∧ NpcDrift True n₀ n

namespace Adrift

variable {i : Nat} {w₀ w w' : World}

theorem of_drift (h : Drift True w₀ w) : Adrift i w₀ w := by
  refine ⟨fun k p hp => ?_, h.npcs⟩
  obtain ⟨p₀, hp₀, hdrift⟩ := h.players k p hp
  exact ⟨p₀, hp₀, hdrift.lined, hdrift.loginOk, hdrift.teleported, fun _ => hdrift⟩

theorem write (h : Adrift i w₀ w) {f : Player → Player}
    (hf : ∀ p, (f p).loginOk = p.loginOk ∧ (f p).teleported = p.teleported ∧
      (Lined p.mob → Lined (f p).mob)) : Adrift i w₀ (w.modifyPlayer i f) := by
  refine ⟨fun k q hq => ?_, h.npcs⟩
  rw [players_modifyPlayer] at hq
  split at hq
  · next hk =>
    obtain ⟨p, hp, rfl⟩ := Option.map_eq_some_iff.1 hq
    obtain ⟨p₀, hp₀, hlined, hlogin, htele, -⟩ := h.players k p hp
    obtain ⟨hlogin', htele', hlined'⟩ := hf p
    exact ⟨p₀, hp₀, fun h => hlined' (hlined h), fun h => hlogin'.trans (hlogin h),
      fun h => htele'.trans (htele h), fun hne => absurd hk hne⟩
  · exact h.players k q hq

theorem put (h : Adrift i w₀ w) (x y : Nat) :
    Adrift i w₀ (w.modify (.player i) fun m => { m with x := x, y := y }) :=
  h.write fun _ => ⟨rfl, rfl, fun hlined => ⟨hlined.pos, hlined.written, hlined.len⟩⟩

theorem drift (h : Adrift i w₀ w) (hdrift : Drift True w w') : Adrift i w₀ w' := by
  constructor
  · intro k q' hq'
    obtain ⟨q, hq, hqq⟩ := hdrift.players k q' hq'
    obtain ⟨p, hp, hlined, hlogin, htele, hne⟩ := h.players k q hq
    exact ⟨p, hp, fun h => hqq.lined (hlined h), fun h => hqq.loginOk (hlogin h),
      fun h => hqq.teleported (htele h), fun hk => (hne hk).trans hqq⟩
  · intro j n' hn'
    obtain ⟨n, hn, hnn⟩ := hdrift.npcs j n' hn'
    obtain ⟨n₀, hn₀, hdrift₀⟩ := h.npcs j n hn
    exact ⟨n₀, hn₀, hdrift₀.trans hnn⟩

/-- The flag says that it was put there. -/
theorem flagged (h : Adrift i w₀ w) :
    Drift True w₀ (w.modifyPlayer i fun p => { p with teleported := true }) := by
  refine ⟨fun k q' hq' => ?_, h.npcs⟩
  rw [players_modifyPlayer] at hq'
  split at hq'
  · obtain ⟨q, hq, rfl⟩ := Option.map_eq_some_iff.1 hq'
    obtain ⟨p, hp, hlined, hlogin, -, -⟩ := h.players k q hq
    exact ⟨p, hp, hlined, hlogin, fun _ => rfl, .inr ⟨trivial, .inr rfl⟩⟩
  · next hk =>
    obtain ⟨p, hp, -, -, -, hdrift⟩ := h.players k q' hq'
    exact ⟨p, hp, hdrift hk⟩

/-- Or it was not in the game yet. -/
theorem outside (h : Adrift i w₀ w) (hout : ∀ p, w₀.players i = some p → p.loginOk = false) :
    Drift True w₀ w := by
  refine ⟨fun k q hq => ?_, h.npcs⟩
  obtain ⟨p, hp, hlined, hlogin, htele, hdrift⟩ := h.players k q hq
  by_cases hk : k = i
  · exact ⟨p, hp, hlined, hlogin, htele, .inr ⟨trivial, .inl (hout p (hk ▸ hp))⟩⟩
  · exact ⟨p, hp, hdrift hk⟩

end Adrift

namespace Drift

variable {far : Prop} {w₀ w w' : World}

theorem playerTeleport (h : Drift True w₀ w) (i x y : Nat) :
    Drift True w₀ (Ref.World.playerTeleport w i x y) := by
  unfold Ref.World.playerTeleport
  split
  · exact h
  · next p _ =>
    refine Adrift.flagged (Adrift.drift ((Adrift.of_drift h).put (x % 65536) (y % 65536)) ?_)
    refine playerMoved (combatReset (resetTargets (refl True _) (.player i) ?_) (.player i)) i _ _
    exact Parked.clearQueue_reset

theorem playerDie (h : Drift True w₀ w) (i : Nat) (victor : Option Nat) :
    Drift True w₀ (Ref.World.playerDie w i victor) := by
  unfold Ref.World.playerDie
  refine playerTeleport ?_ _ _ _
  have hdead : Drift True w₀ (((w.mobDie (.player i)).modify (.player i)
      Mob.clearQueue).modifyPlayer i Player.clearActions) := by
    refine modifyPlayer ?_ fun _ => ⟨rfl, rfl, .still rfl rfl rfl rfl rfl⟩
    exact (h.mobDie _).modify Parked.clearQueue
  split
  · split
    · exact hdead.combatReset _
    · exact hdead
  · exact hdead

theorem playerDamage (h : Drift True w₀ w) (i : Nat) (aggressor : Option Nat) (roll : Nat) :
    Drift True w₀ (Ref.World.playerDamage w i aggressor roll) := by
  unfold Ref.World.playerDamage
  split
  · exact h
  · split
    · exact h.playerDie i aggressor
    · exact h.modify fun _ => .still rfl rfl rfl rfl rfl

theorem playerRetreat (h : Drift far w₀ w) {i : Nat}
    (hw : Ref.World.playerRetreat w i = some w') : Drift far w₀ w' := by
  unfold Ref.World.playerRetreat at hw
  split at hw
  · cases hw
  · split at hw
    · cases hw
    · exact Option.some.inj hw ▸ (h.resetTargets _ Parked.clearQueue_reset).combatReset _

/-! ## The death of an NPC -/

theorem afterHit (h : Drift far w₀ w) (j : Nat) (p : Option Nat) (melee : Bool) :
    Drift far w₀ (Ref.World.afterHit w j p melee) := by
  unfold Ref.World.afterHit
  split
  · refine modify ?_ fun _ => .still rfl rfl rfl rfl rfl
    exact h.modify fun _ => .still rfl rfl rfl rfl rfl
  · exact h

theorem npcLetGo (h : Drift far w₀ w) (j : Nat) (p : Option Nat) :
    Drift far w₀ (Ref.World.npcLetGo w j p) := by
  unfold Ref.World.npcLetGo
  split
  · split
    · exact h.combatReset _
    · exact h
  · exact h

theorem npcZones (h : Drift far w₀ w) (j : Nat) (old new : Option Zone) :
    Drift far w₀ (changeZone (fun w zone => w.zoneRemoveNpc zone j)
      (fun w zone => w.zoneAddNpc zone j) w old new) :=
  changeZone_of (fun _ _ hw => hw.of_tables rfl rfl) (fun _ _ hw => hw.of_tables rfl rfl) h _ _

theorem npcToSpawn (h : Drift True w₀ w) (j : Nat) : Drift True w₀ (Ref.World.npcToSpawn w j) := by
  unfold Ref.World.npcToSpawn
  split
  · exact h
  · refine npcZones (h.writeNpc fun n _ => ?_) j _ _
    exact ⟨fun hn => ⟨hn.pos, hn.written, hn.len⟩, rfl, rfl, .inr ⟨trivial, rfl, rfl⟩⟩

theorem npcDieEnd (h : Drift True w₀ w) (j : Nat) (p : Option Nat) :
    Drift True w₀ (Ref.World.npcDieEnd w j p) := by
  have haward : Drift True w₀ (Ref.World.npcAward w j p) :=
    h.modifyNpc fun n => ⟨rfl, rfl, .same n.mob⟩
  exact ((haward.mobDie (.npc j)).npcLetGo j p).npcToSpawn j

theorem npcDie (h : Drift True w₀ w) (j : Nat) (p : Option Nat) (melee : Bool) :
    Drift True w₀ (Ref.World.npcDie w j p melee) := by
  unfold Ref.World.npcDie
  split
  · exact h.npcDieEnd j none
  · next i =>
    have hfree : Drift True w₀ (w.modifyPlayer i fun p =>
        if p.chasedByNpc = some j then { p with chasedByNpc := none } else p) := by
      refine h.modifyPlayer fun p => ?_
      split
      · exact ⟨rfl, rfl, .same p.mob⟩
      · exact ⟨rfl, rfl, .same p.mob⟩
    dsimp only
    split
    · exact hfree.afterHit j _ melee
    · exact hfree.push _

theorem npcDieReturn (h : Drift True w₀ w) (j i : Nat) (melee result : Bool) :
    Drift True w₀ (Ref.World.npcDieReturn w j i melee result) := by
  unfold Ref.World.npcDieReturn
  split
  · exact h
  · split
    · exact h.afterHit j _ melee
    · have hdrop : Drift True w₀ (w.modifyNpc j fun n => { n with drops := n.drops + 1 }) :=
        h.modifyNpc fun n => ⟨rfl, rfl, .same n.mob⟩
      dsimp only
      split
      · exact hdrop.afterHit j _ melee
      · exact (hdrop.npcDieEnd j _).afterHit j _ melee

theorem npcWound (h : Drift far w₀ w) (j i roll : Nat) :
    Drift far w₀ (Ref.World.npcWound w j i roll) := by
  refine h.modifyNpc fun n => ⟨rfl, rfl, ?_⟩
  dsimp only
  split
  · exact .still rfl rfl rfl rfl rfl
  · exact .still rfl rfl rfl rfl rfl

theorem npcDamage (h : Drift True w₀ w) {j : Nat} {p : Option Nat} {roll : Nat} {melee : Bool}
    (hw : Ref.World.npcDamage w j p roll melee = .ok w') : Drift True w₀ w' := by
  unfold Ref.World.npcDamage at hw
  split at hw
  · exact Except.ok.inj hw ▸ h
  · have hstruck : Drift True w₀ (w.modifyNpc j (Npc.struck p)) :=
      h.modifyNpc fun n => ⟨rfl, rfl, .same n.mob⟩
    dsimp only at hw
    split at hw
    · refine Except.ok.inj hw ▸ npcDie (hstruck.modify fun _ => ?_) j p melee
      exact .still rfl rfl rfl rfl rfl
    · split at hw
      · cases hw
      · exact Except.ok.inj hw ▸ (hstruck.npcWound j _ roll).afterHit j _ melee

/-! ## Attacks of players -/

theorem shootStand (h : Drift far w₀ w) (i : Nat) : Drift far w₀ (Ref.World.shootStand w i) :=
  h.modify fun _ => .cleared rfl rfl rfl rfl

theorem shootTurn (h : Drift far w₀ w) (i : Nat) (projectile : Projectile) :
    Drift far w₀ (Ref.World.shootTurn w i projectile) := by
  unfold Ref.World.shootTurn
  split
  · exact h
  · exact h.modify fun _ => .still rfl rfl rfl rfl rfl

theorem shootTimer (h : Drift far w₀ w) (i : Nat) (projectile : Projectile) :
    Drift far w₀ (Ref.World.shootTimer w i projectile) := by
  unfold Ref.World.shootTimer
  split
  · exact h
  · exact h.modifyPlayer fun p => ⟨rfl, rfl, .same p.mob⟩

theorem outOfAmmo (h : Drift far w₀ w) (i : Nat) : Drift far w₀ (Ref.World.outOfAmmo w i) :=
  h.modify fun _ => .still rfl rfl rfl rfl rfl

theorem playerAim (h : Drift far w₀ w) (i : Nat) (projectile : Projectile) (target : Mob)
    {follow : Mob → Mob} (shielded : Bool) (c : Chance) (hfollow : ∀ m, Parked m (follow m)) :
    Drift far w₀ (Ref.World.playerAim w i projectile target follow shielded c).1 := by
  have hstand := h.shootStand i
  unfold Ref.World.playerAim
  dsimp only
  split
  · exact hstand
  · split
    · dsimp only
      exact hstand.modify hfollow
    · split
      · dsimp only
        exact hstand.modify fun _ => .still rfl rfl rfl rfl rfl
      · have hturn := hstand.shootTurn i projectile
        split
        · exact hturn.modifyPlayer fun p => ⟨rfl, rfl, .same p.mob⟩
        · have htimer := hturn.shootTimer i projectile
          split
          · exact htimer
          · split
            · exact htimer.outOfAmmo i
            · exact htimer

theorem playerShootPvm (h : Drift True w₀ w) {i j : Nat} {projectile : Projectile} {c : Chance}
    (hw : Ref.World.playerShootPvm w i projectile j c = .ok w') : Drift True w₀ w' := by
  unfold Ref.World.playerShootPvm at hw
  split at hw
  · exact Except.ok.inj hw ▸ h
  · next target _ =>
    have haim : Drift True w₀ (Ref.World.playerAim w i projectile target
        (fun m => { m with followingNpc := some j }) false c).1 :=
      h.playerAim i projectile target false c fun _ => .still rfl rfl rfl rfl rfl
    dsimp only at hw
    split at hw
    · exact haim.npcDamage hw
    · exact Except.ok.inj hw ▸ haim

theorem playerShootPvp (h : Drift True w₀ w) (i : Nat) (projectile : Projectile) (t : Nat)
    (c : Chance) : Drift True w₀ (Ref.World.playerShootPvp w i projectile t c) := by
  unfold Ref.World.playerShootPvp
  split
  · exact h
  · next target _ =>
    have haim : Drift True w₀ (Ref.World.playerAim w i projectile target.mob
        (fun m => { m with followingPlayer := some t }) target.protectFromMissiles c).1 :=
      h.playerAim i projectile target.mob target.protectFromMissiles c
        fun _ => .still rfl rfl rfl rfl rfl
    dsimp only
    split
    · exact haim.playerDamage t _ _
    · exact haim

theorem playerInitCombat (h : Drift far w₀ w) (i : Nat) (r : MobRef) (c : Chance) :
    Drift far w₀ (Ref.World.playerInitCombat w i r c).1 := by
  unfold Ref.World.playerInitCombat
  split
  · next m target _ _ =>
    split
    · dsimp only
      exact h.modify Parked.clearQueue_reset
    · split
      · exact h
      · split
        · dsimp only
          split
          · exact h.combatReset _
          · exact h
        · have hclose : Drift far w₀ (initClose w i r target) := by
            unfold initClose
            refine modifyPlayer ?_ fun _ => ⟨rfl, rfl, .still rfl rfl rfl rfl rfl⟩
            refine modify ?_ fun _ => .still rfl rfl rfl rfl rfl
            refine modify ?_ fun _ => .cleared rfl rfl rfl rfl
            exact h.modify fun m => .close m target
          dsimp only
          split
          · exact hclose
          · unfold initLock
            dsimp only
            refine modify ?_ fun _ => .cleared rfl rfl rfl rfl
            exact hclose.modify fun _ => .still rfl rfl rfl rfl rfl
  · exact h

theorem playerFollow (h : Drift far w₀ w) (i : Nat) (r : MobRef) {follow : Mob → Mob}
    (hfollow : ∀ m, Parked m (follow m)) :
    Drift far w₀ (Ref.World.playerFollow w i r follow) := by
  unfold Ref.World.playerFollow
  split
  · split
    · exact h.modify hfollow
    · exact h
  · exact h

theorem playerAttackPlayer (h : Drift True w₀ w) (i t : Nat) (c : Chance) :
    Drift True w₀ (Ref.World.playerAttackPlayer w i t c) := by
  unfold Ref.World.playerAttackPlayer
  split
  · split
    · exact h.modify fun _ => .still rfl rfl rfl rfl rfl
    · split
      · exact h.playerShootPvp i _ t c
      · split
        · exact h.modify Parked.clearQueue_reset
        · have hinit := h.playerInitCombat i (.player t) c
          dsimp only
          split
          · exact hinit.playerFollow i _ fun _ => .still rfl rfl rfl rfl rfl
          · refine modify ?_ fun _ => .still rfl rfl rfl rfl rfl
            refine modifyPlayer ?_ fun _ => ⟨rfl, rfl, .still rfl rfl rfl rfl rfl⟩
            exact hinit.modify fun _ => .still rfl rfl rfl rfl rfl
  · exact h.combatReset _
  · exact h

theorem playerAttackNpc (h : Drift True w₀ w) {i j : Nat} {c : Chance}
    (hw : Ref.World.playerAttackNpc w i j c = .ok w') : Drift True w₀ w' := by
  unfold Ref.World.playerAttackNpc at hw
  split at hw
  · split at hw
    · exact h.playerShootPvm hw
    · have hinit := h.playerInitCombat i (.npc j) c
      dsimp only at hw
      split at hw
      · refine Except.ok.inj hw ▸ hinit.playerFollow i _ fun _ => ?_
        exact .still rfl rfl rfl rfl rfl
      · refine Except.ok.inj hw ▸ modify (hinit.modify fun _ => ?_) fun _ => ?_
        · exact .still rfl rfl rfl rfl rfl
        · exact .still rfl rfl rfl rfl rfl
  · exact Except.ok.inj hw ▸ h.combatReset _
  · exact Except.ok.inj hw ▸ h

theorem playerFightPlayer (h : Drift True w₀ w) (i t : Nat) (c : Chance) :
    Drift True w₀ (Ref.World.playerFightPlayer w i t c) := by
  unfold Ref.World.playerFightPlayer
  split
  · split
    · exact h
    · have hstances : Drift True w₀ ((w.modify (.player i) fun m =>
          m.takeStance .combatRight).modify (.player t) fun m => m.takeStance .combatLeft) :=
        (h.modify fun m => .takeStance m _).modify fun m => .takeStance m _
      dsimp only
      split
      · exact hstances.modify fun _ => .still rfl rfl rfl rfl rfl
      · refine modify ?_ fun _ => .still rfl rfl rfl rfl rfl
        refine modify ?_ fun _ => .still rfl rfl rfl rfl rfl
        exact hstances.playerDamage t _ _
  · exact h.combatReset _
  · exact h

theorem playerFightNpc (h : Drift True w₀ w) {i j : Nat} {c : Chance}
    (hw : Ref.World.playerFightNpc w i j c = .ok w') : Drift True w₀ w' := by
  unfold Ref.World.playerFightNpc at hw
  split at hw
  · next p target _ _ =>
    split at hw
    · exact Except.ok.inj hw ▸ h
    · have hstances : Drift True w₀ (if !p.mob.dir.combat then
          (w.modify (.player i) fun m => { m with dir := .combatRight }).modify (.npc j)
            fun m => { m with dir := .combatLeft }
          else w) := by
        split
        · refine modify ?_ fun _ => .still rfl rfl rfl rfl rfl
          exact h.modify fun _ => .still rfl rfl rfl rfl rfl
        · exact h
      dsimp only at hw
      split at hw
      · refine Except.ok.inj hw ▸ hstances.modify fun _ => ?_
        exact .still rfl rfl rfl rfl rfl
      · exact hstances.npcDamage hw
  · exact Except.ok.inj hw ▸ h.combatReset _
  · exact Except.ok.inj hw ▸ h

theorem playerProcessCombat (h : Drift True w₀ w) {i : Nat} {c : Chance}
    (hw : Ref.World.playerProcessCombat w i c = .ok w') : Drift True w₀ w' := by
  unfold Ref.World.playerProcessCombat at hw
  split at hw
  · exact Except.ok.inj hw ▸ h
  · split at hw
    · cases hw
    · split at hw
      · split at hw
        · exact Except.ok.inj hw ▸ h.playerAttackPlayer i _ c
        · exact h.playerAttackNpc hw
        · exact Except.ok.inj hw ▸ h
      · split at hw
        · exact Except.ok.inj hw ▸ h.playerFightPlayer i _ c
        · exact h.playerFightNpc hw
        · exact Except.ok.inj hw ▸ h

/-! ## player_process_action -/

theorem noAction (h : Drift far w₀ w) (i : Nat) : Drift far w₀ (w.modifyPlayer i Player.noAction) :=
  h.modifyPlayer fun p => ⟨rfl, rfl, .same p.mob⟩

theorem standToShoot (h : Drift far w₀ w) (i : Nat) (target : Mob) :
    Drift far w₀ (w.modifyPlayer i fun p => p.standToShoot target) := by
  refine h.modifyPlayer fun p => ?_
  unfold Player.standToShoot
  split
  · exact ⟨rfl, rfl, .same p.mob⟩
  · split
    · exact ⟨rfl, rfl, .clearQueue p.mob⟩
    · exact ⟨rfl, rfl, .same p.mob⟩

theorem actionDone (h : Drift far w₀ w) (i : Nat) : Drift far w₀ (Ref.World.actionDone w i) :=
  h.modifyPlayer fun p => ⟨rfl, rfl, .clearQueue p.mob⟩

theorem actionNpcAttack (h : Drift far w₀ w) (i j : Nat) (p : Player) :
    Drift far w₀ (Ref.World.actionNpcAttack w i j p) := by
  unfold Ref.World.actionNpcAttack
  split
  · exact h.noAction i
  · split
    · exact h.noAction i
    · next npc _ =>
      refine noAction ?_ i
      exact (h.standToShoot i npc.mob).modify fun _ => .still rfl rfl rfl rfl rfl

theorem actionPlayerAttack (h : Drift far w₀ w) (i t : Nat) (p : Player) :
    Drift far w₀ (Ref.World.actionPlayerAttack w i t p) := by
  unfold Ref.World.actionPlayerAttack
  split
  · exact h.noAction i
  · split
    · exact h.noAction i
    · next target _ =>
      refine noAction ?_ i
      exact (h.standToShoot i target.mob).modify fun _ => .still rfl rfl rfl rfl rfl

theorem actionNpcTalk (h : Drift far w₀ w) (i j : Nat) (p : Player) (c : Chance) :
    Drift far w₀ (Ref.World.actionNpcTalk w i j p c) := by
  unfold Ref.World.actionNpcTalk
  split
  · exact h.noAction i
  · split
    · split
      · exact h.modify fun _ => .still rfl rfl rfl rfl rfl
      · exact h
    · split
      · split
        · exact h.noAction i
        · exact h
      · have hstop := h.actionDone i
        dsimp only
        split
        · exact hstop
        · exact hstop.push _

theorem opFollowPlayer (h : Drift far w₀ w) (i target : Nat) :
    Drift far w₀ (Ref.World.opFollowPlayer w i target) := by
  unfold Ref.World.opFollowPlayer
  split
  · exact h
  · exact h.modify fun _ => .still rfl rfl rfl rfl rfl

theorem playerProcessAction (h : Drift far w₀ w) (i : Nat) (c : Chance) :
    Drift far w₀ (Ref.World.playerProcessAction w i c) := by
  unfold Ref.World.playerProcessAction
  split
  · exact h
  · next p _ =>
    split
    · exact h.noAction i
    · split
      · exact h.noAction i
      · split
        · exact h
        · exact h.actionNpcAttack i _ p
        · exact h.actionNpcTalk i _ p c
        · split
          · exact h.actionDone i
          · split
            · exact h.actionDone i
            · exact h
        · exact h.actionPlayerAttack i _ p
        · split
          · exact h.actionDone i
          · split
            · exact h.actionDone i
            · exact h
        · split
          · exact h.actionDone i
          · exact h
        · split
          · exact h.actionDone i
          · exact h

/-! ## npc.c -/

theorem npcRetreat (h : Drift far w₀ w) (j : Nat) (t : NpcTurn) :
    Drift far w₀ (Ref.World.npcRetreat w j t) := by
  unfold Ref.World.npcRetreat
  refine modify ?_ fun _ => .sent rfl rfl rfl rfl (Nat.succ_pos _)
  split
  · exact h
  · split
    · exact h
    · split
      · exact (h.combatReset _).combatReset _
      · exact h

theorem npcRandomWalk (h : Drift far w₀ w) (j : Nat) (t : NpcTurn) :
    Drift far w₀ (Ref.World.npcRandomWalk w j t) := by
  unfold Ref.World.npcRandomWalk
  split
  · exact h
  · split
    · exact h
    · exact h.modify fun _ => .sent rfl rfl rfl rfl (Nat.succ_pos _)

theorem huntAmong (h : Drift far w₀ w) (j : Nat) (n : Npc) (near : List Nat)
    (hw : Ref.World.huntAmong w j n near = .ok w') : Drift far w₀ w' := by
  induction near with
  | nil => exact Except.ok.inj hw ▸ h
  | cons i rest ih =>
      have hcatch : ∀ {w : World}, Drift far w₀ w →
          Drift far w₀ ((w.modifyPlayer i fun p => { p with chasedByNpc := some j }).modify (.npc j)
            fun m => { m with targetPlayer := some i }) := by
        intro w hw
        refine modify ?_ fun _ => .still rfl rfl rfl rfl rfl
        exact hw.modifyPlayer fun p => ⟨rfl, rfl, .same p.mob⟩
      rw [Ref.World.huntAmong] at hw
      split at hw
      · exact ih hw
      · split at hw
        · exact ih hw
        · split at hw
          · exact ih hw
          · dsimp only at hw
            split at hw
            · exact Except.ok.inj hw ▸ hcatch h
            · split at hw
              · cases hw
              · split at hw
                · exact ih hw
                · refine Except.ok.inj hw ▸ hcatch (h.modify fun _ => ?_)
                  exact .still rfl rfl rfl rfl rfl

theorem npcHuntTarget (h : Drift far w₀ w) {j : Nat} {t : NpcTurn}
    (hw : Ref.World.npcHuntTarget w j t = .ok w') : Drift far w₀ w' := by
  unfold Ref.World.npcHuntTarget at hw
  split at hw
  · exact Except.ok.inj hw ▸ h
  · split at hw
    · exact Except.ok.inj hw ▸ h
    · split at hw
      · exact Except.ok.inj hw ▸ h
      · exact h.huntAmong j _ _ hw

theorem npcWander (h : Drift far w₀ w) (j : Nat) (t : NpcTurn) :
    Drift far w₀ (Ref.World.npcWander w j t) := by
  unfold Ref.World.npcWander
  split
  · exact h
  · split
    · split
      · refine npcRandomWalk (h.modifyNpc fun n => ?_) j t
        exact ⟨rfl, rfl, .same n.mob⟩
      · exact h
    · exact h.modifyNpc fun n => ⟨rfl, rfl, .same n.mob⟩

theorem npcInitCombat (h : Drift far w₀ w) (j i : Nat) (n : Npc) (target : Player)
    (t : NpcTurn) : Drift far w₀ (Ref.World.npcInitCombat w j i n target t) := by
  unfold Ref.World.npcInitCombat
  split
  · refine modify ?_ Parked.clearQueue_reset
    exact h.modifyPlayer fun p => ⟨rfl, rfl, .same p.mob⟩
  · have hwalk : Drift far w₀ (w.modify (.npc j) fun m => { m with actionWalk := true }) :=
      h.modify fun _ => .still rfl rfl rfl rfl rfl
    dsimp only
    split
    · exact hwalk.modify fun _ => .still rfl rfl rfl rfl rfl
    · split
      · exact hwalk
      · exact hwalk.push _

theorem npcInitReturn (h : Drift far w₀ w) (j i : Nat) :
    Drift far w₀ (Ref.World.npcInitReturn w j i) := by
  unfold Ref.World.npcInitReturn
  refine modify ?_ fun _ => .still rfl rfl rfl rfl rfl
  refine modify ?_ fun _ => .still rfl rfl rfl rfl rfl
  refine modifyPlayer ?_ fun _ => ⟨rfl, rfl, .still rfl rfl rfl rfl rfl⟩
  refine modify ?_ fun _ => .still rfl rfl rfl rfl rfl
  refine modify ?_ fun _ => .cleared rfl rfl rfl rfl
  exact h.modify Parked.clearQueue

theorem npcFight (h : Drift True w₀ w) (j i : Nat) (n : Npc) (t : NpcTurn) :
    Drift True w₀ (Ref.World.npcFight w j i n t) := by
  have hstance : Drift True w₀ (w.modify (.npc j) fun m =>
      if !m.moved then { m with dir := .combatLeft } else m) := by
    refine h.modify fun m => ?_
    split
    · exact .still rfl rfl rfl rfl rfl
    · exact .same m
  unfold Ref.World.npcFight
  dsimp only
  split
  · exact hstance.npcRetreat j t
  · split
    · exact hstance.modify fun _ => .still rfl rfl rfl rfl rfl
    · refine modify ?_ fun _ => .still rfl rfl rfl rfl rfl
      refine modify ?_ fun _ => .still rfl rfl rfl rfl rfl
      exact hstance.playerDamage i none t.roll

theorem npcProcessCombat (h : Drift True w₀ w) {j : Nat} {t : NpcTurn}
    (hw : Ref.World.npcProcessCombat w j t = .ok w') : Drift True w₀ w' := by
  unfold Ref.World.npcProcessCombat at hw
  split at hw
  · exact Except.ok.inj hw ▸ h
  · next n _ =>
    split at hw
    · exact Except.ok.inj hw ▸ h
    · next i _ =>
      split at hw
      · exact Except.ok.inj hw ▸ h.combatReset _
      · next target _ =>
        split at hw
        · exact Except.ok.inj hw ▸ h.npcInitCombat j i n target t
        · split at hw
          · cases hw
          · have h₁ : Drift True w₀ ((w.modifyPlayer i fun p =>
                { p with chasedByNpc := none }).modify (.npc j)
                  fun m => { m with followingPlayer := none }) := by
              refine modify ?_ fun _ => .still rfl rfl rfl rfl rfl
              exact h.modifyPlayer fun p => ⟨rfl, rfl, .same p.mob⟩
            dsimp only at hw
            split at hw
            · exact Except.ok.inj hw ▸ h₁
            · exact Except.ok.inj hw ▸ h₁.npcFight j i n t

/-! ## script.c -/

theorem faceMob (h : Drift far w₀ w) (r s : MobRef) :
    Drift far w₀ (Ref.World.faceMob w r s) := by
  unfold Ref.World.faceMob
  split
  · exact h
  · exact h.modify fun m => .face m _ _

theorem scriptNearvisnpc (h : Drift far w₀ w) (i j : Nat) :
    Drift far w₀ (Ref.World.scriptNearvisnpc w i j) := by
  unfold Ref.World.scriptNearvisnpc
  split
  · refine faceMob (faceMob ?_ _ _) _ _
    exact h.modifyNpc fun n => ⟨rfl, rfl, .same n.mob⟩
  · exact h

theorem scriptChangelevelup (h : Drift True w₀ w) (i : Nat) :
    Drift True w₀ (Ref.World.scriptChangelevelup w i) := by
  refine h.writePlayer fun p _ => ⟨fun hp => ?_, id, fun _ => rfl, .inr ⟨trivial, .inr rfl⟩⟩
  exact ⟨hp.pos, hp.written, hp.len⟩

theorem scriptChangeleveldown (h : Drift True w₀ w) (i : Nat) :
    Drift True w₀ (Ref.World.scriptChangeleveldown w i) := by
  unfold Ref.World.scriptChangeleveldown
  split
  · exact h
  · exact h.playerTeleport i _ _

theorem scriptNodefault (h : Drift far w₀ w) (i : Nat) :
    Drift far w₀ (Ref.World.scriptNodefault w i) := by
  unfold Ref.World.scriptNodefault
  split
  · exact h
  · exact (h.combatReset _).combatReset _

theorem scriptDelnpc (h : Drift far w₀ w) {j : Nat}
    (hw : Ref.World.scriptDelnpc w j = .ok w') : Drift far w₀ w' := by
  unfold Ref.World.scriptDelnpc at hw
  split at hw
  · exact Except.ok.inj hw ▸ h
  · split at hw
    · cases hw
    · refine Except.ok.inj hw ▸ h.trans ⟨(refl far w).players, fun k n hn => ?_⟩
      dsimp only at hn
      split at hn
      · cases hn
      · exact (refl far w).npcs k n hn

/-- No call but `addnpc` makes an NPC. -/
theorem runApi (h : Drift True w₀ w) {a : Api} (ha : ∀ config x y, a ≠ .addNpc config x y)
    (hw : Ref.World.runApi w a = .ok w') : Drift True w₀ w' := by
  cases a with
  | face i j =>
      refine Except.ok.inj hw ▸ ?_
      unfold Ref.World.scriptFace
      split
      · exact h.faceMob _ _
      · exact h
  | npcSay j =>
      refine Except.ok.inj hw ▸ ?_
      unfold Ref.World.scriptNpcsay
      split
      · exact h
      · split
        · exact h
        · exact h.faceMob _ _
  | nearVisNpc i j => exact Except.ok.inj hw ▸ h.scriptNearvisnpc i j
  | npcAttack j i =>
      refine Except.ok.inj hw ▸ h.modify fun _ => ?_
      exact .still rfl rfl rfl rfl rfl
  | npcBusy j busy => exact Except.ok.inj hw ▸ h.modifyNpc fun n => ⟨rfl, rfl, .same n.mob⟩
  | playerBusy i busy => exact Except.ok.inj hw ▸ h.modifyPlayer fun p => ⟨rfl, rfl, .same p.mob⟩
  | multi i shown => exact Except.ok.inj hw ▸ h.modifyPlayer fun p => ⟨rfl, rfl, .same p.mob⟩
  | subStat i damage => exact Except.ok.inj hw ▸ h.playerDamage i none damage
  | npcSubStat j damage => exact h.npcDamage hw
  | npcAddStat j amount =>
      refine Except.ok.inj hw ▸ h.modify fun _ => ?_
      exact .still rfl rfl rfl rfl rfl
  | setHits i hits =>
      refine Except.ok.inj hw ▸ h.modify fun _ => ?_
      exact .still rfl rfl rfl rfl rfl
  | shootPlayer i t projectile c =>
      refine Except.ok.inj hw ▸ ?_
      split
      · exact h.playerShootPvp i projectile t c
      · exact h
  | shootNpc i j projectile c =>
      rw [Ref.World.runApi] at hw
      split at hw
      · exact h.playerShootPvm hw
      · exact Except.ok.inj hw ▸ h
  | teleport i x y => exact Except.ok.inj hw ▸ h.playerTeleport i x y
  | changeLevelUp i => exact Except.ok.inj hw ▸ h.scriptChangelevelup i
  | changeLevelDown i => exact Except.ok.inj hw ▸ h.scriptChangeleveldown i
  | noDefault i => exact Except.ok.inj hw ▸ h.scriptNodefault i
  | addNpc config x y => exact absurd rfl (ha config x y)
  | changeNpc j config => exact Except.ok.inj hw ▸ h.modifyNpc fun n => ⟨rfl, rfl, .same n.mob⟩
  | delNpc j => exact h.scriptDelnpc hw

/-! ## Connections -/

/-- Until the login is through the player may be put anywhere. -/
theorem playerLogin (h : Drift True w₀ w) (i : Nat) (l : Login) :
    Drift True w₀ (Ref.World.playerLogin w i l) := by
  refine h.trans ?_
  unfold Ref.World.playerLogin
  split
  · exact refl True w
  · next p hp =>
    split
    · exact refl True w
    · next hnew =>
      have hout : ∀ q, w.players i = some q → q.loginOk = false := by
        intro q hq
        obtain rfl := Option.some.inj (hp.symm.trans hq)
        simpa using fun hlogin => hnew (.inl hlogin)
      refine Adrift.outside ?_ hout
      have hload : Adrift i w (Ref.World.playerMoved (w.modifyPlayer i fun p => { p with
          name := l.name
          projectile := l.projectile
          mob := { p.mob with x := l.x, y := l.y, hits := l.hits, baseHits := l.hits } })
          i 65535 65535) := by
        refine Adrift.drift ?_ ((refl True _).playerMoved i 65535 65535)
        refine (Adrift.of_drift (refl True w)).write fun _ => ⟨rfl, rfl, fun hlined => ?_⟩
        exact ⟨hlined.pos, hlined.written, hlined.len⟩
      dsimp only
      split
      · exact hload.write fun _ => ⟨rfl, rfl, id⟩
      · refine Adrift.drift ?_ ((refl True _).writePlayer fun p _ =>
          ⟨id, fun _ => rfl, id, .inl ⟨rfl, rfl⟩⟩)
        split
        · exact hload.put _ _
        · exact hload

theorem serverRemovePlayer (h : Drift far w₀ w) (i : Nat) :
    Drift far w₀ (Ref.World.serverRemovePlayer w i) := by
  unfold Ref.World.serverRemovePlayer
  split
  · refine h.trans ⟨fun k p hp => ?_, (refl far w).npcs⟩
    dsimp only at hp
    split at hp
    · cases hp
    · exact (refl far w).players k p hp
  · exact h

end Drift

end Sundae.Proofs
