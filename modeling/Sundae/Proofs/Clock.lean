import Sundae.Proofs.Path
import Sundae.Proofs.Walk

/-!
# Walk queue integrity

The bounds of the queue hold in every state. What is left to walk after a walk
packet is the old path, the new one or nothing, unless the packet ends on the tile
the player is on; and nobody takes two steps between two movement updates, unless
a player talks to an NPC that has taken one and it steps aside.
`walk_integrity_iff` says exactly when.
-/

namespace Sundae.Proofs

open Sundae.Lib Sundae.Ref.World
open Sundae.Ref (World Zone serverFindZone)

variable {w w' : World} {r : MobRef} {k k' : Clock}

/-! ## One event -/

/-- A player is put somewhere by its login or by a teleport, and an NPC where it
spawned. -/
def Put (w w' : World) : MobRef → Prop
  | .player i => (∃ p, w.players i = some p ∧ p.loginOk = false) ∨
      ∃ p, w'.players i = some p ∧ p.teleported = true
  | .npc j => ∃ n, w'.npcs j = some n ∧ n.mob.x = n.spawnX ∧ n.mob.y = n.spawnY

/-- How a mob comes to another tile in an event: the one that walks by a step that
has passed the collision check, if there is one, and else by being put there. -/
def Travels (w w' : World) (e : Event) (r : MobRef) (m m' : Mob) : Prop :=
  match e.walk w with
  | some (s, path) => r = s ∧ path.blocked = false ∧ Stride m m'
  | none => Put w w' r

/-- What an event may make of the mobs. -/
def Settles (e : Event) (w w' : World) : Prop :=
  ∀ r m', w'.mob? r = some m' →
    (w.mob? r = none ∧ Lined m') ∨
    ∃ m, w.mob? r = some m ∧ (Lined m → Lined m') ∧
      ((m'.x = m.x ∧ m'.y = m.y) ∨ Travels w w' e r m m')

theorem Drift.settles {e : Event} (h : Drift True w w') (he : e.walk w = none) :
    Settles e w w' := by
  intro r m' hm'
  unfold Travels
  rw [he]
  cases r with
  | player i =>
      obtain ⟨p', hp', rfl⟩ := Option.map_eq_some_iff.1 hm'
      obtain ⟨p, hp, hdrift⟩ := h.players i p' hp'
      refine .inr ⟨p.mob, by rw [mob?_player, hp]; rfl, hdrift.lined, ?_⟩
      rcases hdrift.place with hsame | ⟨-, hlogin | htele⟩
      · exact .inl hsame
      · exact .inr (.inl ⟨p, hp, hlogin⟩)
      · exact .inr (.inr ⟨p', hp', htele⟩)
  | npc j =>
      obtain ⟨n', hn', rfl⟩ := Option.map_eq_some_iff.1 hm'
      obtain ⟨n, hn, hdrift⟩ := h.npcs j n' hn'
      refine .inr ⟨n.mob, by rw [mob?_npc, hn]; rfl, hdrift.lined, ?_⟩
      rcases hdrift.place with hsame | ⟨-, hx, hy⟩
      · exact .inl hsame
      · exact .inr ⟨n', hn', hx.trans hdrift.spawnX.symm, hy.trans hdrift.spawnY.symm⟩

theorem Walks.settles {e : Event} {path : Path} (h : Walks r path w w')
    (he : e.walk w = some (r, path)) : Settles e w w' := by
  intro s m' hm'
  obtain ⟨m, hm, hlined, hplace⟩ := h s m' hm'
  unfold Travels
  rw [he]
  exact .inr ⟨m, hm, hlined, hplace⟩

theorem lined_new {m : Mob} (hpos : m.walkQueuePos = 0) (hlen : m.walkQueueLen = 0) : Lined m := by
  refine ⟨?_, ?_, ?_⟩
  · rw [hpos]
    exact Nat.zero_le _
  · rw [hlen]
    exact Nat.zero_le _
  · rw [hlen]
    exact Nat.zero_le _

theorem playerCreate_settles (w : World) : Settles .connect w (playerCreate w) := by
  intro r m' hm'
  unfold playerCreate at hm'
  split at hm'
  · exact .inr ⟨m', hm', id, .inl ⟨rfl, rfl⟩⟩
  · next i hfree =>
    cases r with
    | npc j => exact .inr ⟨m', hm', id, .inl ⟨rfl, rfl⟩⟩
    | player k =>
        rw [mob?_player] at hm'
        dsimp only at hm'
        split at hm'
        · next hk =>
          obtain rfl := Option.some.inj hm'
          refine .inl ⟨?_, lined_new rfl rfl⟩
          have hnone : w.players i = none := by simpa using freeSlot_free hfree
          rw [mob?_player, hk, hnone]
          rfl
        · exact .inr ⟨m', hm', id, .inl ⟨rfl, rfl⟩⟩

theorem serverAddNpc_settles (w : World) (config : NpcConfig) (x y : Nat) :
    Settles (.api (.addNpc config x y)) w (serverAddNpc w config x y) := by
  intro r m' hm'
  have hsame : w.mob? r = some m' → (w.mob? r = none ∧ Lined m') ∨
      ∃ m, w.mob? r = some m ∧ (Lined m → Lined m') ∧ ((m'.x = m.x ∧ m'.y = m.y) ∨
        Travels w (serverAddNpc w config x y) (.api (.addNpc config x y)) r m m') :=
    fun h => .inr ⟨m', h, id, .inl ⟨rfl, rfl⟩⟩
  cases hfree : freeSlot (fun j => (w.npcs j).isSome) maxNpcs 0 with
  | none =>
      refine hsame ?_
      unfold serverAddNpc at hm'
      rw [hfree] at hm'
      exact hm'
  | some j =>
      cases r with
      | player i =>
          refine hsame ?_
          unfold serverAddNpc at hm'
          rw [hfree] at hm'
          dsimp only at hm'
          split at hm'
          · exact hm'
          · exact hm'
      | npc k =>
          have hnpc : (serverAddNpc w config x y).npcs k = if k = j then some {
              mob := { x := x % 65536, y := y % 65536, hits := config.hits, baseHits := config.hits }
              config := config
              spawnX := x % 65536
              spawnY := y % 65536 } else w.npcs k := by
            unfold serverAddNpc
            rw [hfree]
            dsimp only
            split
            · rfl
            · rfl
          rw [mob?_npc, hnpc] at hm'
          split at hm'
          · next hk =>
            obtain rfl := Option.some.inj hm'
            refine .inl ⟨?_, lined_new rfl rfl⟩
            have hnone : w.npcs j = none := by simpa using freeSlot_free hfree
            rw [mob?_npc, hk, hnone]
            rfl
          · exact hsame hm'

theorem endTick_settles (w : World) (regen : Nat → Bool) :
    Settles (.endTick regen) w (endTick w regen) := by
  intro r m' hm'
  cases r with
  | player i =>
      obtain ⟨p', hp', rfl⟩ := Option.map_eq_some_iff.1 hm'
      obtain ⟨p, hp, rfl⟩ := Option.map_eq_some_iff.1 hp'
      have hparked : Parked p.mob
          { p.mob with moved := false, damage := 255, prevDir := p.mob.dir } :=
        .still rfl rfl rfl rfl rfl
      exact .inr ⟨p.mob, by rw [mob?_player, hp]; rfl, hparked.lined, .inl ⟨rfl, rfl⟩⟩
  | npc j =>
      obtain ⟨n', hn', rfl⟩ := Option.map_eq_some_iff.1 hm'
      obtain ⟨n, hn, rfl⟩ := Option.map_eq_some_iff.1 hn'
      refine .inr ⟨n.mob, by rw [mob?_npc, hn]; rfl, fun hlined => ?_, .inl ⟨rfl, rfl⟩⟩
      exact ⟨hlined.pos, hlined.written, hlined.len⟩

theorem hookReturn_settles {result : Bool} {c : Chance} (hw : hookReturn w result c = .ok w') :
    Settles (.hookReturn result c) w w' := by
  unfold hookReturn at hw
  cases hframes : w.frames with
  | nil =>
      rw [hframes] at hw
      cases hw
  | cons frame rest =>
      have hpop : ∀ far, Drift far w { w with frames := rest } :=
        fun far => (Drift.refl far w).of_tables rfl rfl
      rw [hframes] at hw
      cases frame with
      | killNpc j i melee =>
          have hdie := (hpop True).npcDieReturn j i melee result
          exact Except.ok.inj hw ▸ hdie.settles (by rw [Event.walk, hframes])
      | npcInit j i =>
          have hinit := (hpop True).npcInitReturn j i
          exact Except.ok.inj hw ▸ hinit.settles (by rw [Event.walk, hframes])
      | npcTalk i j x y =>
          have hwalks := (npcTalkReturn_walks _ i j x y result c).after (hpop False)
          exact Except.ok.inj hw ▸ hwalks.settles (by rw [Event.walk, hframes])

/-- An event that has its turn moves nobody but the mob that walks and those that are
put somewhere. -/
theorem run_settles {e : Event} (he : ∀ i queue, e ≠ .walkTile i queue ∧ e ≠ .walkEntity i queue)
    (hw : run w e = .ok w') : Settles e w w' := by
  have hrefl := Drift.refl True w
  cases e with
  | connect => exact Except.ok.inj hw ▸ playerCreate_settles w
  | login i l => exact Except.ok.inj hw ▸ (hrefl.playerLogin i l).settles rfl
  | logout i =>
      refine Except.ok.inj hw ▸ (hrefl.modifyPlayer fun p => ?_).settles rfl
      exact ⟨rfl, rfl, .same p.mob⟩
  | remove i => exact Except.ok.inj hw ▸ (hrefl.serverRemovePlayer i).settles rfl
  | walkTile i queue => exact absurd rfl (he i queue).1
  | walkEntity i queue => exact absurd rfl (he i queue).2
  | followPlayer i target => exact Except.ok.inj hw ▸ (hrefl.opFollowPlayer i target).settles rfl
  | setAction i action =>
      refine Except.ok.inj hw ▸ (hrefl.modifyPlayer fun p => ?_).settles rfl
      exact ⟨rfl, rfl, .same p.mob⟩
  | projectile i projectile =>
      refine Except.ok.inj hw ▸ (hrefl.modifyPlayer fun p => ?_).settles rfl
      exact ⟨rfl, rfl, .same p.mob⟩
  | protection i shown =>
      refine Except.ok.inj hw ▸ (hrefl.modifyPlayer fun p => ?_).settles rfl
      exact ⟨rfl, rfl, .same p.mob⟩
  | playerCombat i c => exact (hrefl.playerProcessCombat hw).settles rfl
  | playerAction i c => exact Except.ok.inj hw ▸ (hrefl.playerProcessAction i c).settles rfl
  | playerMovement i path =>
      obtain rfl := Except.ok.inj hw
      have hturn : Drift False w { w with walked := i :: w.walked } :=
        (Drift.refl False w).of_tables rfl rfl
      exact ((playerProcessMovement_walks _ i path).after hturn).settles rfl
  | npcCombat j t => exact (hrefl.npcProcessCombat hw).settles rfl
  | npcMovement j t => exact (npcProcessMovement_walks hw).settles rfl
  | api a =>
      by_cases ha : ∀ config x y, a ≠ .addNpc config x y
      · exact (hrefl.runApi ha hw).settles rfl
      · simp only [not_forall, not_not] at ha
        obtain ⟨config, x, y, rfl⟩ := ha
        exact Except.ok.inj hw ▸ serverAddNpc_settles w config x y
  | hookReturn result c => exact hookReturn_settles hw
  | findPlayers zone shown max =>
      obtain rfl := Except.ok.inj hw
      refine Drift.settles (hrefl.of_tables ?_ ?_) rfl
      · rfl
      · rfl
  | findNpcs zone shown max =>
      obtain rfl := Except.ok.inj hw
      refine Drift.settles (hrefl.of_tables ?_ ?_) rfl
      · rfl
      · rfl
  | sendMovement known =>
      replace hw : sendMovement w known = .ok w' := hw
      unfold sendMovement at hw
      split at hw
      · cases hw
      · exact Except.ok.inj hw ▸ hrefl.settles rfl
  | endTick regen => exact Except.ok.inj hw ▸ endTick_settles w regen

/-! ## Turns -/

theorem Event.walk_cases {e : Event} {path : Path} (h : e.walk w = some (r, path)) :
    (∃ i, e = .playerMovement i path ∧ r = .player i) ∨
    (∃ j t, e = .npcMovement j t ∧ r = .npc j) ∨
    ∃ result c i j x y rest, e = .hookReturn result c ∧ w.frames = .npcTalk i j x y :: rest ∧
      r = .npc j := by
  cases e with
  | playerMovement i path' =>
      obtain ⟨rfl, rfl⟩ := Prod.mk.inj (Option.some.inj h)
      exact .inl ⟨i, rfl, rfl⟩
  | npcMovement j t =>
      obtain ⟨rfl, -⟩ := Prod.mk.inj (Option.some.inj h)
      exact .inr (.inl ⟨j, t, rfl, rfl⟩)
  | hookReturn result c =>
      rw [Event.walk] at h
      split at h
      · next i j x y rest hframes =>
        obtain ⟨rfl, -⟩ := Prod.mk.inj (Option.some.inj h)
        exact .inr (.inr ⟨result, c, i, j, x, y, rest, rfl, hframes, rfl⟩)
      · cases h
  | _ => cases h

/-- A tick as far as it is: the queues are within their bounds, and a mob that has
walked has been processed, or it is an NPC and the players have their turns. -/
structure InTick (k : Clock) : Prop where
  lined : ∀ r m, k.world.mob? r = some m → Lined m
  processed : ∀ r ∈ k.stepped, r ∈ k.processed ∨ (r.isNpc = true ∧ k.playersTurn = true)

/-- A step of the clock but a walk packet is an event of the world that has its turn,
and what walks in it has been processed then. -/
theorem clockStep_other {e : Event} (h : clockStep k (.other e) = .ok k') :
    e.late k = false ∧ run k.world e = .ok k'.world ∧ (k'.stepped = [] ∨
      (∀ r ∈ k.processed, r ∈ k'.processed) ∧ (k.playersTurn = true → k'.playersTurn = true) ∧
      ∀ r ∈ k'.stepped, r ∈ k.stepped ∨ r ∈ k'.processed ∨
        (r.isNpc = true ∧ k'.playersTurn = true)) := by
  unfold clockStep at h
  dsimp only at h
  split at h
  · cases h
  · next hlate =>
    refine ⟨by simpa using hlate, ?_⟩
    split at h
    · cases h
    · next w' hstep =>
      have hrun : run k.world e = .ok w' := by
        unfold step at hstep
        split at hstep
        · exact hstep
        · cases hstep
      split at h
      · exact Except.ok.inj h ▸ ⟨hrun, .inl rfl⟩
      · obtain rfl := Except.ok.inj h
        refine ⟨hrun, .inr ⟨fun r hr => ?_, fun hturn => ?_, fun r hr => ?_⟩⟩
        · dsimp only
          split
          · exact List.mem_cons_of_mem _ hr
          · exact List.mem_cons_of_mem _ hr
          · exact hr
        · dsimp only
          rw [hturn, Bool.true_or]
        · dsimp only at hr ⊢
          split at hr
          · next s path hwalk =>
            split at hr
            · exact .inl hr
            · rcases List.mem_cons.1 hr with rfl | hold
              · rcases Event.walk_cases hwalk with ⟨i, rfl, rfl⟩ | ⟨j, t, rfl, rfl⟩ |
                  ⟨result, c, i, j, x, y, rest, rfl, hframes, rfl⟩
                · exact .inr (.inl (List.mem_cons_self ..))
                · exact .inr (.inl (List.mem_cons_self ..))
                · refine .inr (.inr ⟨rfl, ?_⟩)
                  rw [Event.playerTurn, hframes, Bool.or_true]
              · exact .inl hold
          · exact .inl hr

/-! ## Integrity -/

/-- What the path and the moves of a step are to be: after a walk packet what is left
to walk is the old path, the new one or nothing, and nobody has moved; in an event
every mob that comes to another tile walks there in one step, the only one since the
last movement updates, or is put there. -/
def StepSound (k : Clock) (e : ClockEvent) : Prop :=
  ∀ k', clockStep k e = .ok k' →
    match e with
    | .walk i _ data => PathSound k.world k'.world i data ∧
        ∀ r m m', k.world.mob? r = some m → k'.world.mob? r = some m' → m'.x = m.x ∧ m'.y = m.y
    | .other e =>
        ∀ r m m', k.world.mob? r = some m → k'.world.mob? r = some m' →
          ¬ (m'.x = m.x ∧ m'.y = m.y) → Travels k.world k'.world e r m m' ∧
            ((e.walk k.world).isSome = true → r ∉ k.stepped)

/-- The NPC that a player talks to does not step aside, or has not walked since the
last movement updates. -/
def TalkOk (k : Clock) (e : Event) : Prop :=
  ∀ result c i j x y rest n, e = .hookReturn result c →
    k.world.frames = .npcTalk i j x y :: rest → k.world.npcs j = some n →
      .npc j ∈ k.stepped → ¬ (result = true ∧ StepsAside k.world i x y c n)

def StepOk (k : Clock) : ClockEvent → Prop
  | .walk i entity data => PacketOk k.world i entity data
  | .other e => TalkOk k e

/-- What is processed in the order of a tick has not walked before. -/
theorem not_stepped_of_turn (hk : InTick k) {e : Event} (hlate : e.late k = false)
    (he : (∃ i path, e = .playerMovement i path ∧ r = .player i) ∨
      ∃ j t, e = .npcMovement j t ∧ r = .npc j) : r ∉ k.stepped := by
  intro hr
  rcases he with ⟨i, path, rfl, rfl⟩ | ⟨j, t, rfl, rfl⟩
  · rcases hk.processed _ hr with hmem | ⟨hnpc, -⟩
    · have hdone : k.processed.contains (.player i) = true := by simpa using hmem
      rw [Event.late, hdone] at hlate
      cases hlate
    · cases hnpc
  · rcases hk.processed _ hr with hmem | ⟨-, hturn⟩
    · have hdone : k.processed.contains (.npc j) = true := by simpa using hmem
      rw [Event.late, hdone, Bool.or_true] at hlate
      cases hlate
    · rw [Event.late, hturn, Bool.true_or] at hlate
      cases hlate

theorem clockStep_settles {e : Event} (h : clockStep k (.other e) = .ok k') :
    Settles e k.world k'.world := by
  obtain ⟨hlate, hrun, -⟩ := clockStep_other h
  refine run_settles (fun i queue => ⟨?_, ?_⟩) hrun
  · rintro rfl
    cases hlate
  · rintro rfl
    cases hlate

theorem clockStep_walk {i : Nat} {entity : Bool} {data : List UInt8}
    (h : clockStep k (.walk i entity data) = .ok k') :
    k' = { k with world := opWalk k.world i entity data } := by
  unfold clockStep at h
  dsimp only at h
  split at h
  · exact (Except.ok.inj h).symm
  · cases h

/-- Every step keeps the bounds, and the order of the tick. -/
theorem inTick_step (hk : InTick k) {e : ClockEvent} (h : clockStep k e = .ok k') :
    InTick k' := by
  cases e with
  | walk i entity data =>
      obtain rfl := clockStep_walk h
      refine ⟨fun r m' hm' => ?_, hk.processed⟩
      obtain ⟨m, hm, hparked⟩ := (opWalk_drift k.world i entity data).mob hm'
      exact hparked.lined (hk.lined r m hm)
  | other e =>
      obtain ⟨-, -, hturns⟩ := clockStep_other h
      constructor
      · intro r m' hm'
        rcases clockStep_settles h r m' hm' with ⟨-, hlined⟩ | ⟨m, hm, hlined, -⟩
        · exact hlined
        · exact hlined (hk.lined r m hm)
      · rcases hturns with hnone | ⟨hprocessed, hturn, hstepped⟩
        · rw [hnone]
          exact fun _ hr => by cases hr
        · intro r hr
          rcases hstepped r hr with hold | hnew
          · rcases hk.processed r hold with hdone | ⟨hnpc, hplayers⟩
            · exact .inl (hprocessed r hdone)
            · exact .inr ⟨hnpc, hturn hplayers⟩
          · exact hnew

theorem stepSound_walk_iff (hk : InTick k) {i : Nat} {entity : Bool} {data : List UInt8}
    (h : clockStep k (.walk i entity data) = .ok k') :
    StepSound k (.walk i entity data) ↔ StepOk k (.walk i entity data) := by
  have hlined : ∀ p, k.world.players i = some p → Lined p.mob :=
    fun p hp => hk.lined (.player i) p.mob (by rw [mob?_player, hp]; rfl)
  have hpath := pathSound_iff entity data hlined
  constructor
  · intro hsound
    have hstep := (hsound k' h).1
    rw [clockStep_walk h] at hstep
    exact hpath.1 hstep
  · intro hok k'' h''
    rw [clockStep_walk h'']
    refine ⟨hpath.2 hok, fun r m m' hm hm' => ?_⟩
    obtain ⟨m₀, hm₀, hparked⟩ := (opWalk_drift k.world i entity data).mob hm'
    obtain rfl := Option.some.inj (hm.symm.trans hm₀)
    exact ⟨hparked.x, hparked.y⟩

theorem clockStep_npcTalk {result : Bool} {c : Chance} {i j x y : Nat} {rest : List Frame}
    (hframes : k.world.frames = .npcTalk i j x y :: rest)
    (h : clockStep k (.other (.hookReturn result c)) = .ok k') :
    k'.world = npcTalkReturn { k.world with frames := rest } i j x y result c := by
  have hreturn : hookReturn k.world result c = .ok k'.world := (clockStep_other h).2.1
  unfold hookReturn at hreturn
  rw [hframes] at hreturn
  exact (Except.ok.inj hreturn).symm

/-- The hooks that are out do not matter to an NPC that steps aside. -/
theorem stepsAside_frames {i x y : Nat} {c : Chance} {n : Npc} (rest : List Frame) :
    StepsAside { w with frames := rest } i x y c n ↔ StepsAside w i x y c n :=
  ⟨fun h => ⟨h.there, h.beside, h.peaceful, h.alone, h.free⟩,
    fun h => ⟨h.there, h.beside, h.peaceful, h.alone, h.free⟩⟩

theorem npcTalk_moves {result : Bool} {c : Chance} {i j x y : Nat} {rest : List Frame} {n n' : Npc}
    (hframes : k.world.frames = .npcTalk i j x y :: rest)
    (h : clockStep k (.other (.hookReturn result c)) = .ok k') (hn : k.world.npcs j = some n)
    (hn' : k'.world.npcs j = some n') :
    ¬ (n'.mob.x = n.mob.x ∧ n'.mob.y = n.mob.y) ↔
      result = true ∧ StepsAside k.world i x y c n := by
  have hpopped : ({ k.world with frames := rest } : World).npcs j = some n := hn
  rw [clockStep_npcTalk hframes h] at hn'
  rw [npcTalkReturn_moves hpopped hn', stepsAside_frames]

theorem stepSound_other_iff (hk : InTick k) {e : Event} (h : clockStep k (.other e) = .ok k') :
    StepSound k (.other e) ↔ StepOk k (.other e) := by
  constructor
  · rintro hsound result c i j x y rest n rfl hframes hn hstepped ⟨hresult, haside⟩
    have hthere : There j { k.world with frames := rest } := ⟨n, hn⟩
    obtain ⟨n', hn'⟩ := npcTalkReturn_there hthere i x y result c
    rw [← clockStep_npcTalk hframes h] at hn'
    have hmoved := (npcTalk_moves hframes h hn hn').2 ⟨hresult, haside⟩
    have hstep := hsound k' h (.npc j) n.mob n'.mob (by rw [mob?_npc, hn]; rfl)
      (by rw [mob?_npc, hn']; rfl) hmoved
    refine hstep.2 ?_ hstepped
    rw [Event.walk, hframes]
    rfl
  · intro hok k'' h'' r m m' hm hm' hmoved
    rcases clockStep_settles h'' r m' hm' with ⟨hnone, -⟩ | ⟨m₀, hm₀, -, hplace⟩
    · rw [hnone] at hm
      cases hm
    · obtain rfl := Option.some.inj (hm.symm.trans hm₀)
      have htravels := hplace.resolve_left hmoved
      refine ⟨htravels, fun hwalk => ?_⟩
      obtain ⟨⟨s, path⟩, hwalk⟩ := Option.isSome_iff_exists.1 hwalk
      unfold Travels at htravels
      rw [hwalk] at htravels
      obtain ⟨rfl, -, -⟩ := htravels
      have hlate := (clockStep_other h'').1
      rcases Event.walk_cases hwalk with ⟨i, he, hr⟩ | ⟨j, t, he, hr⟩ |
        ⟨result, c, i, j, x, y, rest, rfl, hframes, rfl⟩
      · exact not_stepped_of_turn hk hlate (.inl ⟨i, path, he, hr⟩)
      · exact not_stepped_of_turn hk hlate (.inr ⟨j, t, he, hr⟩)
      · intro hstepped
        obtain ⟨n, hn, rfl⟩ := Option.map_eq_some_iff.1 hm
        obtain ⟨n', hn', rfl⟩ := Option.map_eq_some_iff.1 hm'
        have haside := (npcTalk_moves hframes h'' hn hn').1 hmoved
        exact hok result c i j x y rest n rfl hframes hn hstepped haside

theorem stepSound_iff (hk : InTick k) {e : ClockEvent} (h : clockStep k e = .ok k') :
    StepSound k e ↔ StepOk k e := by
  cases e with
  | walk i entity data => exact stepSound_walk_iff hk h
  | other e => exact stepSound_other_iff hk h

/-! ## Runs -/

/-- The server as it starts. -/
def FreshClock (k : Clock) : Prop := ∃ w, Fresh w ∧ k = { world := w }

theorem inTick_fresh (hk : FreshClock k) : InTick k := by
  obtain ⟨w, ⟨startX, startY, rfl⟩, rfl⟩ := hk
  refine ⟨fun r m hm => ?_, fun r hr => by cases hr⟩
  cases r with
  | player i => cases hm
  | npc j => cases hm

theorem inTick_of_run {tr : List (Clock × ClockEvent)} (hrun : Run FreshClock clockStep tr k) :
    InTick k :=
  hrun.always (fun _ hk => inTick_fresh hk) fun _ _ _ hk h => inTick_step hk h

/-- The queues are within their bounds in every state of every run; and the paths and
the moves are what they are to be along the whole run if and only if no walk packet
is let through that ends on its player's tile and whose path makes a difference in
the queue, and no NPC steps aside that has walked since the last movement updates. -/
theorem walk_integrity_iff {tr : List (Clock × ClockEvent)} {s : Clock}
    (hrun : Run FreshClock clockStep tr s) :
    (∀ k ∈ statesOf tr s, ∀ r m, k.world.mob? r = some m →
      m.walkQueuePos ≤ m.walkQueueLen ∧ m.walkQueueLen ≤ walkQueueLen) ∧
    ((∀ x ∈ tr, StepSound x.1 x.2) ↔ ∀ x ∈ tr, StepOk x.1 x.2) := by
  have hstates : ∀ k ∈ statesOf tr s, InTick k := by
    intro k hk
    obtain ⟨tr', -, hrun'⟩ := hrun.reaches hk
    exact inTick_of_run hrun'
  refine ⟨fun k hk r m hm => ?_, forall₂_congr fun x hx => ?_⟩
  · have hlined := (hstates k hk).lined r m hm
    exact ⟨hlined.pos, hlined.len⟩
  · obtain ⟨k', hk', -⟩ := hrun.next_mem hx
    exact stepSound_iff (hstates x.1 (mem_statesOf.2 (.inl ⟨x.2, hx⟩))) hk'

/-- A player logs in and is sent two tiles along. -/
def stroll : List ClockEvent :=
  [.other .connect, .other (.login 0 ⟨5, 10, 10, 10, false, true, none⟩),
    .walk 0 false [255, 0, 11, 0, 10, 1, 0]]

/-- It takes the first step. -/
theorem walk_integrity_iff_stroll : ∃ tr k,
    exec clockStep { world := {} } (stroll ++ [.other (.playerMovement 0 {})]) = .ok (tr, k) ∧
    (∀ c ∈ statesOf tr k, ∀ r m, c.world.mob? r = some m →
      m.walkQueuePos ≤ m.walkQueueLen ∧ m.walkQueueLen ≤ walkQueueLen) ∧
    ∀ x ∈ tr, StepSound x.1 x.2 := by
  have hrun : Run FreshClock clockStep _ _ := Run.of_exec
    (stroll ++ [.other (.playerMovement 0 {})]) ⟨{}, ⟨0, 0, rfl⟩, rfl⟩ rfl
  obtain ⟨hbounds, hsound⟩ := walk_integrity_iff hrun
  refine ⟨_, _, rfl, hbounds, hsound.2 ?_⟩
  have htalk : ∀ k e, (∀ result c, e ≠ Event.hookReturn result c) → StepOk k (.other e) :=
    fun k e he result c _ _ _ _ _ _ heq => absurd heq (he result c)
  intro x hx
  simp only [List.mem_cons, List.not_mem_nil, or_false] at hx
  rcases hx with rfl | rfl | rfl | rfl
  · exact htalk _ _ fun _ _ h => by cases h
  · exact htalk _ _ fun _ _ h => by cases h
  · intro p path hp hpath _ hlast
    obtain rfl := Option.some.inj hp
    obtain rfl := Option.some.inj hpath
    exact absurd hlast (by decide)
  · exact htalk _ _ fun _ _ h => by cases h

/-- A click on its own tile before that leaves a path that was never asked for. -/
theorem old_bounds_new_path : ¬ ∀ (tr : List (Clock × ClockEvent)) (s : Clock),
    Run FreshClock clockStep tr s → ∀ x ∈ tr, StepSound x.1 x.2 := by
  intro hall
  have hrun : Run FreshClock clockStep _ _ := Run.of_exec
    (stroll ++ [.walk 0 false [255, 0, 10, 0, 10]]) ⟨{}, ⟨0, 0, rfl⟩, rfl⟩ rfl
  have hsound := hall _ _ hrun _ (.tail _ (.tail _ (.tail _ (.head _))))
  rcases (hsound _ rfl).1 _ _ rfl rfl with hold | hnil | ⟨path, hpath, hnew⟩
  · exact absurd hold (by decide)
  · exact absurd hnil (by decide)
  · obtain rfl := Option.some.inj hpath
    exact absurd hnew (by decide)

end Sundae.Proofs
