import Mathlib.Data.Finset.Card
import Sundae.Proofs.Member
import Sundae.Proofs.Watch

/-!
# When a client is told right

Nothing is taken on trust here. After an update that is sent a client has the mobs of the
server's list, each where it is and facing as it does, exactly when none of those that
stay has done more than its flags can say, and those that are new are close enough for
the five bits of an offset. The update is sent at all when no mob that stays has moved in a
combat stance, and no more than 255 would be on the list.
-/

namespace Sundae.Proofs

open Sundae.Lib Sundae.Ref Sundae.Ref.World

/-! ## What the flags can say -/

/-- A mob that was `old` at the last update has taken a step in its direction, or it is
where it was and either faces as it did or shows that it has turned. -/
def FlagsShow (old m : World.Mob) : Prop :=
  if m.moved then
    (m.x : Int) = old.x + (stepOf m.dir.code).1 ∧ (m.y : Int) = old.y + (stepOf m.dir.code).2
  else m.x = old.x ∧ m.y = old.y ∧ (m.dir = m.prevDir → m.dir = old.dir)

theorem code_injective {a b : Dir} (h : a.code = b.code) : a = b := by
  cases a <;> cases b <;> first | rfl | cases h

theorem heardChange_shows_iff {old m : World.Mob} {s : SeenMob} (h : Shows old s) :
    Shows m (heardChange m s) ↔ FlagsShow old m := by
  obtain ⟨hx, hy, hdir⟩ := h
  unfold heardChange FlagsShow
  by_cases hmoved : m.moved = true
  · rw [if_pos hmoved, if_pos hmoved, ← hx, ← hy]
    exact ⟨fun h => ⟨h.x.symm, h.y.symm⟩, fun h => ⟨h.1.symm, h.2.symm, rfl⟩⟩
  · rw [if_neg hmoved, if_neg hmoved]
    by_cases hturned : m.dir = m.prevDir
    · rw [if_neg (not_not_intro hturned)]
      constructor
      · intro h
        have hsx := h.x
        have hsy := h.y
        exact ⟨by omega, by omega, fun _ => code_injective (h.dir.symm.trans hdir)⟩
      · rintro ⟨hmx, hmy, hsame⟩
        exact ⟨by omega, by omega, by rw [hdir, hsame hturned]⟩
    · rw [if_pos hturned]
      constructor
      · intro h
        have hsx := h.x
        have hsy := h.y
        dsimp only at hsx hsy
        exact ⟨by omega, by omega, fun hsame => absurd hsame hturned⟩
      · rintro ⟨hmx, hmy, -⟩
        exact ⟨by dsimp only; omega, by dsimp only; omega, rfl⟩

/-! ## How many there are -/

theorem mem_newcomers {i : Nat} : ∀ {nearby known : List Nat},
    i ∈ newcomers known nearby ↔ i ∈ nearby ∧ i ∉ known
  | [], known => by simp [newcomers]
  | id :: nearby, known => by
    unfold newcomers
    split
    · next hknown =>
      rw [mem_newcomers, List.mem_cons]
      have hmem : id ∈ known := by simpa using hknown
      constructor
      · exact fun h => ⟨.inr h.1, h.2⟩
      · rintro ⟨rfl | h, hnot⟩
        · exact absurd hmem hnot
        · exact ⟨h, hnot⟩
    · next hknown =>
      have hnot : id ∉ known := by simpa using hknown
      rw [List.mem_cons, mem_newcomers, List.mem_cons, List.mem_append, List.mem_singleton]
      constructor
      · rintro (rfl | ⟨h, hold⟩)
        · exact ⟨.inl rfl, hnot⟩
        · exact ⟨.inr h, fun hk => hold (.inl hk)⟩
      · rintro ⟨rfl | h, hold⟩
        · exact .inl rfl
        · by_cases heq : i = id
          · exact .inl heq
          · exact .inr ⟨h, fun hk => hk.elim hold heq⟩

theorem length_newcomers : ∀ {nearby known : List Nat},
    (newcomers known nearby).length = (nearby.toFinset \ known.toFinset).card
  | [], known => by simp [newcomers]
  | id :: nearby, known => by
    unfold newcomers
    rw [List.toFinset_cons]
    split
    · next hknown =>
      have hmem : id ∈ known.toFinset := by simpa using hknown
      rw [length_newcomers, Finset.insert_sdiff_of_mem _ hmem]
    · next hknown =>
      have hnot : id ∉ known.toFinset := by simpa using hknown
      rw [List.length_cons, length_newcomers, List.toFinset_append,
        Finset.insert_sdiff_of_notMem _ hnot, List.toFinset_cons, List.toFinset_nil,
        ← Finset.card_insert_of_notMem (a := id)]
      · congr 1
        ext i
        simp only [Finset.mem_insert, Finset.mem_sdiff, Finset.mem_union, Finset.notMem_empty,
          or_false]
        tauto
      · simp

/-- How many would be on the list: those that stay, and those shown who are not among
them. -/
def crowd (kept : Nat → Option World.Mob) (known : List (Option Nat)) (shown : List Nat) : Nat :=
  (keptMobs kept known).length + (shown.toFinset \ (keptMobs kept known).toFinset).card

theorem length_seenMobs (kept : Nat → Option World.Mob) (known : List (Option Nat))
    (shown : List Nat) : (seenMobs kept known shown).length = crowd kept known shown := by
  rw [seenMobs, List.length_append, length_newcomers, crowd]

theorem mem_keptMobs {kept : Nat → Option World.Mob} {known : List (Option Nat)} {i : Nat} :
    i ∈ keptMobs kept known ↔ some i ∈ known ∧ ∃ m, kept i = some m := by
  simp only [keptMobs, List.mem_filterMap, Option.filter_eq_some_iff, Option.isSome_iff_exists]
  constructor
  · rintro ⟨_, hmem, rfl, h⟩
    exact ⟨hmem, h⟩
  · rintro ⟨hmem, h⟩
    exact ⟨_, hmem, rfl, h⟩

/-! ## One update -/

/-- Every mob. -/
def Everyone : Nat → Prop := fun _ => True

/-- The mobs a client knows are `known`, and were as `told` at the last update; `kept` has
those that stay, and `shown` are those the search gives, if the list is not full. -/
structure UpdateOk (v : Viewer) (told kept now : Nat → Option World.Mob)
    (known : List (Option Nat)) (shown : List Nat) : Prop where
  steps : ∀ i m, some i ∈ known → kept i = some m → m.moved = true → m.dir.combat = false
  few : crowd kept known shown ≤ maxKnown
  tells : ∀ i old m, some i ∈ known → told i = some old → kept i = some m → FlagsShow old m
  near : ∀ i ∈ shown, (some i ∈ known → kept i = none) → ∀ m, now i = some m → Placeable v m

section Update

variable {v : Viewer} {told kept now : Nat → Option World.Mob} {known : List (Option Nat)}
  {shown : List Nat} {held held' : List SeenMob}

theorem not_asserted_iff : ¬ Asserted kept known ↔
    ∀ i m, some i ∈ known → kept i = some m → m.moved = true → m.dir.combat = false := by
  constructor
  · exact fun h i m hi hm hmoved => eq_false_of_ne_true fun hcombat =>
      h ⟨i, m, hi, hm, hmoved, hcombat⟩
  · rintro h ⟨i, m, hi, hm, hmoved, hcombat⟩
    rw [h i m hi hm hmoved] at hcombat
    cases hcombat

theorem notMem_keptMobs {i : Nat} :
    i ∉ keptMobs kept known ↔ (some i ∈ known → kept i = none) := by
  rw [mem_keptMobs, not_and, ← Option.ne_none_iff_exists', not_not]

/-- What is new fits the fields it is put in. -/
def OffsetsFit (v : Viewer) (kept now : Nat → Option World.Mob)
    (known known' : List (Option Nat)) : Prop :=
  ∀ i, some i ∈ known' → (some i ∈ known → kept i = none) →
    ∀ m, now i = some m → Placeable v m

/-- What is new is shown, and not among those that stay. -/
theorem offsetsFit_iff : OffsetsFit v kept now known ((seenMobs kept known shown).map some) ↔
    ∀ i ∈ newcomers (keptMobs kept known) shown, ∀ m, now i = some m → Placeable v m := by
  constructor
  · intro hfit i hi
    refine hfit i ?_ (notMem_keptMobs.1 (mem_newcomers.1 hi).2)
    rw [seenMobs, List.map_append]
    exact List.mem_append_right _ (List.mem_map_of_mem hi)
  · intro hplace i hi hnot
    obtain ⟨j, hj, heq⟩ := List.mem_map.1 hi
    obtain rfl := Option.some.inj heq
    rcases List.mem_append.1 hj with hj | hj
    · exact absurd hj (notMem_keptMobs.2 hnot)
    · exact hplace _ hj

/-- A client that has the list has the new one exactly where the update can say it. -/
theorem Learned.holds_iff (h : Learned v kept now shown held held')
    (hheld : Holds Everyone told known held) (hnow : ∀ i m, kept i = some m → now i = some m)
    (hsteps : ¬ Asserted kept known) (hfew : (seenMobs kept known shown).length ≤ maxKnown) :
    Holds Everyone now ((seenMobs kept known shown).map some) held' ∧
      OffsetsFit v kept now known ((seenMobs kept known shown).map some) ↔
      UpdateOk v told kept now known shown := by
  have hknown : ∀ {i}, some i ∈ known ↔ ∃ s ∈ held, s.id = i := by
    intro i
    rw [hheld.same, List.mem_map]
    simp only [Option.some.injEq]
  rw [offsetsFit_iff]
  constructor
  · rintro ⟨⟨-, -, hall⟩, hplace⟩
    refine ⟨not_asserted_iff.1 hsteps, length_seenMobs kept known shown ▸ hfew,
      fun i old m hi hold hm => ?_,
      fun i hi hnot => hplace i (mem_newcomers.2 ⟨hi, notMem_keptMobs.2 hnot⟩)⟩
    obtain ⟨s, hs, rfl⟩ := hknown.1 hi
    obtain ⟨old', hold', hshow⟩ := hheld.shows s hs trivial
    obtain rfl := Option.some.inj (hold.symm.trans hold')
    refine (heardChange_shows_iff hshow).1 ?_
    obtain ⟨fresh, rfl, -, -⟩ := h
    obtain ⟨m', hm', hshow'⟩ := hall (heardChange m s)
      (List.mem_append_left _ (mem_heardKnown.2 ⟨s, hs, m, hm, rfl⟩)) trivial
    rw [heardChange_id, hnow _ m hm] at hm'
    exact Option.some.inj hm' ▸ hshow'
  · intro hok
    have hplace : ∀ i ∈ newcomers (keptMobs kept known) shown, ∀ m, now i = some m →
        Placeable v m := by
      intro i hi
      obtain ⟨hshown, hnot⟩ := mem_newcomers.1 hi
      exact hok.near i hshown (notMem_keptMobs.1 hnot)
    refine ⟨h.holds hheld (fun s hs _ m hm => ?_) hnow hplace hfew, hplace⟩
    obtain ⟨old, hold, hshow⟩ := hheld.shows s hs trivial
    exact (heardChange_shows_iff hshow).2 (hok.tells _ old m (hknown.2 ⟨s, hs, rfl⟩) hold hm)

/-- What stops an update is not among what it can say. -/
theorem not_updateOk (h : Asserted kept known ∨ maxKnown < (seenMobs kept known shown).length) :
    ¬ UpdateOk v told kept now known shown := by
  intro hok
  rcases h with hassert | hover
  · exact not_asserted_iff.2 hok.steps hassert
  · have hfew := hok.few
    rw [← length_seenMobs] at hfew
    exact absurd hfew (Nat.not_le_of_lt hover)

end Update

/-! ## Over a run -/

section Runs

variable {isaacOut : Nat → UInt32} {tr : List (Watch × WatchEvent)} {c c' : Watch} {e : WatchEvent}
  {tmpbuf : Vector UInt8 playerBufsize}

/-- The packet of an update is queued, and the slots are those of the server's array. -/
def Queues (isaacOut : Nat → UInt32) (c : Watch) : WatchEvent → Prop
  | .sendPlayers tmpbuf => (∀ i, (c.world.players i).isSome → i < maxPlayers) ∧
    (playerSendMovement isaacOut c.world tmpbuf.toList c.viewer).2.2 ≠ .failed
  | .sendNpcs tmpbuf => (∀ j, (c.world.npcs j).isSome → j < maxNpcs) ∧
    (playerSendNpcMovement isaacOut c.world tmpbuf.toList c.viewer).2.2 ≠ .failed
  | _ => True

/-- The update is made, and the client has the server's new list, with every mob where it
is and facing as it does. -/
def Mirrored (isaacOut : Nat → UInt32) (c : Watch) : WatchEvent → Prop
  | .sendPlayers tmpbuf => ∃ c', watchStep isaacOut c (.sendPlayers tmpbuf) = .ok c' ∧
      Holds Everyone (fun i => c'.world.mob? (.player i)) c'.viewer.knownPlayers c'.players ∧
      OffsetsFit c.viewer (keptPlayer c.world c.viewer) (fun i => c.world.mob? (.player i))
        c.viewer.knownPlayers c'.viewer.knownPlayers
  | .sendNpcs tmpbuf => ∃ c', watchStep isaacOut c (.sendNpcs tmpbuf) = .ok c' ∧
      Holds Everyone (fun j => c'.world.mob? (.npc j)) c'.viewer.knownNpcs c'.npcs ∧
      OffsetsFit c.viewer (keptNpc c.world c.viewer) (fun j => c.world.mob? (.npc j))
        c.viewer.knownNpcs c'.viewer.knownNpcs
  | _ => True

/-- The update can say what has become of the mobs. -/
def MovementOk (c : Watch) : WatchEvent → Prop
  | .sendPlayers _ => UpdateOk c.viewer c.toldPlayers (keptPlayer c.world c.viewer)
      (fun i => c.world.mob? (.player i)) c.viewer.knownPlayers (shownPlayers c.world c.viewer)
  | .sendNpcs _ => UpdateOk c.viewer c.toldNpcs (keptNpc c.world c.viewer)
      (fun j => c.world.mob? (.npc j)) c.viewer.knownNpcs (shownNpcs c.world c.viewer)
  | _ => True

theorem exists_ok_iff {α ε : Type} {r : Except ε α} {a : α} {P : α → Prop} (h : r = .ok a) :
    (∃ b, r = .ok b ∧ P b) ↔ P a := by
  subst h
  constructor
  · rintro ⟨b, hb, hp⟩
    exact Except.ok.inj hb ▸ hp
  · exact fun hp => ⟨a, rfl, hp⟩

theorem players_mirrored_iff (h : Watched Everyone Everyone c)
    (hqueues : Queues isaacOut c (.sendPlayers tmpbuf)) :
    Mirrored isaacOut c (.sendPlayers tmpbuf) ↔ MovementOk c (.sendPlayers tmpbuf) := by
  have hlen := h.players.length_known
  rcases players_outcome hlen hqueues.2 with ⟨w', v', payload, hsent⟩ | ⟨hwhy, hstops⟩
  · obtain ⟨hheard, hknown, -, hworlds, hassert, hfits⟩ :=
      players_heard h.players.same hlen hqueues.1 tmpbuf.length_toList hsent
    refine (exists_ok_iff (sendPlayers_step hsent)).trans ?_
    dsimp only
    rw [hknown, hworlds.mob?]
    exact hheard.holds_iff h.players (fun _ _ => mob_of_keptPlayer) hassert hfits
  · refine iff_of_false ?_ (not_updateOk hwhy)
    rintro ⟨c', hc', -⟩
    exact hstops c' hc'

theorem npcs_mirrored_iff (h : Watched Everyone Everyone c)
    (hqueues : Queues isaacOut c (.sendNpcs tmpbuf)) :
    Mirrored isaacOut c (.sendNpcs tmpbuf) ↔ MovementOk c (.sendNpcs tmpbuf) := by
  have hlen := h.npcs.length_known
  rcases npcs_outcome hlen hqueues.2 with ⟨w', v', payload, hsent⟩ | ⟨hwhy, hstops⟩
  · obtain ⟨hheard, hknown, -, hworlds, hassert, hfits⟩ :=
      npcs_heard h.npcs.same hlen hqueues.1 tmpbuf.length_toList hsent
    refine (exists_ok_iff (sendNpcs_step hsent)).trans ?_
    dsimp only
    rw [hknown, hworlds.mob?]
    exact hheard.holds_iff h.npcs (fun _ _ => mob_of_keptNpc) hassert hfits
  · refine iff_of_false ?_ (not_updateOk hwhy)
    rintro ⟨c', hc', -⟩
    exact hstops c' hc'

theorem mirrored_iff (h : Watched Everyone Everyone c)
    (hqueues : Queues isaacOut c e) : Mirrored isaacOut c e ↔ MovementOk c e := by
  cases e with
  | world w => exact Iff.rfl
  | move x y dir => exact Iff.rfl
  | output out => exact Iff.rfl
  | sendPlayers tmpbuf => exact players_mirrored_iff h hqueues
  | sendNpcs tmpbuf => exact npcs_mirrored_iff h hqueues

/-- An update of one kind leaves the other list alone. -/
theorem watchStep_mirrored (h : Watched Everyone Everyone c) (hqueues : Queues isaacOut c e)
    (hmirrored : Mirrored isaacOut c e) (hstep : watchStep isaacOut c e = .ok c') :
    Watched Everyone Everyone c' := by
  obtain ⟨hplayers, hnpcs⟩ := h
  cases e with
  | world w =>
      cases hstep
      exact ⟨hplayers, hnpcs⟩
  | move x y dir =>
      cases hstep
      exact ⟨hplayers, hnpcs⟩
  | output out =>
      cases hstep
      exact ⟨hplayers, hnpcs⟩
  | sendPlayers tmpbuf =>
      have hlen := hplayers.length_known
      rcases players_outcome hlen hqueues.2 with ⟨w', v', payload, hsent⟩ | ⟨-, hstops⟩
      · obtain ⟨-, -, hother, -⟩ :=
          players_heard hplayers.same hlen hqueues.1 tmpbuf.length_toList hsent
        obtain rfl := Except.ok.inj ((sendPlayers_step hsent).symm.trans hstep)
        exact ⟨((exists_ok_iff hstep).1 hmirrored).1, hother ▸ hnpcs⟩
      · exact absurd hstep (hstops c')
  | sendNpcs tmpbuf =>
      have hlen := hnpcs.length_known
      rcases npcs_outcome hlen hqueues.2 with ⟨w', v', payload, hsent⟩ | ⟨-, hstops⟩
      · obtain ⟨-, -, hother, -⟩ :=
          npcs_heard hnpcs.same hlen hqueues.1 tmpbuf.length_toList hsent
        obtain rfl := Except.ok.inj ((sendNpcs_step hsent).symm.trans hstep)
        exact ⟨hother ▸ hplayers, ((exists_ok_iff hstep).1 hmirrored).1⟩
      · exact absurd hstep (hstops c')

/-- In every run of updates that are all queued, and whatever happens between them, every
update up to the last one tried leaves the client with the server's lists, exactly when
every one can say what has become of the mobs. -/
theorem movement_mirrored_iff (hrun : Run Unwatched (watchStep isaacOut) tr c)
    (hqueues : ∀ x ∈ tr ++ [(c, e)], Queues isaacOut x.1 x.2) :
    (∀ x ∈ tr ++ [(c, e)], Mirrored isaacOut x.1 x.2) ↔
      ∀ x ∈ tr ++ [(c, e)], MovementOk x.1 x.2 :=
  hrun.attempts_iff (H := Watched Everyone Everyone)
    (fun _ => watched_start) (fun _ _ _ => watchStep_mirrored) (fun _ _ => mirrored_iff) hqueues

/-- A player comes into view and takes a step. -/
theorem movement_mirrored_iff_step : ∃ tr c e, Run Unwatched (watchStep fun _ => 0) tr c ∧
    (∀ x ∈ tr ++ [(c, e)], Mirrored (fun _ => 0) x.1 x.2) ∧
    (after (watchStep fun _ => 0) c e).players = [⟨0, 100, 101, 4, 0⟩] := by
  let c₀ : Watch := { world := onePlayer 100 100, viewer := lookout 101 100 }
  let c₁ : Watch := after (watchStep fun _ => 0) c₀ (.sendPlayers blankBuf)
  let c₂ : Watch := { c₁ with world := oneStepped }
  have hrun : Run Unwatched (watchStep fun _ => 0) [(c₀, .sendPlayers blankBuf),
      (c₁, .world oneStepped)] c₂ :=
    ((Run.start (by exact ⟨rfl, rfl, rfl, rfl⟩)).step (step_after (by decide +kernel))).step rfl
  refine ⟨_, _, .sendPlayers blankBuf, hrun, (movement_mirrored_iff hrun ?_).2 ?_,
    by decide +kernel⟩
  · intro x hx
    simp only [List.cons_append, List.nil_append, List.mem_cons, List.not_mem_nil, or_false] at hx
    rcases hx with rfl | rfl | rfl
    · exact ⟨slots_of_single fun _ h => if_neg h, by decide +kernel⟩
    · trivial
    · exact ⟨slots_of_single fun _ h => if_neg h, by decide +kernel⟩
  · intro x hx
    simp only [List.cons_append, List.nil_append, List.mem_cons, List.not_mem_nil, or_false] at hx
    rcases hx with rfl | rfl | rfl
    · exact ⟨fun _ _ h => (nomatch h), by decide +kernel, fun _ _ _ h => (nomatch h),
        fun i hi _ m hm => shown_player_near (onePlayer_listed 100 100) hi hm⟩
    · trivial
    · have hknown : c₂.viewer.knownPlayers = [some 0] := by decide +kernel
      have hkept : ∀ {i m}, some i ∈ c₂.viewer.knownPlayers →
          keptPlayer c₂.world c₂.viewer i = some m → i = 0 ∧ m = stepped.mob := by
        intro i m hi hm
        rw [hknown, List.mem_singleton] at hi
        obtain rfl := Option.some.inj hi
        obtain ⟨p, hp, rfl⟩ := Option.map_eq_some_iff.1 hm
        exact ⟨rfl, congrArg World.Player.mob
          (Option.some.inj (Option.filter_eq_some_iff.1 hp).1).symm⟩
      refine ⟨fun i m hi hm _ => ?_, by decide +kernel, fun i old m hi hold hm => ?_,
        fun i hi _ m hm => shown_player_near oneStepped_listed hi hm⟩
      · obtain ⟨rfl, rfl⟩ := hkept hi hm
        rfl
      · obtain ⟨rfl, rfl⟩ := hkept hi hm
        have htold : (c₂.toldPlayers 0).map (fun m => (m.x, m.y)) = some (100, 100) := by
          decide +kernel
        rw [hold] at htold
        obtain ⟨hx, hy⟩ := Prod.mk.inj (Option.some.inj htold)
        refine (if_pos rfl).mpr ?_
        rw [hx, hy]
        exact ⟨rfl, rfl⟩

/-- A world the server comes to, and a player there who is logged in. -/
def Real (c : Watch) : Prop :=
  (∃ tr, Run Fresh World.step tr c.world) ∧
    ∃ p, c.world.players c.viewer.id = some p ∧ p.loginOk = true ∧
      p.mob.x = c.viewer.x ∧ p.mob.y = c.viewer.y

/-- Two players stand on one tile, and a script takes the second one level up. -/
def levelUp : List Event :=
  [.connect, .login 0 ⟨5, 47, 10, 10, false, true, none⟩, .connect,
    .login 1 ⟨6, 47, 10, 10, false, true, none⟩, .api (.changeLevelUp 1)]

def leveledUp : World :=
  match exec World.step {} levelUp with
  | .ok (_, w) => w
  | .error _ => {}

/-- The first still finds the second in its zone, and is told of a player sixteen tiles
to the north. -/
theorem level_up_misplaced : ¬ ∀ (isaacOut : Nat → UInt32) (tr : List (Watch × WatchEvent))
    (c : Watch) (e : WatchEvent), Run Unwatched (watchStep isaacOut) tr c →
    (∀ x ∈ tr ++ [(c, e)], Real x.1 ∧ Queues isaacOut x.1 x.2) →
    ∀ x ∈ tr ++ [(c, e)], Mirrored isaacOut x.1 x.2 := by
  intro hall
  have hrun : Run Fresh World.step _ _ := Run.of_exec levelUp ⟨0, 0, rfl⟩ rfl
  let c : Watch :=
    { world := leveledUp, viewer := { id := 0, x := 47, y := 10, out := { outbuf := [] } } }
  obtain ⟨c', hc', hholds, -⟩ := hall (fun _ => 0) [] c (.sendPlayers blankBuf)
    (.start ⟨rfl, rfl, rfl, rfl⟩) (by
      intro x hx
      obtain rfl := List.mem_singleton.1 hx
      refine ⟨⟨⟨_, hrun⟩, _, rfl, rfl, rfl, rfl⟩, fun i hi => ?_, by decide +kernel⟩
      match i with
      | 0 => decide
      | 1 => decide
      | i + 2 => cases hi) _ (List.mem_singleton_self _)
  have hstep : watchStep (fun _ => 0) c (.sendPlayers blankBuf) = .ok _ :=
    step_after (by decide +kernel)
  obtain rfl := Except.ok.inj (hstep.symm.trans hc')
  have hheld : (after (watchStep fun _ => 0) c (.sendPlayers blankBuf)).players =
      [⟨1, 47, -6, 0, 0⟩] := by decide +kernel
  obtain ⟨m, -, hshow⟩ := hholds.shows ⟨1, 47, -6, 0, 0⟩
    (hheld ▸ List.mem_singleton_self _) trivial
  have hy : (-6 : Int) = m.y := hshow.y
  omega

end Runs

end Sundae.Proofs
