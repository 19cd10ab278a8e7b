import Sundae.Lib.Run
import Sundae.Ref.Script

/-!
# What a script's call may touch

A call finds its record in `active_script`. `script_engine_process` and
`script_engine_answer` set it before they resume, and no other coroutine is
resumed by them until that one has yielded: below a kill hook it is the record
of the script that had the NPC die. `script_engine_tick` and
`script_engine_killnpc` resume without setting it.
-/

namespace Sundae.Proofs

open Sundae.Ref Sundae.Lib

variable {depth : Nat} {e e' : Engine} {tr : List (Engine × ScriptEvent)}

attribute [simp] Engine.modifyScript Engine.die Engine.register Engine.setPlayerBusy
  Engine.setNpcBusy Engine.newPlayerScript

/-- Nothing runs, and no script has been made. -/
def ScriptInit (e : Engine) : Prop :=
  e.stack = [] ∧ e.count = 0 ∧ e.activeScript = none ∧ e.pausedScripts = [] ∧
    e.deleteLocs = [] ∧ e.raised = false ∧ (∀ player, e.playerScripts player = none) ∧
    ∀ npc, e.npcBusy npc = false

theorem scriptInit_default : ScriptInit {} :=
  ⟨rfl, rfl, rfl, rfl, rfl, rfl, fun _ => rfl, fun _ => rfl⟩

/-! ## What stays when flags are cleared -/

/-- What `script_engine_cancel` and the functions that call it leave alone. -/
structure KeepsStack (e e' : Engine) : Prop where
  stack : e'.stack = e.stack
  activeScript : e'.activeScript = e.activeScript
  count : e'.count = e.count
  pausedScripts : e'.pausedScripts = e.pausedScripts
  deleteLocs : e'.deleteLocs = e.deleteLocs
  playerThere : e'.playerThere = e.playerThere
  npcThere : e'.npcThere = e.npcThere

theorem KeepsStack.refl (e : Engine) : KeepsStack e e :=
  ⟨rfl, rfl, rfl, rfl, rfl, rfl, rfl⟩

theorem KeepsStack.trans {e'' : Engine} (h : KeepsStack e e') (h' : KeepsStack e' e'') :
    KeepsStack e e'' where
  stack := h'.stack.trans h.stack
  activeScript := h'.activeScript.trans h.activeScript
  count := h'.count.trans h.count
  pausedScripts := h'.pausedScripts.trans h.pausedScripts
  deleteLocs := h'.deleteLocs.trans h.deleteLocs
  playerThere := h'.playerThere.trans h.playerThere
  npcThere := h'.npcThere.trans h.npcThere

section

variable {nested : Engine → Nat → Engine} (hn : ∀ e player, KeepsStack e (nested e player))
include hn

theorem KeepsStack.playerBusyWith (e : Engine) (player : Nat) (busy : Bool) :
    KeepsStack e (playerBusyWith nested e player busy) := by
  unfold Ref.playerBusyWith
  split
  · exact ⟨rfl, rfl, rfl, rfl, rfl, rfl, rfl⟩
  · exact hn e player

theorem KeepsStack.npcBusyWith (e : Engine) (npc : Nat) (busy : Bool) :
    KeepsStack e (npcBusyWith nested e npc busy) := by
  unfold Ref.npcBusyWith
  split
  · exact ⟨rfl, rfl, rfl, rfl, rfl, rfl, rfl⟩
  · exact hn e npc

theorem KeepsStack.npcUnbusyWith (e : Engine) (npc : Option Nat) :
    KeepsStack e (npcUnbusyWith nested e npc) := by
  cases npc with
  | none => exact .refl e
  | some npc => exact .npcBusyWith hn e npc false

theorem KeepsStack.cancelWith (e : Engine) (player : Nat) :
    KeepsStack e (cancelWith nested e player) := by
  unfold Ref.cancelWith
  split
  · exact ⟨rfl, rfl, rfl, rfl, rfl, rfl, rfl⟩
  · next r _ =>
    refine ((KeepsStack.npcUnbusyWith hn e (e.scripts r).npc).trans
      (.playerBusyWith hn _ player false)).trans ?_
    dsimp only
    split
    · exact ⟨rfl, rfl, rfl, rfl, rfl, rfl, rfl⟩
    · exact ⟨rfl, rfl, rfl, rfl, rfl, rfl, rfl⟩

end

theorem KeepsStack.cancel (depth : Nat) (e : Engine) (player : Nat) :
    KeepsStack e (scriptEngineCancel depth e player) := by
  induction depth generalizing e player with
  | zero => exact ⟨rfl, rfl, rfl, rfl, rfl, rfl, rfl⟩
  | succ depth ih => exact .cancelWith ih e player

theorem KeepsStack.cancelMulti (depth : Nat) (e : Engine) (player : Nat) :
    KeepsStack e (scriptEngineCancelMulti depth e player) := by
  unfold scriptEngineCancelMulti
  split
  · exact ⟨rfl, rfl, rfl, rfl, rfl, rfl, rfl⟩
  · split
    · exact .cancel depth e player
    · exact .refl e

theorem KeepsStack.playerBusy (depth : Nat) (e : Engine) (player : Nat) (busy : Bool) :
    KeepsStack e (playerBusy depth e player busy) :=
  .playerBusyWith (.cancel depth) e player busy

theorem KeepsStack.npcBusy (depth : Nat) (e : Engine) (npc : Nat) (busy : Bool) :
    KeepsStack e (npcBusy depth e npc busy) :=
  .npcBusyWith (.cancel depth) e npc busy

theorem KeepsStack.register (e : Engine) (player : Nat) (script : Option Nat) :
    KeepsStack e (e.register player script) :=
  ⟨rfl, rfl, rfl, rfl, rfl, rfl, rfl⟩

theorem KeepsStack.cleanUp (depth : Nat) (e : Engine) (r : Nat) : KeepsStack e (cleanUp depth e r) := by
  unfold Ref.cleanUp
  dsimp only
  split
  · exact .refl e
  · split
    · exact .refl e
    · exact ((KeepsStack.register _ _ _).trans (.npcUnbusyWith (.cancel depth) _ _)).trans
        (.playerBusy _ _ _ _)
    · exact ((KeepsStack.register _ _ _).trans (.playerBusy _ _ _ _)).trans
        (.npcUnbusyWith (.cancel depth) _ _)

/-! ## Whose record is active -/

/-- The function that resumed the coroutine has set `active_script`. -/
def SetsActive : Frame → Prop
  | .process _ _ | .answer _ _ => True
  | _ => False

/-- `active_script` stays, and what else is resumed was not by one that sets it. -/
def KeepsActive (e e' : Engine) : Prop :=
  e'.activeScript = e.activeScript ∧ ∀ f ∈ e'.stack, SetsActive f → f ∈ e.stack

theorem KeepsActive.refl (e : Engine) : KeepsActive e e := ⟨rfl, fun _ hf _ => hf⟩

theorem KeepsActive.trans {e'' : Engine} (h : KeepsActive e e') (h' : KeepsActive e' e'') :
    KeepsActive e e'' :=
  ⟨h'.1.trans h.1, fun f hf ha => h.2 f (h'.2 f hf ha) ha⟩

theorem KeepsStack.active (h : KeepsStack e e') : KeepsActive e e' :=
  ⟨h.activeScript, fun _ hf _ => h.stack ▸ hf⟩

/-- A frame on top that did not set it. -/
theorem KeepsActive.pushed {f : Frame} (ha : e'.activeScript = e.activeScript)
    (hs : e'.stack = f :: e.stack) (hf : ¬ SetsActive f) : KeepsActive e e' := by
  refine ⟨ha, fun g hg hset => ?_⟩
  rw [hs] at hg
  rcases List.mem_cons.1 hg with rfl | hg
  · exact absurd hset hf
  · exact hg

theorem KeepsActive.rest {f : Frame} {rest : List Frame} (hs : e.stack = f :: rest) :
    KeepsActive e { e with stack := rest } :=
  ⟨rfl, fun _ hg _ => hs ▸ List.mem_cons_of_mem f hg⟩

theorem returned_active (e : Engine) (ok : Bool) (f : Frame) :
    KeepsActive e (returned depth e ok f) := by
  cases f with
  | process player r =>
      unfold returned
      dsimp only
      split
      · exact (KeepsStack.cancel depth e player).active
      · split
        · exact ⟨rfl, fun _ hf _ => hf⟩
        · exact .refl e
  | answer player r =>
      unfold returned
      dsimp only
      split
      · exact (KeepsStack.cancel depth e player).active
      · exact .refl e
  | kill player r =>
      unfold returned
      dsimp only
      split
      · exact (KeepsStack.cancel depth e player).active
      · exact (KeepsStack.register e player _).active
  | paused i r => exact .pushed rfl rfl (f := .pausedFrom i) id
  | loc i r => exact .pushed rfl rfl (f := .locsFrom i) id
  | pausedFrom i => exact .refl e
  | locsFrom i => exact .refl e

theorem top_eq {f : Frame} {r : Nat} {rest : List Frame} (h : e.top = some (f, r, rest)) :
    e.stack = f :: rest ∧ f.script = some r := by
  unfold Engine.top at h
  cases hs : e.stack with
  | nil =>
      rw [hs] at h
      cases h
  | cons g gs =>
      rw [hs] at h
      obtain ⟨r', hr', heq⟩ := Option.map_eq_some_iff.1 h
      cases heq
      exact ⟨rfl, hr'⟩

theorem caller_top {x : Frame × Nat × List Frame} (h : e.caller = some x) :
    e.top = some x ∧ (e.scripts x.2.1).inMulti = none := by
  obtain ⟨ht, hm⟩ := Option.filter_eq_some_iff.1 h
  exact ⟨ht, by simpa using hm⟩

theorem giveBack_active {ok : Bool} (h : e.giveBack depth ok = .ok e') : KeepsActive e e' := by
  unfold Engine.giveBack at h
  cases ht : e.top with
  | none =>
      rw [ht] at h
      cases h
  | some x =>
      obtain ⟨f, r, rest⟩ := x
      rw [ht] at h
      cases h
      refine (KeepsActive.rest (top_eq ht).1).trans (.trans ?_ (returned_active _ ok f))
      split
      · exact .refl _
      · exact ⟨rfl, fun _ hf _ => hf⟩

theorem issueAs_keeps (e : Engine) (a : Nat) (op : Issue) :
    (issueAs depth e a op).stack = e.stack ∧
      (issueAs depth e a op).activeScript = e.activeScript := by
  cases op with
  | delay length => exact ⟨rfl, rfl⟩
  | pause amount =>
      have hk := KeepsStack.playerBusy depth
        (({ e with pausedScripts := e.pausedScripts ++ [a] }).register
          (e.scripts a).player none) (e.scripts a).player false
      exact ⟨hk.stack, hk.activeScript⟩
  | addloc timer =>
      exact ⟨(KeepsStack.playerBusy _ _ _ _).stack, (KeepsStack.playerBusy _ _ _ _).activeScript⟩
  | multi player count now =>
      have hk := KeepsStack.playerBusy depth (e.modifyScript a fun s =>
        { s with optionCount := count, lastActive := now }) player false
      unfold issueAs
      dsimp only
      split
      · exact ⟨hk.stack, hk.activeScript⟩
      · have hk' := hk.trans (.cancel depth _ player)
        exact ⟨hk'.stack, hk'.activeScript⟩

theorem multiReturnAs_keeps (e : Engine) (a player : Nat) :
    (multiReturnAs depth e a player).stack = e.stack ∧
      (multiReturnAs depth e a player).activeScript = e.activeScript :=
  ⟨(KeepsStack.playerBusy _ _ _ _).stack, (KeepsStack.playerBusy _ _ _ _).activeScript⟩

theorem guarded_ok {b : Bool} (h : guarded b e = .ok e') : b = true ∧ e' = e := by
  unfold guarded at h
  cases b with
  | false => cases h
  | true =>
      cases h
      exact ⟨rfl, rfl⟩

theorem scriptEngineProcess_active (player : Nat) (now : Int) (hs : e.stack = []) :
    KeepsActive e (scriptEngineProcess depth e player now) ∨
      ∃ r, (scriptEngineProcess depth e player now).activeScript = some r ∧
        ∀ f ∈ (scriptEngineProcess depth e player now).stack, f = .process player r := by
  unfold scriptEngineProcess
  cases hp : e.playerScripts player with
  | none => exact .inl (.refl e)
  | some r =>
      refine .inr ⟨r, ?_⟩
      have hc : ∀ e' : Engine, e'.activeScript = some r → e'.stack = [] →
          (scriptEngineCancel depth e' player).activeScript = some r ∧
            ∀ f ∈ (scriptEngineCancel depth e' player).stack, f = Frame.process player r := by
        intro e' ha hst
        have hk := KeepsStack.cancel depth e' player
        exact ⟨hk.activeScript.trans ha, by simp [hk.stack, hst]⟩
      dsimp only
      split
      · exact hc _ rfl hs
      · split
        · split
          · exact hc _ rfl hs
          · exact ⟨rfl, by simp [hs]⟩
        · split
          · exact ⟨rfl, by simp [hs]⟩
          · exact ⟨rfl, by simp [hs]⟩

theorem scriptEngineAnswer_active (player answer : Nat) (hs : e.stack = []) :
    KeepsActive e (scriptEngineAnswer depth e player answer) ∨
      ∃ r, (scriptEngineAnswer depth e player answer).activeScript = some r ∧
        ∀ f ∈ (scriptEngineAnswer depth e player answer).stack, f = .answer player r := by
  unfold scriptEngineAnswer
  cases hp : e.playerScripts player with
  | none => exact .inl (.refl e)
  | some r =>
      dsimp only
      split
      · exact .inl (KeepsStack.cancel depth e player).active
      · refine .inr ⟨r, ?_⟩
        split
        · have hk := KeepsStack.cancel depth (({ e with activeScript := some r }).modifyScript r
            fun s => { s with answer := some answer }) player
          have hst := hk.stack.trans hs
          exact ⟨hk.activeScript, fun f hf => by rw [hst] at hf; cases hf⟩
        · exact ⟨rfl, by simp [hs]⟩

theorem scriptEngineStart_active (player : Nat) (npc : Option Nat) :
    KeepsActive e (scriptEngineStart depth e player npc) := by
  unfold scriptEngineStart
  split
  · exact .refl e
  · dsimp only
    split
    · exact .trans ⟨rfl, fun _ hf _ => hf⟩ (KeepsStack.playerBusy _ _ _ _).active
    · exact .trans ⟨rfl, fun _ hf _ => hf⟩
        ((KeepsStack.npcBusy _ _ _ _).trans (.playerBusy _ _ _ _)).active

theorem scriptEngineKillnpc_active (player npc : Nat) :
    KeepsActive e (scriptEngineKillnpc depth e player npc) := by
  have hk := (KeepsStack.playerBusy depth (e.newPlayerScript
    { player := player, npc := some npc, cleanUp := .playerFirst,
      madeBusy := [npc] }) player true).trans
    (.npcBusy depth _ npc true)
  exact .pushed hk.activeScript (congrArg (_ :: ·) hk.stack) id

theorem tickNext_active {f : Frame} (h : tickNext e f = some e') : KeepsActive e e' := by
  cases f with
  | pausedFrom i =>
      cases i with
      | zero =>
          cases h
          exact .pushed rfl rfl id
      | succ i =>
          rw [tickNext] at h
          cases h
          split
          · exact .pushed rfl rfl id
          · split
            · exact .pushed rfl rfl id
            · split
              · exact .pushed rfl rfl id
              · exact .pushed rfl rfl id
  | locsFrom i =>
      cases i with
      | zero =>
          cases h
          exact .refl e
      | succ i =>
          rw [tickNext] at h
          cases h
          split
          · exact .pushed rfl rfl id
          · split
            · exact .pushed rfl rfl id
            · split
              · exact .pushed rfl rfl id
              · exact .pushed rfl rfl id
  | process player r => cases h
  | answer player r => cases h
  | kill player r => cases h
  | paused i r => cases h
  | loc i r => cases h

theorem yielded_active (r : Nat) (op : Issue) : KeepsActive e (op.yielded e r) := by
  cases op with
  | multi player count now => exact ⟨rfl, fun _ hf _ => hf⟩
  | delay length => exact .refl e
  | pause amount => exact .refl e
  | addloc timer => exact .refl e

/-- A step resumes with `active_script` set when nothing runs, or not at all. -/
theorem engineStep_active {ev : ScriptEvent} (h : engineStep depth e ev = .ok e') :
    KeepsActive e e' ∨
      ∃ r, e'.activeScript = some r ∧ ∀ f ∈ e'.stack, f.script = some r := by
  have hframe : ∀ {e' : Engine} {r : Nat} {f : Frame}, f.script = some r →
      (e'.activeScript = some r ∧ ∀ g ∈ e'.stack, g = f) →
      e'.activeScript = some r ∧ ∀ g ∈ e'.stack, g.script = some r :=
    fun hf hg => ⟨hg.1, fun g hmem => hg.2 g hmem ▸ hf⟩
  cases ev with
  | tick =>
      obtain ⟨-, rfl⟩ := guarded_ok h
      exact .inl ⟨rfl, by simp [SetsActive]⟩
  | next =>
      left
      rw [engineStep.eq_def] at h
      dsimp only at h
      cases hs : e.stack with
      | nil =>
          rw [hs] at h
          cases h
      | cons f rest =>
          rw [hs] at h
          dsimp only at h
          have hrest := KeepsActive.rest hs
          cases ht : tickNext { e with stack := rest } f with
          | none =>
              rw [ht] at h
              cases h
          | some e₁ =>
              rw [ht] at h
              cases h
              exact hrest.trans (tickNext_active ht)
  | process player now =>
      obtain ⟨hb, rfl⟩ := guarded_ok h
      simp only [Bool.and_eq_true, List.isEmpty_iff] at hb
      refine (scriptEngineProcess_active player now hb.1).imp id ?_
      rintro ⟨r, hr⟩
      exact ⟨r, hframe rfl hr⟩
  | answer player answer =>
      obtain ⟨hb, rfl⟩ := guarded_ok h
      simp only [Bool.and_eq_true, List.isEmpty_iff] at hb
      refine (scriptEngineAnswer_active player answer hb.1).imp id ?_
      rintro ⟨r, hr⟩
      exact ⟨r, hframe rfl hr⟩
  | start player npc =>
      obtain ⟨-, rfl⟩ := guarded_ok h
      exact .inl (scriptEngineStart_active player npc)
  | kill player npc =>
      obtain ⟨-, rfl⟩ := guarded_ok h
      exact .inl (scriptEngineKillnpc_active player npc)
  | face player =>
      obtain ⟨-, rfl⟩ := guarded_ok h
      exact .inl ⟨rfl, fun _ hf _ => hf⟩
  | cancel player =>
      obtain ⟨-, rfl⟩ := guarded_ok h
      exact .inl (KeepsStack.cancel depth e player).active
  | cancelMulti player =>
      obtain ⟨-, rfl⟩ := guarded_ok h
      exact .inl (KeepsStack.cancelMulti depth e player).active
  | issue op =>
      left
      rw [engineStep.eq_def] at h
      dsimp only at h
      split at h
      · cases h
      · next f r rest hc =>
        cases hi : issue depth e op with
        | none =>
            rw [hi] at h
            exact giveBack_active h
        | some e₁ =>
            obtain ⟨a, ha, rfl⟩ := Option.map_eq_some_iff.1 hi
            have hk : KeepsActive e (issueAs depth e a op) :=
              ⟨(issueAs_keeps e a op).2, fun _ hf _ => (issueAs_keeps e a op).1 ▸ hf⟩
            rw [hi] at h
            exact (hk.trans (yielded_active r op)).trans (giveBack_active h)
  | multiReturn =>
      left
      rw [engineStep.eq_def] at h
      dsimp only at h
      split at h
      · cases h
      · next f r rest ht =>
        split at h
        · cases h
        · next player hm =>
          cases hi : multiReturn depth e player with
          | none =>
              rw [hi] at h
              exact giveBack_active h
          | some e₁ =>
              obtain ⟨a, ha, rfl⟩ := Option.map_eq_some_iff.1 hi
              rw [hi] at h
              cases h
              exact ⟨(multiReturnAs_keeps e a player).2,
                fun _ hf _ => (multiReturnAs_keeps e a player).1 ▸ hf⟩
  | npcBusy npc busy =>
      left
      rw [engineStep.eq_def] at h
      dsimp only at h
      split at h
      · cases h
      · cases h
        refine .trans ?_ (KeepsStack.npcBusy depth _ npc busy).active
        split
        · exact ⟨rfl, fun _ hf _ => hf⟩
        · exact .refl e
  | finish =>
      left
      rw [engineStep.eq_def] at h
      dsimp only at h
      split at h
      · cases h
      · next f r rest ht =>
        have hk := (KeepsStack.cleanUp depth e r).active
        have hd : KeepsActive (cleanUp depth e r) ((cleanUp depth e r).die r) :=
          ⟨rfl, fun _ hf _ => hf⟩
        exact (hk.trans hd).trans (giveBack_active h)
  | error =>
      left
      rw [engineStep.eq_def] at h
      dsimp only at h
      split at h
      · cases h
      · exact giveBack_active h
  | design player isOpen =>
      obtain ⟨-, rfl⟩ := guarded_ok h
      exact .inl ⟨rfl, fun _ hf _ => hf⟩
  | connect player =>
      obtain ⟨-, rfl⟩ := guarded_ok h
      exact .inl ⟨rfl, fun _ hf _ => hf⟩
  | leave player =>
      obtain ⟨-, rfl⟩ := guarded_ok h
      exact .inl ⟨rfl, fun _ hf _ => hf⟩
  | addNpc npc =>
      obtain ⟨-, rfl⟩ := guarded_ok h
      exact .inl ⟨rfl, fun _ hf _ => hf⟩
  | delNpc npc =>
      obtain ⟨-, rfl⟩ := guarded_ok h
      exact .inl ⟨rfl, fun _ hf _ => hf⟩

/-- Whom `process` and `answer` resumed has the active record. -/
theorem active_own (hrun : Run ScriptInit (engineStep depth) tr e) {f : Frame} {r : Nat}
    (hf : f ∈ e.stack) (ha : SetsActive f) (hr : f.script = some r) : e.activeScript = some r := by
  revert f r
  refine hrun.always (I := fun e => ∀ {f : Frame} {r : Nat}, f ∈ e.stack → SetsActive f →
    f.script = some r → e.activeScript = some r) ?_ ?_
  · intro e hi f r hf
    rw [hi.1] at hf
    cases hf
  · intro e ev e' hI h f r hf ha hr
    rcases engineStep_active h with hk | ⟨r', hact, hall⟩
    · exact hk.1.trans (hI (hk.2 f hf ha) ha hr)
    · have := (hall f hf).symm.trans hr
      exact hact.trans this

/-! ## Isolation -/

/-- Of everything the scripts have, only what the script `r` has is different:
its record, its place in the tables and the flag of its player. -/
structure OwnOnly (e e' : Engine) (r : Nat) : Prop where
  records : ∀ s, s ≠ r → e'.scripts s = e.scripts s
  registered : ∀ player s, s ≠ r →
    (e'.playerScripts player = some s ↔ e.playerScripts player = some s)
  paused : e'.pausedScripts.filter (· ≠ r) = e.pausedScripts.filter (· ≠ r)
  locs : e'.deleteLocs.filter (·.script ≠ r) = e.deleteLocs.filter (·.script ≠ r)
  players : ∀ player, player ≠ (e.scripts r).player →
    e'.playerBusy player = e.playerBusy player
  npcs : e'.npcBusy = e.npcBusy

theorem cancel_none (e : Engine) {player : Nat} (h : e.playerScripts player = none) :
    scriptEngineCancel depth e player = { e with raised := true } := by
  cases depth with
  | zero => rfl
  | succ depth =>
      show cancelWith _ e player = _
      unfold cancelWith
      rw [h]

/-- Where no script of the player can be cancelled by it, only the flag of the
player changes. -/
theorem playerBusy_own (depth : Nat) (e : Engine) {player : Nat} (busy : Bool)
    (h : e.playerThere player = true ∨ e.playerScripts player = none) :
    (playerBusy depth e player busy).scripts = e.scripts ∧
      (playerBusy depth e player busy).playerScripts = e.playerScripts ∧
      (playerBusy depth e player busy).npcBusy = e.npcBusy ∧
      ∀ p, p ≠ player → (playerBusy depth e player busy).playerBusy p = e.playerBusy p := by
  unfold playerBusy playerBusyWith
  split
  · exact ⟨rfl, rfl, rfl, fun p hp => Function.update_of_ne hp _ _⟩
  · next hthere =>
    rw [cancel_none e (h.resolve_left hthere)]
    exact ⟨rfl, rfl, rfl, fun _ _ => rfl⟩

/-- The call is about the player of the script, who is there for it and has no
other script. -/
def OnOwn (e : Engine) (r : Nat) : Issue → Prop
  | .delay _ => True
  | .pause _ | .addloc _ => ∀ s, e.playerScripts (e.scripts r).player = some s → s = r
  | .multi player _ _ => player = (e.scripts r).player ∧ e.playerThere player = true

theorem register_none_of_own {r player : Nat}
    (h : ∀ s, e.playerScripts player = some s → s = r) (p s : Nat) (hs : s ≠ r) :
    Function.update e.playerScripts player none p = some s ↔ e.playerScripts p = some s := by
  by_cases hp : p = player
  · subst hp
    rw [Function.update_self]
    constructor
    · intro hn
      cases hn
    · intro hsome
      exact absurd (h s hsome) hs
  · rw [Function.update_of_ne hp]

theorem issueAs_own {r : Nat} {op : Issue} (h : OnOwn e r op) :
    OwnOnly e (issueAs depth e r op) r := by
  have hmod : ∀ (scripts : Nat → PlayerScript) f s, s ≠ r →
      Function.update scripts r f s = scripts s := fun _ _ s hs => Function.update_of_ne hs _ _
  cases op with
  | delay length =>
      exact ⟨fun s hs => hmod _ _ s hs, fun _ _ _ => Iff.rfl, rfl, rfl, fun _ _ => rfl, rfl⟩
  | pause amount =>
      let e₁ := ({ e with pausedScripts := e.pausedScripts ++ [r] }).register
        (e.scripts r).player none
      have hk := KeepsStack.playerBusy depth e₁ (e.scripts r).player false
      have hnone : e₁.playerScripts (e.scripts r).player = none := Function.update_self ..
      obtain ⟨hscr, hps, hnpc, hbusy⟩ := playerBusy_own depth e₁ false (.inr hnone)
      constructor
      · intro s hs
        exact (hmod _ _ s hs).trans (congrFun hscr s)
      · intro p s hs
        show (playerBusy depth e₁ _ false).playerScripts p = some s ↔ _
        rw [hps]
        exact register_none_of_own h p s hs
      · show (playerBusy depth e₁ _ false).pausedScripts.filter _ = _
        rw [hk.pausedScripts]
        simp [e₁]
      · show (playerBusy depth e₁ _ false).deleteLocs.filter _ = _
        rw [hk.deleteLocs]
        rfl
      · exact hbusy
      · exact hnpc
  | addloc timer =>
      let e₁ := ({ e.modifyScript r (fun s => { s with paused := true }) with
        deleteLocs := e.deleteLocs ++ [DeleteLoc.mk timer r] } : Engine).register
          (e.scripts r).player none
      have hk := KeepsStack.playerBusy depth e₁ (e.scripts r).player false
      have hnone : e₁.playerScripts (e.scripts r).player = none := Function.update_self ..
      obtain ⟨hscr, hps, hnpc, hbusy⟩ := playerBusy_own depth e₁ false (.inr hnone)
      constructor
      · intro s hs
        exact (congrFun hscr s).trans (hmod _ _ s hs)
      · intro p s hs
        show (playerBusy depth e₁ _ false).playerScripts p = some s ↔ _
        rw [hps]
        exact register_none_of_own h p s hs
      · show (playerBusy depth e₁ _ false).pausedScripts.filter _ = _
        rw [hk.pausedScripts]
        rfl
      · show (playerBusy depth e₁ _ false).deleteLocs.filter _ = _
        rw [hk.deleteLocs]
        simp [e₁]
      · exact hbusy
      · exact hnpc
  | multi player count now =>
      obtain ⟨rfl, hthere⟩ := h
      let e₁ := e.modifyScript r fun s => { s with optionCount := count, lastActive := now }
      have hk := KeepsStack.playerBusy depth e₁ (e.scripts r).player false
      obtain ⟨hscr, hps, hnpc, hbusy⟩ := playerBusy_own depth e₁ false (.inl hthere)
      have hback : issueAs depth e r (.multi (e.scripts r).player count now) =
          playerBusy depth e₁ (e.scripts r).player false := by
        refine if_pos ?_
        rw [hk.playerThere]
        exact hthere
      rw [hback]
      constructor
      · intro s hs
        exact (congrFun hscr s).trans (hmod _ _ s hs)
      · intro p s _
        rw [hps]
        exact Iff.rfl
      · rw [hk.pausedScripts]
        rfl
      · rw [hk.deleteLocs]
        rfl
      · exact hbusy
      · exact hnpc

theorem multiReturnAs_own {r : Nat} (hthere : e.playerThere (e.scripts r).player = true) :
    OwnOnly e (multiReturnAs depth e r (e.scripts r).player) r := by
  let e₁ := e.modifyScript r fun s => { s with optionCount := 0 }
  have hk := KeepsStack.playerBusy depth e₁ (e.scripts r).player true
  obtain ⟨hscr, hps, hnpc, hbusy⟩ := playerBusy_own depth e₁ true (.inl hthere)
  constructor
  · intro s hs
    exact (congrFun hscr s).trans (Function.update_of_ne hs _ _)
  · intro p s _
    show (playerBusy depth e₁ _ true).playerScripts p = some s ↔ _
    rw [hps]
    exact Iff.rfl
  · exact congrArg _ hk.pausedScripts
  · exact congrArg _ hk.deleteLocs
  · exact hbusy
  · exact hnpc

/-! ## Every run -/

/-- What the coroutine that runs calls now touches only what is its own. -/
def Isolated (depth : Nat) (e : Engine) : ScriptEvent → Prop
  | .issue op => ∀ x e', e.caller = some x → issue depth e op = some e' → OwnOnly e e' x.2.1
  | .multiReturn => ∀ x player e', e.top = some x → (e.scripts x.2.1).inMulti = some player →
      multiReturn depth e player = some e' → OwnOnly e e' x.2.1
  | _ => True

/-- It was resumed by `process` or `answer`, or its record happens to be the
active one, or there is none. -/
def HasActive (e : Engine) (x : Frame × Nat × List Frame) : Prop :=
  SetsActive x.1 ∨ e.activeScript = none ∨ e.activeScript = some x.2.1

/-- The condition on a step. -/
def CallsOwn (e : Engine) : ScriptEvent → Prop
  | .issue op => ∀ x, e.caller = some x → HasActive e x ∧ OnOwn e x.2.1 op
  | .multiReturn => ∀ x player, e.top = some x → (e.scripts x.2.1).inMulti = some player →
      HasActive e x ∧ player = (e.scripts x.2.1).player ∧ e.playerThere player = true
  | _ => True

theorem HasActive.eq (hrun : Run ScriptInit (engineStep depth) tr e)
    {x : Frame × Nat × List Frame} (ht : e.top = some x) (h : HasActive e x) {a : Nat}
    (ha : e.activeScript = some a) : a = x.2.1 := by
  obtain ⟨f, r, rest⟩ := x
  obtain ⟨hs, hscript⟩ := top_eq ht
  rcases h with hset | hnone | hown
  · have hmem : f ∈ e.stack := hs ▸ List.mem_cons_self ..
    exact Option.some.inj (ha.symm.trans (active_own hrun hmem hset hscript))
  · rw [ha] at hnone
    cases hnone
  · exact Option.some.inj (ha.symm.trans hown)

theorem isolated_of_own (hrun : Run ScriptInit (engineStep depth) tr e) {ev : ScriptEvent}
    (h : CallsOwn e ev) : Isolated depth e ev := by
  cases ev with
  | issue op =>
      intro x e' hc hi
      obtain ⟨hact, hown⟩ := h x hc
      obtain ⟨a, ha, rfl⟩ := Option.map_eq_some_iff.1 hi
      obtain rfl := hact.eq hrun (caller_top hc).1 ha
      exact issueAs_own hown
  | multiReturn =>
      intro x player e' ht hm hi
      obtain ⟨hact, rfl, hthere⟩ := h x player ht hm
      obtain ⟨a, ha, rfl⟩ := Option.map_eq_some_iff.1 hi
      obtain rfl := hact.eq hrun ht ha
      exact multiReturnAs_own hthere
  | _ => trivial

/-- In every run whose calls are made so, every call touches only what is its
own. -/
theorem calls_isolated (hrun : Run ScriptInit (engineStep depth) tr e)
    (hok : ∀ x ∈ tr, CallsOwn x.1 x.2) : ∀ x ∈ tr, Isolated depth x.1 x.2 := by
  intro x hx
  obtain ⟨tr', -, hrun'⟩ := hrun.reaches (mem_statesOf.2 (.inl ⟨x.2, hx⟩))
  exact isolated_of_own hrun' (hok x hx)

/-- One script waits, in its own record. -/
theorem calls_isolated_delay : ∃ tr e, Run ScriptInit (engineStep 200) tr e ∧
    tr.length = 4 ∧ ∀ x ∈ tr, Isolated 200 x.1 x.2 := by
  have hrun : Run ScriptInit (engineStep 200) _ _ :=
    .of_exec [.connect 1, .start 1 none, .process 1 0, .issue (.delay 5)]
      scriptInit_default rfl
  refine ⟨_, _, hrun, rfl, calls_isolated hrun ?_⟩
  intro x hx
  simp only [List.mem_cons, List.not_mem_nil, or_false] at hx
  obtain rfl | rfl | rfl | rfl := hx
  · trivial
  · trivial
  · trivial
  · intro x hc
    cases hc
    exact ⟨.inl trivial, trivial⟩

/-- The kill hook of player 2 makes the script of player 1 wait. -/
theorem another_delayed : ¬ ∀ (depth : Nat) (tr : List (Engine × ScriptEvent)) (e : Engine),
    Run ScriptInit (engineStep depth) tr e → ∀ x ∈ tr, Isolated depth x.1 x.2 := by
  intro h
  have hrun : Run ScriptInit (engineStep 200) _ _ :=
    .of_exec [.connect 1, .connect 2, .addNpc 7, .start 1 none, .process 1 0, .issue (.delay 5),
      .kill 2 7, .issue (.delay 3)]
      scriptInit_default rfl
  have hlast := h _ _ _ hrun _ (List.mem_of_getLast? rfl)
  have hrec := (hlast _ _ rfl rfl).records 0 (by decide)
  exact absurd (congrArg PlayerScript.delay hrec) (by decide)

end Sundae.Proofs
