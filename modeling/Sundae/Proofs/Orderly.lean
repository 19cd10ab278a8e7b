import Sundae.Proofs.Registry

/-!
# Scripts and flags in every run

What each event comes to when it is made with care, one move of the account
each, and from it every run.
-/

namespace Sundae.Proofs

open Sundae.Ref Sundae.Lib

variable {depth : Nat} {e e' : Engine} {tr : List (Engine × ScriptEvent)} {r : Nat}

/-! ## The condition on a step -/

/-- The player has a script that waits, and those whose flags its end clears
are there. -/
def CanCancel (e : Engine) (player : Nat) : Prop :=
  ∃ r, e.playerScripts player = some r ∧ r ∉ e.running ∧ e.playerThere player = true ∧
    NpcThere e r ∧ OthersFree e r

/-- The script may end, where it was resumed. -/
def CanEnd (e : Engine) (r : Nat) : Frame → Prop
  | .process _ _ | .answer _ _ => NpcThere e r ∧ OthersFree e r
  | .paused _ _ | .loc _ _ => ∀ npc ∈ (e.scripts r).madeBusy, e.npcBusy npc = false
  | _ => False

/-- The call may be made there, with the record `a` active. -/
def CanCall (e : Engine) (a r : Nat) : Frame → Issue → Prop
  | .process _ _, .multi player _ _ | .answer _ _, .multi player _ _
  | .kill _ _, .multi player _ _ => player = (e.scripts r).player
  | .process _ _, _ | .answer _ _, _ | .kill _ _, .delay _ => True
  | .paused _ _, .pause _ | .paused _ _, .addloc _ => a = r ∧
    e.playerScripts (e.scripts r).player = none ∧ e.playerThere (e.scripts r).player = true
  | _, _ => False

def Careful (e : Engine) : ScriptEvent → Prop
  | .process player now => ∀ r, e.playerScripts player = some r → 0 < (e.scripts r).optionCount →
      (e.scripts r).lastActive + 10 ≤ now → NpcThere e r ∧ OthersFree e r
  | .answer player answer => ∀ r, e.playerScripts player = some r →
      (e.scripts r).optionCount < answer → NpcThere e r ∧ OthersFree e r
  | .kill player _ => e.playerScripts player = none
  | .cancel player => CanCancel e player
  | .cancelMulti player => ∃ r, e.playerScripts player = some r ∧
      (0 < (e.scripts r).optionCount → CanCancel e player)
  | .issue op => ∀ f r rest, e.caller = some (f, r, rest) →
      match e.activeScript with
      | none => CanEnd e r f
      | some a => CanCall e a r f op
  | .npcBusy npc _ => e.npcThere npc = true ∨ CanCancel e npc
  | .finish | .error => ∀ f r rest, e.caller = some (f, r, rest) → CanEnd e r f
  | _ => True

/-! ## Where a coroutine gives back control -/

theorem giveBack_eq {f : Frame} {rest : List Frame} {ok : Bool} (hs : e.stack = f :: rest)
    (hf : f.script = some r) : e.giveBack depth ok =
      .ok (returned depth (if ok then { e with stack := rest }
        else ({ e with stack := rest } : Engine).die r) ok f) := by
  have ht : e.top = some (f, r, rest) := by
    unfold Engine.top
    rw [hs]
    dsimp only
    rw [hf]
    rfl
  unfold Engine.giveBack
  rw [ht]

theorem giveBack_ok {f : Frame} {rest : List Frame} {ok : Bool}
    (hstep : e.giveBack depth ok = .ok e') (hs : e.stack = f :: rest) (hf : f.script = some r) :
    e' = returned depth (if ok then { e with stack := rest }
      else ({ e with stack := rest } : Engine).die r) ok f := by
  rw [giveBack_eq hs hf] at hstep
  cases hstep
  rfl

theorem die_of_dead (hd : (e.scripts r).dead = true) : e.die r = e := by
  have hself : ({ e.scripts r with dead := true } : PlayerScript) = e.scripts r := by
    rw [← hd]
  show ({ e with scripts := Function.update e.scripts r { e.scripts r with dead := true } } :
    Engine) = e
  rw [hself, Function.update_eq_self]

/-- `process` and `answer` leave the engine as the script did. -/
theorem returned_eq {f : Frame} (hset : SetsActive f) (hr : f.script = some r)
    (h : FrameOk e f ∨ (e.scripts r).paused = true ∨ (e.scripts r).dead = true) :
    returned depth e true f = e := by
  cases f with
  | process player s =>
      obtain rfl := Option.some.inj hr
      show (if e.playerScripts player = none ∧ (e.scripts s).paused = false then e.die s else e) = e
      split
      · next hn =>
        rcases h with hok | hp | hd
        · have hp := hok.1
          rw [hn.1] at hp
          cases hp
        · rw [hn.2] at hp
          cases hp
        · exact die_of_dead hd
      · rfl
  | answer player s => rfl
  | _ => exact hset.elim

theorem ending_die {player : Nat} : ending (e.die r) player r = ending e player r := by
  unfold ending
  simp

theorem Tidy.own (h : Tidy e) {f : Frame} (hf : f ∈ e.stack) (hset : SetsActive f)
    (hr : f.script = some r) :
    e.playerScripts (e.scripts r).player = some r ∧
      e.playerThere (e.scripts r).player = true ∧ e.activeScript = some r := by
  have hact := h.active f hf hset r hr
  have hok := h.frames f hf
  cases f with
  | process player s =>
      obtain rfl := Option.some.inj hr
      obtain rfl := (h.books.players player s hok.1).1
      exact ⟨hok.1, hok.2, hact⟩
  | answer player s =>
      obtain rfl := Option.some.inj hr
      obtain rfl := (h.books.players player s hok.1).1
      exact ⟨hok.1, hok.2, hact⟩
  | _ => exact hset.elim

theorem not_hook {f : Frame} (hset : SetsActive f) : hookOf f = none := by
  cases f with
  | kill player s => exact hset.elim
  | _ => rfl

/-- The end of a script that `process` or `answer` resumed. -/
theorem Tidy.ends (h : Tidy e) {f : Frame} {rest : List Frame} (hs : e.stack = f :: rest)
    (hset : SetsActive f) (hr : f.script = some r) (hfree : OthersFree e r) :
    GoodStep e (ending { e with stack := [] } (e.scripts r).player r) := by
  have hbottom := h.bottom hs (not_hook hset)
  have hp := (h.own (hs ▸ List.mem_cons_self ..) hset hr).1
  exact (h.popped hbottom.2).ended hp List.not_mem_nil hfree

/-- It fails. -/
theorem Tidy.fails (h : Tidy e) {f : Frame} {rest : List Frame} (hs : e.stack = f :: rest)
    (hr : f.script = some r) (hend : CanEnd e r f)
    (hstep : e.giveBack (depth + 1) false = .ok e') : GoodStep e e' := by
  have hmem : f ∈ e.stack := hs ▸ List.mem_cons_self ..
  obtain rfl := giveBack_ok hstep hs hr
  have hset : SetsActive f → NpcThere e r → OthersFree e r → GoodStep e
      (scriptEngineCancel (depth + 1) (({ e with stack := rest } : Engine).die r)
        (e.scripts r).player) := by
    intro hset hnpc hfree
    obtain ⟨hp, hthere, -⟩ := h.own hmem hset hr
    obtain ⟨rfl, -⟩ := h.bottom hs (not_hook hset)
    have hcancel : scriptEngineCancel (depth + 1) (({ e with stack := [] } : Engine).die r)
        (e.scripts r).player = ending (({ e with stack := [] } : Engine).die r) _ r :=
      cancel_eq hp List.not_mem_nil hthere (by simpa [NpcThere] using hnpc)
    rw [hcancel, ending_die]
    exact h.ends hs hset hr hfree
  cases f with
  | process player s =>
      obtain rfl := Option.some.inj hr
      have hpl := (h.books.players player s (h.frames _ hmem).1).1
      have hgood := hset trivial hend.1 hend.2
      rw [hpl] at hgood
      exact hgood
  | answer player s =>
      obtain rfl := Option.some.inj hr
      have hpl := (h.books.players player s (h.frames _ hmem).1).1
      have hgood := hset trivial hend.1 hend.2
      rw [hpl] at hgood
      exact hgood
  | paused i s =>
      obtain rfl := Option.some.inj hr
      obtain ⟨rfl, hhooks⟩ := h.bottom hs rfl
      exact h.leavesPaused hhooks (h.frames _ hmem) hend
  | loc i s =>
      obtain rfl := Option.some.inj hr
      obtain ⟨rfl, hhooks⟩ := h.bottom hs rfl
      have hd := die_of_dead (e := { e.die s with
        deleteLocs := e.deleteLocs.eraseIdx i, stack := [.locsFrom i] }) (r := s) (by simp)
      have hgood := h.leavesLoc hhooks (h.frames _ hmem) hend
      rw [← hd] at hgood
      exact hgood
  | kill player s => exact hend.elim
  | pausedFrom i => cases hr
  | locsFrom i => cases hr

/-! ## The calls -/

theorem edits_delay (length : Rat) : Edits fun s => { s with delay := length } :=
  ⟨fun _ => rfl, fun _ => rfl, fun _ => rfl, fun _ => rfl⟩

theorem edits_paused (length : Rat → Rat) :
    Edits fun s => { s with paused := true, delay := length s.delay } :=
  ⟨fun _ => rfl, fun _ => rfl, fun _ => rfl, fun _ => rfl⟩

theorem playerBusy_there {player : Nat} (busy : Bool) (h : e.playerThere player = true) :
    playerBusy depth e player busy = e.setPlayerBusy player busy :=
  if_pos h

section

variable {p : Nat} (hthere : e.playerThere p = true) (hplayer : (e.scripts r).player = p)
include hthere hplayer

/-- The calls of a script whose player is there. -/
theorem pause_eq (amount : Rat) : issueAs depth e r (.pause amount) =
    { (e.register p none).modifyScript r (fun s => { s with paused := true, delay := amount }) with
      pausedScripts := e.pausedScripts ++ [r]
      playerBusy := Function.update e.playerBusy p false } := by
  subst hplayer
  rw [issueAs]
  dsimp only
  rw [playerBusy_there]
  · rfl
  · exact hthere

theorem addloc_eq (timer : Int) : issueAs depth e r (.addloc timer) =
    { (e.register p none).modifyScript r (fun s => { s with paused := true, delay := s.delay }) with
      deleteLocs := e.deleteLocs ++ [DeleteLoc.mk timer r]
      playerBusy := Function.update e.playerBusy p false } := by
  subst hplayer
  rw [issueAs]
  dsimp only
  rw [playerBusy_there]
  · rfl
  · exact hthere

omit hplayer in
theorem multi_eq (a count : Nat) (now : Int) : issueAs depth e a (.multi p count now) =
    { e.modifyScript a (fun s => { s with optionCount := count, lastActive := now }) with
      playerBusy := Function.update e.playerBusy p false } := by
  rw [issueAs]
  dsimp only
  rw [playerBusy_there, if_pos]
  · rfl
  · exact hthere
  · exact hthere

end

/-- What `process` or `answer` resumed yields, or is at its end. -/
theorem gaveBack {f : Frame} (hstep : e.giveBack depth true = .ok e') (hs : e.stack = [f])
    (hset : SetsActive f) (hr : f.script = some r)
    (h : FrameOk e f ∨ (e.scripts r).paused = true ∨ (e.scripts r).dead = true) :
    e' = { e with stack := [] } := by
  rw [giveBack_eq hs hr, if_pos rfl, returned_eq (e := { e with stack := [] }) hset hr h] at hstep
  cases hstep
  rfl

theorem FrameOk.moved {f : Frame} (h : FrameOk e f) (hset : SetsActive f)
    (hps : e'.playerScripts = e.playerScripts) (hthere : e'.playerThere = e.playerThere) :
    FrameOk e' f := by
  cases f with
  | process player s => exact ⟨hps ▸ h.1, hthere ▸ h.2⟩
  | answer player s => exact ⟨hps ▸ h.1, hthere ▸ h.2⟩
  | _ => exact hset.elim

theorem modify_modify (f g : PlayerScript → PlayerScript) :
    (e.modifyScript r f).modifyScript r g = e.modifyScript r (g ∘ f) := by
  simp

/-- A call by what `process` or `answer` resumed. -/
theorem Tidy.calls (h : Tidy e) {f : Frame} {rest : List Frame} {op : Issue}
    (hs : e.stack = f :: rest) (hset : SetsActive f) (hr : f.script = some r)
    (hm : (e.scripts r).inMulti = none)
    (hop : ∀ player count now, op = .multi player count now → player = (e.scripts r).player)
    (hstep : (op.yielded (issueAs (depth + 1) e r op) r).giveBack (depth + 1) true = .ok e') :
    GoodStep e e' := by
  have hmem : f ∈ e.stack := hs ▸ List.mem_cons_self ..
  obtain ⟨hp, hthere, -⟩ := h.own hmem hset hr
  obtain ⟨rfl, hhooks⟩ := h.bottom hs (not_hook hset)
  obtain ⟨-, hpaused, -, -⟩ := h.books.players _ r hp
  have hok := h.frames f hmem
  cases op with
  | delay length =>
      obtain rfl := gaveBack hstep hs hset hr (.inl (hok.moved hset rfl rfl))
      exact h.asks hhooks hp (edits_delay length) hpaused (.inl hm) e.playerBusy e.activeScript
  | pause amount =>
      rw [Issue.yielded, pause_eq hthere rfl] at hstep
      have hself : ((e.register (e.scripts r).player none).modifyScript r
          fun s => { s with paused := true, delay := amount }).scripts r =
            { e.scripts r with paused := true, delay := amount } := Function.update_self ..
      obtain rfl := gaveBack hstep hs hset hr (.inr (.inl (congrArg PlayerScript.paused hself)))
      exact h.pauses hhooks hp (edits_paused fun _ => amount) ⟨.inl rfl, hm⟩ _
  | addloc timer =>
      rw [Issue.yielded, addloc_eq hthere rfl] at hstep
      have hself : ((e.register (e.scripts r).player none).modifyScript r
          fun s => { s with paused := true, delay := s.delay }).scripts r =
            { e.scripts r with paused := true } := Function.update_self ..
      obtain rfl := gaveBack hstep hs hset hr (.inr (.inl (congrArg PlayerScript.paused hself)))
      exact h.addsLoc hhooks hp (edits_paused fun d => d) ⟨.inl rfl, hm⟩ _ timer
  | multi player count now =>
      obtain rfl := hop player count now rfl
      have hedit : Edits ((fun s => { s with inMulti := some (e.scripts r).player }) ∘
          fun s => { s with optionCount := count, lastActive := now }) :=
        ⟨fun _ => rfl, fun _ => rfl, fun _ => rfl, fun _ => rfl⟩
      have hgood := h.asks hhooks hp hedit hpaused (.inr rfl)
        (Function.update e.playerBusy (e.scripts r).player false) e.activeScript
      rw [← modify_modify] at hgood
      rw [Issue.yielded, multi_eq hthere] at hstep
      obtain rfl := gaveBack hstep hs hset hr (.inl (hok.moved hset rfl rfl))
      exact hgood

theorem GoodStep.of_dead_eq {e₁ : Engine} (h : GoodStep e₁ e')
    (hd : ∀ q, (e₁.scripts q).dead = (e.scripts q).dead) : GoodStep e e' := by
  refine ⟨h.1, fun q hq hq' => h.2 q ?_ hq'⟩
  rw [hd]
  exact hq

/-- The active record gets what a call writes in it, whoever made the call. -/
theorem Tidy.writes (h : Tidy e) (a : Nat) {f : PlayerScript → PlayerScript}
    (hf : ∀ s, Alike s (f s)) : GoodStep e (e.modifyScript a f) :=
  h.same (sameBooks_modify hf a) rfl rfl (fun _ _ _ hb => hb) (fun _ hn => .inl hn) h.raised rfl

/-- A call by a kill hook. -/
theorem Tidy.hookCalls (h : Tidy e) {player a : Nat} {rest : List Frame} {op : Issue}
    (hs : e.stack = .kill player r :: rest) (hop : CanCall e a r (.kill player r) op)
    (hstep : (op.yielded (issueAs (depth + 1) e a op) r).giveBack (depth + 1) true = .ok e') :
    GoodStep e e' := by
  have hmem : Frame.kill player r ∈ e.stack := hs ▸ List.mem_cons_self ..
  obtain ⟨hfit, hm, -, -, hthere⟩ := h.frames _ hmem
  cases op with
  | delay length =>
      have hwrite := h.writes a (f := fun s => { s with delay := length })
        fun s => ⟨rfl, rfl, rfl, rfl, rfl, rfl, fun _ hn => hn⟩
      have hok := hwrite.1.frames _ (show Frame.kill player r ∈ _ from hmem)
      have hgood := hwrite.1.hooked hs (f := id) ⟨fun _ => rfl, fun _ => rfl, fun _ => rfl,
        fun _ => rfl⟩ hok.1.2.1 (.inl hok.2.1) e.playerBusy fun _ _ => rfl
      have hid : ∀ e : Engine, e.modifyScript r id = e := by simp
      rw [hid] at hgood
      obtain rfl := giveBack_ok hstep hs rfl
      exact hgood.of_dead_eq fun q => Edits.dead_eq (edits_delay length) q
  | multi p count now =>
      obtain rfl : p = (e.scripts r).player := hop
      obtain rfl := hfit.1
      have hwrite := h.writes a (f := fun s => { s with optionCount := count, lastActive := now })
        fun s => ⟨rfl, rfl, rfl, rfl, rfl, rfl, fun _ hn => hn⟩
      have hok := hwrite.1.frames _ (show Frame.kill _ r ∈ _ from hmem)
      have hgood := hwrite.1.hooked hs (f := fun s => { s with inMulti := some (e.scripts r).player })
        ⟨fun _ => rfl, fun _ => rfl, fun _ => rfl, fun _ => rfl⟩ hok.1.2.1 (.inr rfl)
        (Function.update e.playerBusy (e.scripts r).player false)
        fun q hq => Function.update_of_ne hq _ _
      rw [Issue.yielded, multi_eq hthere] at hstep
      obtain rfl := giveBack_ok hstep hs rfl
      refine hgood.of_dead_eq fun q => Edits.dead_eq ?_ q
      exact ⟨fun _ => rfl, fun _ => rfl, fun _ => rfl, fun _ => rfl⟩
  | pause amount => exact hop.elim
  | addloc timer => exact hop.elim

/-- A call by what the tick resumed. -/
theorem Tidy.pausedCalls (h : Tidy e) {i : Nat} {rest : List Frame} {op : Issue}
    (hs : e.stack = .paused i r :: rest) (hm : (e.scripts r).inMulti = none)
    (hnone : e.playerScripts (e.scripts r).player = none)
    (hthere : e.playerThere (e.scripts r).player = true)
    (hop : (∃ amount, op = .pause amount) ∨ ∃ timer, op = .addloc timer)
    (hstep : (op.yielded (issueAs (depth + 1) e r op) r).giveBack (depth + 1) true = .ok e') :
    GoodStep e e' := by
  have hmem : Frame.paused i r ∈ e.stack := hs ▸ List.mem_cons_self ..
  have hi : e.pausedScripts[i]? = some r := h.frames _ hmem
  obtain ⟨rfl, hhooks⟩ := h.bottom hs rfl
  rcases hop with ⟨amount, rfl⟩ | ⟨timer, rfl⟩
  · rw [Issue.yielded, pause_eq hthere rfl] at hstep
    obtain rfl := giveBack_ok hstep hs rfl
    exact h.pausesAgain hhooks hi (edits_paused fun _ => amount) ⟨.inl rfl, hm⟩ _ hnone
  · rw [Issue.yielded, addloc_eq hthere rfl] at hstep
    obtain rfl := giveBack_ok hstep hs rfl
    exact h.addsLocAfter hhooks hi (edits_paused fun d => d) ⟨.inl rfl, hm⟩ _ hnone timer

/-! ## Coming to the end, and returning from `multi` -/

theorem cleanUp_eq (hp : (e.scripts r).paused = false)
    (hc : (e.scripts r).cleanUp ≠ .nothing) (hthere : e.playerThere (e.scripts r).player = true)
    (hnpc : NpcThere e r) :
    (cleanUp depth e r).die r = ending e (e.scripts r).player r := by
  rw [cleanUp, hp, if_neg Bool.false_ne_true]
  cases hcl : (e.scripts r).cleanUp with
  | nothing => exact absurd hcl hc
  | npcFirst =>
      dsimp only
      rw [npcUnbusy, npcUnbusyWith_there, playerBusy_there]
      · rfl
      · exact hthere
      · exact hnpc
  | playerFirst =>
      dsimp only
      rw [playerBusy_there, npcUnbusy, npcUnbusyWith_there]
      · rfl
      · exact hnpc
      · exact hthere

theorem cleanUp_waited (h : (e.scripts r).paused = true ∨ (e.scripts r).cleanUp = .nothing) :
    cleanUp depth e r = e := by
  rw [cleanUp]
  split
  · rfl
  · next hp =>
    rw [h.resolve_left hp]

theorem Tidy.finishes (h : Tidy e) {f : Frame} {rest : List Frame} (hs : e.stack = f :: rest)
    (hr : f.script = some r) (hend : CanEnd e r f)
    (hstep : ((cleanUp (depth + 1) e r).die r).giveBack (depth + 1) true = .ok e') :
    GoodStep e e' := by
  have hmem : f ∈ e.stack := hs ▸ List.mem_cons_self ..
  have hset : SetsActive f → NpcThere e r → OthersFree e r → GoodStep e e' := by
    intro hset hnpc hfree
    obtain ⟨hp, hthere, -⟩ := h.own hmem hset hr
    obtain ⟨-, hpaused, hclean, -⟩ := h.books.players _ r hp
    have hgood := h.ends hs hset hr hfree
    obtain ⟨rfl, -⟩ := h.bottom hs (not_hook hset)
    rw [cleanUp_eq hpaused hclean hthere hnpc] at hstep
    have hself : (ending e (e.scripts r).player r).scripts r = { e.scripts r with dead := true } :=
      Function.update_self ..
    obtain rfl := gaveBack hstep hs hset hr (.inr (.inr (congrArg PlayerScript.dead hself)))
    exact hgood
  cases f with
  | process player s => exact hset trivial hend.1 hend.2
  | answer player s => exact hset trivial hend.1 hend.2
  | paused i s =>
      obtain rfl := Option.some.inj hr
      have hi : e.pausedScripts[i]? = some s := h.frames _ hmem
      obtain ⟨rfl, hhooks⟩ := h.bottom hs rfl
      have hw := (h.books.waiting s (.inl (List.mem_of_getElem? hi))).1
      rw [cleanUp_waited hw] at hstep
      obtain rfl := giveBack_ok hstep hs rfl
      exact h.leavesPaused hhooks hi hend
  | loc i s =>
      obtain rfl := Option.some.inj hr
      have hi : (locScripts e)[i]? = some s := h.frames _ hmem
      obtain ⟨rfl, hhooks⟩ := h.bottom hs rfl
      have hw := (h.books.waiting s (.inr (List.mem_of_getElem? hi))).1
      rw [cleanUp_waited hw] at hstep
      obtain rfl := giveBack_ok hstep hs rfl
      have hd := die_of_dead (e := { e.die s with
        deleteLocs := e.deleteLocs.eraseIdx i, stack := [.locsFrom i] }) (r := s) (by simp)
      have hgood := h.leavesLoc hhooks hi hend
      rw [← hd] at hgood
      exact hgood
  | kill player s => exact hend.elim
  | pausedFrom i => cases hr
  | locsFrom i => cases hr

/-- Whoever waits in the tables for the tick is not inside `multi`. -/
theorem Tidy.not_inMulti (h : Tidy e) {f : Frame} (hf : f ∈ e.stack) (hset : ¬ SetsActive f)
    (hr : f.script = some r) : (e.scripts r).inMulti = none := by
  have hok := h.frames f hf
  cases f with
  | process player s => exact absurd trivial hset
  | answer player s => exact absurd trivial hset
  | kill player s =>
      obtain rfl := Option.some.inj hr
      exact hok.2.1
  | paused i s =>
      obtain rfl := Option.some.inj hr
      exact (h.books.waiting s (.inl (List.mem_of_getElem? hok))).2
  | loc i s =>
      obtain rfl := Option.some.inj hr
      exact (h.books.waiting s (.inr (List.mem_of_getElem? hok))).2
  | pausedFrom i => cases hr
  | locsFrom i => cases hr

theorem Tidy.returns (h : Tidy e) (depth : Nat) {f : Frame} {rest : List Frame} {player : Nat}
    (hs : e.stack = f :: rest) (hr : f.script = some r)
    (hm : (e.scripts r).inMulti = some player) :
    e.activeScript = some r ∧ GoodStep e
      ((multiReturnAs depth e r player).modifyScript r fun s => { s with inMulti := none }) := by
  have hmem : f ∈ e.stack := hs ▸ List.mem_cons_self ..
  have hset : SetsActive f := by
    by_contra hset
    rw [h.not_inMulti hmem hset hr] at hm
    cases hm
  obtain ⟨hp, hthere, hact⟩ := h.own hmem hset hr
  obtain ⟨rfl, hhooks⟩ := h.bottom hs (not_hook hset)
  obtain ⟨-, hpaused, -, hor⟩ := h.books.players _ r hp
  obtain rfl : player = (e.scripts r).player := by
    rw [hm] at hor
    exact Option.some.inj (hor.resolve_left (Option.some_ne_none player))
  refine ⟨hact, ?_⟩
  have hedit : Edits ((fun s => { s with inMulti := none }) ∘ fun s => { s with optionCount := 0 }) :=
    ⟨fun _ => rfl, fun _ => rfl, fun _ => rfl, fun _ => rfl⟩
  have hgood := h.asks hhooks hp hedit hpaused (.inl rfl)
    (Function.update e.playerBusy (e.scripts r).player true) e.activeScript
  rw [← modify_modify] at hgood
  have heq : (multiReturnAs depth e r (e.scripts r).player).modifyScript r
      (fun s => { s with inMulti := none }) =
      { (e.modifyScript r fun s => { s with optionCount := 0 }).modifyScript r
          (fun s => { s with inMulti := none }) with
        playerBusy := Function.update e.playerBusy (e.scripts r).player true } := by
    rw [multiReturnAs, playerBusy_there]
    · rfl
    · exact hthere
  rw [heq]
  -- the same stack as before, where the move has an empty one
  have hback := hgood.1.restack rfl (.one f) (by simp [hooks, not_hook hset])
    (fun g hg => by
      obtain rfl := List.mem_singleton.1 hg
      exact (h.frames g hmem).moved hset rfl rfl)
    (fun g hg => by
      obtain rfl := List.mem_singleton.1 hg
      exact h.active g hmem)
  refine ⟨?_, endsClear_of_dead fun q hq => ?_⟩
  · rw [← hs] at hback
    exact hback
  · rw [modify_modify] at hq
    have hdead : ((e.modifyScript r _).scripts q).dead = true := hq
    rwa [hedit.dead_eq] at hdead

theorem Tidy.cancels (h : Tidy e) {player : Nat} (hc : CanCancel e player) :
    GoodStep e (scriptEngineCancel (depth + 1) e player) := by
  obtain ⟨r, hp, hrun, hthere, hnpc, hfree⟩ := hc
  rw [cancel_eq hp hrun hthere hnpc]
  exact h.ended hp hrun hfree

theorem GoodStep.refl (h : Tidy e) : GoodStep e e :=
  ⟨h, endsClear_of_dead fun _ hq => hq⟩

theorem Tidy.running_alive (h : Tidy e) {f : Frame} (hf : f ∈ e.stack)
    (hr : f.script = some r) : Alive e r := by
  have hok := h.frames f hf
  cases f with
  | process player s =>
      obtain rfl := Option.some.inj hr
      exact (h.books.alive_of_player hok.1).1
  | answer player s =>
      obtain rfl := Option.some.inj hr
      exact (h.books.alive_of_player hok.1).1
  | kill player s =>
      obtain rfl := Option.some.inj hr
      exact h.hooks_alive hf
  | paused i s =>
      obtain rfl := Option.some.inj hr
      exact (h.books.alive_of_paused (List.mem_of_getElem? hok)).1
  | loc i s =>
      obtain rfl := Option.some.inj hr
      exact (h.books.alive_of_loc (List.mem_of_getElem? hok)).1
  | pausedFrom i => cases hr
  | locsFrom i => cases hr

theorem Tidy.notes (h : Tidy e) (r npc : Nat) : GoodStep e (e.makesBusy r npc) :=
  h.writes r (f := fun s => { s with madeBusy := npc :: s.madeBusy })
    fun _ => ⟨rfl, rfl, rfl, rfl, rfl, rfl, fun _ hn => List.mem_cons_of_mem _ hn⟩

/-- A script makes an NPC busy, or not busy. -/
theorem Tidy.busies (h : Tidy e) {npc : Nat} {busy : Bool} (hthere : e.npcThere npc = true)
    (hbusy : busy = true → ∃ r, Alive e r ∧ npc ∈ (e.scripts r).madeBusy) :
    GoodStep e (npcBusy (depth + 1) e npc busy) := by
  have heq : npcBusy (depth + 1) e npc busy = e.setNpcBusy npc busy := if_pos hthere
  rw [heq]
  refine h.same ⟨fun _ => .refl _, rfl, rfl, rfl, rfl⟩ rfl rfl (fun _ _ _ hb => hb) ?_ h.raised rfl
  intro n hn
  have hn' : Function.update e.npcBusy npc busy n = true := hn
  by_cases hne : n = npc
  · subst hne
    rw [Function.update_self] at hn'
    exact .inr (hbusy hn')
  · rw [Function.update_of_ne hne] at hn'
    exact .inl hn'

theorem Tidy.npcBusy (h : Tidy e) {f : Frame} (hf : f ∈ e.stack) (hr : f.script = some r)
    {npc : Nat} {busy : Bool} (hc : e.npcThere npc = true ∨ CanCancel e npc) :
    GoodStep e (npcBusy (depth + 1) (if busy then e.makesBusy r npc else e) npc busy) := by
  have halive := h.running_alive hf hr
  cases busy with
  | false =>
      rw [if_neg Bool.false_ne_true]
      by_cases hthere : e.npcThere npc = true
      · exact h.busies hthere fun hb => nomatch hb
      · have heq : Ref.npcBusy (depth + 1) e npc false = scriptEngineCancel (depth + 1) e npc :=
          if_neg hthere
        rw [heq]
        exact h.cancels (hc.resolve_left hthere)
  | true =>
      rw [if_pos rfl]
      have hnote := h.notes r npc
      have hself : (e.makesBusy r npc).scripts r =
          { e.scripts r with madeBusy := npc :: (e.scripts r).madeBusy } := Function.update_self ..
      have hother : ∀ q, q ≠ r → (e.makesBusy r npc).scripts q = e.scripts q :=
        fun q hq => Function.update_of_ne hq _ _
      have hdead : ∀ q, ((e.makesBusy r npc).scripts q).dead = (e.scripts q).dead := by
        intro q
        by_cases hq : q = r
        · subst hq
          rw [hself]
        · rw [hother q hq]
      by_cases hthere : e.npcThere npc = true
      · refine GoodStep.of_dead_eq (hnote.1.busies hthere fun _ => ⟨r, ?_, ?_⟩) hdead
        · exact ⟨halive.1, (hdead r).trans halive.2⟩
        · rw [hself]
          exact List.mem_cons_self ..
      · have heq : Ref.npcBusy (depth + 1) (e.makesBusy r npc) npc true =
            scriptEngineCancel (depth + 1) (e.makesBusy r npc) npc := if_neg hthere
        rw [heq]
        refine GoodStep.of_dead_eq (hnote.1.cancels ?_) hdead
        obtain ⟨s, hp, hrun, hplayer, hnpc, hfree⟩ := hc.resolve_left hthere
        have hsr : s ≠ r := by
          rintro rfl
          exact hrun (List.mem_filterMap.2 ⟨f, hf, hr⟩)
        refine ⟨s, hp, hrun, hplayer, ?_, ?_⟩
        · unfold NpcThere
          rw [hother s hsr]
          exact hnpc
        · unfold OthersFree
          rw [hother s hsr]
          exact hfree

/-! ## What the server calls -/

section

variable {player : Nat} (h : Tidy e) (hs : e.stack = []) (hp : e.playerScripts player = some r)
include h hs hp

/-- A record becomes the active one. -/
theorem Tidy.activates {f : PlayerScript → PlayerScript} (hf : Edits f)
    (hsame : ∀ s, (f s).paused = s.paused ∧ (f s).inMulti = s.inMulti) :
    GoodStep e (({ e with activeScript := some r } : Engine).modifyScript r f) := by
  obtain ⟨-, hpaused, -, hm⟩ := h.books.players player r hp
  have hhooks : hooks e.stack = [] := by rw [hs]; rfl
  have hgood := h.asks hhooks hp hf ((hsame _).1.trans hpaused)
    (by rw [(hsame _).2]; exact hm) e.playerBusy (some r)
  rw [← hs] at hgood
  exact hgood

/-- It is resumed. -/
theorem Tidy.resumes {f : Frame} (hf : f = .process player r ∨ f = .answer player r)
    (hthere : e.playerThere player = true) (hact : e.activeScript = some r) :
    GoodStep e { e with stack := f :: e.stack } := by
  have hset : SetsActive f := by
    rcases hf with rfl | rfl
    · trivial
    · trivial
  have hscript : f.script = some r := by
    rcases hf with rfl | rfl
    · rfl
    · rfl
  have hok : FrameOk e f := by
    rcases hf with rfl | rfl
    · exact ⟨hp, hthere⟩
    · exact ⟨hp, hthere⟩
  refine ⟨?_, endsClear_of_dead fun _ hq => hq⟩
  rw [hs]
  refine h.restack (by rw [hs]; rfl) (.one f) (by simp [hooks, not_hook hset]) ?_ ?_
  · intro g hg
    obtain rfl := List.mem_singleton.1 hg
    exact hok
  · intro g hg _ q hq
    obtain rfl := List.mem_singleton.1 hg
    obtain rfl := Option.some.inj (hscript.symm.trans hq)
    exact hact

theorem Tidy.cancelsIdle (hthere : e.playerThere player = true) (hnpc : NpcThere e r)
    (hfree : OthersFree e r) : GoodStep e (scriptEngineCancel (depth + 1) e player) := by
  have hrun : r ∉ e.running := by
    unfold Engine.running
    rw [hs]
    exact List.not_mem_nil
  exact h.cancels ⟨r, hp, hrun, hthere, hnpc, hfree⟩

end

theorem edits_countdown :
    Edits fun s => if 0 < s.delay then { s with delay := s.delay - 1 } else s := by
  constructor
  all_goals
    intro s
    split
    · rfl
    · rfl

theorem Tidy.processes (h : Tidy e) {player : Nat} {now : Int} (hs : e.stack = [])
    (hthere : e.playerThere player = true) (hc : Careful e (.process player now)) :
    GoodStep e (scriptEngineProcess (depth + 1) e player now) := by
  have hc' : ∀ r, e.playerScripts player = some r → 0 < (e.scripts r).optionCount →
      (e.scripts r).lastActive + 10 ≤ now → NpcThere e r ∧ OthersFree e r := hc
  unfold scriptEngineProcess
  cases hp : e.playerScripts player with
  | none => exact .refl h
  | some r =>
      dsimp only
      have hdead := (h.books.alive_of_player hp).1.2
      rw [if_neg (by simp [hdead])]
      generalize hf : (fun s : PlayerScript =>
        if 0 < s.delay then { s with delay := s.delay - 1 } else s) = f
      have hedit : Edits f := hf ▸ edits_countdown
      have hkeep : ∀ s, f s = { s with delay := (f s).delay } := by
        intro s
        rw [← hf]
        dsimp only
        split
        · rfl
        · rfl
      have hgood := h.activates hs hp hedit fun s => by
        rw [hkeep]
        exact ⟨rfl, rfl⟩
      generalize he₁ : (({ e with activeScript := some r } : Engine).modifyScript r f) = e₁ at hgood
      have hself : e₁.scripts r = f (e.scripts r) := by
        rw [← he₁]
        exact Function.update_self ..
      have hrec := hself.trans (hkeep _)
      have hp₁ : e₁.playerScripts player = some r := by rw [← he₁]; exact hp
      have hs₁ : e₁.stack = [] := by rw [← he₁]; exact hs
      have hthere₁ : e₁.playerThere player = true := by rw [← he₁]; exact hthere
      have hact₁ : e₁.activeScript = some r := by rw [← he₁]; rfl
      have hdead₁ : ∀ q, (e₁.scripts q).dead = (e.scripts q).dead := by
        intro q
        rw [← he₁]
        exact hedit.dead_eq (e := { e with activeScript := some r }) q
      split
      · next hopt =>
        split
        · next hnow =>
          rw [hrec] at hopt hnow
          obtain ⟨hnpc, hfree⟩ := hc' r hp hopt hnow
          refine (hgood.1.cancelsIdle hs₁ hp₁ hthere₁ ?_ ?_).of_dead_eq hdead₁
          · unfold NpcThere
            rw [hrec, ← he₁]
            exact hnpc
          · unfold OthersFree
            rw [hrec, ← he₁]
            exact hfree
        · exact hgood
      · split
        · exact (hgood.1.resumes hs₁ hp₁ (.inl rfl) hthere₁ hact₁).of_dead_eq hdead₁
        · exact hgood

theorem Tidy.answers (h : Tidy e) {player answer : Nat} (hs : e.stack = [])
    (hthere : e.playerThere player = true) (hc : Careful e (.answer player answer)) :
    GoodStep e (scriptEngineAnswer (depth + 1) e player answer) := by
  have hc' : ∀ r, e.playerScripts player = some r → (e.scripts r).optionCount < answer →
      NpcThere e r ∧ OthersFree e r := hc
  unfold scriptEngineAnswer
  cases hp : e.playerScripts player with
  | none => exact .refl h
  | some r =>
      dsimp only
      split
      · next hlt =>
        obtain ⟨hnpc, hfree⟩ := hc' r hp hlt
        exact h.cancelsIdle hs hp hthere hnpc hfree
      · have hdead := (h.books.alive_of_player hp).1.2
        have hedit : Edits fun s => { s with answer := some answer } :=
          ⟨fun _ => rfl, fun _ => rfl, fun _ => rfl, fun _ => rfl⟩
        have hgood := h.activates hs hp hedit fun _ => ⟨rfl, rfl⟩
        have hself : (({ e with activeScript := some r } : Engine).modifyScript r
            fun s => { s with answer := some answer }).scripts r =
              { e.scripts r with answer := some answer } := Function.update_self ..
        rw [hself, if_neg (by simp [hdead])]
        refine (hgood.1.resumes hs hp (.inr rfl) hthere rfl).of_dead_eq fun q => ?_
        exact hedit.dead_eq (e := { e with activeScript := some r }) q

theorem scriptEngineStart_eq {player : Nat} {npc : Option Nat}
    (hnone : e.playerScripts player = none) (hthere : e.playerThere player = true)
    (hnpc : ∀ n, npc = some n → e.npcThere n = true) :
    scriptEngineStart depth e player npc =
      { (e.newPlayerScript { player := player, npc := npc, madeBusy := npc.toList }).register
          player (some e.count) with
        npcBusy := madeBusy e.npcBusy npc
        playerBusy := Function.update e.playerBusy player true } := by
  unfold scriptEngineStart
  rw [hnone]
  cases npc with
  | none =>
      dsimp only
      rw [playerBusy_there]
      · rfl
      · exact hthere
  | some n =>
      dsimp only
      rw [Ref.npcBusy, npcBusyWith, if_pos, playerBusy_there]
      · rfl
      · exact hthere
      · exact hnpc n rfl

theorem scriptEngineKillnpc_eq {player npc : Nat} (hthere : e.playerThere player = true)
    (hnpc : e.npcThere npc = true) :
    scriptEngineKillnpc depth e player npc =
      { e.newPlayerScript
          { player := player, npc := some npc, cleanUp := .playerFirst, madeBusy := [npc] } with
        playerBusy := Function.update e.playerBusy player true
        npcBusy := Function.update e.npcBusy npc true
        stack := .kill player e.count :: e.stack } := by
  unfold scriptEngineKillnpc
  dsimp only
  rw [playerBusy_there, Ref.npcBusy, npcBusyWith, if_pos]
  · rfl
  · exact hnpc
  · exact hthere

/-- Counting a timer down. -/
theorem set_timer {l : List DeleteLoc} {i : Nat} {loc : DeleteLoc} {timer : Int}
    (hi : l[i]? = some loc) :
    (l.set i { loc with timer := timer }).map (·.script) = l.map (·.script) := by
  have hscript : (l.map (·.script))[i]? = some loc.script := by
    rw [List.getElem?_map, hi]
    rfl
  rw [List.map_set]
  refine List.ext_getElem? fun j => ?_
  rw [List.getElem?_set]
  split
  · next hij =>
    subst hij
    rw [if_pos (List.getElem?_eq_some_iff.1 hscript).1]
    exact hscript.symm
  · rfl

/-- A turn of a loop of the tick. -/
theorem Tidy.next (h : Tidy e) {f : Frame} {rest : List Frame} (hs : e.stack = f :: rest)
    (hstep : tickNext { e with stack := rest } f = some e') : GoodStep e e' := by
  have hbooks := h.books
  cases f with
  | pausedFrom i =>
      obtain ⟨rfl, hhooks⟩ := h.bottom hs rfl
      cases i with
      | zero =>
          cases hstep
          exact ⟨h.loop hhooks rfl, endsClear_of_dead fun _ hq => hq⟩
      | succ i =>
          rw [tickNext] at hstep
          cases hstep
          have hloop : GoodStep e { e with stack := [.pausedFrom i] } :=
            ⟨h.loop hhooks rfl, endsClear_of_dead fun _ hq => hq⟩
          cases hi : e.pausedScripts[i]? with
          | none =>
              exact hloop
          | some r =>
              dsimp only
              have hdead := (hbooks.alive_of_paused (List.mem_of_getElem? hi)).1.2
              split
              · have hedit : Edits fun s => { s with delay := s.delay - 1 } :=
                  ⟨fun _ => rfl, fun _ => rfl, fun _ => rfl, fun _ => rfl⟩
                have hwrite := hloop.1.writes r (f := fun s => { s with delay := s.delay - 1 })
                  fun _ => ⟨rfl, rfl, rfl, rfl, rfl, rfl, fun _ hn => hn⟩
                exact hwrite.of_dead_eq fun _ => rfl
              · rw [if_neg (by simp [hdead])]
                refine ⟨h.restack hhooks (.one _) rfl ?_ ?_, endsClear_of_dead fun _ hq => hq⟩
                · intro g hg
                  obtain rfl := List.mem_singleton.1 hg
                  exact hi
                · intro g hg hset
                  obtain rfl := List.mem_singleton.1 hg
                  exact hset.elim
  | locsFrom i =>
      obtain ⟨rfl, hhooks⟩ := h.bottom hs rfl
      cases i with
      | zero =>
          cases hstep
          exact ⟨h.popped hhooks, endsClear_of_dead fun _ hq => hq⟩
      | succ i =>
          rw [tickNext] at hstep
          cases hstep
          have hloop : GoodStep e { e with stack := [.locsFrom i] } :=
            ⟨h.loop hhooks rfl, endsClear_of_dead fun _ hq => hq⟩
          cases hi : e.deleteLocs[i]? with
          | none =>
              exact hloop
          | some loc =>
              dsimp only
              have hscript : (locScripts e)[i]? = some loc.script := by
                rw [locScripts, List.getElem?_map, hi]
                rfl
              have hdead := (hbooks.alive_of_loc (List.mem_of_getElem? hscript)).1.2
              split
              · have hset : (e.deleteLocs.set i { loc with timer := loc.timer - 1 }).map
                    (·.script) = e.deleteLocs.map (·.script) := set_timer hi
                have hgood : GoodStep { e with stack := [.locsFrom i] } { e with
                    deleteLocs := e.deleteLocs.set i { loc with timer := loc.timer - 1 }
                    stack := [.locsFrom i] } :=
                  hloop.1.same ⟨fun _ => .refl _, rfl, rfl, rfl, hset⟩ rfl rfl
                    (fun _ _ _ hb => hb) (fun _ hn => .inl hn) h.raised rfl
                exact hgood.of_dead_eq fun _ => rfl
              · rw [if_neg (by simp [hdead])]
                refine ⟨h.restack hhooks (.one _) rfl ?_ ?_, endsClear_of_dead fun _ hq => hq⟩
                · intro g hg
                  obtain rfl := List.mem_singleton.1 hg
                  exact hscript
                · intro g hg hset
                  obtain rfl := List.mem_singleton.1 hg
                  exact hset.elim
  | process player r => cases hstep
  | answer player r => cases hstep
  | kill player r => cases hstep
  | paused i r => cases hstep
  | loc i r => cases hstep

/-- Players come and go while no script runs. -/
theorem Tidy.idles (h : Tidy e) (hs : e.stack = []) (hs' : e'.stack = e.stack)
    (hscripts : e'.scripts = e.scripts) (hcount : e'.count = e.count)
    (hplayers : e'.playerScripts = e.playerScripts)
    (hpaused : e'.pausedScripts = e.pausedScripts) (hlocs : e'.deleteLocs = e.deleteLocs)
    (hnpc : e'.npcBusy = e.npcBusy) (hraised : e'.raised = e.raised) : GoodStep e e' := by
  have hlocs' : locScripts e' = locScripts e := by
    rw [locScripts, hlocs]
    rfl
  have hsame : SameBooks e e' :=
    ⟨fun r => by rw [hscripts]; exact .refl _, hcount, hplayers, hpaused, hlocs'⟩
  have hb := h.books_idle (by rw [hs]; rfl)
  refine ⟨tidy_idle (hb.same hsame) (.inl (hs'.trans hs)) ?_ (hraised.trans h.raised),
    endsClear_of_dead fun q hq => by rw [hscripts] at hq; exact hq⟩
  intro npc hn
  rw [hnpc] at hn
  obtain ⟨r, hal, hmem⟩ := h.npcs npc hn
  exact ⟨r, (hsame.alive r).2 hal, (hsame.scripts r).madeBusy hmem⟩

theorem Tidy.issues (h : Tidy e) {f : Frame} {rest : List Frame} {a : Nat} {op : Issue}
    (hs : e.stack = f :: rest) (hr : f.script = some r) (hm : (e.scripts r).inMulti = none)
    (ha : e.activeScript = some a) (hcan : CanCall e a r f op)
    (hstep : (op.yielded (issueAs (depth + 1) e a op) r).giveBack (depth + 1) true = .ok e') :
    GoodStep e e' := by
  have hmem : f ∈ e.stack := hs ▸ List.mem_cons_self ..
  have hset : SetsActive f → (∀ player count now, op = .multi player count now →
      player = (e.scripts r).player) → GoodStep e e' := by
    intro hset hop
    obtain rfl := Option.some.inj (ha.symm.trans (h.own hmem hset hr).2.2)
    exact h.calls hs hset hr hm hop hstep
  cases f with
  | process player s =>
      refine hset trivial ?_
      rintro q count now rfl
      exact hcan
  | answer player s =>
      refine hset trivial ?_
      rintro q count now rfl
      exact hcan
  | kill player s =>
      obtain rfl := Option.some.inj hr
      exact h.hookCalls hs hcan hstep
  | paused i s =>
      obtain rfl := Option.some.inj hr
      cases op with
      | delay length => exact hcan.elim
      | pause amount =>
          obtain ⟨rfl, hnone, hthere⟩ := hcan
          exact h.pausedCalls hs hm hnone hthere (.inl ⟨amount, rfl⟩) hstep
      | addloc timer =>
          obtain ⟨rfl, hnone, hthere⟩ := hcan
          exact h.pausedCalls hs hm hnone hthere (.inr ⟨timer, rfl⟩) hstep
      | multi player count now => exact hcan.elim
  | loc i s => cases op <;> exact hcan.elim
  | pausedFrom i => cases hr
  | locsFrom i => cases hr

/-! ## Every step -/

theorem engineStep_good {ev : ScriptEvent} (h : Tidy e) (hc : Careful e ev)
    (hstep : engineStep (depth + 1) e ev = .ok e') : GoodStep e e' := by
  cases ev with
  | tick =>
      obtain ⟨hb, rfl⟩ := guarded_ok hstep
      have hs := List.isEmpty_iff.1 hb
      exact ⟨h.loop (by rw [hs]; rfl) rfl, endsClear_of_dead fun _ hq => hq⟩
  | next =>
      rw [engineStep.eq_def] at hstep
      dsimp only at hstep
      cases hs : e.stack with
      | nil =>
          rw [hs] at hstep
          cases hstep
      | cons f rest =>
          rw [hs] at hstep
          dsimp only at hstep
          cases ht : tickNext { e with stack := rest } f with
          | none =>
              rw [ht] at hstep
              cases hstep
          | some e₁ =>
              rw [ht] at hstep
              cases hstep
              exact h.next hs ht
  | process player now =>
      obtain ⟨hb, rfl⟩ := guarded_ok hstep
      simp only [Bool.and_eq_true, List.isEmpty_iff] at hb
      exact h.processes hb.1 hb.2 hc
  | answer player answer =>
      obtain ⟨hb, rfl⟩ := guarded_ok hstep
      simp only [Bool.and_eq_true, List.isEmpty_iff] at hb
      exact h.answers hb.1 hb.2 hc
  | start player npc =>
      obtain ⟨hb, rfl⟩ := guarded_ok hstep
      simp only [Bool.and_eq_true, List.isEmpty_iff] at hb
      cases hp : e.playerScripts player with
      | some r =>
          have heq : scriptEngineStart (depth + 1) e player npc = e := by
            unfold scriptEngineStart
            rw [hp]
          rw [heq]
          exact .refl h
      | none =>
          rw [scriptEngineStart_eq hp hb.1.2 (by
            rintro n rfl
            simpa using hb.2)]
          exact h.starts hb.1.1 hp
  | kill player npc =>
      obtain ⟨hb, rfl⟩ := guarded_ok hstep
      simp only [Bool.and_eq_true, Bool.not_eq_true'] at hb
      rw [scriptEngineKillnpc_eq hb.1.1.2 hb.1.2]
      exact h.kills hc hb.2 hb.1.1.2
  | face player =>
      obtain ⟨-, rfl⟩ := guarded_ok hstep
      exact h.faces player
  | cancel player =>
      obtain ⟨-, rfl⟩ := guarded_ok hstep
      exact h.cancels hc
  | cancelMulti player =>
      obtain ⟨-, rfl⟩ := guarded_ok hstep
      obtain ⟨r, hp, hcan⟩ := hc
      unfold scriptEngineCancelMulti
      rw [hp]
      dsimp only
      split
      · next hopt => exact h.cancels (hcan hopt)
      · exact .refl h
  | issue op =>
      rw [engineStep.eq_def] at hstep
      dsimp only at hstep
      split at hstep
      · cases hstep
      · next f r rest hcall =>
        obtain ⟨ht, hm⟩ := caller_top hcall
        obtain ⟨hs, hr⟩ := top_eq ht
        have hcan := hc f r rest hcall
        cases ha : e.activeScript with
        | none =>
            rw [issue, ha] at hstep
            rw [ha] at hcan
            exact h.fails hs hr hcan hstep
        | some a =>
            rw [issue, ha] at hstep
            rw [ha] at hcan
            exact h.issues hs hr hm ha hcan hstep
  | multiReturn =>
      rw [engineStep.eq_def] at hstep
      dsimp only at hstep
      split at hstep
      · cases hstep
      · next f r rest ht =>
        obtain ⟨hs, hr⟩ := top_eq ht
        split at hstep
        · cases hstep
        · next player hm =>
          obtain ⟨hact, hgood⟩ := h.returns (depth + 1) hs hr hm
          rw [multiReturn, hact] at hstep
          cases hstep
          exact hgood
  | npcBusy npc busy =>
      rw [engineStep.eq_def] at hstep
      dsimp only at hstep
      split at hstep
      · cases hstep
      · next f r rest hcall =>
        obtain ⟨hs, hr⟩ := top_eq (caller_top hcall).1
        cases hstep
        exact h.npcBusy (hs ▸ List.mem_cons_self ..) hr hc
  | finish =>
      rw [engineStep.eq_def] at hstep
      dsimp only at hstep
      split at hstep
      · cases hstep
      · next f r rest hcall =>
        obtain ⟨hs, hr⟩ := top_eq (caller_top hcall).1
        exact h.finishes hs hr (hc f r rest hcall) hstep
  | error =>
      rw [engineStep.eq_def] at hstep
      dsimp only at hstep
      split at hstep
      · cases hstep
      · next x hcall =>
        obtain ⟨f, r, rest⟩ := x
        obtain ⟨hs, hr⟩ := top_eq (caller_top hcall).1
        exact h.fails hs hr (hc f r rest hcall) hstep
  | design player isOpen =>
      obtain ⟨hb, rfl⟩ := guarded_ok hstep
      simp only [Bool.and_eq_true, List.isEmpty_iff] at hb
      refine h.same ⟨fun _ => .refl _, rfl, rfl, rfl, rfl⟩ rfl rfl ?_ (fun _ hn => .inl hn)
        h.raised rfl
      intro q s hq
      rw [hb.1] at hq
      cases hq
  | connect player =>
      obtain ⟨hb, rfl⟩ := guarded_ok hstep
      simp only [Bool.and_eq_true, List.isEmpty_iff] at hb
      exact h.idles hb.1 rfl rfl rfl rfl rfl rfl rfl rfl
  | leave player =>
      obtain ⟨hb, rfl⟩ := guarded_ok hstep
      exact h.idles (List.isEmpty_iff.1 hb) rfl rfl rfl rfl rfl rfl rfl rfl
  | addNpc npc =>
      obtain ⟨-, rfl⟩ := guarded_ok hstep
      refine h.same ⟨fun _ => .refl _, rfl, rfl, rfl, rfl⟩ rfl rfl (fun _ _ _ hb => hb) ?_
        h.raised rfl
      intro n hn
      have hn' : Function.update e.npcBusy npc false n = true := hn
      by_cases hne : n = npc
      · subst hne
        rw [Function.update_self] at hn'
        cases hn'
      · rw [Function.update_of_ne hne] at hn'
        exact .inl hn'
  | delNpc npc =>
      obtain ⟨-, rfl⟩ := guarded_ok hstep
      exact h.same ⟨fun _ => .refl _, rfl, rfl, rfl, rfl⟩ rfl rfl (fun _ _ _ hb => hb)
        (fun _ hn => .inl hn) h.raised rfl

/-! ## Every run -/

theorem tidy_init (h : ScriptInit e) : Tidy e := by
  obtain ⟨hs, hcount, -, hpaused, hlocs, hraised, hplayers, hnpc⟩ := h
  refine tidy_idle ?_ (.inl hs) (fun npc hn => ?_) hraised
  · constructor
    · intro r
      refine .inr ⟨fun hn => ?_, ?_⟩
      · have hlt := hn.1.1
        rw [hcount] at hlt
        exact absurd hlt (Nat.not_lt_zero r)
      · unfold registrations locScripts
        rw [hplayers, hpaused, hlocs]
        rfl
    · intro player r hr
      rw [hplayers] at hr
      cases hr
    · intro r hr
      rw [locScripts, hpaused, hlocs] at hr
      simp at hr
    · exact fun r hr => absurd hr List.not_mem_nil
    · exact List.nodup_nil
  · rw [hnpc] at hn
    cases hn

theorem index_unique {l : List Nat} {i j : Nat} (h1 : l.count r = 1) (hi : l[i]? = some r)
    (hj : l[j]? = some r) : i = j := by
  by_contra hij
  have hmem : r ∈ l.eraseIdx i := List.mem_eraseIdx_iff_getElem?.2 ⟨j, Ne.symm hij, hj⟩
  have hcount := count_eraseIdx hi r
  rw [if_pos rfl] at hcount
  have hpos := List.count_pos_iff.2 hmem
  omega

theorem Books.place {loose : List Nat} (h : Books e loose) (hal : Alive e r) (hr : r ∉ loose) :
    ∃! place, holds e place = some r := by
  have h1 : registrations e r = 1 := ((h.once r).resolve_right fun hn => hn.1 ⟨hal, hr⟩).2
  have hloc : ∀ i, holds e (.loc i) = some r → (locScripts e)[i]? = some r := by
    intro i hi
    rw [locScripts, List.getElem?_map]
    exact hi
  by_cases hp : e.playerScripts (e.scripts r).player = some r
  · obtain ⟨-, -, hpaused, hlocs⟩ := h.alive_of_player hp
    refine ⟨.player (e.scripts r).player, hp, fun place hplace => ?_⟩
    cases place with
    | player q => rw [(h.players q r hplace).1]
    | paused i => exact absurd (List.mem_of_getElem? hplace) hpaused
    | loc i => exact absurd (List.mem_of_getElem? (hloc i hplace)) hlocs
  · rw [registrations, if_neg hp] at h1
    by_cases hpaused : r ∈ e.pausedScripts
    · obtain ⟨-, -, hcount, hlocs, hnone⟩ := h.alive_of_paused hpaused
      obtain ⟨i, hi⟩ := List.mem_iff_getElem?.1 hpaused
      refine ⟨.paused i, hi, fun place hplace => ?_⟩
      cases place with
      | player q => exact absurd hplace (hnone q)
      | paused j => rw [index_unique hcount hi hplace]
      | loc j => exact absurd (List.mem_of_getElem? (hloc j hplace)) hlocs
    · have hlocs : r ∈ locScripts e := by
        rw [List.count_eq_zero.2 hpaused] at h1
        exact List.count_pos_iff.1 (by omega)
      obtain ⟨-, -, hcount, -, hnone⟩ := h.alive_of_loc hlocs
      obtain ⟨i, hi⟩ := List.mem_iff_getElem?.1 hlocs
      have hi' : holds e (.loc i) = some r := by
        rw [locScripts, List.getElem?_map] at hi
        exact hi
      refine ⟨.loc i, hi', fun place hplace => ?_⟩
      cases place with
      | player q => exact absurd hplace (hnone q)
      | paused j => exact absurd (List.mem_of_getElem? hplace) hpaused
      | loc j => rw [index_unique hcount hi (hloc j hplace)]

theorem Tidy.inOrder (h : Tidy e) : InOrder e := by
  refine ⟨h.raised, fun r hr => h.books.place hr.1 fun hmem => hr.2 ?_, h.npcs⟩
  obtain ⟨⟨player, s⟩, hhook, rfl⟩ := List.mem_map.1 hmem
  exact List.mem_filterMap.2 ⟨_, mem_hooks.1 hhook, rfl⟩

/-- In every run of careful steps every state is in order, and every step clears
up after what ends in it. -/
theorem scripts_in_order (hrun : Run ScriptInit (engineStep (depth + 1)) tr e)
    (hok : ∀ x ∈ tr, Careful x.1 x.2) :
    (∀ c ∈ statesOf tr e, InOrder c) ∧
      ∀ x ∈ tr, ∀ e', engineStep (depth + 1) x.1 x.2 = .ok e' → EndsClear x.1 e' := by
  have htidy : ∀ c ∈ statesOf tr e, Tidy c := by
    intro c hc
    obtain ⟨tr', hpre, hrun'⟩ := hrun.reaches hc
    exact hrun'.invariant (fun e hi => tidy_init hi)
      (fun e ev e' h hcare hstep => (engineStep_good h hcare hstep).1)
      fun x hx => hok x (hpre.subset hx)
  refine ⟨fun c hc => (htidy c hc).inOrder, fun x hx e' hstep => ?_⟩
  exact (engineStep_good (htidy x.1 (mem_statesOf.2 (.inl ⟨x.2, hx⟩))) (hok x hx) hstep).2

/-- A dialogue with NPC 7, to its end. -/
theorem scripts_in_order_dialogue : ∃ tr e, Run ScriptInit (engineStep (199 + 1)) tr e ∧
    tr.length = 8 ∧ (∀ c ∈ statesOf tr e, InOrder c) ∧
      ∀ x ∈ tr, ∀ e', engineStep (199 + 1) x.1 x.2 = .ok e' → EndsClear x.1 e' := by
  have hrun : Run ScriptInit (engineStep (199 + 1)) _ _ :=
    .of_exec [.connect 1, .addNpc 7, .start 1 (some 7), .process 1 0, .issue (.multi 1 2 0),
      .answer 1 1, .multiReturn, .finish] scriptInit_default rfl
  refine ⟨_, _, hrun, rfl, scripts_in_order hrun ?_⟩
  intro x hx
  simp only [List.mem_cons, List.not_mem_nil, or_false] at hx
  obtain rfl | rfl | rfl | rfl | rfl | rfl | rfl | rfl := hx
  · trivial
  · trivial
  · trivial
  · intro r hr hopt
    cases hr
    exact absurd hopt (by decide)
  · intro f r rest hcall
    cases hcall
    rfl
  · intro r hr hlt
    cases hr
    exact absurd hlt (by decide)
  · trivial
  · intro f r rest hcall
    cases hcall
    constructor
    · intro npc hnpc
      cases hnpc
      rfl
    · intro npc hmem _
      rw [List.mem_singleton.1 hmem]
      rfl

/-- The kill hook of player 2 for NPC 7 fails before it first yields. -/
theorem hook_fails : ¬ ∀ (depth : Nat) (tr : List (Engine × ScriptEvent)) (e : Engine),
    Run ScriptInit (engineStep (depth + 1)) tr e → (∀ c ∈ statesOf tr e, InOrder c) ∧
      ∀ x ∈ tr, ∀ e', engineStep (depth + 1) x.1 x.2 = .ok e' → EndsClear x.1 e' := by
  intro h
  have hrun : Run ScriptInit (engineStep (199 + 1)) _ _ :=
    .of_exec [.connect 2, .addNpc 7, .kill 2 7, .error] scriptInit_default rfl
  have hlast := (h _ _ _ hrun).1 _ (mem_statesOf.2 (.inr rfl))
  exact absurd hlast.raised (by decide)

end Sundae.Proofs
