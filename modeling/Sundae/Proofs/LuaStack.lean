import Sundae.Lib.Run
import Sundae.Ref.LuaStack

/-!
# What a dispatcher leaves on the Lua stack

A call leaves what it was asked for, an error leaves its message, and a global
that is not a function stays where `lua_getglobal` put it. Only one dispatcher
takes anything off, and that one takes everything. So the heights are the same
again only where nothing was asked for and nothing went wrong.
-/

namespace Sundae.Proofs

open Sundae.Lib Sundae.Ref

variable {L L' : LuaState} {answers : List Answer} {nargs nresults : Nat}

/-! ## Heights -/

@[simp] theorem height_push (L : LuaState) (value : Bool) :
    (L.push value).height = L.height + 1 := rfl

@[simp] theorem lowest_push (L : LuaState) (value : Bool) :
    (L.push value).lowest = L.lowest := rfl

@[simp] theorem height_pushArgs (L : LuaState) (n : Nat) :
    (L.pushArgs n).height = L.height + n := by
  induction n generalizing L with
  | zero => rfl
  | succ n ih =>
      rw [LuaState.pushArgs, ih, height_push]
      omega

@[simp] theorem lowest_pushArgs (L : LuaState) (n : Nat) :
    (L.pushArgs n).lowest = L.lowest := by
  induction n generalizing L with
  | zero => rfl
  | succ n ih => rw [LuaState.pushArgs, ih, lowest_push]

@[simp] theorem height_returned (L : LuaState) (nargs nresults : Nat) (result : Bool) :
    (L.returned nargs nresults result).height = L.height - (nargs + 1) + nresults := by
  simp [LuaState.returned, LuaState.drop, LuaState.height, Nat.add_comm]

@[simp] theorem lowest_returned (L : LuaState) (nargs nresults : Nat) (result : Bool) :
    (L.returned nargs nresults result).lowest = min L.lowest (L.height - (nargs + 1)) := rfl

@[simp] theorem height_raised (L : LuaState) (nargs : Nat) (message : Bool) :
    (L.raised nargs message).height = L.height - (nargs + 1) + 1 := by
  simp [LuaState.raised, LuaState.drop, LuaState.height, LuaState.push]

@[simp] theorem lowest_raised (L : LuaState) (nargs : Nat) (message : Bool) :
    (L.raised nargs message).lowest = min L.lowest (L.height - (nargs + 1)) := rfl

/-- The stack is no lower than `lowest` says. -/
def LowestBelow (L : LuaState) : Prop := L.lowest ≤ L.height

/-- What a call leaves. -/
def CancelAnswer.left : CancelAnswer → Nat
  | .missing _ => 1
  | .returns => 0
  | .raises _ => 1

def Answer.left (nresults : Nat) : Answer → Nat
  | .missing _ => 1
  | .returns _ => nresults
  | .raises _ cancel => 1 + CancelAnswer.left cancel

theorem scriptCancel_spec (h : LowestBelow L) (cancel : CancelAnswer) :
    (scriptCancel L cancel).height = L.height + CancelAnswer.left cancel ∧
      (scriptCancel L cancel).lowest = L.lowest := by
  unfold LowestBelow at h
  cases cancel with
  | missing value => exact ⟨rfl, rfl⟩
  | returns => simp [scriptCancel, CancelAnswer.left, h]
  | raises message => simp [scriptCancel, CancelAnswer.left, h]

/-- A call takes its function and its arguments off again, and goes no lower. -/
theorem engineCall_spec (h : LowestBelow L) (nargs nresults : Nat) (answer : Answer) :
    (engineCall L nargs nresults answer).1.height = L.height + Answer.left nresults answer ∧
      (engineCall L nargs nresults answer).1.lowest = L.lowest := by
  have hout : L.height + 1 + nargs - (nargs + 1) = L.height := by omega
  have hlow : min L.lowest L.height = L.lowest := Nat.min_eq_left h
  cases answer with
  | missing value => exact ⟨rfl, rfl⟩
  | returns result => simp [engineCall, Answer.left, hout, hlow]
  | raises message cancel =>
      have hraised : LowestBelow (((L.push true).pushArgs nargs).raised nargs message) := by
        simp only [LowestBelow, lowest_raised, height_raised, lowest_pushArgs, height_pushArgs,
          lowest_push, height_push, hout, hlow]
        exact Nat.le_succ_of_le h
      obtain ⟨hheight, hlowest⟩ := scriptCancel_spec hraised cancel
      refine ⟨?_, ?_⟩
      · rw [engineCall, hheight]
        simp only [height_raised, height_pushArgs, height_push, hout, Answer.left]
        omega
      · rw [engineCall, hlowest]
        simp only [lowest_raised, lowest_pushArgs, height_pushArgs, lowest_push, height_push,
          hout, hlow]

theorem LowestBelow.of_spec {n : Nat} (h : LowestBelow L) (hheight : L'.height = L.height + n)
    (hlowest : L'.lowest = L.lowest) : LowestBelow L' := by
  unfold LowestBelow at h ⊢
  omega

/-! ## Loops over names -/

/-- A call that is asked for a result gets none, so that the loop goes on: of a
call that raised, what is on top is looked at. -/
def Answer.fallsThrough : Answer → Bool
  | .missing _ => false
  | .returns result => !result
  | .raises message .returns => !message
  | .raises _ (.missing value) => !value
  | .raises _ (.raises message) => !message

theorem engineCall_result (L : LuaState) (nargs : Nat) (answer : Answer) :
    Answer.fallsThrough answer =
      ((engineCall L nargs 1 answer).2 && !(engineCall L nargs 1 answer).1.toboolean) := by
  cases answer with
  | missing value => rfl
  | returns result => rfl
  | raises message cancel =>
      cases cancel with
      | missing value => rfl
      | returns => rfl
      | raises message => rfl

/-- One turn: the loop ends unless the call falls through. -/
theorem tryNames_cons (nargs : Nat) (answer : Answer) (answers : List Answer) (L : LuaState) :
    tryNames nargs (answer :: answers) L =
      if Answer.fallsThrough answer then tryNames nargs answers (engineCall L nargs 1 answer).1
      else ((engineCall L nargs 1 answer).1, false) := by
  rw [engineCall_result L nargs, tryNames]
  cases engineCall L nargs 1 answer with
  | mk L' go =>
      cases go with
      | false => simp
      | true => cases htop : L'.toboolean <;> simp [htop]

theorem one_left (answer : Answer) : 1 ≤ Answer.left 1 answer := by
  cases answer with
  | missing value => exact Nat.le_refl _
  | returns result => exact Nat.le_refl _
  | raises message cancel => exact Nat.le_add_right _ _

/-- Each turn leaves something, and none takes anything. -/
theorem tryNames_spec (h : LowestBelow L) (nargs : Nat) (answers : List Answer) :
    (∃ n, (tryNames nargs answers L).1.height = L.height + n ∧ (n = 0 ↔ answers = [])) ∧
      (tryNames nargs answers L).1.lowest = L.lowest ∧
      (tryNames nargs answers L).2 = answers.all Answer.fallsThrough := by
  induction answers generalizing L with
  | nil => exact ⟨⟨0, rfl, by simp⟩, rfl, rfl⟩
  | cons answer answers ih =>
      obtain ⟨hheight, hlowest⟩ := engineCall_spec h nargs 1 answer
      have hone := one_left answer
      rw [tryNames_cons]
      cases hfall : Answer.fallsThrough answer with
      | false =>
          exact ⟨⟨_, hheight, by simp; omega⟩, hlowest, by simp [hfall]⟩
      | true =>
          obtain ⟨⟨n, hn, -⟩, hlow, hgo⟩ := ih (h.of_spec hheight hlowest)
          rw [if_pos rfl]
          refine ⟨⟨Answer.left 1 answer + n, by omega, by simp; omega⟩, hlow.trans hlowest, ?_⟩
          rw [hgo, List.all_cons, hfall, Bool.true_and]

/-- And so with a loop around it. -/
theorem tryPairs_spec (h : LowestBelow L) (nargs : Nat) (answers : List (List Answer)) :
    (∃ n, (tryPairs nargs answers L).1.height = L.height + n ∧ (n = 0 ↔ answers.flatten = [])) ∧
      (tryPairs nargs answers L).1.lowest = L.lowest := by
  induction answers generalizing L with
  | nil => exact ⟨⟨0, rfl, by simp⟩, rfl⟩
  | cons inner answers ih =>
      obtain ⟨⟨n, hheight, hn⟩, hlowest, hgo⟩ := tryNames_spec h nargs inner
      rw [tryPairs]
      cases htry : tryNames nargs inner L with
      | mk L' go =>
          rw [htry] at hheight hlowest hgo
          cases go with
          | false =>
              have hsome : inner ≠ [] := fun hnil => by simp [hnil] at hgo
              refine ⟨⟨n, hheight, ?_⟩, hlowest⟩
              simp [hn, hsome]
          | true =>
              dsimp only at hheight hlowest ⊢
              obtain ⟨⟨m, hm, hrest⟩, hlow⟩ := ih (h.of_spec hheight hlowest)
              refine ⟨⟨n + m, ?_, ?_⟩, hlow.trans hlowest⟩
              · rw [hm, hheight, Nat.add_assoc]
              · rw [List.flatten_cons, List.append_eq_nil_iff, ← hn, ← hrest]
                omega

/-! ## The dispatchers -/

/-- A function of `script.c` returns at the height at which it was entered, and
was never below it. -/
structure LeavesHeight (f : LuaState → LuaState) (L : LuaState) : Prop where
  same : (f L.enter).height = L.height
  above : L.height ≤ (f L.enter).lowest

theorem within_enter (L : LuaState) : LowestBelow L.enter := Nat.le_refl _

/-- Where the function goes no lower, what it leaves decides. -/
theorem leavesHeight_iff {f : LuaState → LuaState} {n : Nat}
    (hheight : (f L.enter).height = L.height + n) (hlowest : (f L.enter).lowest = L.height) : LeavesHeight f L ↔ n = 0 := by
  constructor
  · intro h
    have hsame := h.same
    omega
  · rintro rfl
    exact ⟨hheight, Nat.le_of_eq hlowest.symm⟩

theorem keeps_callOnce (nargs : Nat) (answer : Answer) (L : LuaState) :
    LeavesHeight (callOnce nargs answer) L ↔ ∃ result, answer = .returns result := by
  obtain ⟨hheight, hlowest⟩ := engineCall_spec (within_enter L) nargs 0 answer
  rw [leavesHeight_iff hheight hlowest]
  cases answer with
  | missing value => simp [Answer.left]
  | returns result => simp [Answer.left]
  | raises message cancel => simp [Answer.left]

theorem keeps_tryNames (nargs : Nat) (answers : List Answer) (L : LuaState) :
    LeavesHeight (fun L => (tryNames nargs answers L).1) L ↔ answers = [] := by
  obtain ⟨⟨n, hheight, hn⟩, hlowest, -⟩ := tryNames_spec (within_enter L) nargs answers
  exact (leavesHeight_iff hheight hlowest).trans hn

theorem keeps_tryPairs (nargs : Nat) (answers : List (List Answer)) (L : LuaState) :
    LeavesHeight (fun L => (tryPairs nargs answers L).1) L ↔ answers.flatten = [] := by
  obtain ⟨⟨n, hheight, hn⟩, hlowest⟩ := tryPairs_spec (within_enter L) nargs answers
  exact (leavesHeight_iff hheight hlowest).trans hn

/-- `lua_pop(L, -1)` leaves an empty stack. -/
theorem height_popAll (L : LuaState) : (L.pop (-1)).height = 0 := by
  simp [LuaState.pop, LuaState.settop, LuaState.drop, LuaState.height]

theorem lowest_popAll (L : LuaState) : (L.pop (-1)).lowest = 0 := by
  simp [LuaState.pop, LuaState.settop, LuaState.drop, LuaState.height]

theorem engineCall_go (L : LuaState) (nargs nresults : Nat) (answer : Answer) :
    (engineCall L nargs nresults answer).2 = true ↔ ∀ value, answer ≠ .missing value := by
  cases answer with
  | missing value => simp [engineCall]
  | returns result => simp [engineCall]
  | raises message cancel => simp [engineCall]

/-- Once it comes to "_", `script_onskillnpc` clears the stack. -/
theorem scriptOnskillnpc_last (last : Answer) (htry : tryNames 4 answers L = (L', true)) :
    scriptOnskillnpc answers last L =
      if (engineCall L' 4 1 last).2 then (engineCall L' 4 1 last).1.pop (-1)
      else (engineCall L' 4 1 last).1 := by
  rw [scriptOnskillnpc, htry]
  dsimp only
  cases engineCall L' 4 1 last with
  | mk L'' go =>
      cases go with
      | false => rfl
      | true => rfl

theorem keeps_onskillnpc (answers : List Answer) (last : Answer) (L : LuaState) :
    LeavesHeight (scriptOnskillnpc answers last) L ↔
      L.height = 0 ∧ answers.all Answer.fallsThrough = true ∧ ∀ value, last ≠ .missing value := by
  obtain ⟨⟨n, hheight, hn⟩, hlowest, hgo⟩ := tryNames_spec (within_enter L) 4 answers
  have henter : L.enter.height = L.height := rfl
  cases htry : tryNames 4 answers L.enter with
  | mk L₁ go =>
      rw [htry] at hheight hlowest hgo
      dsimp only at hheight hlowest hgo
      rw [← hgo]
      cases go with
      | false =>
          have hrun : scriptOnskillnpc answers last L.enter = L₁ := by
            rw [scriptOnskillnpc, htry]
          have hsome : answers ≠ [] := fun hnil => by simp [hnil] at hgo
          have hleft : n ≠ 0 := fun hzero => hsome (hn.1 hzero)
          rw [leavesHeight_iff (f := scriptOnskillnpc answers last) (hrun ▸ hheight)
            (hrun ▸ hlowest)]
          simp [hleft]
      | true =>
          have hrun := scriptOnskillnpc_last last htry
          rw [← engineCall_go L₁ 4 1]
          cases hlast : (engineCall L₁ 4 1 last).2 with
          | false =>
              obtain ⟨hleft, -⟩ := engineCall_spec
                ((within_enter L).of_spec hheight hlowest) 4 1 last
              rw [if_neg (by simp [hlast])] at hrun
              refine iff_of_false (fun h => ?_) fun h => by cases h.2.2
              have hsame := h.same
              have hone := one_left last
              rw [hrun, hleft, hheight] at hsame
              omega
          | true =>
              rw [if_pos hlast] at hrun
              constructor
              · intro h
                have habove := h.above
                rw [hrun, lowest_popAll] at habove
                exact ⟨Nat.le_zero.1 habove, rfl, rfl⟩
              · rintro ⟨hzero, -, -⟩
                refine ⟨?_, ?_⟩
                · rw [hrun, height_popAll, hzero]
                · rw [hzero]
                  exact Nat.zero_le _

/-- When a dispatcher entered at height `h` keeps it: one that asks for no
result, if its function is there and does not raise; one that goes through
names, if there are none; and `script_onskillnpc` on an empty stack, if no name
handles the event and it comes to clear the stack. -/
def Dispatch.Clean (h : Nat) : Dispatch → Prop
  | .tick answer | .process answer | .onskillplayer answer | .onspellself answer =>
    ∃ result, answer = .returns result
  | .onnpctalk answers | .onopinv answers | .onspellinv answers | .onopbound1 answers
  | .onopbound2 answers | .onoploc1 answers | .onoploc2 answers | .onattacknpc answers
  | .onkillnpc answers | .onwearobj answers | .onspellobj answers | .ontakeobj answers =>
    answers = []
  | .onuseobj answers | .onuseinv answers | .onusenpc answers | .onuseloc answers
  | .onusebound answers =>
    answers.flatten = []
  | .onskillnpc answers last =>
    h = 0 ∧ answers.all Answer.fallsThrough = true ∧ ∀ value, last ≠ .missing value

theorem keeps_dispatch (d : Dispatch) (L : LuaState) :
    LeavesHeight (dispatch d) L ↔ Dispatch.Clean L.height d := by
  cases d with
  | tick answer => exact keeps_callOnce _ answer L
  | process answer => exact keeps_callOnce _ answer L
  | onskillplayer answer => exact keeps_callOnce _ answer L
  | onspellself answer => exact keeps_callOnce _ answer L
  | onnpctalk answers => exact keeps_tryNames _ answers L
  | onopinv answers => exact keeps_tryNames _ answers L
  | onspellinv answers => exact keeps_tryNames _ answers L
  | onopbound1 answers => exact keeps_tryNames _ answers L
  | onopbound2 answers => exact keeps_tryNames _ answers L
  | onoploc1 answers => exact keeps_tryNames _ answers L
  | onoploc2 answers => exact keeps_tryNames _ answers L
  | onattacknpc answers => exact keeps_tryNames _ answers L
  | onkillnpc answers => exact keeps_tryNames _ answers L
  | onwearobj answers => exact keeps_tryNames _ answers L
  | onspellobj answers => exact keeps_tryNames _ answers L
  | ontakeobj answers => exact keeps_tryNames _ answers L
  | onuseobj answers => exact keeps_tryPairs _ answers L
  | onuseinv answers => exact keeps_tryPairs _ answers L
  | onusenpc answers => exact keeps_tryPairs _ answers L
  | onuseloc answers => exact keeps_tryPairs _ answers L
  | onusebound answers => exact keeps_tryPairs _ answers L
  | onskillnpc answers last => exact keeps_onskillnpc answers last L

/-! ## Runs -/

/-- The server hands over one event. -/
def dispatchStep (L : LuaState) (d : Dispatch) : Except Unit LuaState := .ok (dispatch d L.enter)

/-- In a run of events that keep the height it is what it was at the start. -/
theorem height_run {h : Nat} {tr : List (LuaState × Dispatch)}
    (hrun : Run (fun L => L.height = h) dispatchStep tr L)
    (hclean : ∀ x ∈ tr, Dispatch.Clean x.1.height x.2) : L.height = h := by
  refine hrun.invariant (I := fun L : LuaState => L.height = h)
    (C := fun (L : LuaState) d => Dispatch.Clean L.height d) (fun _ h => h)
    (fun L d L' hL hd hstep => ?_) hclean
  obtain rfl := Except.ok.inj hstep
  exact ((keeps_dispatch d L).2 hd).same.trans hL

/-- A dispatcher keeps the height of the stack exactly when it is clean, and a
run of clean events from that height never leaves it. -/
theorem stack_balanced_iff (d : Dispatch) (L : LuaState) :
    (LeavesHeight (dispatch d) L ↔ Dispatch.Clean L.height d) ∧
      ∀ (tr : List (LuaState × Dispatch)) (L' : LuaState),
        Run (fun L₀ => L₀.height = L.height) dispatchStep tr L' →
          (∀ x ∈ tr, Dispatch.Clean x.1.height x.2) →
            ∀ c ∈ statesOf tr L', c.height = L.height := by
  refine ⟨keeps_dispatch d L, fun tr L' hrun hclean c hc => ?_⟩
  obtain ⟨tr', hpre, hrun'⟩ := hrun.reaches hc
  exact height_run hrun' fun x hx => hclean x (hpre.subset hx)

/-- An NPC is talked to, and its script answers. -/
theorem talk_leaves_result : ¬ ∀ (d : Dispatch) (L : LuaState), LeavesHeight (dispatch d) L := by
  intro hall
  have hkeeps := hall (.onnpctalk [.returns true]) { stack := [], lowest := 0 }
  exact absurd hkeeps.same (by decide)

end Sundae.Proofs
