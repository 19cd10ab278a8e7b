import Mathlib.Logic.Function.Basic

/-!
# The script engine

`script.lua`: the tables of running, paused and delayed scripts, the functions
the server calls, and the functions a script calls. What a script does between
two of its calls is left open, and so is what it calls next: a run of the
engine is any order of the events below.

A coroutine is the record `new_player_script` made for it, as each is made
with one. The stack has the coroutines that run or wait for one they caused to
be resumed, each with the loop or the function that resumed it. Of a coroutine
inside `multi` the record says so, as the second half of `multi` runs when the
coroutine does again.
-/

namespace Sundae.Ref

/-- What the coroutine has after the call of its script: that of a kill hook
clears the flag of its player first. -/
inductive CleanUp where
  | nothing
  | npcFirst
  | playerFirst
  deriving DecidableEq, Repr

/-- What `new_player_script` makes, and its coroutine. -/
structure PlayerScript where
  player : Nat
  npc : Option Nat := none
  delay : Rat := 0
  optionCount : Nat := 0
  lastActive : Int := 0
  answer : Option Nat := none
  paused : Bool := false
  cleanUp : CleanUp := .npcFirst
  dead : Bool := false
  /-- the argument of the `multi` it yielded in -/
  inMulti : Option Nat := none
  /-- the NPCs that it or its engine function made busy; nothing reads it -/
  madeBusy : List Nat := []
  deriving DecidableEq

structure DeleteLoc where
  timer : Int
  script : Nat
  deriving DecidableEq, Repr

/-- Who resumed a coroutine, or how far `script_engine_tick` has come: the
entries below the index are still to be looked at. -/
inductive Frame where
  | process (player script : Nat)
  | answer (player script : Nat)
  | kill (player script : Nat)
  | paused (i script : Nat)
  | loc (i script : Nat)
  | pausedFrom (i : Nat)
  | locsFrom (i : Nat)
  deriving DecidableEq, Repr

def Frame.script : Frame → Option Nat
  | .process _ r | .answer _ r | .kill _ r | .paused _ r | .loc _ r => some r
  | .pausedFrom _ | .locsFrom _ => none

structure Engine where
  scripts : Nat → PlayerScript := fun _ => { player := 0 }
  /-- how many records there are -/
  count : Nat := 0
  playerScripts : Nat → Option Nat := fun _ => none
  pausedScripts : List Nat := []
  deleteLocs : List DeleteLoc := []
  activeScript : Option Nat := none
  playerThere : Nat → Bool := fun _ => false
  npcThere : Nat → Bool := fun _ => false
  playerBusy : Nat → Bool := fun _ => false
  npcBusy : Nat → Bool := fun _ => false
  stack : List Frame := []
  /-- `script_engine_cancel` or `script_engine_cancel_multi` has raised -/
  raised : Bool := false

namespace Engine

variable (e : Engine)

/-- The coroutines that are not suspended. -/
def running : List Nat := e.stack.filterMap Frame.script

def modifyScript (r : Nat) (f : PlayerScript → PlayerScript) : Engine :=
  { e with scripts := Function.update e.scripts r (f (e.scripts r)) }

/-- The coroutine has ended or was closed. -/
def die (r : Nat) : Engine := e.modifyScript r fun s => { s with dead := true }

def register (player : Nat) (script : Option Nat) : Engine :=
  { e with playerScripts := Function.update e.playerScripts player script }

def setPlayerBusy (player : Nat) (busy : Bool) : Engine :=
  { e with playerBusy := Function.update e.playerBusy player busy }

def setNpcBusy (npc : Nat) (busy : Bool) : Engine :=
  { e with npcBusy := Function.update e.npcBusy npc busy }

def makesBusy (r npc : Nat) : Engine :=
  e.modifyScript r fun s => { s with madeBusy := npc :: s.madeBusy }

/-- A new record, whose number is `count`. -/
def newPlayerScript (s : PlayerScript) : Engine :=
  { e with scripts := Function.update e.scripts e.count s, count := e.count + 1 }

end Engine

/-! ## Cancelling -/

section

variable (nested : Engine → Nat → Engine) (e : Engine)

/-- `script_playerbusy` and `script_playerunbusy`. Where there is no such
player they call `script_cancel`, which is `nested`. -/
def playerBusyWith (player : Nat) (busy : Bool) : Engine :=
  if e.playerThere player then e.setPlayerBusy player busy else nested e player

/-- `script_npcbusy` and `script_npcunbusy`, which cancel with the id of the
NPC. -/
def npcBusyWith (npc : Nat) (busy : Bool) : Engine :=
  if e.npcThere npc then e.setNpcBusy npc busy else nested e npc

/-- `npcunbusy(ps.npc)`, if there is one -/
def npcUnbusyWith : Option Nat → Engine
  | none => e
  | some npc => npcBusyWith nested e npc false

/-- `script_engine_cancel` -/
def cancelWith (player : Nat) : Engine :=
  match e.playerScripts player with
  | none => { e with raised := true }
  | some r =>
    let e := npcUnbusyWith nested e (e.scripts r).npc
    let e := playerBusyWith nested e player false
    let e := e.register player none
    -- `coroutine.close` takes no coroutine that runs
    if r ∈ e.running then { e with raised := true } else e.die r

end

/-- `depth` is how often C and Lua may still call each other. -/
def scriptEngineCancel : Nat → Engine → Nat → Engine
  | 0 => fun e _ => { e with raised := true }
  | depth + 1 => cancelWith (scriptEngineCancel depth)

def scriptEngineCancelMulti (depth : Nat) (e : Engine) (player : Nat) : Engine :=
  match e.playerScripts player with
  | none => { e with raised := true }
  | some r => if 0 < (e.scripts r).optionCount then scriptEngineCancel depth e player else e

def playerBusy (depth : Nat) : Engine → Nat → Bool → Engine :=
  playerBusyWith (scriptEngineCancel depth)

def npcBusy (depth : Nat) : Engine → Nat → Bool → Engine :=
  npcBusyWith (scriptEngineCancel depth)

def npcUnbusy (depth : Nat) : Engine → Option Nat → Engine :=
  npcUnbusyWith (scriptEngineCancel depth)

/-! ## What a script calls -/

/-- A call after which the coroutine has yielded. -/
inductive Issue where
  | delay (length : Rat)
  | pause (amount : Rat)
  | addloc (timer : Int)
  | multi (player count : Nat) (now : Int)
  deriving DecidableEq

/-- The call up to its `coroutine.yield`, with the record it works on. -/
def issueAs (depth : Nat) (e : Engine) (a : Nat) : Issue → Engine
  | .delay length => e.modifyScript a fun s => { s with delay := length }
  | .pause amount =>
    let player := (e.scripts a).player
    let e := ({ e with pausedScripts := e.pausedScripts ++ [a] }).register player none
    let e := playerBusy depth e player false
    e.modifyScript a fun s => { s with paused := true, delay := amount }
  | .addloc timer =>
    let player := (e.scripts a).player
    let e := e.modifyScript a fun s => { s with paused := true }
    let e := { e with deleteLocs := e.deleteLocs ++ [DeleteLoc.mk timer a] }
    playerBusy depth (e.register player none) player false
  | .multi player count now =>
    let e := e.modifyScript a fun s => { s with optionCount := count, lastActive := now }
    let e := playerBusy depth e player false
    -- `_multi`
    if e.playerThere player then e else scriptEngineCancel depth e player

/-- Where the coroutine is then. -/
def Issue.yielded (e : Engine) (r : Nat) : Issue → Engine
  | .multi player _ _ => e.modifyScript r fun s => { s with inMulti := some player }
  | .delay _ | .pause _ | .addloc _ => e

/-- The rest of `multi`, called with this player. -/
def multiReturnAs (depth : Nat) (e : Engine) (a player : Nat) : Engine :=
  playerBusy depth (e.modifyScript a fun s => { s with optionCount := 0 }) player true

/-- The record is that in `active_script`, and the calls fail where it is nil. -/
def issue (depth : Nat) (e : Engine) (op : Issue) : Option Engine :=
  e.activeScript.map fun a => issueAs depth e a op

def multiReturn (depth : Nat) (e : Engine) (player : Nat) : Option Engine :=
  e.activeScript.map fun a => multiReturnAs depth e a player

/-- What follows the call of a script in its coroutine. -/
def cleanUp (depth : Nat) (e : Engine) (r : Nat) : Engine :=
  let s := e.scripts r
  if s.paused then e
  else
    match s.cleanUp with
    | .nothing => e
    | .npcFirst =>
      playerBusy depth (npcUnbusy depth (e.register s.player none) s.npc) s.player false
    | .playerFirst =>
      npcUnbusy depth (playerBusy depth (e.register s.player none) s.player false) s.npc

/-! ## What the server calls -/

/-- What follows `coroutine.resume` where the frame is; `ok` is its result. An
error of `script_engine_cancel` ends these functions, and `safe_call` then
cancels once more, when nothing is registered for the player. -/
def returned (depth : Nat) (e : Engine) (ok : Bool) : Frame → Engine
  | .process player r =>
    if !ok then scriptEngineCancel depth e player
    else if e.playerScripts player = none ∧ (e.scripts r).paused = false then e.die r
    else e
  | .answer player _ => if !ok then scriptEngineCancel depth e player else e
  | .kill player r =>
    if !ok then scriptEngineCancel depth e player else e.register player (some r)
  | .paused i _ =>
    { e with pausedScripts := e.pausedScripts.eraseIdx i, stack := .pausedFrom i :: e.stack }
  | .loc i r =>
    ({ e with deleteLocs := e.deleteLocs.eraseIdx i, stack := .locsFrom i :: e.stack }).die r
  | .pausedFrom _ => e
  | .locsFrom _ => e

/-- `script_engine_process`, up to the resume. -/
def scriptEngineProcess (depth : Nat) (e : Engine) (player : Nat) (now : Int) : Engine :=
  match e.playerScripts player with
  | none => e
  | some r =>
    let e := { e with activeScript := some r }
    if (e.scripts r).dead then scriptEngineCancel depth e player
    else
      let e := e.modifyScript r fun s => if 0 < s.delay then { s with delay := s.delay - 1 } else s
      let s := e.scripts r
      if 0 < s.optionCount then
        if s.lastActive + 10 ≤ now then scriptEngineCancel depth e player else e
      else if s.delay = 0 then { e with stack := .process player r :: e.stack }
      else e

/-- `script_engine_answer`, up to the resume. -/
def scriptEngineAnswer (depth : Nat) (e : Engine) (player answer : Nat) : Engine :=
  match e.playerScripts player with
  | none => e
  | some r =>
    if (e.scripts r).optionCount < answer then scriptEngineCancel depth e player
    else
      let e := ({ e with activeScript := some r }).modifyScript r fun s =>
        { s with answer := some answer }
      if (e.scripts r).dead then scriptEngineCancel depth e player
      else { e with stack := .answer player r :: e.stack }

/-- `script_engine_talknpc` and the others that register a script and leave its
start to `script_engine_process`; those about an NPC make it busy. -/
def scriptEngineStart (depth : Nat) (e : Engine) (player : Nat) (npc : Option Nat) : Engine :=
  match e.playerScripts player with
  | some _ => e
  | none =>
    let r := e.count
    let e := (e.newPlayerScript { player := player, npc := npc, madeBusy := npc.toList }).register
      player (some r)
    let e := match npc with
      | none => e
      | some npc => npcBusy depth e npc true
    playerBusy depth e player true

/-- `script_engine_killnpc`, up to the resume. -/
def scriptEngineKillnpc (depth : Nat) (e : Engine) (player npc : Nat) : Engine :=
  let r := e.count
  let e := e.newPlayerScript
    { player := player, npc := some npc, cleanUp := .playerFirst, madeBusy := [npc] }
  let e := npcBusy depth (playerBusy depth e player true) npc true
  { e with stack := .kill player r :: e.stack }

def scriptEngineNpcFacePlayer (e : Engine) (player : Nat) : Engine :=
  let r := e.count
  let e := e.newPlayerScript { player := player, cleanUp := .nothing }
  { e with pausedScripts := e.pausedScripts ++ [r] }

/-- One turn of a loop of `script_engine_tick`, which goes down the list. -/
def tickNext (e : Engine) : Frame → Option Engine
  | .pausedFrom 0 => some { e with stack := .locsFrom e.deleteLocs.length :: e.stack }
  | .pausedFrom (i + 1) =>
    some <| match e.pausedScripts[i]? with
      | none => { e with stack := .pausedFrom i :: e.stack }
      | some r =>
        if 0 < (e.scripts r).delay then
          { e.modifyScript r fun s => { s with delay := s.delay - 1 } with
            stack := .pausedFrom i :: e.stack }
        else if (e.scripts r).dead then
          { e with
            pausedScripts := e.pausedScripts.eraseIdx i
            stack := .pausedFrom i :: e.stack }
        else { e with stack := .paused i r :: e.stack }
  | .locsFrom 0 => some e
  | .locsFrom (i + 1) =>
    some <| match e.deleteLocs[i]? with
      | none => { e with stack := .locsFrom i :: e.stack }
      | some loc =>
        if 0 < loc.timer then
          { e with
            deleteLocs := e.deleteLocs.set i { loc with timer := loc.timer - 1 }
            stack := .locsFrom i :: e.stack }
        else if (e.scripts loc.script).dead then
          { e with
            deleteLocs := e.deleteLocs.eraseIdx i
            stack := .locsFrom i :: e.stack }
        else { e with stack := .loc i loc.script :: e.stack }
  | _ => none

/-! ## The engine -/

inductive ScriptEvent where
  /-- `script_engine_tick`, and a turn of one of its loops -/
  | tick
  | next
  | process (player : Nat) (now : Int)
  | answer (player answer : Nat)
  | start (player : Nat) (npc : Option Nat)
  /-- `npc_die` with a hook for the NPC -/
  | kill (player npc : Nat)
  | face (player : Nat)
  /-- `script_cancel`, by a function of `script.c` that does not like an
  argument, and `script_cancel_multi`, when a dialogue is closed -/
  | cancel (player : Nat)
  | cancelMulti (player : Nat)
  /-- what the coroutine that runs does -/
  | issue (op : Issue)
  | multiReturn
  | npcBusy (npc : Nat) (busy : Bool)
  | finish
  | error
  /-- the design window, which makes its player busy too, opens or closes -/
  | design (player : Nat) (isOpen : Bool)
  | connect (player : Nat)
  | leave (player : Nat)
  | addNpc (npc : Nat)
  | delNpc (npc : Nat)
  deriving DecidableEq

/-- The coroutine that runs, with what resumed it and what is below. -/
def Engine.top (e : Engine) : Option (Frame × Nat × List Frame) :=
  match e.stack with
  | [] => none
  | f :: rest => f.script.map fun r => (f, r, rest)

/-- The same, where it is not about to return from `multi`. -/
def Engine.caller (e : Engine) : Option (Frame × Nat × List Frame) :=
  e.top.filter fun x => (e.scripts x.2.1).inMulti.isNone

/-- C code runs: nothing else does, or a script has called it. -/
def Engine.inC (e : Engine) : Bool := e.stack.isEmpty || e.caller.isSome

def guarded (b : Bool) (e : Engine) : Except Unit Engine := if b then .ok e else .error ()

/-- The coroutine that runs gives back control, dead if `ok` is not. -/
def Engine.giveBack (depth : Nat) (e : Engine) (ok : Bool) : Except Unit Engine :=
  match e.top with
  | none => .error ()
  | some (f, r, rest) =>
    let e := { e with stack := rest }
    .ok (returned depth (if ok then e else e.die r) ok f)

def engineStep (depth : Nat) (e : Engine) : ScriptEvent → Except Unit Engine
  | .tick =>
    guarded e.stack.isEmpty { e with stack := [.pausedFrom e.pausedScripts.length] }
  | .next =>
    match e.stack with
    | [] => .error ()
    | f :: rest =>
      match tickNext { e with stack := rest } f with
      | none => .error ()
      | some e => .ok e
  | .process player now =>
    guarded (e.stack.isEmpty && e.playerThere player) (scriptEngineProcess depth e player now)
  | .answer player answer =>
    guarded (e.stack.isEmpty && e.playerThere player) (scriptEngineAnswer depth e player answer)
  | .start player npc =>
    guarded (e.stack.isEmpty && e.playerThere player && npc.all e.npcThere)
      (scriptEngineStart depth e player npc)
  | .kill player npc =>
    guarded (e.inC && e.playerThere player && e.npcThere npc && !e.playerBusy player)
      (scriptEngineKillnpc depth e player npc)
  | .face player => guarded e.inC (scriptEngineNpcFacePlayer e player)
  | .cancel player => guarded e.inC (scriptEngineCancel depth e player)
  | .cancelMulti player => guarded e.inC (scriptEngineCancelMulti depth e player)
  | .issue op =>
    match e.caller with
    | none => .error ()
    | some (_, r, _) =>
      match issue depth e op with
      | none => e.giveBack depth false
      | some e => (op.yielded e r).giveBack depth true
  | .multiReturn =>
    match e.top with
    | none => .error ()
    | some (_, r, _) =>
      match (e.scripts r).inMulti with
      | none => .error ()
      | some player =>
        match multiReturn depth e player with
        | none => e.giveBack depth false
        | some e => .ok (e.modifyScript r fun s => { s with inMulti := none })
  | .npcBusy npc busy =>
    match e.caller with
    | none => .error ()
    | some (_, r, _) => .ok (npcBusy depth (if busy then e.makesBusy r npc else e) npc busy)
  | .finish =>
    match e.caller with
    | none => .error ()
    | some (_, r, _) => ((cleanUp depth e r).die r).giveBack depth true
  | .error =>
    match e.caller with
    | none => .error ()
    | some _ => e.giveBack depth false
  | .design player isOpen =>
    guarded (e.stack.isEmpty && e.playerThere player) (e.setPlayerBusy player isOpen)
  | .connect player =>
    guarded (e.stack.isEmpty && !e.playerThere player)
      (({ e with playerThere := Function.update e.playerThere player true }).setPlayerBusy
        player false)
  | .leave player =>
    guarded e.stack.isEmpty
      { e with playerThere := Function.update e.playerThere player false }
  | .addNpc npc =>
    guarded (e.inC && !e.npcThere npc)
      (({ e with npcThere := Function.update e.npcThere npc true }).setNpcBusy npc false)
  | .delNpc npc =>
    guarded e.inC { e with npcThere := Function.update e.npcThere npc false }

end Sundae.Ref
