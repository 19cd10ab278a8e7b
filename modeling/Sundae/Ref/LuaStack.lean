/-!
# The Lua stack

The functions of `script.c` that hand an event to the script engine, by what
they do to the stack of the server's `lua_State`. Of a value on it only counts
whether Lua takes it for true, which is what `lua_toboolean` reads. What Lua
makes of each call comes with it: the loops over names have one answer for each
turn they would take. That an entity has a config is asserted first.
-/

namespace Sundae.Ref

/-- `lowest` is not a field of the library's: it is the least height since the
function was entered. -/
structure LuaState where
  stack : List Bool
  lowest : Nat
  deriving DecidableEq, Repr

namespace LuaState

def height (L : LuaState) : Nat := L.stack.length

/-- A function of `script.c` is entered. -/
def enter (L : LuaState) : LuaState := { L with lowest := L.height }

/-- `lua_getglobal`, `lua_pushnumber`, `lua_pushstring` -/
def push (L : LuaState) (value : Bool) : LuaState := { L with stack := value :: L.stack }

/-- Numbers and strings, which are all true. -/
def pushArgs (L : LuaState) : Nat → LuaState
  | 0 => L
  | n + 1 => (L.push true).pushArgs n

def drop (L : LuaState) (n : Nat) : LuaState :=
  { stack := L.stack.drop n, lowest := min L.lowest (L.height - n) }

/-- `lua_settop`; a stack that is too low is filled with `nil`. -/
def settop (L : LuaState) (index : Int) : LuaState :=
  if index < 0 then L.drop (-index - 1).toNat
  else if index ≤ L.height then L.drop (L.height - index.toNat)
  else { L with stack := List.replicate (index.toNat - L.height) false ++ L.stack }

/-- `lua_pop`, which is a macro. -/
def pop (L : LuaState) (n : Int) : LuaState := L.settop (-n - 1)

/-- `lua_pcall` of a function that returns. -/
def returned (L : LuaState) (nargs nresults : Nat) (result : Bool) : LuaState :=
  let L := L.drop (nargs + 1)
  { L with stack := List.replicate nresults result ++ L.stack }

/-- `lua_pcall` of a function that raises. -/
def raised (L : LuaState) (nargs : Nat) (message : Bool) : LuaState :=
  (L.drop (nargs + 1)).push message

/-- `lua_toboolean(L, -1)` -/
def toboolean (L : LuaState) : Bool := L.stack.headD false

end LuaState

/-- What comes of `script_engine_cancel`: it is not a function, or it is called. -/
inductive CancelAnswer where
  | missing (value : Bool)
  | returns
  | raises (message : Bool)
  deriving DecidableEq, Repr

/-- What comes of a function of the engine. -/
inductive Answer where
  | missing (value : Bool)
  | returns (result : Bool)
  | raises (message : Bool) (cancel : CancelAnswer)
  deriving DecidableEq, Repr

def scriptCancel (L : LuaState) : CancelAnswer → LuaState
  | .missing value => L.push value
  | .returns => ((L.push true).pushArgs 1).returned 1 0 false
  | .raises message => ((L.push true).pushArgs 1).raised 1 message

/-- `lua_getglobal` and what follows, with the call by `safe_call`; false where
the global is not a function and `script.c` goes no further. -/
def engineCall (L : LuaState) (nargs nresults : Nat) : Answer → LuaState × Bool
  | .missing value => (L.push value, false)
  | .returns result => (((L.push true).pushArgs nargs).returned nargs nresults result, true)
  | .raises message cancel =>
    (scriptCancel (((L.push true).pushArgs nargs).raised nargs message) cancel, true)

/-- A dispatcher with one call, whose result it does not ask for. -/
def callOnce (nargs : Nat) (answer : Answer) (L : LuaState) : LuaState :=
  (engineCall L nargs 0 answer).1

/-- The turns of a loop over names, each with a call that is asked for a result;
false where one of them returns. -/
def tryNames (nargs : Nat) : List Answer → LuaState → LuaState × Bool
  | [], L => (L, true)
  | answer :: rest, L =>
    match engineCall L nargs 1 answer with
    | (L, false) => (L, false)
    | (L, true) => if L.toboolean then (L, false) else tryNames nargs rest L

/-- A loop over names in a loop over names. -/
def tryPairs (nargs : Nat) : List (List Answer) → LuaState → LuaState × Bool
  | [], L => (L, true)
  | answers :: rest, L =>
    match tryNames nargs answers L with
    | (L, false) => (L, false)
    | (L, true) => tryPairs nargs rest L

/-! ## The dispatchers -/

def scriptTick : Answer → LuaState → LuaState := callOnce 0
def scriptProcess : Answer → LuaState → LuaState := callOnce 1
def scriptOnskillplayer : Answer → LuaState → LuaState := callOnce 3
def scriptOnspellself : Answer → LuaState → LuaState := callOnce 2

def scriptOnnpctalk (answers : List Answer) (L : LuaState) : LuaState := (tryNames 3 answers L).1
def scriptOnopinv (answers : List Answer) (L : LuaState) : LuaState := (tryNames 2 answers L).1
def scriptOnspellinv (answers : List Answer) (L : LuaState) : LuaState := (tryNames 3 answers L).1
def scriptOnopbound1 (answers : List Answer) (L : LuaState) : LuaState := (tryNames 5 answers L).1
def scriptOnopbound2 (answers : List Answer) (L : LuaState) : LuaState := (tryNames 5 answers L).1
def scriptOnoploc1 (answers : List Answer) (L : LuaState) : LuaState := (tryNames 4 answers L).1
def scriptOnoploc2 (answers : List Answer) (L : LuaState) : LuaState := (tryNames 4 answers L).1
def scriptOnattacknpc (answers : List Answer) (L : LuaState) : LuaState := (tryNames 3 answers L).1
def scriptOnkillnpc (answers : List Answer) (L : LuaState) : LuaState := (tryNames 5 answers L).1
def scriptOnwearobj (answers : List Answer) (L : LuaState) : LuaState := (tryNames 2 answers L).1
def scriptOnspellobj (answers : List Answer) (L : LuaState) : LuaState := (tryNames 5 answers L).1
def scriptOntakeobj (answers : List Answer) (L : LuaState) : LuaState := (tryNames 4 answers L).1

def scriptOnuseobj (answers : List (List Answer)) (L : LuaState) : LuaState :=
  (tryPairs 5 answers L).1

def scriptOnuseinv (answers : List (List Answer)) (L : LuaState) : LuaState :=
  (tryPairs 3 answers L).1

def scriptOnusenpc (answers : List (List Answer)) (L : LuaState) : LuaState :=
  (tryPairs 4 answers L).1

def scriptOnuseloc (answers : List (List Answer)) (L : LuaState) : LuaState :=
  (tryPairs 5 answers L).1

def scriptOnusebound (answers : List (List Answer)) (L : LuaState) : LuaState :=
  (tryPairs 6 answers L).1

/-- After its names it tries "_", and then it pops `-1`. -/
def scriptOnskillnpc (answers : List Answer) (last : Answer) (L : LuaState) : LuaState :=
  match tryNames 4 answers L with
  | (L, false) => L
  | (L, true) =>
    match engineCall L 4 1 last with
    | (L, false) => L
    | (L, true) => L.pop (-1)

/-- A dispatcher with what comes of its calls. -/
inductive Dispatch where
  | tick (answer : Answer)
  | process (answer : Answer)
  | onskillplayer (answer : Answer)
  | onspellself (answer : Answer)
  | onnpctalk (answers : List Answer)
  | onopinv (answers : List Answer)
  | onspellinv (answers : List Answer)
  | onopbound1 (answers : List Answer)
  | onopbound2 (answers : List Answer)
  | onoploc1 (answers : List Answer)
  | onoploc2 (answers : List Answer)
  | onattacknpc (answers : List Answer)
  | onkillnpc (answers : List Answer)
  | onwearobj (answers : List Answer)
  | onspellobj (answers : List Answer)
  | ontakeobj (answers : List Answer)
  | onuseobj (answers : List (List Answer))
  | onuseinv (answers : List (List Answer))
  | onusenpc (answers : List (List Answer))
  | onuseloc (answers : List (List Answer))
  | onusebound (answers : List (List Answer))
  | onskillnpc (answers : List Answer) (last : Answer)
  deriving Repr

def dispatch : Dispatch → LuaState → LuaState
  | .tick answer => scriptTick answer
  | .process answer => scriptProcess answer
  | .onskillplayer answer => scriptOnskillplayer answer
  | .onspellself answer => scriptOnspellself answer
  | .onnpctalk answers => scriptOnnpctalk answers
  | .onopinv answers => scriptOnopinv answers
  | .onspellinv answers => scriptOnspellinv answers
  | .onopbound1 answers => scriptOnopbound1 answers
  | .onopbound2 answers => scriptOnopbound2 answers
  | .onoploc1 answers => scriptOnoploc1 answers
  | .onoploc2 answers => scriptOnoploc2 answers
  | .onattacknpc answers => scriptOnattacknpc answers
  | .onkillnpc answers => scriptOnkillnpc answers
  | .onwearobj answers => scriptOnwearobj answers
  | .onspellobj answers => scriptOnspellobj answers
  | .ontakeobj answers => scriptOntakeobj answers
  | .onuseobj answers => scriptOnuseobj answers
  | .onuseinv answers => scriptOnuseinv answers
  | .onusenpc answers => scriptOnusenpc answers
  | .onuseloc answers => scriptOnuseloc answers
  | .onusebound answers => scriptOnusebound answers
  | .onskillnpc answers last => scriptOnskillnpc answers last

end Sundae.Ref
