import Sundae.Lib.Entries
import Sundae.Ref.Config
import Sundae.Ref.Stat

/-!
# Variables of scripts

`player_variable_get` and `player_variable_set` of `player.c`, and the two
functions of `script.c` that Lua calls, for a player that is there. The value
changes its type four times on its way through: Lua has 64 bits with a sign,
the parameter 32 with a sign, the entry and the local of `script_getvar` 32
without.

`memory` says of a write whether `realloc` would give more memory to it. The
copy of the name that `strdup` makes is taken to fit.
-/

namespace Sundae.Ref

open Sundae.Lib

/-- `PLAYER_VAR_INC_SIZE` -/
def playerVarIncSize : Nat := 16

/-- `struct playervar` -/
structure PlayerVar where
  name : List Char
  value : Nat
  deriving DecidableEq, Repr

/-- The part of `struct player`: `variables`, with `variable_count` as its
length, and `variable_max`. `room` is not a field of the source: it is how many
entries the memory has that `variables` points to. -/
structure PlayerVars where
  vars : List PlayerVar := []
  variableMax : Nat := 0
  room : Nat := 0
  deriving DecidableEq, Repr

inductive VarFault where
  /-- An entry is written behind the memory. -/
  | outside
  deriving DecidableEq, Repr

/-- What a `uint32_t` keeps of a number. -/
def asUint32 (n : Int) : Nat := (n % 4294967296).toNat

/-- What `reallocarr` of `ext/reallocarr.c` answers: 0, or `errno`, which is
`ENOMEM`. -/
def reallocarr (memory : Bool) : Int := if memory then 0 else 12

namespace PlayerVars

def playerVariableGet (p : PlayerVars) (varname : List Char) : Int :=
  match p.vars.find? fun v => strcasecmp varname v.name with
  | some v => wrap32 v.value
  | none => 0

/-- The growth of the array, if it is full; `none` is the early return. -/
def growVariables (p : PlayerVars) (memory : Bool) : Option PlayerVars :=
  if p.vars.length < p.variableMax then some p
  else
    let nextSize := p.variableMax + playerVarIncSize
    let ret := reallocarr memory
    if ret = -1 then none
    else some { p with
      variableMax := nextSize
      room := if ret = 0 then nextSize else p.room }

def playerVariableSet (p : PlayerVars) (varname : List Char) (value : Int) (memory : Bool) :
    Except VarFault PlayerVars :=
  let amend (v : PlayerVar) : Option PlayerVar :=
    if value = 0 then none else some { v with value := asUint32 value }
  match amendFirst (fun v => strcasecmp varname v.name) amend p.vars with
  | some vars => .ok { p with vars := vars }
  | none =>
    match growVariables p memory with
    | none => .ok p
    | some p =>
      if p.vars.length < p.room then
        .ok { p with vars := p.vars ++ [⟨varname, asUint32 value⟩] }
      else .error .outside

end PlayerVars

/-- `script_getvar`, with the integer that Lua gets. -/
def scriptGetvar (p : PlayerVars) (varname : List Char) : Int :=
  let value := asUint32 (p.playerVariableGet varname)
  value

/-- `script_setvar`, where `varvalue` is cut to the parameter. -/
def scriptSetvar (p : PlayerVars) (varname : List Char) (varvalue : Int) (memory : Bool) :
    Except VarFault PlayerVars :=
  p.playerVariableSet varname (wrap32 varvalue) memory

/-- A write of a script, of any 32-bit signed value. -/
structure SetVar where
  name : List Char
  value : Int
  memory : Bool := true
  in_range : -2147483648 ≤ value ∧ value < 2147483648 := by decide

def setVarStep (p : PlayerVars) (e : SetVar) : Except VarFault PlayerVars :=
  scriptSetvar p e.name e.value e.memory

end Sundae.Ref
