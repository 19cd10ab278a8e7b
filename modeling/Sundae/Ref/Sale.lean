import Mathlib.Data.Rat.Defs
import Sundae.Ref.Shop

/-!
# Sales by script

`script_sellinv` of `script.c`, which sells what a player holds to a script.
Its `double` is the exact rational it stands for.
-/

namespace Sundae.Ref

inductive SaleFault where
  | assert (a : Assert)
  /-- a `double` out of range becomes a `uint32_t`, which is undefined -/
  | conversion
  deriving DecidableEq, Repr

/-- A `double` that becomes a `uint32_t` loses its fraction. -/
def toUint32 (x : ℚ) : Except SaleFault Nat :=
  let n := x.num.tdiv x.den
  if 0 ≤ n ∧ n < u32Size then .ok n.toNat else .error .conversion

/-- `id_to_player` -/
def idToPlayer (s : Server) (id : Int) : Option Nat :=
  if id < 0 ∨ maxPlayers ≤ id then none
  else if s.live id.toNat then some id.toNat
  else none

/-- `player_inv_remove_id` and the `player_inv_give` after it, whose amount is
computed when the slots are gone. -/
def sellAway (t : PricedTable) (s : Server) (i id count : Nat) (coins : ItemConfig)
    (amount : List InvItem → ℚ) : Except SaleFault Server :=
  match playerInvRemoveId t.toItemTable s i id count with
  | .error a => .error (.assert a)
  | .ok s =>
    match toUint32 (amount (s.get i).inventory) with
    | .error f => .error f
    | .ok n => .ok (playerInvGive s i coins n)

/-- `script_sellinv`; `none` is the call of `script_cancel`. The source computes with
doubles, which can come out one coin under the exact value: 15 items of value 3 at 60
percent pay 26 there. Here the value is exact. -/
def scriptSellinv (t : PricedTable) (s : Server) (playerId : Int) (itemName : List Char)
    (percentage : Int) : Except SaleFault (Option Server) :=
  match idToPlayer s playerId with
  | none => .ok none
  | some i =>
    match t.byName coinsName with
    | none => .error (.assert .itemConfig)
    | some coins =>
      match t.byName itemName with
      | none => .ok none
      | some item =>
        let value : ℚ := t.value item.id * (percentage / 100)
        let inv := (s.get i).inventory
        if 0 < item.weight then
          if invHeldId item item.id 1 inv then
            (sellAway t s i item.id 1 coins fun _ => value).map some
          else .ok (some s)
        else
          match inv.findIdx? (·.id == item.id) with
          | none => .ok (some s)
          | some k =>
            (sellAway t s i item.id ((inv[k]?.map InvItem.stack).getD 0) coins
              fun inv' => stackRead inv inv' k * value).map some

end Sundae.Ref
