import Sundae.Ref.Equip

/-!
# What a dead player leaves

The part of `player_die` of `player.c` that is about items: the bones, the
slots that go, and what is left of those that stay. Who killed the player is
`victor`.
-/

namespace Sundae.Ref

inductive DeathFault where
  | assert (a : Assert)
  /-- `item->value` read through `NULL` -/
  | nullItem
  /-- `while (p->inv_count > kept_max)` goes on -/
  | turns
  deriving DecidableEq, Repr

def bonesName : List Char := ['b', 'o', 'n', 'e', 's']

/-- The search for `slot`, which reads the value of every slot. -/
def searchLowest (t : GearTable) (inv : List InvItem) : Except DeathFault (Option Nat) :=
  if inv.all fun x => (t.byId x.id).isSome then .ok (lowestSlot t inv) else .error .nullItem

/-- A turn of `while (p->inv_count > kept_max)`; `none` where it ends. -/
def deathTurn (t : GearTable) (keptMax : Nat) (victor : Option Nat) (i : Nat) (s : Server) :
    Except DeathFault (Option Server) :=
  let p := s.get i
  if p.inventory.length ≤ keptMax then .ok none
  else
    match searchLowest t p.inventory with
    | .error f => .error f
    | .ok none => .ok none
    | .ok (some slot) =>
      match p.inventory[slot]? with
      | none => .ok none
      | some x =>
        match t.byId x.id with
        | none => .error .nullItem
        | some item =>
          match playerInvRemoveId t.toItemTable s i item.id
              (if item.weight = 0 then x.stack else 1) with
          | .error a => .error (.assert a)
          | .ok s =>
            let stack :=
              if item.weight = 0 then stackRead p.inventory (s.get i).inventory slot else 1
            .ok (some (serverAddTempItem s victor p.mob.x p.mob.y item.id stack))

/-- `while (p->inv_count > kept_max)`, allowed `n` turns. -/
def deathLoop (t : GearTable) (keptMax : Nat) (victor : Option Nat) (i : Nat) :
    Nat → Server → Except DeathFault Server
  | 0, s =>
    match deathTurn t keptMax victor i s with
    | .error f => .error f
    | .ok none => .ok s
    | .ok (some _) => .error .turns
  | n + 1, s =>
    match deathTurn t keptMax victor i s with
    | .error f => .error f
    | .ok none => .ok s
    | .ok (some s) => deathLoop t keptMax victor i n s

/-- The loop over the slots that are kept, from slot `j` with `n` left. -/
def trimLoop (t : GearTable) (i : Nat) : Nat → Nat → Server → Except DeathFault Server
  | 0, _, s => .ok s
  | n + 1, j, s =>
    match (s.get i).inventory[j]? with
    | none => .ok s
    | some x =>
      match t.byId x.id with
      | none => .error (.assert .itemConfig)
      | some item =>
        if item.weight = 0 ∧ 1 < x.stack then
          match playerInvRemoveId t.toItemTable s i item.id (x.stack - 1) with
          | .error a => .error (.assert a)
          | .ok s => trimLoop t i n (j + 1) s
        else trimLoop t i n (j + 1) s

/-- `kept_max` -/
def keptMax (skulled protectItem : Bool) : Nat :=
  (if skulled then 0 else 3) + if protectItem then 1 else 0

/-- `player_die`, from the bones on. -/
def playerDieItems (t : GearTable) (s : Server) (i : Nat) (victor : Option Nat)
    (skulled protectItem : Bool) : Except DeathFault Server :=
  match t.byName bonesName with
  | none => .error (.assert .itemConfig)
  | some bones =>
    let p := s.get i
    let s := serverAddTempItem s victor p.mob.x p.mob.y bones.id 1
    match deathLoop t (keptMax skulled protectItem) victor i p.inventory.length s with
    | .error f => .error f
    | .ok s => trimLoop t i (s.get i).inventory.length 0 s

end Sundae.Ref
