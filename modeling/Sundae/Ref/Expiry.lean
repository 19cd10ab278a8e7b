import Sundae.Lib.Checked
import Sundae.Ref.Ground

/-!
# The loops over the temporary items

`sweep` says what is left of the list. Here are the loops themselves, over the
cells of the array and the count beside it, with the two at the head of
`server_tick` and in `server_remove_temp_item` as one: both step over what they
keep, and both move the rest down over what they do not.
-/

namespace Sundae.Ref

open Sundae.Lib

/-- `for (size_t j = i; j < count; ++j)`, with `n` turns left: `items[j] =
items[j + 1]`. -/
def moveDown (cells : List GroundItem) (j : Nat) : Nat → Except OutOfBounds (List GroundItem)
  | 0 => .ok cells
  | n + 1 => do
    let item ← load cells (j + 1 : Nat)
    let cells ← store cells j item
    moveDown cells (j + 1) n

/-- `for (size_t i = 0; i < temp_item_count; ++i)`, from `i` on. -/
def tempItemLoop (gone : GroundItem → Bool) (i : Nat) (cells : List GroundItem) (count : Nat) :
    Except OutOfBounds (List GroundItem × Nat) :=
  if _hi : i < count then
    match load cells i with
    | .error e => .error e
    | .ok item =>
      if !gone item then tempItemLoop gone (i + 1) cells count
      else
        match moveDown cells i (count - 1 - i) with
        | .error e => .error e
        | .ok cells => tempItemLoop gone (i + 1) cells (count - 1)
  else .ok (cells, count)
termination_by count - i

/-- `s.tick_counter < (s.temp_items[i].creation_time + 200)` does not hold. -/
def stale (tickCounter : Nat) (item : GroundItem) : Bool :=
  !decide (tickCounter < item.creationTime + 200)

end Sundae.Ref
