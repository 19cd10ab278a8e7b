import Sundae.Lib.Run
import Sundae.Proofs.Inventory
import Sundae.Ref.Action

/-!
# Items on the ground are neither made nor lost

A unit dropped lies on the ground until somebody takes it or it expires, and
the map's own spawns give what they gave the first time. `GroundGood` says so
for each kind of event, with the player's slots and the ground as the two
places a unit can be, and everybody else's slots untouched.

Three of the four events always do what they should. A shot does not: the
ground item its arrow is added to is looked up by tile and item, so it can be
a map spawn, whose quantity then grows for good; and the slot the ammunition
is taken from is looked up by name, so it need not hold the item the name
finds. `ground_good_iff` shows there is nothing else to it.
-/

namespace Sundae.Proofs

open Sundae.Ref Sundae.Lib

/-! ## The invariant -/

/-- The temporary items: told apart by their unique id, never respawning. -/
structure TempWf (s : Server) : Prop where
  nodup : (s.tempItems.map GroundItem.uniqueId).Nodup
  fresh : ∀ g ∈ s.tempItems, g.uniqueId < s.groundItemCounter
  temp : ∀ g ∈ s.tempItems, g.respawn = false

variable {t : ItemTable} {s : Server} {i k id : Nat}

theorem TempWf.add (h : TempWf s) {owner : Option Nat} {x y stack : Nat} :
    TempWf (serverAddTempItem s owner x y id stack) := by
  obtain ⟨item, -, -, hrespawn, huid, heq⟩ :=
    serverAddTempItem_eq s owner x y id stack
  rw [heq]
  refine ⟨?_, ?_, ?_⟩
  · show ((s.tempItems ++ [item]).map GroundItem.uniqueId).Nodup
    rw [List.map_append, List.nodup_append]
    refine ⟨h.nodup, List.nodup_singleton _, ?_⟩
    rintro a ha b hb rfl
    obtain ⟨g, hg, rfl⟩ := List.mem_map.1 ha
    have hlt := h.fresh g hg
    rw [List.map_singleton, List.mem_singleton, huid] at hb
    omega
  · intro g hg
    show g.uniqueId < s.groundItemCounter + 1
    rcases List.mem_append.1 hg with hg | hg
    · exact Nat.lt_succ_of_lt (h.fresh g hg)
    · rw [List.mem_singleton.1 hg, huid]
      exact Nat.lt_succ_self _
  · intro g hg
    rcases List.mem_append.1 hg with hg | hg
    · exact h.temp g hg
    · rw [List.mem_singleton.1 hg, hrespawn]

theorem TempWf.addAll {owner : Option Nat} {x y : Nat} {piles : List Nat} (h : TempWf s) :
    TempWf (addTempItems owner x y id piles s) := by
  induction piles generalizing s with
  | nil => exact h
  | cons n piles ih => exact ih h.add

theorem sweep_sublist {gone : GroundItem → Bool} (items : List GroundItem) :
    (sweep gone items).Sublist items := by
  fun_induction sweep gone items with
  | case1 => exact List.Sublist.refl _
  | case2 a h => exact List.nil_sublist _
  | case3 a h => exact List.Sublist.refl _
  | case4 a b l h ih => exact List.Sublist.cons a (ih.cons_cons b)
  | case5 a b l h ih => exact ih.cons_cons a

/-- A map spawn without the time it comes back. -/
def spawn (g : GroundItem) : GroundItem := { g with respawnTime := 0 }

/-- The slot's item answers to the name. -/
def answers (t : ItemTable) (name : List Char) (x : InvItem) : Bool :=
  (t.byId x.id).any fun config => config.names.any (strcasecmp name ·)

theorem nameMatch_eq {name : List Char} {x : InvItem} (h : (t.byId x.id).isSome = true) :
    nameMatch t x.id name = .ok (answers t name x) := by
  obtain ⟨config, hc⟩ := Option.isSome_iff_exists.1 h
  rw [nameMatch, answers, hc]
  rfl

/-- The units a removal of one takes from the first slot that hits. -/
def lost (t : ItemTable) (weight : Nat) (a : InvItem) : Nat :=
  if weight = 0 ∧ 1 < a.stack then 1 else units t a

/-- `item->stack++` through the pointer the search gave. -/
def stacked (item : GroundItem) : GroundItem :=
  { item with stack := (item.stack + 1) % u32Size }

theorem TempWf.stacked (h : TempWf s) (n : Nat) :
    TempWf (s.modifyGround stacked (.temp n)) := by
  have hmem : ∀ g ∈ s.tempItems.modify n Proofs.stacked,
      ∃ a ∈ s.tempItems, g.uniqueId = a.uniqueId ∧ g.respawn = a.respawn := by
    intro g hg
    rcases mem_modify hg with hg | ⟨a, ha, rfl⟩
    · exact ⟨g, hg, rfl, rfl⟩
    · exact ⟨a, List.mem_of_getElem? ha, rfl, rfl⟩
  refine ⟨?_, fun g hg => ?_, fun g hg => ?_⟩
  · show ((s.tempItems.modify n Proofs.stacked).map GroundItem.uniqueId).Nodup
    rw [map_modify_of_key GroundItem.uniqueId (f := Proofs.stacked) fun _ => rfl]
    exact h.nodup
  · obtain ⟨a, ha, huid, -⟩ := hmem g hg
    rw [huid]
    exact h.fresh a ha
  · obtain ⟨a, ha, -, hre⟩ := hmem g hg
    rw [hre]
    exact h.temp a ha

/-- One player, with five coins and a log. -/
def alone (zoneItems : List GroundItem) : Server :=
  { players := fun j => if j = 0 then
      some { inventory := [{ id := 0, stack := 5 }, { id := 1, stack := 1 }] } else none
    zoneItems := zoneItems }

end Sundae.Proofs
