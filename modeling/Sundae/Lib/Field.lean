import Mathlib.Data.List.Basic

/-!
# A part of a record

A record's part with its getter and setter. A loop whose turns only write the
part, from what the part was, leaves the record with the part written once, by
the same loop over the part alone.
-/

namespace Sundae.Lib

structure Field (σ τ : Type) where
  get : σ → τ
  set : τ → σ → σ
  get_set : ∀ t s, get (set t s) = t
  set_set : ∀ t t' s, set t' (set t s) = set t' s
  set_get : ∀ s, set (get s) s = s

namespace Field

variable {σ τ β ρ : Type} (F : Field σ τ)

def through (f : τ → τ) (s : σ) : σ := F.set (f (F.get s)) s

theorem foldl_through (g : β → τ → τ) (l : List β) (s : σ) :
    l.foldl (fun s y => F.through (g y) s) s = F.set (l.foldl (fun t y => g y t) (F.get s)) s := by
  induction l generalizing s with
  | nil => exact (F.set_get s).symm
  | cons y l ih =>
      rw [List.foldl_cons, ih, List.foldl_cons, through, F.get_set, F.set_set]

end Field

variable {β ρ : Type}

/-- A loop that appends. -/
theorem foldl_append_map (f : β → ρ) (l : List β) (t : List ρ) :
    l.foldl (fun t y => t ++ [f y]) t = t ++ l.map f := by
  induction l generalizing t with
  | nil => simp
  | cons y l ih => simp [ih]

/-- A table of slots and the number of them in use. -/
def fillSlot (t : (Nat → ρ) × Nat) (k : Nat) (v : ρ) : (Nat → ρ) × Nat :=
  (fun j => if j = k then v else t.1 j, t.2 + 1)

/-- A loop that fills the first `n` slots one after another. -/
theorem foldl_fillSlot (f : Nat → ρ) (t : (Nat → ρ) × Nat) (n : Nat) :
    (List.range n).foldl (fun t i => fillSlot t i (f i)) t =
      (fun j => if j < n then f j else t.1 j, t.2 + n) := by
  induction n with
  | zero => simp
  | succ n ih =>
      rw [List.range_succ, List.foldl_append, ih, List.foldl_cons, List.foldl_nil, fillSlot]
      refine Prod.ext ?_ (by simp [Nat.add_assoc])
      funext j
      show (if j = n then f n else if j < n then f j else t.1 j) = if j < n + 1 then f j else t.1 j
      by_cases hj : j = n
      · subst hj
        simp
      · have hlt : j < n + 1 ↔ j < n := by omega
        simp [hj, hlt]

/-- The same loop over a record that has the table as a part. -/
theorem Field.foldl_fill {σ : Type} (F : Field σ ((Nat → ρ) × Nat)) (f : Nat → ρ) (n : Nat) (s : σ) :
    (List.range n).foldl (fun s i => F.through (fun t => fillSlot t i (f i)) s) s =
      F.set (fun j => if j < n then f j else (F.get s).1 j, (F.get s).2 + n) s := by
  rw [F.foldl_through fun i t => fillSlot t i (f i), foldl_fillSlot]

/-- The slots in use, in order. -/
def slots (t : (Nat → ρ) × Nat) : List ρ := (List.range t.2).map t.1

theorem slots_filled {τ : Type} (read : Nat → ρ → τ) (f g : Nat → ρ) (n : Nat) :
    slots (fun j => read j (if j < n then f j else g j), 0 + n) =
      slots (fun j => read j (f j), n) := by
  unfold slots
  rw [Nat.zero_add]
  apply List.map_congr_left
  intro j hj
  exact congrArg (read j) (if_pos (List.mem_range.1 hj))

theorem slots_map {τ : Type} (f : ρ → τ) (t : (Nat → ρ) × Nat) :
    slots (fun j => f (t.1 j), t.2) = (slots t).map f := by
  simp [slots]

end Sundae.Lib
