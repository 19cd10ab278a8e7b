import Mathlib.Data.List.Basic

/-!
# Loops over a list

What has been seen so far is a prefix of the list, so an invariant may speak of
it. A loop whose turns may fail does not fail as long as the invariant lets each
turn succeed.
-/

namespace Sundae.Lib

variable {σ α β ε : Type}

/-- The turns of a loop, until one fails. -/
def turns (step : σ → α → Except ε σ) : List α → σ → Except ε σ
  | [], s => .ok s
  | a :: l, s =>
    match step s a with
    | .error e => .error e
    | .ok s => turns step l s

/-- A loop that rewrites the elements it is told to look at, if they are of a
kind, which they are no more afterwards. -/
theorem foldl_rewrite [DecidableEq α] {p : β → Prop} [DecidablePred p] {g : β → β}
    (hg : ∀ b, ¬ p (g b)) (is : List α) (f : α → β) (j : α) :
    (is.foldl (fun f i => if p (f i) then fun k => if k = i then g (f i) else f k else f) f) j =
      if j ∈ is ∧ p (f j) then g (f j) else f j := by
  induction is generalizing f with
  | nil => simp
  | cons i is ih =>
      rw [List.foldl_cons, ih]
      by_cases hi : p (f i)
      · by_cases hj : j = i
        · subst hj
          simp [hi, hg]
        · simp [hi, hj]
      · by_cases hj : j = i
        · subst hj
          simp [hi]
        · simp [hi, hj]

end Sundae.Lib
