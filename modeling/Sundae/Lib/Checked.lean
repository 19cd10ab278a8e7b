import Mathlib.Data.List.Basic

/-!
# Arrays whose bounds are watched

Reads and writes that answer the index they were not allowed. A buffer that is
filled from the front has what was written as a prefix; the next write extends
it as long as there is room.
-/

namespace Sundae.Lib

inductive OutOfBounds where
  | read (i : Int)
  | write (i : Nat)
  deriving DecidableEq, Repr

variable {α : Type}

def load (xs : List α) (i : Int) : Except OutOfBounds α :=
  if i < 0 then .error (.read i)
  else
    match xs[i.toNat]? with
    | some x => .ok x
    | none => .error (.read i)

def store (xs : List α) (i : Nat) (x : α) : Except OutOfBounds (List α) :=
  if i < xs.length then .ok (xs.set i x) else .error (.write i)

/-- `memcpy` to `xs + i`. -/
def copy (xs : List α) (i : Nat) : List α → Except OutOfBounds (List α)
  | [] => .ok xs
  | y :: ys =>
    match store xs i y with
    | .error e => .error e
    | .ok xs => copy xs (i + 1) ys

@[simp] theorem ok_bind {ε β : Type} (x : α) (f : α → Except ε β) :
    (Except.ok x >>= f) = f x := rfl

@[simp] theorem error_bind {ε β : Type} (e : ε) (f : α → Except ε β) :
    (Except.error e >>= f) = Except.error e := rfl

/-- What goes through has gone through up to the last part. -/
theorem bind_eq_ok {ε β : Type} {x : Except ε α} {f : α → Except ε β} {b : β} :
    (x >>= f) = .ok b ↔ ∃ a, x = .ok a ∧ f a = .ok b := by
  cases x with
  | error e => simp
  | ok a => simp

section

variable {xs ys cs : List α} {x : α} {i : Nat}

theorem load_of_getElem? (h : xs[i]? = some x) : load xs (i : Int) = .ok x := by
  unfold load
  rw [if_neg (by omega), Int.toNat_natCast, h]

theorem load_lt (h : i < xs.length) : load xs (i : Int) = .ok xs[i] :=
  load_of_getElem? (List.getElem?_eq_getElem h)

theorem load_ge (h : xs.length ≤ i) : load xs (i : Int) = .error (.read i) := by
  unfold load
  rw [if_neg (by omega), Int.toNat_natCast, List.getElem?_eq_none h]

theorem store_lt (h : i < xs.length) : store xs i x = .ok (xs.set i x) := if_pos h

theorem store_ge (h : xs.length ≤ i) : store xs i x = .error (.write i) := if_neg (by omega)

/-- The element at the seam of two pieces. -/
theorem load_append_cons (xs : List α) (x : α) (ys : List α) :
    load (xs ++ x :: ys) (xs.length : Int) = .ok x :=
  load_of_getElem? (by rw [List.getElem?_append_right (Nat.le_refl _), Nat.sub_self]; rfl)

theorem store_append_cons (xs : List α) (x y : α) (ys : List α) :
    store (xs ++ x :: ys) xs.length y = .ok (xs ++ y :: ys) := by
  rw [store_lt (by simp), List.set_append_right _ _ (Nat.le_refl _), Nat.sub_self,
    List.set_cons_zero]

/-- A write behind what is there already. -/
theorem store_prefix (hcs : cs <+: xs) (h : cs.length < xs.length) :
    ∃ xs', store xs cs.length x = .ok xs' ∧ cs ++ [x] <+: xs' ∧ xs'.length = xs.length := by
  obtain ⟨rest, rfl⟩ := hcs
  cases rest with
  | nil =>
      rw [List.append_nil] at h
      exact absurd h (Nat.lt_irrefl _)
  | cons r rest =>
      refine ⟨cs ++ x :: rest, store_append_cons cs r x rest, ⟨rest, ?_⟩, ?_⟩
      · rw [List.append_assoc, List.singleton_append]
      · simp only [List.length_append, List.length_cons]

/-- A write is the same in an array that is longer. -/
theorem store_append (h : store xs i x = .ok cs) (ys : List α) :
    store (xs ++ ys) i x = .ok (cs ++ ys) := by
  unfold store at h
  split at h
  · next hi =>
    cases h
    rw [store_lt (by rw [List.length_append]; omega), List.set_append_left _ _ hi]
  · cases h

theorem copy_prefix (hcs : cs <+: xs) (h : cs.length + ys.length ≤ xs.length) :
    ∃ xs', copy xs cs.length ys = .ok xs' ∧ cs ++ ys <+: xs' ∧ xs'.length = xs.length := by
  induction ys generalizing cs xs with
  | nil => exact ⟨xs, rfl, by rwa [List.append_nil], rfl⟩
  | cons y ys ih =>
      rw [List.length_cons] at h
      obtain ⟨xs', hstore, hpre, hlen⟩ := store_prefix (x := y) hcs (by omega)
      have hroom : (cs ++ [y]).length + ys.length ≤ xs'.length := by
        rw [List.length_append, List.length_singleton]
        omega
      obtain ⟨xs'', hcopy, hpre', hlen'⟩ := ih hpre hroom
      rw [List.length_append, List.length_singleton] at hcopy
      rw [List.append_assoc, List.singleton_append] at hpre'
      refine ⟨xs'', ?_, hpre', hlen'.trans hlen⟩
      rw [copy, hstore]
      exact hcopy

end

end Sundae.Lib
