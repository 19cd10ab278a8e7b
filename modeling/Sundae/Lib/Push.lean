import Mathlib.Logic.Function.Basic

/-!
# What a listener holds

A listener holds for every key the last value it was told. Messages that all
carry one value leave it with that value for the keys they are about, and with
what it held for the others: to follow a changing value it is enough to be told
about the keys whose value has changed.
-/

namespace Sundae.Lib

variable {κ ν : Type} [DecidableEq κ]

/-- What is held after the messages, the last of them last. -/
def hear (held : κ → ν) (messages : List (κ × ν)) : κ → ν :=
  messages.foldl (fun held m => Function.update held m.1 m.2) held

variable {held : κ → ν} {messages : List (κ × ν)} {k : κ} {v : ν}

theorem hear_of_silent (h : ∀ m ∈ messages, m.1 ≠ k) : hear held messages k = held k := by
  induction messages generalizing held with
  | nil => rfl
  | cons m messages ih =>
      have hm : k ≠ m.1 := Ne.symm (h m List.mem_cons_self)
      rw [hear, List.foldl_cons, ← hear, ih fun x hx => h x (List.mem_cons_of_mem _ hx),
        Function.update_of_ne hm]

theorem hear_of_agreed (h : ∀ m ∈ messages, m.1 = k → m.2 = v)
    (hk : held k = v ∨ ∃ m ∈ messages, m.1 = k) : hear held messages k = v := by
  induction messages generalizing held with
  | nil =>
      rcases hk with hk | ⟨m, hm, -⟩
      · exact hk
      · cases hm
  | cons m messages ih =>
      rw [hear, List.foldl_cons, ← hear]
      apply ih fun x hx => h x (List.mem_cons_of_mem _ hx)
      by_cases hm : m.1 = k
      · rw [← hm, Function.update_self]
        exact .inl (h m List.mem_cons_self hm)
      · rw [Function.update_of_ne (Ne.symm hm)]
        rcases hk with hk | ⟨x, hx, hxk⟩
        · exact .inl hk
        · rcases List.mem_cons.1 hx with rfl | hx
          · exact absurd hxk hm
          · exact .inr ⟨x, hx, hxk⟩

/-- One value for the keys of `about`. -/
theorem hear_uniform (about : κ → Prop) (h : ∀ k w, (k, w) ∈ messages ↔ w = v ∧ about k) (k : κ) :
    (about k → hear held messages k = v) ∧ (¬ about k → hear held messages k = held k) := by
  constructor
  · intro hk
    apply hear_of_agreed
    · rintro ⟨k', w⟩ hm -
      exact ((h k' w).1 hm).1
    · exact .inr ⟨(k, v), (h k v).2 ⟨rfl, hk⟩, rfl⟩
  · intro hk
    apply hear_of_silent
    rintro ⟨k', w⟩ hm rfl
    exact hk ((h k' w).1 hm).2

end Sundae.Lib
