import Mathlib.Data.List.Basic

/-!
# Programs over a store with one transaction

A store has the rows of the last commit and, while a transaction is open, the
rows as that transaction sees them. Any call to it may fail; which ones do is
a stream of answers fixed beforehand, so that a program's run is a function of
that stream. A program gives up at the first failure, as code does that
returns early on every error, unless it says otherwise with `attempt`.

`Body` is the discipline of what may stand between opening a transaction and
closing it, and `Keeps` is the rule for what such a program cannot change.
Both are closed under sequencing and loops, so a program's proof follows its
text.
-/

namespace Sundae.Lib

structure Store (δ : Type) where
  saved : δ
  working : Option δ := none
  fails : Nat → Bool
  calls : Nat := 0

namespace Store

variable {δ : Type}

/-- The rows a query sees. -/
def rows (c : Store δ) : δ := c.working.getD c.saved

def isOpen (c : Store δ) : Prop := c.working.isSome = true

/-- The next call has been made. -/
def tick (c : Store δ) : Store δ := { c with calls := c.calls + 1 }

def setRows (c : Store δ) (d : δ) : Store δ :=
  match c.working with
  | none => { c with saved := d }
  | some _ => { c with working := some d }

/-- The store when a transaction has just been opened in it. -/
def opened (c : Store δ) : Store δ := { c.tick with working := some c.saved }

/-- No call made between `c` and the later `c'` failed. -/
def Clean (c c' : Store δ) : Prop := ∀ k, c.calls ≤ k → k < c'.calls → c.fails k = false

/-- `P` of the rows a query sees, and of the committed ones if `both`. -/
def Holds (both : Bool) (P : δ → Prop) (c : Store δ) : Prop :=
  (both = true → P c.saved) ∧ P c.rows

variable {c : Store δ} {both : Bool} {P : δ → Prop}

theorem rows_of_closed (ho : ¬ c.isOpen) : c.rows = c.saved := by
  unfold rows
  rw [Option.not_isSome_iff_eq_none.1 ho, Option.getD_none]

theorem Holds.of_closed (ho : ¬ c.isOpen) (h : P c.saved) : c.Holds both P :=
  ⟨fun _ => h, (rows_of_closed ho).symm ▸ h⟩

theorem rows_setRows {d : δ} : (c.setRows d).rows = d := by
  unfold setRows
  cases hw : c.working with
  | none => simp only [rows, Option.getD_none]
  | some w => rfl

theorem setRows_rows : c.setRows c.rows = c := by
  obtain ⟨saved, working, fails, calls⟩ := c
  cases working with
  | none => rfl
  | some w => rfl

theorem Holds.setRows {d : δ} (h : c.Holds both P) (hd : P d) : (c.setRows d).Holds both P := by
  refine ⟨fun hb => ?_, rows_setRows.symm ▸ hd⟩
  unfold Store.setRows
  split
  · exact hd
  · exact h.1 hb

end Store

/-- A program over the store and a memory `μ` of its own; `none` is giving up. -/
def Act (δ μ α : Type) : Type := Store δ → μ → Option α × Store δ × μ

namespace Act

variable {δ μ α β : Type}

def bind (a : Act δ μ α) (f : α → Act δ μ β) : Act δ μ β := fun c m =>
  match a c m with
  | (none, c, m) => (none, c, m)
  | (some x, c, m) => f x c m

instance : Monad (Act δ μ) where
  pure x := fun c m => (some x, c, m)
  bind := bind

def fail : Act δ μ α := fun c m => (none, c, m)

/-- One call: it fails, or reads and changes the rows there are. -/
def call (f : δ → α × δ) : Act δ μ α := fun c m =>
  if c.fails c.calls then (none, c.tick, m)
  else (some (f c.rows).1, c.tick.setRows (f c.rows).2, m)

/-- Opens a transaction, if none is open. -/
def start : Act δ μ Unit := fun c m =>
  if c.fails c.calls || c.working.isSome then (none, c.tick, m)
  else (some (), c.opened, m)

/-- Closes the transaction and keeps its rows. One that is not closed stays
open with them. -/
def commit : Act δ μ Unit := fun c m =>
  match c.working with
  | none => (none, c.tick, m)
  | some w =>
    if c.fails c.calls then (none, c.tick, m)
    else (some (), { c.tick with saved := w, working := none }, m)

def get : Act δ μ μ := fun c m => (some m, c, m)

/-- What a query that has begun will see. -/
def rows : Act δ μ δ := fun c m => (some c.rows, c, m)

def modify (f : μ → μ) : Act δ μ Unit := fun c m => (some (), c, f m)

/-- Goes on whether the program gives up or not. -/
def attempt (a : Act δ μ α) : Act δ μ (Option α) := fun c m => (some (a c m).1, (a c m).2)

def each (l : List β) (f : β → Act δ μ Unit) : Act δ μ Unit :=
  match l with
  | [] => pure ()
  | x :: l => do f x; each l f

variable {a : Act δ μ α} {f : α → Act δ μ β} {c : Store δ} {m : μ}

theorem bind_none (h : (a c m).1 = none) : (a >>= f) c m = (none, (a c m).2) := by
  show bind a f c m = _
  unfold bind
  split
  · next heq => rw [heq]
  · next heq =>
    rw [heq] at h
    cases h

theorem bind_some {x : α} (h : (a c m).1 = some x) :
    (a >>= f) c m = f x (a c m).2.1 (a c m).2.2 := by
  show bind a f c m = _
  unfold bind
  split
  · next heq =>
    rw [heq] at h
    cases h
  · next heq =>
    rw [heq] at h ⊢
    rw [Option.some.inj h]

/-! ## Inside a transaction -/

/-- What a program's run leaves of the transaction it was started in. -/
structure Ran (c : Store δ) (r : Option α × Store δ × μ) : Prop where
  isOpen : r.2.1.isOpen
  saved : r.2.1.saved = c.saved
  fails : r.2.1.fails = c.fails
  calls : c.calls ≤ r.2.1.calls
  done : r.1.isSome = true ↔ c.Clean r.2.1

/-- A program that leaves an open transaction open and what was committed
alone, and gives up exactly when one of its calls fails. -/
def Body (a : Act δ μ α) : Prop := ∀ c m, c.isOpen → Ran c (a c m)

theorem Body.pure (x : α) : Body (pure x : Act δ μ α) := fun _ _ ho =>
  ⟨ho, rfl, rfl, Nat.le_refl _, iff_of_true rfl fun _ h h' => absurd h' (Nat.not_lt.2 h)⟩

theorem clean_trans {c d e : Store δ} (hf : d.fails = c.fails) (hcd : c.calls ≤ d.calls)
    (hde : d.calls ≤ e.calls) : c.Clean e ↔ c.Clean d ∧ d.Clean e := by
  unfold Store.Clean
  rw [hf]
  constructor
  · intro h
    exact ⟨fun k h1 h2 => h k h1 (Nat.lt_of_lt_of_le h2 hde),
      fun k h1 h2 => h k (Nat.le_trans hcd h1) h2⟩
  · intro h k h1 h2
    by_cases hk : k < d.calls
    · exact h.1 k h1 hk
    · exact h.2 k (Nat.not_lt.1 hk) h2

theorem Body.bind (ha : Body a) (hf : ∀ x, Body (f x)) : Body (a >>= f) := by
  intro c m ho
  have hr := ha c m ho
  cases hx : (a c m).1 with
  | none =>
      have hdone := hr.done
      rw [hx] at hdone
      rw [bind_none hx]
      exact ⟨hr.isOpen, hr.saved, hr.fails, hr.calls, hdone⟩
  | some x =>
      have hs := hf x (a c m).2.1 (a c m).2.2 hr.isOpen
      have hclean := hr.done.1 (by rw [hx]; rfl)
      rw [bind_some hx]
      refine ⟨hs.isOpen, hs.saved.trans hr.saved, hs.fails.trans hr.fails,
        Nat.le_trans hr.calls hs.calls, ?_⟩
      rw [hs.done, clean_trans hr.fails hr.calls hs.calls, and_iff_right hclean]

theorem clean_tick {d : Store δ} (h : d.calls = c.calls + 1) :
    c.Clean d ↔ c.fails c.calls = false := by
  unfold Store.Clean
  rw [h]
  constructor
  · intro hk
    exact hk c.calls (Nat.le_refl _) (Nat.lt_succ_self _)
  · intro hf k h1 h2
    rw [Nat.le_antisymm (Nat.le_of_lt_succ h2) h1]
    exact hf

theorem call_of_fails {f : δ → α × δ} (hf : c.fails c.calls = true) :
    call f c m = (none, c.tick, m) := if_pos hf

theorem call_of_ok {f : δ → α × δ} (hf : c.fails c.calls = false) :
    call f c m = (some (f c.rows).1, c.tick.setRows (f c.rows).2, m) :=
  if_neg (Bool.eq_false_iff.1 hf)

/-- A call that reads. -/
theorem read_bind (g : δ → α) {k : α → Act δ μ β} :
    (call (fun d => (g d, d)) >>= k) c m =
      if c.fails c.calls = true then (none, c.tick, m) else k (g c.rows) c.tick m := by
  cases hf : c.fails c.calls with
  | true =>
      rw [bind_none (by rw [call_of_fails hf]), call_of_fails hf]
      rfl
  | false =>
      have hrows : c.tick.setRows c.rows = c.tick := Store.setRows_rows (c := c.tick)
      rw [bind_some (by rw [call_of_ok hf]), call_of_ok hf, hrows]
      rfl

theorem Body.call (f : δ → α × δ) : Body (call f : Act δ μ α) := by
  intro c m ho
  unfold Act.call
  cases hf : c.fails c.calls with
  | true =>
      refine ⟨ho, rfl, rfl, Nat.le_succ _, ?_⟩
      show (none : Option α).isSome = true ↔ c.Clean c.tick
      rw [clean_tick (d := c.tick) rfl, hf]
      simp
  | false =>
      obtain ⟨w, hw⟩ := Option.isSome_iff_exists.1 ho
      have hset : c.tick.setRows (f c.rows).2 = { c.tick with working := some (f c.rows).2 } := by
        simp only [Store.setRows, Store.tick, hw]
      rw [if_neg Bool.false_ne_true, hset]
      exact ⟨rfl, rfl, rfl, Nat.le_succ _, iff_of_true rfl ((clean_tick rfl).2 hf)⟩

theorem Body.get : Body (get : Act δ μ μ) := fun c m ho => Body.pure m c m ho

theorem Body.rows : Body (rows : Act δ μ δ) := fun c m ho => Body.pure c.rows c m ho

theorem Body.modify (g : μ → μ) : Body (modify g : Act δ μ Unit) := fun _ _ ho =>
  ⟨ho, rfl, rfl, Nat.le_refl _, iff_of_true rfl fun _ h h' => absurd h' (Nat.not_lt.2 h)⟩

theorem Body.each (l : List β) {g : β → Act δ μ Unit} (hg : ∀ x, Body (g x)) :
    Body (each l g) := by
  induction l with
  | nil => exact Body.pure ()
  | cons x l ih => exact Body.bind (hg x) fun _ => ih

/-! ## To the end of a transaction -/

theorem start_of_open (ho : c.isOpen) : start c m = (none, c.tick, m) := by
  have hw : c.working.isSome = true := ho
  unfold Act.start
  rw [hw, Bool.or_true, if_pos rfl]

theorem start_of_fails (hf : c.fails c.calls = true) : start c m = (none, c.tick, m) := by
  unfold Act.start
  rw [hf, Bool.true_or, if_pos rfl]

theorem start_bind (ho : ¬ c.isOpen) (hf : c.fails c.calls = false) {g : Unit → Act δ μ β} :
    (start >>= g) c m = g () c.opened m := by
  have hw : c.working.isSome = false := Bool.eq_false_iff.2 ho
  have hstart : (start : Act δ μ Unit) c m = (some (), c.opened, m) := by
    unfold Act.start
    rw [hf, hw, Bool.or_false, if_neg Bool.false_ne_true]
  rw [bind_some (by rw [hstart]), hstart]

theorem start_bind_none (h : c.isOpen ∨ c.fails c.calls = true) {g : Unit → Act δ μ β} :
    (start >>= g) c m = (none, c.tick, m) := by
  have hstart : (start : Act δ μ Unit) c m = (none, c.tick, m) :=
    h.elim start_of_open start_of_fails
  rw [bind_none (by rw [hstart]), hstart]

theorem get_bind {g : μ → Act δ μ β} : (get >>= g) c m = g m c m := rfl

/-- What a program that should close the transaction it was started in comes
to: it has closed it, and says so, exactly when no call failed and `ok`. -/
structure Closes (c : Store δ) (ok : Prop) (r : Option α × Store δ × μ) : Prop where
  fails : r.2.1.fails = c.fails
  calls : c.calls ≤ r.2.1.calls
  moved : ¬ r.2.1.isOpen → c.calls < r.2.1.calls
  closed : ¬ r.2.1.isOpen ↔ c.Clean r.2.1 ∧ ok
  done : r.1.isSome = true ↔ c.Clean r.2.1 ∧ ok

theorem Closes.bind {ok : Prop} (ha : Body a) (ho : c.isOpen)
    (hf : ∀ x c' m', a c m = (some x, c', m') → c'.isOpen → Closes c' ok (f x c' m')) :
    Closes c ok ((a >>= f) c m) := by
  have hr := ha c m ho
  cases hx : (a c m).1 with
  | none =>
      have hdirty : ¬ c.Clean (a c m).2.1 := by
        rw [← hr.done, hx]
        exact Bool.false_ne_true
      rw [bind_none hx]
      exact ⟨hr.fails, hr.calls, fun h => absurd hr.isOpen h,
        iff_of_false (not_not.2 hr.isOpen) fun h => hdirty h.1,
        iff_of_false Bool.false_ne_true fun h => hdirty h.1⟩
  | some x =>
      have hs := hf x (a c m).2.1 (a c m).2.2 (by rw [← hx]) hr.isOpen
      have hclean := hr.done.1 (by rw [hx]; rfl)
      rw [bind_some hx]
      refine ⟨hs.fails.trans hr.fails, Nat.le_trans hr.calls hs.calls,
        fun h => Nat.lt_of_le_of_lt hr.calls (hs.moved h), ?_, ?_⟩
      · rw [hs.closed, clean_trans hr.fails hr.calls hs.calls, and_iff_right hclean]
      · rw [hs.done, clean_trans hr.fails hr.calls hs.calls, and_iff_right hclean]

theorem Closes.of_true {ok : Prop} {r : Option α × Store δ × μ} (hok : ok)
    (h : Closes c True r) : Closes c ok r := by
  rw [eq_true hok]
  exact h

theorem Closes.of_false {ok : Prop} {r : Option α × Store δ × μ} (hok : ¬ ok)
    (h : Closes c False r) : Closes c ok r := by
  rw [eq_false hok]
  exact h

theorem Closes.fail (ho : c.isOpen) : Closes c False ((fail : Act δ μ α) c m) :=
  ⟨rfl, Nat.le_refl _, fun h => absurd ho h, iff_of_false (not_not.2 ho) And.right,
    iff_of_false Bool.false_ne_true And.right⟩

theorem Closes.commit (ho : c.isOpen) : Closes c True ((Act.commit : Act δ μ Unit) c m) := by
  obtain ⟨w, hw⟩ := Option.isSome_iff_exists.1 ho
  simp only [Act.commit, hw]
  cases hf : c.fails c.calls with
  | true =>
      rw [if_pos rfl]
      have hdirty : ¬ c.Clean c.tick := by
        rw [clean_tick rfl, hf]
        exact Bool.noConfusion
      exact ⟨rfl, Nat.le_succ _, fun _ => Nat.lt_succ_self _,
        iff_of_false (not_not.2 ho) fun h => hdirty h.1, iff_of_false Bool.false_ne_true
          fun h => hdirty h.1⟩
  | false =>
      rw [if_neg Bool.false_ne_true]
      have hclean : c.Clean { c.tick with saved := w, working := none } := (clean_tick rfl).2 hf
      exact ⟨rfl, Nat.le_succ _, fun _ => Nat.lt_succ_self _,
        iff_of_true Bool.false_ne_true ⟨hclean, trivial⟩, iff_of_true rfl ⟨hclean, trivial⟩⟩

/-- The commit, and what is said once it is done. -/
theorem Closes.commit_pure (ho : c.isOpen) (x : α) :
    Closes c True ((Act.commit >>= fun _ => (Pure.pure x : Act δ μ α)) c m) := by
  have h := Closes.commit (m := m) ho
  have hdone := h.done
  cases hx : ((Act.commit : Act δ μ Unit) c m).1 with
  | none =>
      rw [hx] at hdone
      rw [bind_none hx]
      exact ⟨h.fails, h.calls, h.moved, h.closed, hdone⟩
  | some _ =>
      rw [hx] at hdone
      rw [bind_some hx]
      exact ⟨h.fails, h.calls, h.moved, h.closed, hdone⟩

/-- A program that, if it does not give up, returns `x`. -/
def Yields (x : β) (a : Act δ μ β) : Prop := ∀ c m y, (a c m).1 = some y → y = x

theorem Yields.pure (x : β) : Yields x (Pure.pure x : Act δ μ β) :=
  fun _ _ _ h => (Option.some.inj h).symm

theorem Yields.fail (x : β) : Yields x (Act.fail : Act δ μ β) := fun _ _ _ h => nomatch h

theorem Yields.bind {x : β} (hf : ∀ z, Yields x (f z)) : Yields x (a >>= f) := by
  intro c m y hy
  cases hz : (a c m).1 with
  | none =>
      rw [bind_none hz] at hy
      cases hy
  | some z =>
      rw [bind_some hz] at hy
      exact hf z _ _ y hy

/-! ## What a program cannot change -/

/-- The program keeps a property of the rows in sight, and, with `both`, of
the committed rows as well. -/
def Keeps (both : Bool) (P : δ → Prop) (a : Act δ μ α) : Prop :=
  ∀ c m, c.Holds both P → (a c m).2.1.Holds both P

variable {both : Bool} {P : δ → Prop}

theorem Keeps.pure (x : α) : Keeps both P (pure x : Act δ μ α) := fun _ _ h => h

theorem Keeps.fail : Keeps both P (fail : Act δ μ α) := fun _ _ h => h

theorem Keeps.bind (ha : Keeps both P a) (hf : ∀ x, Keeps both P (f x)) :
    Keeps both P (a >>= f) := by
  intro c m h
  cases hx : (a c m).1 with
  | none =>
      rw [bind_none hx]
      exact ha c m h
  | some x =>
      rw [bind_some hx]
      exact hf x _ _ (ha c m h)

theorem Keeps.call {g : δ → α × δ} (hg : ∀ d, P d → P (g d).2) :
    Keeps both P (call g : Act δ μ α) := by
  intro c m h
  have htick : c.tick.Holds both P := h
  unfold Act.call
  split
  · exact h
  · exact htick.setRows (hg _ h.2)

theorem Keeps.get : Keeps both P (get : Act δ μ μ) := fun _ _ h => h

theorem Keeps.rows : Keeps both P (rows : Act δ μ δ) := fun _ _ h => h

theorem Keeps.modify (g : μ → μ) : Keeps both P (modify g : Act δ μ Unit) := fun _ _ h => h

theorem opened_holds (ho : ¬ c.isOpen) (h : c.Holds both P) : c.opened.Holds both P :=
  ⟨h.1, show P c.saved from Store.rows_of_closed ho ▸ h.2⟩

theorem Keeps.start : Keeps both P (start : Act δ μ Unit) := by
  intro c m h
  by_cases hb : c.isOpen ∨ c.fails c.calls = true
  · have hstart : (Act.start : Act δ μ Unit) c m = (none, c.tick, m) :=
      hb.elim start_of_open start_of_fails
    rw [hstart]
    exact h
  · obtain ⟨ho, hf⟩ := not_or.1 hb
    unfold Act.start
    split
    · exact h
    · exact opened_holds ho h

theorem Keeps.commit : Keeps both P (commit : Act δ μ Unit) := by
  intro c m h
  unfold Act.commit
  split
  · exact h
  · next w hw =>
    split
    · exact h
    · have hrows : c.rows = w := by
        unfold Store.rows
        rw [hw, Option.getD_some]
      exact ⟨fun _ => hrows ▸ h.2, hrows ▸ h.2⟩

theorem Keeps.attempt (ha : Keeps both P a) : Keeps both P (attempt a) := ha

theorem Keeps.each (l : List β) {g : β → Act δ μ Unit} (hg : ∀ x, Keeps both P (g x)) :
    Keeps both P (each l g) := by
  induction l with
  | nil => exact Keeps.pure ()
  | cons x l ih => exact Keeps.bind (hg x) fun _ => ih

theorem Keeps.after {r : Option α} {c' : Store δ} {m' : μ} (h : Keeps both P a)
    (hrun : a c m = (r, c', m')) (hc : c.Holds both P) : c'.Holds both P := by
  have hkept := h c m hc
  rw [hrun] at hkept
  exact hkept

/-- Opening a transaction for the memory there is. -/
theorem Keeps.start_get {g : μ → Act δ μ β} (hg : Keeps both P (g m)) (h : c.Holds both P) :
    ((Act.start >>= fun _ => Act.get >>= g) c m).2.1.Holds both P := by
  by_cases hb : c.isOpen ∨ c.fails c.calls = true
  · rw [start_bind_none hb]
    exact h
  · obtain ⟨ho, hf⟩ := not_or.1 hb
    rw [start_bind ho (Bool.eq_false_iff.2 hf), get_bind]
    exact hg _ _ (opened_holds ho h)

/-- A call, with what follows depending on what it returned. -/
theorem Keeps.call_bind {g : δ → α × δ} (hg : ∀ d, P d → P (g d).2)
    (hf : ∀ d, P d → Keeps both P (f (g d).1)) :
    Keeps both P (Act.call g >>= f) := by
  intro c m h
  cases hc : c.fails c.calls with
  | true =>
      rw [bind_none (by rw [call_of_fails hc]), call_of_fails hc]
      exact h
  | false =>
      have htick : c.tick.Holds both P := h
      rw [bind_some (by rw [call_of_ok hc]), call_of_ok hc]
      exact hf _ h.2 _ _ (htick.setRows (hg _ h.2))

/-! ## What a program brings about -/

/-- If the program does not give up, `P` holds of the rows in sight. -/
def Ensures (P : δ → Prop) (a : Act δ μ α) : Prop :=
  ∀ c m, (a c m).1.isSome = true → P (a c m).2.1.rows

theorem Ensures.call {g : δ → α × δ} (hg : ∀ d, P (g d).2) : Ensures P (Act.call g : Act δ μ α) := by
  intro c m hsome
  cases hc : c.fails c.calls with
  | true =>
      rw [call_of_fails hc] at hsome
      cases hsome
  | false =>
      rw [call_of_ok hc]
      exact Store.rows_setRows.symm ▸ hg _

/-- Brought about by the last part. -/
theorem Ensures.bind (hf : ∀ x, Ensures P (f x)) : Ensures P (a >>= f) := by
  intro c m hsome
  cases hx : (a c m).1 with
  | none =>
      rw [bind_none hx] at hsome
      cases hsome
  | some x =>
      rw [bind_some hx] at hsome ⊢
      exact hf x _ _ hsome

/-- Brought about by the first part and kept by the rest. -/
theorem Ensures.bind_keeps (ha : Ensures P a) (hf : ∀ x, Keeps false P (f x)) :
    Ensures P (a >>= f) := by
  intro c m hsome
  cases hx : (a c m).1 with
  | none =>
      rw [bind_none hx] at hsome
      cases hsome
  | some x =>
      rw [bind_some hx]
      have hP := ha c m (by rw [hx]; rfl)
      exact (hf x _ _ ⟨fun h => absurd h Bool.false_ne_true, hP⟩).2

/-! ## What a program cannot change of its memory -/

/-- The program keeps a property of its memory. -/
def Minds (Q : μ → Prop) (a : Act δ μ α) : Prop := ∀ c m, Q m → Q (a c m).2.2

variable {Q : μ → Prop}

theorem Minds.pure (x : α) : Minds Q (pure x : Act δ μ α) := fun _ _ h => h

theorem Minds.get : Minds Q (get : Act δ μ μ) := fun _ _ h => h

theorem Minds.rows : Minds Q (rows : Act δ μ δ) := fun _ _ h => h

theorem Minds.start : Minds Q (start : Act δ μ Unit) := by
  intro c m h
  unfold Act.start
  split <;> exact h

theorem Minds.commit : Minds Q (commit : Act δ μ Unit) := by
  intro c m h
  unfold Act.commit
  split
  · exact h
  · split <;> exact h

theorem Minds.attempt (ha : Minds Q a) : Minds Q (attempt a) := ha

theorem Minds.bind (ha : Minds Q a) (hf : ∀ x, Minds Q (f x)) : Minds Q (a >>= f) := by
  intro c m h
  cases hx : (a c m).1 with
  | none =>
      rw [bind_none hx]
      exact ha c m h
  | some x =>
      rw [bind_some hx]
      exact hf x _ _ (ha c m h)

theorem Minds.call (g : δ → α × δ) : Minds Q (call g : Act δ μ α) := by
  intro c m h
  unfold Act.call
  split <;> exact h

theorem Minds.modify {g : μ → μ} (hg : ∀ m, Q m → Q (g m)) :
    Minds Q (modify g : Act δ μ Unit) := fun _ m h => hg m h

theorem Minds.each (l : List β) {g : β → Act δ μ Unit} (hg : ∀ x, Minds Q (g x)) :
    Minds Q (each l g) := by
  induction l with
  | nil => exact Minds.pure ()
  | cons x l ih => exact Minds.bind (hg x) fun _ => ih

/-! ## What a program does when no call fails -/

/-- A store whose calls all succeed, with the committed rows `v.1` and the
transaction `v.2`, if one is open. -/
structure Serves (c : Store δ) (v : δ × Option δ) : Prop where
  quiet : ∀ k, c.fails k = false
  saved : c.saved = v.1
  working : c.working = v.2

/-- From the rows `v` and the memory `m` the program comes to `x`, `v'` and `m'`. -/
def Does (a : Act δ μ α) (v : δ × Option δ) (m : μ) (x : α) (v' : δ × Option δ) (m' : μ) : Prop :=
  ∀ c, Serves c v → ∃ c', a c m = (some x, c', m') ∧ Serves c' v'

variable {v v' v'' : δ × Option δ} {m' m'' : μ} {s d : δ}

theorem Does.pure (x : α) : Does (Pure.pure x : Act δ μ α) v m x v m := fun c hc => ⟨c, rfl, hc⟩

theorem Does.bind {x : α} {y : β} (ha : Does a v m x v' m') (hf : Does (f x) v' m' y v'' m'') :
    Does (a >>= f) v m y v'' m'' := by
  intro c hc
  obtain ⟨c', hrun, hc'⟩ := ha c hc
  rw [bind_some (by rw [hrun]), hrun]
  exact hf c' hc'

theorem Does.get : Does (get : Act δ μ μ) v m m v m := fun c hc => ⟨c, rfl, hc⟩

theorem Does.modify (g : μ → μ) : Does (Act.modify g : Act δ μ Unit) v m () v (g m) :=
  fun c hc => ⟨c, rfl, hc⟩

theorem Does.rows : Does (Act.rows : Act δ μ δ) (s, some d) m d (s, some d) m := by
  intro c hc
  refine ⟨c, ?_, hc⟩
  rw [Act.rows, Store.rows, hc.working]
  rfl

theorem Does.call (g : δ → α × δ) :
    Does (Act.call g : Act δ μ α) (s, some d) m (g d).1 (s, some (g d).2) m := by
  intro c hc
  have hrows : c.rows = d := by
    rw [Store.rows, hc.working]
    rfl
  refine ⟨c.tick.setRows (g c.rows).2, ?_, ?_⟩
  · rw [call_of_ok (hc.quiet _), hrows]
  · have hw : c.tick.working = some d := hc.working
    rw [hrows, Store.setRows, hw]
    exact ⟨hc.quiet, hc.saved, rfl⟩

theorem Does.start : Does (Act.start : Act δ μ Unit) (s, none) m () (s, some s) m := by
  intro c hc
  refine ⟨c.opened, ?_, hc.quiet, hc.saved, congrArg some hc.saved⟩
  rw [Act.start, hc.quiet, hc.working]
  rfl

theorem Does.commit : Does (Act.commit : Act δ μ Unit) (s, some d) m () (d, none) m := by
  intro c hc
  refine ⟨{ c.tick with saved := d, working := none }, ?_, hc.quiet, rfl, rfl⟩
  simp only [Act.commit, hc.working, hc.quiet, if_neg Bool.false_ne_true]

theorem Does.attempt {x : α} (ha : Does a v m x v' m') :
    Does (Act.attempt a) v m (some x) v' m' := by
  intro c hc
  obtain ⟨c', hrun, hc'⟩ := ha c hc
  exact ⟨c', by rw [Act.attempt, hrun], hc'⟩

theorem Does.each {g : β → Act δ μ Unit} {D : δ → β → δ} {M : μ → β → μ}
    (hg : ∀ y d m, Does (g y) (s, some d) m () (s, some (D d y)) (M m y)) (l : List β) (d : δ)
    (m : μ) : Does (Act.each l g) (s, some d) m () (s, some (l.foldl D d)) (l.foldl M m) := by
  induction l generalizing d m with
  | nil => exact Does.pure ()
  | cons y l ih => exact Does.bind (hg y d m) (ih _ _)

theorem Does.result {x : α} (ha : Does a v m x v' m') (hc : Serves c v) :
    (a c m).1 = some x ∧ (a c m).2.2 = m' ∧ Serves (a c m).2.1 v' := by
  obtain ⟨c', hrun, hc'⟩ := ha c hc
  rw [hrun]
  exact ⟨rfl, rfl, hc'⟩

end Act

end Sundae.Lib
