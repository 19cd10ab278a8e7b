import Sundae.Lib.Run
import Sundae.Ref.Database

/-!
# What a database operation leaves behind

Each of the three operations opens a transaction and has some dozens of calls
to make before it closes it. An operation is good if no transaction is open
after it and if, when it reports a failure, the rows are what they were.

They are good when nothing fails. When something does, every early `return -1`
between the two ends leaves the transaction open, and with it open `BEGIN`
fails for every operation that follows. `db_good_iff` says which failures are
harmless: that of `BEGIN` itself, and, for a load, whatever fails between the
row and the last `COMMIT`.
-/

namespace Sundae.Proofs

open Sundae.Ref Sundae.Lib Sundae.Lib.Act

variable {c : Store Rows} {m : Profile}

/-! ## Inside the transaction -/

theorem stmtBind_body : Body stmtBind := Body.call _

theorem stmtReset_body : Body stmtReset := Body.bind (Body.call _) fun _ => Body.call _

theorem stmtRead_body {α : Type} (f : Rows → α) : Body (stmtRead f) := Body.call _

theorem stmtFetch_body {ρ : Type} (rows : List ρ) (f : ρ → Profile → Profile) :
    Body (stmtFetch rows f) :=
  Body.bind
    (Body.each rows fun r => Body.bind (stmtRead_body _) fun _ => Body.modify (f r))
    fun _ => stmtRead_body _

theorem loadTable_body {ρ : Type} (table : Account → List ρ) (playerId : Nat)
    (f : ρ → Profile → Profile) : Body (loadTable table playerId f) :=
  Body.bind stmtBind_body fun _ => Body.bind Body.rows fun _ =>
    Body.bind (stmtFetch_body _ f) fun _ => stmtReset_body

theorem stmtRun_body (n : Nat) (f : Rows → Rows) : Body (stmtRun n f) :=
  Body.bind (Body.each _ fun _ => stmtBind_body) fun _ =>
    Body.bind (Body.call _) fun _ => stmtReset_body

theorem databaseSavePlayerVariables_body (p : Profile) (playerId : Nat) :
    Body (databaseSavePlayerVariables p playerId) :=
  Body.bind (stmtRun_body _ _) fun _ => Body.each _ fun _ => stmtRun_body _ _

theorem databaseSavePlayerContacts_body (p : Profile) (playerId : Nat) (isIgnore : Bool) :
    Body (databaseSavePlayerContacts p playerId isIgnore) :=
  Body.each _ fun _ => stmtRun_body _ _

theorem databaseSavePlayerInventory_body (p : Profile) (playerId : Nat) :
    Body (databaseSavePlayerInventory p playerId) :=
  Body.bind (stmtRun_body _ _) fun _ => Body.each _ fun _ => stmtRun_body _ _

theorem databaseSavePlayerBank_body (p : Profile) (playerId : Nat) :
    Body (databaseSavePlayerBank p playerId) :=
  Body.bind (stmtRun_body _ _) fun _ => Body.each _ fun _ => stmtRun_body _ _

theorem saveRest_body (p : Profile) (playerId : Nat) : Body (saveRest p playerId) :=
  Body.bind stmtReset_body fun _ =>
  Body.bind (databaseSavePlayerVariables_body p playerId) fun _ =>
  Body.bind (stmtRun_body _ _) fun _ =>
  Body.bind (databaseSavePlayerContacts_body p playerId false) fun _ =>
  Body.bind (databaseSavePlayerContacts_body p playerId true) fun _ =>
  Body.bind (databaseSavePlayerInventory_body p playerId) fun _ =>
    databaseSavePlayerBank_body p playerId

/-! ## What a load leaves alone -/

variable {both : Bool} {P : Rows → Prop}

theorem stmtBind_keeps : Keeps both P stmtBind := Keeps.call fun _ h => h

theorem stmtReset_keeps : Keeps both P stmtReset :=
  Keeps.bind (Keeps.call fun _ h => h) fun _ => Keeps.call fun _ h => h

theorem stmtRead_keeps {α : Type} (f : Rows → α) : Keeps both P (stmtRead f) := Keeps.call fun _ h => h

theorem stmtFetch_keeps {ρ : Type} (rows : List ρ) (f : ρ → Profile → Profile) :
    Keeps both P (stmtFetch rows f) :=
  Keeps.bind
    (Keeps.each rows fun r => Keeps.bind (stmtRead_keeps _) fun _ => Keeps.modify (f r))
    fun _ => stmtRead_keeps _

theorem loadTable_keeps {ρ : Type} (table : Account → List ρ) (playerId : Nat)
    (f : ρ → Profile → Profile) : Keeps both P (loadTable table playerId f) :=
  Keeps.bind stmtBind_keeps fun _ => Keeps.bind Keeps.rows fun _ =>
    Keeps.bind (stmtFetch_keeps _ f) fun _ => stmtReset_keeps

theorem loadRest_keeps (playerId : Nat) : Keeps both P (loadRest playerId) :=
  Keeps.bind stmtReset_keeps fun _ =>
  Keeps.bind (loadTable_keeps _ _ _) fun _ =>
  Keeps.bind (loadTable_keeps _ _ _) fun _ =>
  Keeps.bind (loadTable_keeps _ _ _) fun _ =>
  Keeps.bind (loadTable_keeps _ _ _) fun _ => Keeps.commit

theorem loadEnd_keeps (ret : Int) : Keeps both P (loadEnd ret) :=
  Keeps.bind (Keeps.attempt stmtReset_keeps) fun _ =>
    Keeps.bind (Keeps.attempt Keeps.commit) fun _ => Keeps.pure ret

theorem loadRow_keeps (a : Account) : Keeps both P (loadRow a) := by
  refine Keeps.bind (Keeps.modify _) fun _ =>
    Keeps.bind (Keeps.attempt (loadRest_keeps a.id)) fun done => ?_
  show Keeps both P (if done.isSome = true then _ else _)
  split
  · exact Keeps.pure 0
  · exact loadEnd_keeps _

theorem loadFound_keeps (h : PwHash) (row : Option Account) : Keeps both P (loadFound h row) := by
  cases row with
  | none => exact loadEnd_keeps _
  | some a =>
      refine Keeps.bind Keeps.get fun p => ?_
      show Keeps both P (if h.verify a.password p.password = true then _ else _)
      split
      · exact loadRow_keeps a
      · exact loadEnd_keeps _

theorem loadPlayerFrom_keeps (h : PwHash) (p : Profile) : Keeps both P (loadPlayerFrom h p) :=
  Keeps.bind stmtBind_keeps fun _ => Keeps.bind (stmtRead_keeps _) fun row => loadFound_keeps h row

/-- A load changes no row, committed or not. -/
theorem databaseLoadPlayer_keeps (h : PwHash) : Keeps both P (databaseLoadPlayer h) :=
  Keeps.bind Keeps.start fun _ => Keeps.bind Keeps.get fun p => loadPlayerFrom_keeps h p

/-! ## To the end of the transaction -/

theorem call_result {α : Type} {f : Rows → α × Rows} {x : α} {c' : Store Rows} {m' : Profile}
    (h : (Act.call f : Query α) c m = (some x, c', m')) : x = (f c.rows).1 := by
  unfold Act.call at h
  split at h
  · cases h
  · exact (Option.some.inj (congrArg Prod.fst h)).symm

theorem newPlayerFound_closes (h : PwHash) (p : Profile) (found : Bool) (ho : c.isOpen) :
    Closes c (found = true ∨ (h.hash p.password).isSome = true) (newPlayerFound h p found c m) := by
  cases found with
  | true =>
      refine Closes.of_true (.inl rfl) (Closes.bind stmtReset_body ho fun _ _ _ _ ho => ?_)
      exact Closes.commit_pure ho 0
  | false =>
      refine Closes.bind stmtReset_body ho fun _ _ _ _ ho => ?_
      refine Closes.bind stmtBind_body ho fun _ _ _ _ ho => ?_
      cases h.hash p.password with
      | none => exact Closes.of_false (by simp) (Closes.fail ho)
      | some encodedPwd =>
          refine Closes.of_true (.inr rfl) (Closes.bind stmtBind_body ho fun _ _ _ _ ho => ?_)
          refine Closes.bind (Body.call _) ho fun _ _ _ _ ho => ?_
          refine Closes.bind stmtReset_body ho fun _ _ _ _ ho => ?_
          exact Closes.commit_pure ho 0

theorem saveFound_closes (p : Profile) (row : Option Nat) (ho : c.isOpen) :
    Closes c (row.isSome = true) (saveFound p row c m) := by
  cases row with
  | none => exact Closes.of_false Bool.false_ne_true (Closes.fail ho)
  | some playerId =>
      refine Closes.of_true rfl (Closes.bind (saveRest_body p playerId) ho fun _ _ _ _ ho => ?_)
      exact Closes.commit_pure ho 0

/-- The account an operation is about, if the rows have it. -/
def known (d : Rows) (p : Profile) : Bool := (d.find? (mod37Namedec p.name)).isSome

theorem stepSavePlayer_body (p : Profile) : Body (stepSavePlayer p) := Body.call _

theorem stepSavePlayer_result {p : Profile} {d : Rows} {row : Option Nat} {c' : Store Rows}
    {m' : Profile} (h : stepSavePlayer p c m = (some row, c', m')) (hrows : c.rows = d) :
    row.isSome = known d p := by
  rw [call_result h, hrows, Option.isSome_map]
  rfl

theorem opened_saved (c : Store Rows) : c.opened.Holds false (· = c.saved) :=
  ⟨fun h => absurd h Bool.false_ne_true, rfl⟩

theorem databaseNewPlayer_closes (h : PwHash) (ho : ¬ c.isOpen) (hf : c.fails c.calls = false) :
    Closes c.opened (known c.saved m = true ∨ (h.hash m.password).isSome = true)
      (databaseNewPlayer h c m) := by
  unfold databaseNewPlayer
  rw [start_bind ho hf, get_bind]
  refine Closes.bind stmtBind_body rfl fun _ c₁ m₁ hbind ho => ?_
  have hrows := (Keeps.after stmtBind_keeps hbind (opened_saved c)).2
  refine Closes.bind (stmtRead_body _) ho fun found c₂ m₂ hread ho => ?_
  have hfound : found = known c.saved m := by
    rw [call_result hread, hrows]
    rfl
  rw [hfound]
  exact newPlayerFound_closes h m _ ho

theorem databaseSavePlayer_closes (ho : ¬ c.isOpen) (hf : c.fails c.calls = false) :
    Closes c.opened (known c.saved m = true) (databaseSavePlayer c m) := by
  unfold databaseSavePlayer
  rw [start_bind ho hf, get_bind]
  refine Closes.bind (Body.each _ fun _ => stmtBind_body) rfl fun _ c₁ m₁ hbinds ho => ?_
  have hkept := Keeps.after (Keeps.each _ fun _ => stmtBind_keeps) hbinds (opened_saved c)
  refine Closes.bind stmtBind_body ho fun _ c₂ m₂ hbind ho => ?_
  have hrows := (Keeps.after stmtBind_keeps hbind hkept).2
  refine Closes.bind (stepSavePlayer_body m) ho fun row c₃ m₃ hstep ho => ?_
  rw [← stepSavePlayer_result hstep hrows]
  exact saveFound_closes m row ho

/-- The last call made did not fail. -/
def LastOk (c : Store Rows) : Prop := c.fails (c.calls - 1) = false

theorem commit_closed (ho : c.isOpen) :
    ¬ ((Act.commit : Query Unit) c m).2.1.isOpen ↔ LastOk ((Act.commit : Query Unit) c m).2.1 := by
  obtain ⟨w, hw⟩ := Option.isSome_iff_exists.1 ho
  unfold LastOk
  simp only [Act.commit, hw]
  cases hf : c.fails c.calls with
  | true =>
      rw [if_pos rfl]
      refine iff_of_false (not_not.2 ho) ?_
      show ¬ c.fails (c.calls + 1 - 1) = false
      rw [Nat.add_sub_cancel, hf]
      exact Bool.noConfusion
  | false =>
      rw [if_neg Bool.false_ne_true]
      refine iff_of_true Bool.false_ne_true ?_
      show c.fails (c.calls + 1 - 1) = false
      rw [Nat.add_sub_cancel, hf]

/-- The end of a load: what it was told to return, and closed by its commit. -/
theorem loadEnd_closed (ret : Int) (ho : c.isOpen) :
    (loadEnd ret c m).1 = some ret ∧
      (¬ (loadEnd ret c m).2.1.isOpen ↔ LastOk (loadEnd ret c m).2.1) :=
  ⟨rfl, commit_closed (m := (stmtReset c m).2.2) (stmtReset_body c m ho).isOpen⟩

theorem loadRest_closes (playerId : Nat) (ho : c.isOpen) :
    Closes c True (loadRest playerId c m) := by
  refine Closes.bind stmtReset_body ho fun _ _ _ _ ho => ?_
  refine Closes.bind (loadTable_body _ _ _) ho fun _ _ _ _ ho => ?_
  refine Closes.bind (loadTable_body _ _ _) ho fun _ _ _ _ ho => ?_
  refine Closes.bind (loadTable_body _ _ _) ho fun _ _ _ _ ho => ?_
  refine Closes.bind (loadTable_body _ _ _) ho fun _ _ _ _ ho => ?_
  exact Closes.commit ho

/-- The rest of a load that has the account: 0 if it was read to the end and
committed, else `-1`. -/
theorem loadRow_eq (a : Account) :
    loadRow a c m =
      if ((loadRest a.id c (loadColumns a m)).1).isSome = true then
        (some 0, (loadRest a.id c (loadColumns a m)).2)
      else
        loadEnd (-1) (loadRest a.id c (loadColumns a m)).2.1
          (loadRest a.id c (loadColumns a m)).2.2 := by
  show (if ((loadRest a.id c (loadColumns a m)).1).isSome = true then (pure 0 : Query Int)
    else loadEnd (-1)) _ _ = _
  split <;> rfl

theorem loadRow_closed (a : Account) (ho : c.isOpen) :
    ¬ (loadRow a c m).2.1.isOpen ↔ LastOk (loadRow a c m).2.1 := by
  have hcl := loadRest_closes a.id (m := loadColumns a m) ho
  rw [loadRow_eq]
  split
  · next hdone =>
    have hclean := (hcl.done.1 hdone).1
    have hclosed := hcl.closed.2 (hcl.done.1 hdone)
    have hmoved := hcl.moved hclosed
    refine iff_of_true hclosed ?_
    show (loadRest a.id c (loadColumns a m)).2.1.fails
      ((loadRest a.id c (loadColumns a m)).2.1.calls - 1) = false
    rw [hcl.fails]
    exact hclean _ (by omega) (by omega)
  · next hdone =>
    have hopen : (loadRest a.id c (loadColumns a m)).2.1.isOpen :=
      not_not.1 fun h => hdone (hcl.done.2 (hcl.closed.1 h))
    exact (loadEnd_closed (-1) hopen).2

theorem loadFound_closed (h : PwHash) (row : Option Account) (ho : c.isOpen) :
    ¬ (loadFound h row c m).2.1.isOpen ↔ LastOk (loadFound h row c m).2.1 := by
  cases row with
  | none => exact (loadEnd_closed _ ho).2
  | some a =>
      show ¬ ((if h.verify a.password m.password = true then loadRow a
        else loadEnd respInvalid) c m).2.1.isOpen ↔ LastOk ((if h.verify a.password m.password = true
        then loadRow a else loadEnd respInvalid) c m).2.1
      split
      · exact loadRow_closed a ho
      · exact (loadEnd_closed _ ho).2

/-- The two calls before a load has its row, or knows that there is none. -/
theorem loadPlayerFrom_eq (h : PwHash) (p : Profile) :
    loadPlayerFrom h p c m =
      if c.fails c.calls = true then (none, c.tick, m)
      else if c.fails (c.calls + 1) = true then (none, c.tick.tick, m)
      else loadFound h (c.rows.find? (mod37Namedec p.name)) c.tick.tick m := by
  unfold loadPlayerFrom stmtBind stmtRead
  rw [read_bind, read_bind]
  rfl

/-- A load is over and done with when its `SELECT` could be run and its last
`COMMIT` did what it should. -/
theorem databaseLoadPlayer_closed (h : PwHash) (ho : ¬ c.isOpen) (hf : c.fails c.calls = false) :
    ¬ (databaseLoadPlayer h c m).2.1.isOpen ↔
      c.fails (c.calls + 1) = false ∧ c.fails (c.calls + 2) = false ∧
        LastOk (databaseLoadPlayer h c m).2.1 := by
  have hopen : c.opened.isOpen := rfl
  have h1 : c.opened.fails c.opened.calls = c.fails (c.calls + 1) := rfl
  have h2 : c.opened.fails (c.opened.calls + 1) = c.fails (c.calls + 2) := rfl
  unfold databaseLoadPlayer
  rw [start_bind ho hf, get_bind, loadPlayerFrom_eq, h1, h2]
  cases hb : c.fails (c.calls + 1) with
  | true =>
      rw [if_pos rfl]
      exact iff_of_false (not_not.2 hopen) fun h => Bool.noConfusion h.1
  | false =>
      rw [if_neg Bool.false_ne_true]
      cases hr : c.fails (c.calls + 2) with
      | true =>
          rw [if_pos rfl]
          exact iff_of_false (not_not.2 hopen) fun h => Bool.noConfusion h.2.1
      | false =>
          rw [if_neg Bool.false_ne_true, and_iff_right rfl, and_iff_right rfl]
          exact loadFound_closed h _ hopen

/-! ## Any sequence of operations -/

/-- A call of one of the three functions for a player. -/
inductive DbOp where
  | newPlayer (p : Profile)
  | loadPlayer (p : Profile)
  | savePlayer (p : Profile)

def DbOp.player : DbOp → Profile
  | .newPlayer p | .loadPlayer p | .savePlayer p => p

def DbOp.run (h : PwHash) (c : Store Rows) : DbOp → Option Int × Store Rows × Profile
  | .newPlayer p => databaseNewPlayer h c p
  | .loadPlayer p => databaseLoadPlayer h c p
  | .savePlayer p => databaseSavePlayer c p

def dbStep (h : PwHash) (c : Store Rows) (op : DbOp) : Except Empty (Store Rows) :=
  .ok (op.run h c).2.1

/-- No transaction is open after the operation, and the rows are what they
were unless it returned 0. -/
def DbGood (h : PwHash) (c : Store Rows) (op : DbOp) : Prop :=
  ¬ (op.run h c).2.1.isOpen ∧
    ((op.run h c).1 ≠ some 0 → (op.run h c).2.1.rows = c.rows)

/-- What must not fail in an operation for it to be good. -/
def DbOk (h : PwHash) (c : Store Rows) (op : DbOp) : Prop :=
  c.fails c.calls = true ∨
    match op with
    | .newPlayer p =>
      c.opened.Clean (op.run h c).2.1 ∧ (known c.saved p = true ∨ (h.hash p.password).isSome = true)
    | .loadPlayer _ =>
      c.fails (c.calls + 1) = false ∧ c.fails (c.calls + 2) = false ∧ LastOk (op.run h c).2.1
    | .savePlayer p => c.opened.Clean (op.run h c).2.1 ∧ known c.saved p = true

/-- `BEGIN` failed: nothing has happened. -/
theorem run_refused (h : PwHash) (op : DbOp) (hf : c.isOpen ∨ c.fails c.calls = true) :
    op.run h c = (none, c.tick, op.player) := by
  cases op with
  | newPlayer p => exact start_bind_none hf
  | loadPlayer p => exact start_bind_none hf
  | savePlayer p => exact start_bind_none hf

theorem databaseNewPlayer_yields (h : PwHash) : Yields 0 (databaseNewPlayer h) := by
  refine Yields.bind fun _ => Yields.bind fun p => Yields.bind fun _ => Yields.bind fun found => ?_
  cases found with
  | true => exact Yields.bind fun _ => Yields.bind fun _ => Yields.pure 0
  | false =>
      refine Yields.bind fun _ => Yields.bind fun _ => ?_
      cases h.hash p.password with
      | none => exact Yields.fail 0
      | some encodedPwd =>
          exact Yields.bind fun _ => Yields.bind fun _ => Yields.bind fun _ => Yields.bind fun _ =>
            Yields.pure 0

theorem databaseSavePlayer_yields : Yields 0 databaseSavePlayer := by
  refine Yields.bind fun _ => Yields.bind fun p => Yields.bind fun _ => Yields.bind fun _ =>
    Yields.bind fun row => ?_
  cases row with
  | none => exact Yields.fail 0
  | some playerId => exact Yields.bind fun _ => Yields.bind fun _ => Yields.pure 0

/-- An operation that closes its transaction only by succeeding is good as
soon as it closes it. -/
theorem good_iff_of_closes {d : Rows} {c' : Store Rows} {ok : Prop}
    {r : Option Int × Store Rows × Profile}
    (hcl : Closes c' ok r) (hyields : ∀ y, r.1 = some y → y = 0) :
    (¬ r.2.1.isOpen ∧ (r.1 ≠ some 0 → r.2.1.rows = d)) ↔ c'.Clean r.2.1 ∧ ok := by
  rw [← hcl.closed]
  refine ⟨And.left, fun hclosed => ⟨hclosed, fun hne => ?_⟩⟩
  obtain ⟨y, hy⟩ := Option.isSome_iff_exists.1 (hcl.done.2 (hcl.closed.1 hclosed))
  exact absurd (hyields y hy ▸ hy) hne

theorem dbGood_iff (h : PwHash) (ho : ¬ c.isOpen) (op : DbOp) : DbGood h c op ↔ DbOk h c op := by
  cases hf : c.fails c.calls with
  | true =>
      refine iff_of_true ?_ (.inl hf)
      unfold DbGood
      rw [run_refused h op (.inr hf)]
      exact ⟨ho, fun _ => rfl⟩
  | false =>
      unfold DbOk
      rw [hf, or_iff_right Bool.false_ne_true]
      cases op with
      | newPlayer p =>
          exact good_iff_of_closes (databaseNewPlayer_closes h ho hf)
            (databaseNewPlayer_yields h c p)
      | savePlayer p =>
          exact good_iff_of_closes (databaseSavePlayer_closes ho hf) (databaseSavePlayer_yields c p)
      | loadPlayer p =>
          show DbGood h c (.loadPlayer p) ↔ c.fails (c.calls + 1) = false ∧
            c.fails (c.calls + 2) = false ∧ LastOk (databaseLoadPlayer h c p).2.1
          rw [← databaseLoadPlayer_closed (m := p) h ho hf]
          have hsame : c.Holds false (· = c.rows) := ⟨fun h => absurd h Bool.false_ne_true, rfl⟩
          have hkept := databaseLoadPlayer_keeps h c p hsame
          exact ⟨And.left, fun hclosed => ⟨hclosed, fun _ => hkept.2⟩⟩

/-- With a transaction left open nothing is ever written again. -/
theorem run_open (h : PwHash) (ops : List DbOp) (ho : c.isOpen) :
    Along (dbStep h) (fun c' op => c'.saved = c.saved ∧ (op.run h c').1 = none) c ops := by
  suffices hall : ∀ c' : Store Rows, c'.isOpen → c'.saved = c.saved →
      Along (dbStep h) (fun c' op => c'.saved = c.saved ∧ (op.run h c').1 = none) c' ops from
    hall c ho rfl
  induction ops with
  | nil => exact fun _ _ _ => trivial
  | cons op ops ih =>
      intro c' ho' hsaved
      have hrun := run_refused h op (.inl ho')
      refine ⟨⟨hsaved, by rw [hrun]⟩, fun c'' hstep => ?_⟩
      obtain rfl := Except.ok.inj hstep
      rw [hrun]
      exact ih c'.tick ho' hsaved

/-- In any sequence of operations on a store with no transaction open, each is
good exactly when nothing fails in it that `DbOk` forbids. -/
theorem db_good_iff (h : PwHash) (ops : List DbOp) {c : Store Rows} (ho : ¬ c.isOpen) :
    Along (dbStep h) (DbGood h) c ops ↔ Along (dbStep h) (DbOk h) c ops := by
  refine along_congr (I := fun c => ¬ c.isOpen) (fun c op ho => dbGood_iff h ho op) ?_ ops ho
  intro c op c' _ hgood hstep
  obtain rfl := Except.ok.inj hstep
  exact hgood.1

/-- Every password hashes to itself. -/
def plainHash : PwHash where
  hash := some
  verify := fun encodedPwd password => encodedPwd == password

/-- A store with no accounts in which calls fail as told. -/
def emptyStore (fails : Nat → Bool) : Store Rows where
  saved := ⟨[], List.nodup_nil⟩
  fails := fails

theorem emptyStore_closed (fails : Nat → Bool) : ¬ (emptyStore fails).isOpen :=
  Bool.false_ne_true

/-- A load of an account that is not there, then a registration; nothing
fails. -/
theorem db_good_iff_register : Along (dbStep plainHash) (DbGood plainHash)
    (emptyStore fun _ => false) [.loadPlayer { name := 5 }, .newPlayer { name := 5 }] := by
  refine (db_good_iff plainHash _ (emptyStore_closed _)).2
    ⟨.inr ⟨rfl, rfl, rfl⟩, fun c hc => ?_⟩
  obtain rfl := Except.ok.inj hc
  exact ⟨.inr ⟨fun _ _ _ => rfl, .inr rfl⟩, fun _ _ => trivial⟩

/-- The first bind of a registration fails: its transaction stays open. -/
theorem newPlayer_leaks : ¬ ∀ (h : PwHash) (ops : List DbOp) (c : Store Rows), ¬ c.isOpen →
    Along (dbStep h) (DbGood h) c ops := by
  intro hall
  have hgood := hall plainHash [.newPlayer { name := 5 }] (emptyStore fun k => k == 1)
    (emptyStore_closed _)
  exact hgood.1.1 rfl

end Sundae.Proofs
