import Sundae.Proofs.Database
import Sundae.Ref.Account

/-!
# What a failed login does to the account

A player is saved when its connection is removed, and by two timers before
that, if its `login_date` is not zero. That field is also a column, which a
load copies with the rest of the row before it reads the other tables and
before anybody has looked at the ban. So a login that fails after the row was
copied leaves a player that will be saved, with whatever the other tables had
given it by then. `failed_login_rows_iff` shows that this is the only way:
everything else that can happen until the connection is gone, to this player
or to others, leaves the account's rows alone.
-/

namespace Sundae.Proofs

open Sundae.Ref Sundae.Lib Sundae.Lib.Act

variable {c : Store Rows} {m p : Profile}

/-! ## What a load leaves in the player -/

variable {Q : Profile → Prop}

theorem stmtReset_minds : Minds Q stmtReset := Minds.bind (Minds.call _) fun _ => Minds.call _

theorem loadTable_minds {ρ : Type} (table : Account → List ρ) (playerId : Nat)
    {f : ρ → Profile → Profile} (hf : ∀ r m, Q m → Q (f r m)) :
    Minds Q (loadTable table playerId f) :=
  Minds.bind (Minds.call _) fun _ => Minds.bind Minds.rows fun _ =>
    Minds.bind
      (Minds.bind
        (Minds.each _ fun r => Minds.bind (Minds.call _) fun _ => Minds.modify (hf r))
        fun _ => Minds.call _)
      fun _ => stmtReset_minds

/-- What a load's tables do not touch. -/
def SameRow (columns : Columns) (name : Int) (m : Profile) : Prop :=
  m.columns = columns ∧ m.name = name

variable {columns : Columns} {name : Int}

theorem loadContact_sameRow (r : ContactRow) (m : Profile) (h : SameRow columns name m) :
    SameRow columns name (loadContact r m) := by
  unfold loadContact
  simp only
  split
  · exact h
  · exact h

theorem playerVariableSet_sameRow (r : List Char × Int) (m : Profile) (h : SameRow columns name m) :
    SameRow columns name (playerVariableSet r m) := by
  unfold playerVariableSet
  split
  · split
    · exact h
    · exact h
  · exact h

theorem loadRest_minds (playerId : Nat) : Minds (SameRow columns name) (loadRest playerId) :=
  Minds.bind stmtReset_minds fun _ =>
  Minds.bind (loadTable_minds _ _ playerVariableSet_sameRow) fun _ =>
  Minds.bind (loadTable_minds _ _ loadContact_sameRow) fun _ =>
  Minds.bind (loadTable_minds _ _ fun _ _ h => h) fun _ =>
  Minds.bind (loadTable_minds _ _ fun _ _ h => h) fun _ => Minds.commit

theorem loadEnd_minds (ret : Int) : Minds Q (loadEnd ret) :=
  Minds.bind (Minds.attempt stmtReset_minds) fun _ =>
    Minds.bind (Minds.attempt Minds.commit) fun _ => Minds.pure ret

/-- The load comes to the row of the account and takes its columns. -/
structure RowRead (h : PwHash) (c : Store Rows) (p : Profile) (a : Account) : Prop where
  closed : ¬ c.isOpen
  start : c.fails c.calls = false
  bind : c.fails (c.calls + 1) = false
  step : c.fails (c.calls + 2) = false
  found : c.saved.find? (mod37Namedec p.name) = some a
  verified : h.verify a.password p.password = true

theorem load_of_read {h : PwHash} {a : Account} (hr : RowRead h c p a) :
    SameRow a.columns p.name (databaseLoadPlayer h c p).2.2 := by
  have h1 : c.opened.fails c.opened.calls = false := hr.bind
  have h2 : c.opened.fails (c.opened.calls + 1) = false := hr.step
  have hrow : c.opened.rows.find? (mod37Namedec p.name) = some a := hr.found
  unfold databaseLoadPlayer
  rw [start_bind hr.closed hr.start, get_bind, loadPlayerFrom_eq, h1, h2, hrow,
    if_neg Bool.false_ne_true, if_neg Bool.false_ne_true, loadFound, get_bind, hr.verified,
    if_pos rfl, loadRow_eq]
  have hrest := loadRest_minds a.id c.opened.tick.tick (loadColumns a p)
    (show SameRow a.columns p.name _ from ⟨rfl, rfl⟩)
  split
  · exact hrest
  · exact loadEnd_minds _ _ _ hrest

theorem load_of_not_read {h : PwHash} (hr : ¬ ∃ a, RowRead h c p a) :
    SameRow p.columns p.name (databaseLoadPlayer h c p).2.2 := by
  have hsame : SameRow p.columns p.name p := ⟨rfl, rfl⟩
  unfold databaseLoadPlayer
  by_cases hb : c.isOpen ∨ c.fails c.calls = true
  · rw [start_bind_none hb]
    exact hsame
  · obtain ⟨ho, hf⟩ := not_or.1 hb
    rw [start_bind ho (Bool.eq_false_iff.2 hf), get_bind, loadPlayerFrom_eq]
    split
    · exact hsame
    · next h1 =>
      split
      · exact hsame
      · next h2 =>
        cases hrow : c.opened.rows.find? (mod37Namedec p.name) with
        | none => exact loadEnd_minds _ _ _ hsame
        | some a =>
            have hverify : ¬ h.verify a.password p.password = true := fun hv =>
              hr ⟨a, ho, Bool.eq_false_iff.2 hf, Bool.eq_false_iff.2 h1, Bool.eq_false_iff.2 h2,
                hrow, hv⟩
            rw [loadFound, get_bind, if_neg hverify]
            exact loadEnd_minds _ _ _ hsame

/-! ## What a save writes -/

variable {both : Bool} {P : Rows → Prop}

/-- A change of the rows of one player's tables: the row of `players` itself
stays what it is. -/
def TableOnly (f : Account → Account) : Prop :=
  ∀ a, (f a).key = a.key ∧ (f a).columns = a.columns

theorem stmtRun_keeps {n : Nat} {f : Rows → Rows} (hf : ∀ d, P d → P (f d)) :
    Keeps both P (stmtRun n f) :=
  Keeps.bind (Keeps.each _ fun _ => stmtBind_keeps) fun _ =>
    Keeps.bind (Keeps.call hf) fun _ => stmtReset_keeps

theorem saveRest_keeps (p : Profile) {playerId : Nat}
    (hP : ∀ f hf, TableOnly f → ∀ d, P d → P (ofPlayer playerId f hf d)) :
    Keeps both P (saveRest p playerId) := by
  have hrun : ∀ n f hf, TableOnly f → Keeps both P (stmtRun n (ofPlayer playerId f hf)) :=
    fun n f hf ht => stmtRun_keeps (hP f hf ht)
  refine Keeps.bind stmtReset_keeps fun _ => ?_
  refine Keeps.bind (Keeps.bind (hrun _ _ _ fun _ => ⟨rfl, rfl⟩) fun _ =>
    Keeps.each _ fun _ => hrun _ _ _ fun _ => ⟨rfl, rfl⟩) fun _ => ?_
  refine Keeps.bind (hrun _ _ _ fun _ => ⟨rfl, rfl⟩) fun _ => ?_
  refine Keeps.bind (Keeps.each _ fun _ => hrun _ _ _ fun _ => ⟨rfl, rfl⟩) fun _ => ?_
  refine Keeps.bind (Keeps.each _ fun _ => hrun _ _ _ fun _ => ⟨rfl, rfl⟩) fun _ => ?_
  refine Keeps.bind (Keeps.bind (hrun _ _ _ fun _ => ⟨rfl, rfl⟩) fun _ =>
    Keeps.each _ fun _ => hrun _ _ _ fun _ => ⟨rfl, rfl⟩) fun _ => ?_
  exact Keeps.bind (hrun _ _ _ fun _ => ⟨rfl, rfl⟩) fun _ =>
    Keeps.each _ fun _ => hrun _ _ _ fun _ => ⟨rfl, rfl⟩

/-! ## The rows of one account -/

/-- The account an operation is for. -/
def DbOp.key (op : DbOp) : List Char := accountKey (mod37Namedec op.player.name)

def accountRows (key : List Char) (d : Rows) : List Account :=
  d.accounts.filter fun a => a.key == key

variable {key : List Char} {d : Rows} {a : Account}

theorem mem_accountRows : a ∈ accountRows key d ↔ a ∈ d.accounts ∧ a.key = key := by
  rw [accountRows, List.mem_filter, beq_iff_eq]

theorem accountRows_update {q : Account → Bool} {f : Account → Account}
    (hf : ∀ a, (f a).id = a.id) (hkey : ∀ a, (f a).key = a.key)
    (hq : ∀ a ∈ accountRows key d, q a = false) :
    accountRows key (d.update q f hf) = accountRows key d := by
  have hcomp : (fun a : Account => a.key == key) ∘ (fun a => if q a = true then f a else a) =
      fun a => a.key == key := by
    funext a
    simp only [Function.comp_apply]
    split
    · rw [hkey]
    · rfl
  unfold accountRows
  show ((d.accounts.map fun a => if q a = true then f a else a).filter _) = _
  rw [List.filter_map, hcomp]
  refine (List.map_congr_left fun a ha => ?_).trans (List.map_id _)
  rw [hq a ha, if_neg Bool.false_ne_true, id]

theorem accountRows_setColumns {username : List Char} {columns : Columns}
    (h : accountKey username ≠ key) :
    accountRows key (d.setColumns username columns) = accountRows key d := by
  apply accountRows_update
  · exact fun _ => rfl
  · intro a ha
    rw [(mem_accountRows.1 ha).2]
    exact beq_false_of_ne fun hk => h hk.symm

theorem accountRows_insert {username password : List Char} (h : accountKey username ≠ key) :
    accountRows key (d.insert username password) = accountRows key d := by
  unfold accountRows
  show (d.accounts ++ [_]).filter _ = _
  rw [List.filter_append, List.filter_singleton]
  have hne : (({ id := d.freshId, username := username, password := password } : Account).key ==
      key) = false := beq_false_of_ne h
  rw [hne, Bool.cond_false, List.append_nil]

variable {A : List Account}

theorem find_key {username : List Char} (h : d.find? username = some a) :
    a ∈ d.accounts ∧ a.key = accountKey username :=
  ⟨List.mem_of_find?_eq_some h, by simpa using List.find?_some h⟩

theorem saveFound_keeps_others (hkey : accountKey (mod37Namedec p.name) ≠ key)
    (hd : accountRows key d = A) :
    Keeps both (accountRows key · = A)
      (saveFound p ((d.find? (mod37Namedec p.name)).map Account.id)) := by
  cases hrow : d.find? (mod37Namedec p.name) with
  | none => exact Keeps.fail
  | some b =>
      obtain ⟨hb, hbkey⟩ := find_key hrow
      have hids : ∀ a ∈ A, a.id ≠ b.id := by
        intro a ha he
        rw [← hd] at ha
        obtain ⟨hmem, hak⟩ := mem_accountRows.1 ha
        have hab := List.inj_on_of_nodup_map d.nodup hmem hb he
        exact hkey (by rw [← hbkey, ← hab, hak])
      refine Keeps.bind (saveRest_keeps p fun f hf ht d' hd' => ?_) fun _ =>
        Keeps.bind Keeps.commit fun _ => Keeps.pure 0
      rw [ofPlayer, accountRows_update hf fun a => (ht a).1]
      · exact hd'
      · intro a ha
        rw [hd'] at ha
        exact beq_false_of_ne (hids a ha)

theorem savePlayerFrom_keeps_others (hkey : accountKey (mod37Namedec p.name) ≠ key) :
    Keeps both (accountRows key · = A) (savePlayerFrom p) := by
  refine Keeps.bind (Keeps.each _ fun _ => stmtBind_keeps) fun _ =>
    Keeps.bind stmtBind_keeps fun _ => Keeps.call_bind (fun d hd => ?_) fun d hd => ?_
  · exact (accountRows_setColumns hkey).trans hd
  · exact saveFound_keeps_others hkey hd

theorem newPlayerFrom_keeps_others (h : PwHash) (hkey : accountKey (mod37Namedec p.name) ≠ key) :
    Keeps both (accountRows key · = A) (newPlayerFrom h p) := by
  refine Keeps.bind stmtBind_keeps fun _ => Keeps.bind (stmtRead_keeps _) fun found => ?_
  cases found with
  | true =>
      exact Keeps.bind stmtReset_keeps fun _ => Keeps.bind Keeps.commit fun _ => Keeps.pure 0
  | false =>
      refine Keeps.bind stmtReset_keeps fun _ => Keeps.bind stmtBind_keeps fun _ => ?_
      cases h.hash p.password with
      | none => exact Keeps.fail
      | some encodedPwd =>
          refine Keeps.bind stmtBind_keeps fun _ =>
            Keeps.bind (Keeps.call fun d hd => ?_) fun _ => Keeps.bind stmtReset_keeps fun _ =>
              Keeps.bind Keeps.commit fun _ => Keeps.pure 0
          exact (accountRows_insert hkey).trans hd

/-- What is done for another account leaves this one's rows alone. -/
theorem run_keeps_others (h : PwHash) {op : DbOp} (hkey : op.key ≠ key)
    (hc : c.Holds both (accountRows key · = A)) :
    (op.run h c).2.1.Holds both (accountRows key · = A) := by
  cases op with
  | newPlayer p => exact Keeps.start_get (newPlayerFrom_keeps_others h hkey) hc
  | loadPlayer p => exact databaseLoadPlayer_keeps h c p hc
  | savePlayer p => exact Keeps.start_get (savePlayerFrom_keeps_others hkey) hc

/-! ## The player's own save -/

/-- Every account of a name has been played for so long. -/
def Played (key : List Char) (playTime : Int) (d : Rows) : Prop :=
  ∀ a ∈ d.accounts, a.key = key → a.columns.playTime = playTime

theorem mem_update {q : Account → Bool} {f : Account → Account} {hf : ∀ a, (f a).id = a.id}
    (h : a ∈ (d.update q f hf).accounts) :
    ∃ b ∈ d.accounts, a = if q b = true then f b else b := by
  obtain ⟨b, hb, rfl⟩ := List.mem_map.1 h
  exact ⟨b, hb, rfl⟩

theorem ofPlayer_played {playTime : Int} {playerId : Nat} {f : Account → Account}
    {hf : ∀ a, (f a).id = a.id} (ht : TableOnly f) (h : Played key playTime d) :
    Played key playTime (ofPlayer playerId f hf d) := by
  intro a ha hkey
  obtain ⟨b, hb, rfl⟩ := mem_update ha
  split
  · next hid =>
    rw [if_pos hid, (ht b).1] at hkey
    rw [(ht b).2]
    exact h b hb hkey
  · next hid =>
    rw [if_neg hid] at hkey
    exact h b hb hkey

theorem stepSavePlayer_played (p : Profile) (d : Rows) :
    Played (accountKey (mod37Namedec p.name)) p.columns.playTime
      (d.setColumns (mod37Namedec p.name) (saveColumns p)) := by
  intro a ha hkey
  obtain ⟨b, hb, rfl⟩ := mem_update ha
  split
  · rfl
  · next hid =>
    rw [if_neg hid] at hkey
    exact absurd (beq_iff_eq.2 hkey) hid

theorem savePlayerFrom_played (p : Profile) :
    Ensures (Played (accountKey (mod37Namedec p.name)) p.columns.playTime) (savePlayerFrom p) := by
  refine Ensures.bind fun _ => Ensures.bind fun _ =>
    Ensures.bind_keeps (Ensures.call fun d => stepSavePlayer_played p d) fun row => ?_
  cases row with
  | none => exact Keeps.fail
  | some playerId =>
      exact Keeps.bind (saveRest_keeps p fun f hf ht d hd => ofPlayer_played ht hd) fun _ =>
        Keeps.bind Keeps.commit fun _ => Keeps.pure 0

/-- A save in which nothing fails, of a player whose account there is: what is
committed has the player's play time. -/
theorem databaseSavePlayer_played (ho : ¬ c.isOpen) (hf : ∀ k, c.fails k = false)
    (hknown : known c.saved p = true) :
    Played (accountKey (mod37Namedec p.name)) p.columns.playTime
      (databaseSavePlayer c p).2.1.saved := by
  have hcl := databaseSavePlayer_closes (m := p) ho (hf _)
  have hok : c.opened.Clean (databaseSavePlayer c p).2.1 ∧ known c.saved p = true :=
    ⟨fun k _ _ => hf k, hknown⟩
  have hrows := Store.rows_of_closed (hcl.closed.2 hok)
  have hens : Ensures (Played (accountKey (mod37Namedec p.name)) p.columns.playTime)
      (savePlayerFrom p) := savePlayerFrom_played p
  have hrun : databaseSavePlayer c p = savePlayerFrom p c.opened p := by
    unfold databaseSavePlayer
    rw [start_bind ho (hf _), get_bind]
  have hplayed := hens c.opened p (by rw [← hrun]; exact hcl.done.2 hok)
  rw [← hrun, hrows] at hplayed
  exact hplayed

/-! ## From the login to the removal -/

/-- What can happen between a login and the removal of its connection: an
operation for another account, a save by one of the timers, and whatever else
is done to the player, which leaves the name and the date alone. -/
inductive Later where
  | other (op : DbOp)
  | save (now : Int)
  | act (f : Profile → Profile)

def Later.run (h : PwHash) : Later → Store Rows × Profile → Store Rows × Profile
  | .other op, (c, p) => ((op.run h c).2.1, p)
  | .save now, (c, p) => playerSave now c p
  | .act f, (c, p) => (c, f p)

def Later.Allowed (key : List Char) : Later → Prop
  | .other op => op.key ≠ key
  | .save _ => True
  | .act f => ∀ p, (f p).name = p.name ∧ (f p).columns.loginDate = p.columns.loginDate

/-- The store when the connection has been removed at time `gone`. -/
def afterRemoval (h : PwHash) (later : List Later) (gone : Int) (c : Store Rows) (p : Profile) :
    Store Rows :=
  let (c, p) := later.foldl (fun s e => e.run h s) (c, p)
  playerDestroy gone c p

/-- Either nothing can be written any more, or this player will not be. -/
def Harmless (key : List Char) (A : List Account) (s : Store Rows × Profile) : Prop :=
  (s.1.isOpen ∧ accountRows key s.1.saved = A) ∨
    (s.2.columns.loginDate = 0 ∧ s.1.Holds true (accountRows key · = A))

theorem Harmless.rows {s : Store Rows × Profile} (h : Harmless key A s) :
    accountRows key s.1.saved = A := h.elim And.right fun h => h.2.1 rfl

theorem playerSave_harmless {now : Int} (hh : Harmless key A (c, p)) :
    Harmless key A (playerSave now c p) := by
  unfold playerSave
  split
  · next hdate =>
    rcases hh with ⟨ho, hA⟩ | ⟨hzero, -⟩
    · refine .inl ?_
      show (databaseSavePlayer c (addPlayTime now p)).2.1.isOpen ∧
        accountRows key (databaseSavePlayer c (addPlayTime now p)).2.1.saved = A
      rw [databaseSavePlayer, start_bind_none (.inl ho)]
      exact ⟨ho, hA⟩
    · exact absurd hzero hdate
  · exact hh

theorem Later.run_harmless (h : PwHash) {e : Later} (he : e.Allowed key) {s : Store Rows × Profile}
    (hh : Harmless key A s) : Harmless key A (e.run h s) := by
  obtain ⟨c, p⟩ := s
  cases e with
  | other op =>
      rcases hh with ⟨ho, hA⟩ | ⟨hzero, hc⟩
      · refine .inl ?_
        show (op.run h c).2.1.isOpen ∧ accountRows key (op.run h c).2.1.saved = A
        rw [run_refused h op (.inl ho)]
        exact ⟨ho, hA⟩
      · exact .inr ⟨hzero, run_keeps_others h he hc⟩
  | save now => exact playerSave_harmless hh
  | act f => exact hh.imp id fun h => ⟨(he p).2.trans h.1, h.2⟩

theorem afterRemoval_harmless (h : PwHash) {later : List Later}
    (hlater : ∀ e ∈ later, e.Allowed key) (gone : Int) (hh : Harmless key A (c, p)) :
    accountRows key (afterRemoval h later gone c p).saved = A := by
  suffices hall : ∀ s : Store Rows × Profile, Harmless key A s →
      Harmless key A (later.foldl (fun s e => e.run h s) s) from
    (playerSave_harmless (hall (c, p) hh)).rows
  clear hh
  induction later with
  | nil => exact fun _ hs => hs
  | cons e later ih =>
      exact fun s hs => ih (fun e he => hlater e (List.mem_cons_of_mem _ he)) _
        (Later.run_harmless h (hlater e List.mem_cons_self) hs)

/-- The store with another stream of answers from here on. -/
def withFails (c : Store Rows) (fails : Nat → Bool) : Store Rows := { c with fails := fails }

section Attempt

variable (h : PwHash) (tile : StartTile) (now : Int) (c : Store Rows) (name : Int)
variable (password : List Char)

/-- A login of a connection, from `player_load` on. -/
def attempt : LoginReply × Store Rows × Profile :=
  loginLoad h tile now c (Profile.named name password)

/-- When a failed login is one the account will feel: its row was found and
the password was right, it has been played before, and the transaction was
closed in the end. -/
def Felt : Prop :=
  (∃ a, RowRead h c (Profile.named name password) a ∧ a.columns.loginDate ≠ 0) ∧
    LastOk (attempt h tile now c name password).2.1

variable {h tile now c name password}

theorem attempt_store : (attempt h tile now c name password).2.1 =
    (databaseLoadPlayer h c (loadDefaults tile (Profile.named name password))).2.1 := rfl

theorem attempt_player (hfail : (attempt h tile now c name password).1 ≠ .ok) :
    (attempt h tile now c name password).2.2 =
      { (databaseLoadPlayer h c (loadDefaults tile (Profile.named name password))).2.2 with
        password := [] } := if_neg hfail

theorem attempt_rows : (attempt h tile now c name password).2.1.Holds false (· = c.rows) :=
  databaseLoadPlayer_keeps h c _ ⟨fun hb => absurd hb Bool.false_ne_true, rfl⟩

theorem rowRead_defaults {a : Account} :
    RowRead h c (loadDefaults tile (Profile.named name password)) a ↔
      RowRead h c (Profile.named name password) a :=
  ⟨fun r => ⟨r.closed, r.start, r.bind, r.step, r.found, r.verified⟩,
    fun r => ⟨r.closed, r.start, r.bind, r.step, r.found, r.verified⟩⟩

/-- After a failed login that will not be felt, nothing is written back. -/
theorem attempt_harmless (hfail : (attempt h tile now c name password).1 ≠ .ok)
    (hfelt : ¬ Felt h tile now c name password) (fails : Nat → Bool) :
    Harmless key (accountRows key c.saved)
      (withFails (attempt h tile now c name password).2.1 fails,
        (attempt h tile now c name password).2.2) := by
  by_cases hc : c.isOpen
  · refine .inl ?_
    rw [attempt_store, databaseLoadPlayer, start_bind_none (.inl hc)]
    exact ⟨hc, rfl⟩
  · have hheld : (attempt h tile now c name password).2.1.Holds true
        (accountRows key · = accountRows key c.saved) :=
      databaseLoadPlayer_keeps h c _ (Store.Holds.of_closed hc rfl)
    by_cases hread : ∃ a, RowRead h c (Profile.named name password) a
    · obtain ⟨a, hr⟩ := hread
      by_cases hzero : a.columns.loginDate = 0
      · refine .inr ⟨?_, hheld⟩
        rw [attempt_player hfail]
        show (databaseLoadPlayer h c
        (loadDefaults tile (Profile.named name password))).2.2.columns.loginDate = 0
        rw [(load_of_read (rowRead_defaults.2 hr)).1, hzero]
      · have hlast : ¬ LastOk (attempt h tile now c name password).2.1 :=
          fun hl => hfelt ⟨⟨a, hr, hzero⟩, hl⟩
        rw [attempt_store] at hlast
        refine .inl ⟨not_not.1 fun ho => hlast ?_, hheld.1 rfl⟩
        exact ((databaseLoadPlayer_closed h hc hr.start).1 ho).2.2
    · refine .inr ⟨?_, hheld⟩
      have hnot : ¬ ∃ a, RowRead h c (loadDefaults tile (Profile.named name password)) a :=
        fun ⟨a, hr⟩ => hread ⟨a, rowRead_defaults.1 hr⟩
      rw [attempt_player hfail]
      show (databaseLoadPlayer h c
        (loadDefaults tile (Profile.named name password))).2.2.columns.loginDate = 0
      rw [(load_of_not_read hnot).1]
      rfl

/-- A failed login that will be felt: if nothing fails from then on, one
second of play has been added when the connection is removed. -/
theorem attempt_felt (hfail : (attempt h tile now c name password).1 ≠ .ok)
    (hfelt : Felt h tile now c name password) :
    ∃ gone, accountRows (accountKey (mod37Namedec name))
      (afterRemoval h [] gone (withFails (attempt h tile now c name password).2.1 fun _ => false)
        (attempt h tile now c name password).2.2).saved ≠
      accountRows (accountKey (mod37Namedec name)) c.saved := by
  obtain ⟨⟨a, hr, hdate⟩, hlast⟩ := hfelt
  have hclosed : ¬ (attempt h tile now c name password).2.1.isOpen := by
    rw [attempt_store]
    exact (databaseLoadPlayer_closed h hr.closed hr.start).2 ⟨hr.bind, hr.step, hlast⟩
  have hsaved : (attempt h tile now c name password).2.1.saved = c.saved := by
    rw [← Store.rows_of_closed hclosed, attempt_rows.2, Store.rows_of_closed hr.closed]
  have hrow : SameRow a.columns name (attempt h tile now c name password).2.2 := by
    rw [attempt_player hfail]
    exact load_of_read (rowRead_defaults.2 hr)
  generalize (attempt h tile now c name password).2.2 = p at hrow ⊢
  obtain ⟨hcolumns, rfl⟩ := hrow
  let c' := withFails (attempt h tile now c p.name password).2.1 fun _ => false
  have hclosed' : ¬ c'.isOpen := hclosed
  have hknown : known c'.saved (addPlayTime (a.columns.loginDate + 1) p) = true := by
    show (Rows.find? (attempt h tile now c p.name password).2.1.saved (mod37Namedec p.name)).isSome
      = true
    rw [hsaved, show c.saved.find? (mod37Namedec p.name) = some a from hr.found]
    rfl
  have hplayed := databaseSavePlayer_played hclosed' (fun _ => rfl) hknown
  refine ⟨a.columns.loginDate + 1, fun hsame => ?_⟩
  have hdest : afterRemoval h [] (a.columns.loginDate + 1) c' p =
      (databaseSavePlayer c' (addPlayTime (a.columns.loginDate + 1) p)).2.1 := by
    show (playerSave (a.columns.loginDate + 1) c' p).1 = _
    rw [playerSave, if_pos (by rw [hcolumns]; exact hdate)]
  rw [hdest] at hsame
  obtain ⟨hmem, hkey⟩ := find_key hr.found
  have hin : a ∈ accountRows (accountKey (mod37Namedec p.name)) c.saved :=
    mem_accountRows.2 ⟨hmem, hkey⟩
  rw [← hsame] at hin
  have htime := hplayed a (mem_accountRows.1 hin).1 hkey
  simp only [addPlayTime, hcolumns] at htime
  omega

end Attempt

/-- Whatever happens after a failed login, to this player or to others, and
whichever calls fail by then, the account's rows are the same when the
connection has been removed: exactly when the login is not one of those that
the account will feel. -/
theorem failed_login_rows_iff (h : PwHash) (tile : StartTile) (now : Int) (c : Store Rows)
    (name : Int) (password : List Char)
    (hfail : (attempt h tile now c name password).1 ≠ .ok) :
    (∀ fails later gone, (∀ e ∈ later, e.Allowed (accountKey (mod37Namedec name))) →
      accountRows (accountKey (mod37Namedec name))
        (afterRemoval h later gone (withFails (attempt h tile now c name password).2.1 fails)
          (attempt h tile now c name password).2.2).saved =
        accountRows (accountKey (mod37Namedec name)) c.saved) ↔
      ¬ Felt h tile now c name password := by
  constructor
  · intro hall hfelt
    obtain ⟨gone, hne⟩ := attempt_felt hfail hfelt
    exact hne (hall _ [] gone fun e he => nomatch he)
  · intro hfelt fails later gone hlater
    exact afterRemoval_harmless h hlater gone (attempt_harmless hfail hfelt fails)

/-- One account, of the name 5, last played at time 1. -/
def playedStore (fails : Nat → Bool) : Store Rows where
  saved :=
    { accounts := [{ id := 1, username := ['E'], password := ['p'], columns := { loginDate := 1 } }]
      nodup := List.nodup_singleton _ }
  fails := fails

/-- A wrong password leaves the account as it was. -/
theorem failed_login_rows_iff_password :
    (attempt plainHash ⟨0, 0⟩ 2 (playedStore fun _ => false) 5 ['q']).1 ≠ .ok ∧
      ∀ fails later gone, (∀ e ∈ later, e.Allowed (accountKey (mod37Namedec 5))) →
        accountRows (accountKey (mod37Namedec 5))
          (afterRemoval plainHash later gone
            (withFails (attempt plainHash ⟨0, 0⟩ 2 (playedStore fun _ => false) 5 ['q']).2.1 fails)
            (attempt plainHash ⟨0, 0⟩ 2 (playedStore fun _ => false) 5 ['q']).2.2).saved =
          accountRows (accountKey (mod37Namedec 5)) (playedStore fun _ => false).saved := by
  have hfail : (attempt plainHash ⟨0, 0⟩ 2 (playedStore fun _ => false) 5 ['q']).1 ≠ .ok := by
    decide
  refine ⟨hfail,
    (failed_login_rows_iff plainHash ⟨0, 0⟩ 2 (playedStore fun _ => false) 5 ['q'] hfail).2 ?_⟩
  rintro ⟨⟨a, hr, -⟩, -⟩
  have hfound := hr.found
  obtain rfl := Option.some.inj hfound
  exact absurd hr.verified (by decide)

/-- The call after the row was copied fails, once: the half-loaded player is
written back. -/
theorem failed_login_writes : ¬ ∀ (h : PwHash) (tile : StartTile) (now : Int) (c : Store Rows)
    (name : Int) (password : List Char), (attempt h tile now c name password).1 ≠ .ok →
    ∀ fails later gone, (∀ e ∈ later, e.Allowed (accountKey (mod37Namedec name))) →
      accountRows (accountKey (mod37Namedec name))
        (afterRemoval h later gone (withFails (attempt h tile now c name password).2.1 fails)
          (attempt h tile now c name password).2.2).saved =
        accountRows (accountKey (mod37Namedec name)) c.saved := by
  intro hall
  have hfail : (attempt plainHash ⟨0, 0⟩ 2 (playedStore fun k => k == 3) 5 ['p']).1 ≠ .ok := by
    decide
  have hread : RowRead plainHash (playedStore fun k => k == 3) (Profile.named 5 ['p'])
      { id := 1, username := ['E'], password := ['p'], columns := { loginDate := 1 } } :=
    ⟨Bool.false_ne_true, rfl, rfl, rfl, rfl, rfl⟩
  have hfelt : Felt plainHash ⟨0, 0⟩ 2 (playedStore fun k => k == 3) 5 ['p'] :=
    ⟨⟨_, hread, by decide⟩, rfl⟩
  obtain ⟨gone, hne⟩ := attempt_felt hfail hfelt
  exact hne (hall _ _ _ _ _ _ hfail _ [] gone fun e he => nomatch he)

end Sundae.Proofs
