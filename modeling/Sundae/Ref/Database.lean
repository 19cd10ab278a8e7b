import Sundae.Lib.Act
import Sundae.Ref.Name

/-!
# The database

`database-sqlite.c`: creating, loading and saving an account, each a program
over a store in which every call of SQLite may fail. A call is one
`sqlite3_bind`, `sqlite3_step`, `sqlite3_clear_bindings`, `sqlite3_reset` or
`sqlite3_exec`; preparing the statements is `database_init`'s, before any
player. A constraint of the schema that an insertion would violate is one of
the reasons a step fails. A column gives back the number that was bound to it.

The rows of the five tables are kept by account: those that carry a
`player_id` sit inside the account of that id.
-/

namespace Sundae.Ref

open Sundae.Lib

/-- The columns of `players` that a save writes, in the order it binds them. -/
structure Columns where
  rpgClass : Int := 255
  playTime : Int := 0
  loginDate : Int := 0
  banEndDate : Int := 0
  x : Int := 120
  y : Int := 648
  questPoints : Int := 0
  cameraAuto : Int := 1
  oneMouseButton : Int := 0
  blockPublic : Int := 0
  blockPrivate : Int := 0
  blockTrade : Int := 0
  blockDuel : Int := 0
  hairColour : Int := 2
  topColour : Int := 8
  legColour : Int := 14
  skinColour : Int := 0
  headSprite : Int := 1
  bodySprite : Int := 2
  skullTimer : Int := 0
  /-- current level, base level and experience of each skill -/
  skills : List (Int × Int × Int) := []
  deriving DecidableEq, Repr

namespace Columns

/-- The values bound to the statement `save_player`, before the name. -/
def binds (c : Columns) : List Int :=
  [c.rpgClass, c.playTime, c.loginDate, c.banEndDate, c.x, c.y, c.questPoints, c.cameraAuto,
    c.oneMouseButton, c.blockPublic, c.blockPrivate, c.blockTrade, c.blockDuel, c.hairColour,
    c.topColour, c.legColour, c.skinColour, c.headSprite, c.bodySprite, c.skullTimer] ++
  c.skills.flatMap fun (cur, base, xp) => [cur, base, xp]

end Columns

structure ContactRow where
  isIgnore : Bool
  slot : Nat
  contact : List Char
  deriving DecidableEq, Repr

structure InventoryRow where
  slot : Nat
  itemId : Nat
  amount : Nat
  isWorn : Bool
  deriving DecidableEq, Repr

structure BankRow where
  slot : Nat
  itemId : Nat
  amount : Nat
  deriving DecidableEq, Repr

/-- A row of `players` with the rows that refer to it. -/
structure Account where
  id : Nat
  username : List Char
  password : List Char
  rank : Int := 0
  creationDate : Int := 0
  columns : Columns := {}
  playerVariables : List (List Char × Int) := []
  contacts : List ContactRow := []
  inventory : List InventoryRow := []
  bank : List BankRow := []
  deriving DecidableEq, Repr

/-- `lower(username)`, by which every query finds an account. -/
def accountKey (username : List Char) : List Char := username.map Char.toLower

def Account.key (a : Account) : List Char := accountKey a.username

/-- The tables; `id` is the primary key of `players`. -/
structure Rows where
  accounts : List Account
  nodup : (accounts.map Account.id).Nodup

namespace Rows

def find? (d : Rows) (username : List Char) : Option Account :=
  d.accounts.find? fun a => a.key == accountKey username

/-- A change of the accounts chosen by `p` that leaves ids alone. -/
def update (d : Rows) (p : Account → Bool) (f : Account → Account) (hf : ∀ a, (f a).id = a.id) :
    Rows where
  accounts := d.accounts.map fun a => if p a then f a else a
  nodup := by
    have hid : Account.id ∘ (fun a => if p a then f a else a) = Account.id := by
      funext a
      simp only [Function.comp_apply]
      split
      · exact hf a
      · rfl
    rw [List.map_map, hid]
    exact d.nodup

/-- `UPDATE … WHERE lower(username) = lower(?)`. -/
def setColumns (d : Rows) (username : List Char) (columns : Columns) : Rows :=
  d.update (fun a => a.key == accountKey username) (fun a => { a with columns := columns })
    fun _ => rfl

/-- The next value of the primary key. -/
def freshId (d : Rows) : Nat := (d.accounts.map Account.id).foldr max 0 + 1

theorem lt_freshId (d : Rows) {a : Account} (h : a ∈ d.accounts) : a.id < d.freshId := by
  have hle : ∀ l : List Nat, ∀ n ∈ l, n ≤ l.foldr max 0 := by
    intro l
    induction l with
    | nil => simp
    | cons b l ih =>
        intro n hn
        rcases List.mem_cons.1 hn with rfl | hn
        · exact Nat.le_max_left _ _
        · exact Nat.le_trans (ih n hn) (Nat.le_max_right _ _)
  exact Nat.lt_succ_of_le (hle _ _ (List.mem_map_of_mem h))

def insert (d : Rows) (username password : List Char) : Rows where
  accounts := d.accounts ++ [{ id := d.freshId, username := username, password := password }]
  nodup := by
    rw [List.map_append, List.nodup_append]
    refine ⟨d.nodup, List.nodup_singleton _, ?_⟩
    intro n hn k hk
    obtain ⟨a, ha, rfl⟩ := List.mem_map.1 hn
    rw [List.map_singleton, List.mem_singleton] at hk
    have hlt := d.lt_freshId ha
    rw [hk]
    exact Nat.ne_of_lt hlt

end Rows

/-- What of `struct player` is loaded and saved. The arrays are functions of
the slot, beside their counts, as the loading loops fill them. -/
structure Profile where
  name : Int
  password : List Char := []
  rank : Int := 0
  creationDate : Int := 0
  columns : Columns := {}
  /-- `client_settings[2]`, which a save binds for the mouse button -/
  clientSetting2 : Int := 0
  skulled : Bool := false
  /-- neither a column of the database -/
  gender : Nat := 0
  legSprite : Nat := 0
  playerVariables : List (List Char × Int) := []
  friendList : Nat → Int := fun _ => 0
  friendCount : Nat := 0
  ignoreList : Nat → Int := fun _ => 0
  ignoreCount : Nat := 0
  inventory : Nat → InventoryRow := fun k => ⟨k, 0, 0, false⟩
  invCount : Nat := 0
  bank : Nat → BankRow := fun k => ⟨k, 0, 0⟩
  bankCount : Nat := 0

/-- `pwhash_hash` under the salt drawn for it, and `pwhash_verify`. -/
structure PwHash where
  hash : List Char → Option (List Char)
  verify : List Char → List Char → Bool

abbrev Query := Act Rows Profile

/-! ## Statements -/

def stmtBind : Query Unit := Act.call fun d => ((), d)

def stmtReset : Query Unit := do
  -- `sqlite3_clear_bindings`, then `sqlite3_reset`
  Act.call fun d => ((), d)
  Act.call fun d => ((), d)

/-- A step of a statement that reads. -/
def stmtRead {α : Type} (f : Rows → α) : Query α := Act.call fun d => (f d, d)

/-- A step of a statement that writes. -/
def stmtWrite (f : Rows → Rows) : Query Unit := Act.call fun d => ((), f d)

/-- `while ((res = sqlite3_step(stmt)) == SQLITE_ROW)`: a step for every row,
and one more that says there are none left. -/
def stmtFetch {ρ : Type} (rows : List ρ) (f : ρ → Profile → Profile) : Query Unit := do
  Act.each rows fun r => do
    stmtRead fun _ => ()
    Act.modify (f r)
  stmtRead fun _ => ()

/-! ## Loading -/

/-- The rows one account has in a table, as a query by `player_id` finds them. -/
def tableOf {ρ : Type} (table : Account → List ρ) (playerId : Nat) (d : Rows) : List ρ :=
  (d.accounts.filter fun a => a.id == playerId).flatMap table

/-- The loop the four loading functions share. -/
def loadTable {ρ : Type} (table : Account → List ρ) (playerId : Nat)
    (f : ρ → Profile → Profile) : Query Unit := do
  stmtBind
  let d ← Act.rows
  stmtFetch (tableOf table playerId d) f
  stmtReset

def playerVariableGet (p : Profile) (varname : List Char) : Int :=
  ((p.playerVariables.find? fun v => strcasecmp varname v.1).map Prod.snd).getD 0

/-- An existing variable is written in place, or removed when the value is 0;
a new one is made whatever the value. -/
def playerVariableSet (r : List Char × Int) (p : Profile) : Profile :=
  match p.playerVariables.findIdx? fun v => strcasecmp r.1 v.1 with
  | some i =>
    if r.2 = 0 then { p with playerVariables := p.playerVariables.eraseIdx i }
    else { p with playerVariables := p.playerVariables.modify i fun v => (v.1, r.2) }
  | none => { p with playerVariables := p.playerVariables ++ [r] }

def databaseLoadPlayerVariables (playerId : Nat) : Query Unit :=
  loadTable Account.playerVariables playerId playerVariableSet

def loadContact (r : ContactRow) (p : Profile) : Profile :=
  let contact := mod37Nameenc r.contact
  if r.isIgnore then
    { p with
      ignoreList := fun k => if k = r.slot then contact else p.ignoreList k
      ignoreCount := p.ignoreCount + 1 }
  else
    { p with
      friendList := fun k => if k = r.slot then contact else p.friendList k
      friendCount := p.friendCount + 1 }

def databaseLoadPlayerContacts (playerId : Nat) : Query Unit :=
  loadTable Account.contacts playerId loadContact

def loadItem (r : InventoryRow) (p : Profile) : Profile :=
  { p with
    inventory := fun k => if k = r.slot then r else p.inventory k
    invCount := p.invCount + 1 }

def databaseLoadPlayerInventory (playerId : Nat) : Query Unit :=
  loadTable Account.inventory playerId loadItem

def loadBankItem (r : BankRow) (p : Profile) : Profile :=
  { p with
    bank := fun k => if k = r.slot then r else p.bank k
    bankCount := p.bankCount + 1 }

def databaseLoadPlayerBank (playerId : Nat) : Query Unit :=
  loadTable Account.bank playerId loadBankItem

/-- The columns of the row, copied into the player. -/
def loadColumns (a : Account) (p : Profile) : Profile :=
  { p with
    rank := a.rank
    creationDate := a.creationDate
    columns := a.columns
    skulled := p.skulled || decide (0 < a.columns.skullTimer) }

/-- `RESP_INVALID`, `RESP_TEMP_DISABLED` and the like are positive, `-1` is an
error of the database, 0 is success. -/
def respInvalid : Int := 3

/-- The label `end:`. -/
def loadEnd (ret : Int) : Query Int := do
  let _ ← Act.attempt stmtReset
  let _ ← Act.attempt (Act.commit : Query Unit)
  pure ret

/-- From the reset of `get_player` to `COMMIT`. -/
def loadRest (playerId : Nat) : Query Unit := do
  stmtReset
  databaseLoadPlayerVariables playerId
  databaseLoadPlayerContacts playerId
  databaseLoadPlayerInventory playerId
  databaseLoadPlayerBank playerId
  Act.commit

/-- The row's columns are in the player before the other tables are read. -/
def loadRow (a : Account) : Query Int := do
  Act.modify (loadColumns a)
  let done ← Act.attempt (loadRest a.id)
  if done.isSome then pure 0 else loadEnd (-1)

/-- What is done with the row of `get_player`, if there is one. -/
def loadFound (h : PwHash) : Option Account → Query Int
  | none => loadEnd respInvalid
  | some a => do
    let p ← Act.get
    if h.verify a.password p.password then loadRow a else loadEnd respInvalid

def loadPlayerFrom (h : PwHash) (p : Profile) : Query Int := do
  stmtBind
  let row ← stmtRead fun d => d.find? (mod37Namedec p.name)
  loadFound h row

def databaseLoadPlayer (h : PwHash) : Query Int := do
  Act.start
  let p ← Act.get
  loadPlayerFrom h p

/-! ## Creating -/

/-- What follows the check of the name. -/
def newPlayerFound (h : PwHash) (p : Profile) : Bool → Query Int
  -- "user found": nothing is created, and it is no error
  | true => do
    stmtReset
    Act.commit
    pure 0
  | false => do
    stmtReset
    stmtBind
    match h.hash p.password with
    | none => Act.fail
    | some encodedPwd =>
      stmtBind
      stmtWrite fun d => d.insert (mod37Namedec p.name) encodedPwd
      stmtReset
      Act.commit
      pure 0

def newPlayerFrom (h : PwHash) (p : Profile) : Query Int := do
  stmtBind
  let found ← stmtRead fun d => (d.find? (mod37Namedec p.name)).isSome
  newPlayerFound h p found

def databaseNewPlayer (h : PwHash) : Query Int := do
  Act.start
  let p ← Act.get
  newPlayerFrom h p

/-! ## Saving -/

/-- A statement with `n` parameters that writes the rows of one player. -/
def stmtRun (n : Nat) (f : Rows → Rows) : Query Unit := do
  Act.each (List.range n) fun _ => stmtBind
  stmtWrite f
  stmtReset

/-- A change of the rows that carry the id of one player. -/
def ofPlayer (playerId : Nat) (f : Account → Account) (hf : ∀ a, (f a).id = a.id) (d : Rows) :
    Rows := d.update (fun a => a.id == playerId) f hf

def databaseSavePlayerVariables (p : Profile) (playerId : Nat) : Query Unit := do
  stmtRun 1 (ofPlayer playerId (fun a => { a with playerVariables := [] }) fun _ => rfl)
  Act.each (p.playerVariables.filter fun v => v.2 != 0) fun v =>
    stmtRun 3 (ofPlayer playerId (fun a => { a with playerVariables := a.playerVariables ++ [v] })
      fun _ => rfl)

def databaseSavePlayerContacts (p : Profile) (playerId : Nat) (isIgnore : Bool) : Query Unit :=
  let contactCount := if isIgnore then p.ignoreCount else p.friendCount
  let contacts := if isIgnore then p.ignoreList else p.friendList
  Act.each (List.range contactCount) fun i =>
    stmtRun 4 (ofPlayer playerId
      (fun a => { a with contacts := a.contacts ++ [⟨isIgnore, i, mod37Namedec (contacts i)⟩] })
      fun _ => rfl)

def databaseSavePlayerInventory (p : Profile) (playerId : Nat) : Query Unit := do
  stmtRun 1 (ofPlayer playerId (fun a => { a with inventory := [] }) fun _ => rfl)
  Act.each (List.range p.invCount) fun i =>
    stmtRun 5 (ofPlayer playerId
      (fun a => { a with inventory := a.inventory ++ [{ p.inventory i with slot := i }] })
      fun _ => rfl)

def databaseSavePlayerBank (p : Profile) (playerId : Nat) : Query Unit := do
  stmtRun 1 (ofPlayer playerId (fun a => { a with bank := [] }) fun _ => rfl)
  Act.each (List.range p.bankCount) fun i =>
    stmtRun 4 (ofPlayer playerId
      (fun a => { a with bank := a.bank ++ [{ p.bank i with slot := i }] }) fun _ => rfl)

/-- The values a save gives the columns. -/
def saveColumns (p : Profile) : Columns := { p.columns with oneMouseButton := p.clientSetting2 }

/-- The update, `RETURNING id`: the row it returns, if there is one. -/
def stepSavePlayer (p : Profile) : Query (Option Nat) :=
  Act.call fun d =>
    ((d.find? (mod37Namedec p.name)).map Account.id,
      d.setColumns (mod37Namedec p.name) (saveColumns p))

/-- From the reset of `save_player` to `COMMIT`. -/
def saveRest (p : Profile) (playerId : Nat) : Query Unit := do
  stmtReset
  databaseSavePlayerVariables p playerId
  stmtRun 1 (ofPlayer playerId (fun a => { a with contacts := [] }) fun _ => rfl)
  databaseSavePlayerContacts p playerId false
  databaseSavePlayerContacts p playerId true
  databaseSavePlayerInventory p playerId
  databaseSavePlayerBank p playerId

/-- A save whose update gave back this row. -/
def saveFound (p : Profile) : Option Nat → Query Int
  | none => Act.fail
  | some playerId => do
    saveRest p playerId
    Act.commit
    pure 0

def savePlayerFrom (p : Profile) : Query Int := do
  Act.each (saveColumns p).binds fun _ => stmtBind
  stmtBind
  let row ← stepSavePlayer p
  saveFound p row

def databaseSavePlayer : Query Int := do
  Act.start
  let p ← Act.get
  savePlayerFrom p

end Sundae.Ref
