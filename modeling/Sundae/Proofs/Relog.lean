import Mathlib.Tactic.Ring
import Sundae.Lib.Field
import Sundae.Proofs.Account
import Sundae.Proofs.Login
import Sundae.Proofs.Name
import Sundae.Ref.Design

/-!
# What a player gets back

A save and then a load of the same account into a player that has just
connected, in a database that works. Both go through the columns in the same
order, and every table comes back slot by slot; what is lost is what one of the
two does not name. The mouse button is saved from the third client setting and
loaded into the second, the gender has no column, and a contact is kept by its
name, which a number below 1 does not have.
-/

namespace Sundae.Proofs

open Sundae.Ref Sundae.Lib Sundae.Lib.Act

/-! ## Names -/

theorem wrap64_of_inRange {n : Int} (hpos : 0 ≤ n) (hn : n < 2 ^ 63) : wrap64 n = n := by
  unfold wrap64
  rw [Int.bmod_eq_of_le (by omega) (by omega)]

/-- The digit that `mod37_nameenc` makes of a character of a decoded name. -/
theorem nameencDigit_namedecChar {d : Nat} (hd : d < 37) (rest : Nat) :
    usernameSanitize [namedecChar d rest] = [lowerDigit d] := by
  have hupper : ∀ d < 37, usernameSanitize [namedecChar d 0] = [lowerDigit d] := by decide
  have hlower : ∀ d < 37, usernameSanitize [namedecChar d 1] = [lowerDigit d] := by decide
  by_cases hrest : rest % 37 = 0
  · have hsame : namedecChar d rest = namedecChar d 0 := by simp [namedecChar, hrest]
    rw [hsame, hupper d hd]
  · have hsame : namedecChar d rest = namedecChar d 1 := by simp [namedecChar, hrest]
    rw [hsame, hlower d hd]

theorem usernameSanitize_cons (c : Char) (l : List Char) :
    usernameSanitize (c :: l) = usernameSanitize [c] ++ usernameSanitize l := rfl

theorem length_namedecLoop (k n : Nat) : (namedecLoop k n).length ≤ k := by
  induction k generalizing n with
  | zero => exact Nat.le_refl _
  | succ k ih =>
      unfold namedecLoop
      split
      · exact Nat.zero_le _
      · exact Nat.succ_le_succ (ih _)

/-- The digits of a name, the last one first, add up to it. -/
theorem foldr_namedecLoop {k n : Nat} (hk : n < 37 ^ k) (hn : n < 2 ^ 63) :
    (usernameSanitize (namedecLoop k n)).foldr
      (fun c encoded => wrap64 (encoded * 37 + nameencDigit c)) 0 = n := by
  induction k generalizing n with
  | zero =>
      obtain rfl : n = 0 := by omega
      rfl
  | succ k ih =>
      unfold namedecLoop
      split
      · next hzero =>
        subst hzero
        rfl
      · next hpos =>
        have hlt : n / 37 < 37 ^ k := by
          rw [pow_succ] at hk
          omega
        have hd : n % 37 < 37 := Nat.mod_lt _ (by omega)
        rw [usernameSanitize_cons, nameencDigit_namedecChar hd, List.singleton_append,
          List.foldr_cons, ih hlt (by omega), nameencDigit_lowerDigit _ hd]
        have hsum : ((n / 37 : Nat) : Int) * 37 + ((n % 37 : Nat) : Int) = n := by omega
        rw [hsum]
        exact wrap64_of_inRange (by omega) (by omega)

/-- A name from 1 on is read back. -/
theorem mod37Nameenc_namedec {n : Int} (hpos : 0 < n) (hn : InRange n) :
    mod37Nameenc (mod37Namedec n) = n := by
  have hn : n < 2 ^ 63 := hn
  have hlen := length_namedecLoop 13 n.toNat
  have hne : (namedecLoop 13 n.toNat).length ≠ 0 := by
    unfold namedecLoop
    rw [if_neg (by omega)]
    simp
  have hname : mod37Namedec n = (namedecLoop 13 n.toNat).reverse := by
    unfold mod37Namedec
    rw [if_neg (by omega)]
    simp only [hne, if_false]
  have hshort : ¬ 20 < (namedecLoop 13 n.toNat).reverse.length := by
    rw [List.length_reverse]
    omega
  have hsum := foldr_namedecLoop (k := 13) (n := n.toNat) (by omega) (by omega)
  rw [hname, mod37Nameenc, if_neg hshort, usernameSanitize, List.map_reverse, List.foldl_reverse]
  exact hsum.trans (by omega)

theorem mod37Namedec_nonpos {n : Int} (hn : n ≤ 0) : mod37Namedec n = invalidName := by
  unfold mod37Namedec
  split
  · rfl
  · obtain rfl : n = 0 := by omega
    rfl

theorem mod37Nameenc_namedec_iff {n : Int} (hn : InRange n) :
    mod37Nameenc (mod37Namedec n) = n ↔ 0 < n := by
  constructor
  · intro heq
    by_contra hneg
    have hinvalid : 0 < mod37Nameenc invalidName := by decide
    rw [mod37Namedec_nonpos (by omega)] at heq
    omega
  · intro hpos
    exact mod37Nameenc_namedec hpos hn

/-! ## Variables -/

/-- A variable's name as scripts compare names. -/
def variableKey (v : List Char × Int) : List Char := v.1.map Char.toLower

def Distinct (l : List (List Char × Int)) : Prop := (l.map variableKey).Nodup

theorem strcasecmp_iff {a : List Char} {v : List Char × Int} :
    strcasecmp a v.1 = true ↔ a.map Char.toLower = variableKey v := by
  simp [strcasecmp, variableKey]

variable {p q : Profile}

/-- What a set comes to: a variable less, one with another value, or a new one. -/
theorem playerVariableSet_distinct (r : List Char × Int) (h : Distinct p.playerVariables) :
    Distinct (playerVariableSet r p).playerVariables := by
  unfold playerVariableSet
  split
  · next i hi =>
    split
    · exact h.sublist ((List.eraseIdx_sublist _ _).map _)
    · have hkeys : (p.playerVariables.modify i fun v => (v.1, r.2)).map variableKey =
          p.playerVariables.map variableKey := by
        apply List.ext_getElem (by simp)
        intro k h1 h2
        rw [List.getElem_map, List.getElem_map, List.getElem_modify]
        split
        · rfl
        · rfl
      show (List.map variableKey _).Nodup
      rw [hkeys]
      exact h
  · next hnone =>
    have hnew : ∀ v ∈ p.playerVariables, variableKey v ≠ variableKey r := by
      intro v hv heq
      have hsame := List.findIdx?_eq_none_iff.1 hnone v hv
      exact absurd (strcasecmp_iff.2 heq.symm) (Bool.eq_false_iff.1 hsame)
    show (List.map variableKey (_ ++ _)).Nodup
    rw [List.map_append, List.nodup_append]
    refine ⟨h, List.nodup_singleton _, ?_⟩
    intro a ha b hb
    obtain ⟨v, hv, rfl⟩ := List.mem_map.1 ha
    rw [List.mem_singleton.1 hb]
    exact hnew v hv

/-- Variables of new names are appended one by one. -/
theorem foldl_playerVariableSet {l : List (List Char × Int)}
    (h : Distinct (p.playerVariables ++ l)) :
    l.foldl (fun p r => playerVariableSet r p) p =
      { p with playerVariables := p.playerVariables ++ l } := by
  induction l generalizing p with
  | nil => simp
  | cons r l ih =>
      have hnone : p.playerVariables.findIdx? (fun v => strcasecmp r.1 v.1) = none := by
        rw [List.findIdx?_eq_none_iff]
        intro v hv
        rw [Bool.eq_false_iff]
        intro hsame
        unfold Distinct at h
        rw [List.map_append, List.nodup_append] at h
        exact h.2.2 _ (List.mem_map_of_mem hv) _ (List.mem_map_of_mem List.mem_cons_self)
          (strcasecmp_iff.1 hsame).symm
      have hset : playerVariableSet r p =
          { p with playerVariables := p.playerVariables ++ [r] } := by
        unfold playerVariableSet
        rw [hnone]
      rw [List.foldl_cons, hset, ih (by simpa using h)]
      simp

/-- A variable of value 0 reads like one there is not. -/
theorem playerVariableGet_filter (h : Distinct p.playerVariables) (varname : List Char) :
    playerVariableGet { p with playerVariables := p.playerVariables.filter fun v => v.2 != 0 }
      varname = playerVariableGet p varname := by
  show (((p.playerVariables.filter fun v => v.2 != 0).find? fun v =>
    strcasecmp varname v.1).map Prod.snd).getD 0 = _
  unfold playerVariableGet
  generalize p.playerVariables = l at h
  induction l with
  | nil => rfl
  | cons v l ih =>
      obtain ⟨hv, hl⟩ := List.nodup_cons.1 h
      by_cases hsame : strcasecmp varname v.1 = true
      · rw [List.find?_cons_of_pos (by simpa using hsame)]
        by_cases hzero : v.2 = 0
        · have hnone : (l.filter fun v => v.2 != 0).find? (fun v => strcasecmp varname v.1) =
              none := by
            rw [List.find?_eq_none]
            intro w hw heq
            rw [strcasecmp_iff] at hsame heq
            exact hv (List.mem_map.2 ⟨w, (List.mem_filter.1 hw).1, heq.symm.trans hsame⟩)
          rw [List.filter_cons_of_neg (by simp [hzero]), hnone]
          simp [hzero]
        · rw [List.filter_cons_of_pos (by simpa using hzero),
            List.find?_cons_of_pos (by simpa using hsame)]
      · rw [List.find?_cons_of_neg (by simpa using hsame)]
        by_cases hzero : v.2 = 0
        · rw [List.filter_cons_of_neg (by simp [hzero]), ih hl]
        · rw [List.filter_cons_of_pos (by simpa using hzero),
            List.find?_cons_of_neg (by simpa using hsame), ih hl]

/-! ## What a save writes -/

variable {m : Profile} {v : Rows × Option Rows} {s d : Rows} {a : Account}

theorem stmtBind_does : Does stmtBind (s, some d) m () (s, some d) m := Does.call _

theorem stmtReset_does : Does stmtReset (s, some d) m () (s, some d) m :=
  Does.bind (Does.call _) (Does.call _)

theorem foldl_same {β σ : Type} (l : List β) (x : σ) : l.foldl (fun x _ => x) x = x := by
  induction l with
  | nil => rfl
  | cons _ l ih => exact ih

theorem binds_does {β : Type} (l : List β) :
    Does (Act.each l fun _ => stmtBind) (s, some d) m () (s, some d) m := by
  have h := Does.each (s := s) (fun (_ : β) d m => stmtBind_does (s := s) (d := d) (m := m)) l d m
  rwa [foldl_same, foldl_same] at h

theorem stmtRun_does (n : Nat) (f : Rows → Rows) :
    Does (stmtRun n f) (s, some d) m () (s, some (f d)) m :=
  Does.bind (binds_does _) (Does.bind (Does.call _) stmtReset_does)

/-- A loop of statements that write the rows of one player. -/
theorem runs_does {β : Type} (n : Nat) (f : β → Rows → Rows) (l : List β) :
    Does (Act.each l fun y => stmtRun n (f y)) (s, some d) m ()
      (s, some (l.foldl (fun d y => f y d) d)) m := by
  have h := Does.each (s := s) (fun y d m => stmtRun_does (s := s) (d := d) (m := m) n (f y)) l d m
  rwa [foldl_same] at h

variable {name : List Char} {id : Nat}

/-- A change of some accounts that leaves alone what they are found by. -/
theorem find_update {choose : Account → Bool} {f : Account → Account}
    {hf : ∀ a, (f a).id = a.id} (hkey : ∀ a, (f a).key = a.key) (h : d.find? name = some a)
    (ha : choose a = true) : (d.update choose f hf).find? name = some (f a) := by
  show (d.accounts.map fun a => if choose a then f a else a).find? _ = _
  rw [List.find?_map]
  have hsame : ((fun a : Account => a.key == accountKey name) ∘ fun a =>
      if choose a then f a else a) = fun a => a.key == accountKey name := by
    funext b
    simp only [Function.comp_apply]
    split
    · rw [hkey]
    · rfl
  have hfind : d.accounts.find? (fun a => a.key == accountKey name) = some a := h
  rw [hsame, hfind, Option.map_some, ha, if_pos rfl]

theorem find_ofPlayer {f : Account → Account} {hf : ∀ a, (f a).id = a.id}
    (hkey : ∀ a, (f a).key = a.key) (h : d.find? name = some a) (hid : a.id = id) :
    (ofPlayer id f hf d).find? name = some (f a) :=
  find_update hkey h (beq_iff_eq.2 hid)

/-- A table of the account, as a part of it that is not what finds it. -/
structure TableField (ρ : Type) extends Field Account (List ρ) where
  set_id : ∀ t a, (set t a).id = a.id
  set_key : ∀ t a, (set t a).key = a.key

def variablesTable : TableField (List Char × Int) where
  get := Account.playerVariables
  set t a := { a with playerVariables := t }
  get_set _ _ := rfl
  set_set _ _ _ := rfl
  set_get _ := rfl
  set_id _ _ := rfl
  set_key _ _ := rfl

def contactsTable : TableField ContactRow where
  get := Account.contacts
  set t a := { a with contacts := t }
  get_set _ _ := rfl
  set_set _ _ _ := rfl
  set_get _ := rfl
  set_id _ _ := rfl
  set_key _ _ := rfl

def inventoryTable : TableField InventoryRow where
  get := Account.inventory
  set t a := { a with inventory := t }
  get_set _ _ := rfl
  set_set _ _ _ := rfl
  set_get _ := rfl
  set_id _ _ := rfl
  set_key _ _ := rfl

def bankTable : TableField BankRow where
  get := Account.bank
  set t a := { a with bank := t }
  get_set _ _ := rfl
  set_set _ _ _ := rfl
  set_get _ := rfl
  set_id _ _ := rfl
  set_key _ _ := rfl

section Table

variable {ρ β : Type} (T : TableField ρ)

/-- The account of the name is this one, in the rows the program leaves. -/
def Leaves (x : Query Unit) (s d : Rows) (m : Profile) (name : List Char) (a : Account) : Prop :=
  ∃ d', Does x (s, some d) m () (s, some d') m ∧ d'.find? name = some a

theorem Leaves.bind {x y : Query Unit} {a b : Account} (hx : Leaves x s d m name a)
    (hy : ∀ d, d.find? name = some a → Leaves y s d m name b) :
    Leaves (x >>= fun _ => y) s d m name b := by
  obtain ⟨d', hdo, hfind⟩ := hx
  obtain ⟨d'', hdo', hfind'⟩ := hy d' hfind
  exact ⟨d'', Does.bind hdo hdo', hfind'⟩

theorem clear_leaves (h : d.find? name = some a) (hid : a.id = id) :
    Leaves (stmtRun 1 (ofPlayer id (T.set []) (T.set_id []))) s d m name (T.set [] a) :=
  ⟨_, stmtRun_does 1 _, find_ofPlayer (T.set_key []) h hid⟩

theorem append_leaves (n : Nat) (row : β → ρ) (l : List β) (h : d.find? name = some a)
    (hid : a.id = id) :
    Leaves (Act.each l fun y =>
        stmtRun n (ofPlayer id (T.through (· ++ [row y])) fun a => T.set_id _ a))
      s d m name (T.set (T.get a ++ l.map row) a) := by
  refine ⟨_, runs_does n _ l, ?_⟩
  rw [← foldl_append_map, ← T.foldl_through (fun y t => t ++ [row y])]
  induction l generalizing d a with
  | nil => exact h
  | cons y l ih =>
      have hnext : (ofPlayer id (T.through (· ++ [row y])) (fun a => T.set_id _ a) d).find? name =
          some (T.through (· ++ [row y]) a) := find_ofPlayer (fun a => T.set_key _ a) h hid
      exact ih hnext ((T.set_id _ a).trans hid)

/-- The account's rows of one table are deleted, and these inserted. -/
theorem rewrite_leaves (n : Nat) (row : β → ρ) (l : List β) (h : d.find? name = some a)
    (hid : a.id = id) :
    Leaves (do
        stmtRun 1 (ofPlayer id (T.set []) (T.set_id []))
        Act.each l fun y => stmtRun n (ofPlayer id (T.through (· ++ [row y])) fun a => T.set_id _ a))
      s d m name (T.set (l.map row) a) := by
  refine (clear_leaves T h hid).bind fun d h => ?_
  have hloop := append_leaves (s := s) (m := m) T n row l h ((T.set_id _ _).trans hid)
  rwa [T.get_set, T.set_set, List.nil_append] at hloop

end Table

/-- The rows a save writes for the contacts of one list. -/
def contactRows (isIgnore : Bool) (p : Profile) : List ContactRow :=
  let contacts := if isIgnore then p.ignoreList else p.friendList
  (List.range (if isIgnore then p.ignoreCount else p.friendCount)).map fun i =>
    ⟨isIgnore, i, mod37Namedec (contacts i)⟩

/-- What a save makes of the account. -/
def savedAccount (p : Profile) (a : Account) : Account :=
  { a with
    columns := saveColumns p
    playerVariables := p.playerVariables.filter fun v => v.2 != 0
    contacts := contactRows false p ++ contactRows true p
    inventory := (List.range p.invCount).map fun i => { p.inventory i with slot := i }
    bank := (List.range p.bankCount).map fun i => { p.bank i with slot := i } }

theorem databaseSavePlayerVariables_leaves (h : d.find? name = some a) (hid : a.id = id) :
    Leaves (databaseSavePlayerVariables p id) s d m name
      { a with playerVariables := p.playerVariables.filter fun v => v.2 != 0 } := by
  have hall := rewrite_leaves (s := s) (m := m) variablesTable 3 (fun v => v)
    (p.playerVariables.filter fun v => v.2 != 0) h hid
  rw [List.map_id'] at hall
  exact hall

theorem databaseSavePlayerContacts_leaves (isIgnore : Bool) (h : d.find? name = some a)
    (hid : a.id = id) :
    Leaves (databaseSavePlayerContacts p id isIgnore) s d m name
      { a with contacts := a.contacts ++ contactRows isIgnore p } :=
  append_leaves contactsTable 4 _ _ h hid

theorem databaseSavePlayerInventory_leaves (h : d.find? name = some a) (hid : a.id = id) :
    Leaves (databaseSavePlayerInventory p id) s d m name
      { a with inventory := (List.range p.invCount).map fun i => { p.inventory i with slot := i } } :=
  rewrite_leaves inventoryTable 5 (fun i => { p.inventory i with slot := i }) _ h hid

theorem databaseSavePlayerBank_leaves (h : d.find? name = some a) (hid : a.id = id) :
    Leaves (databaseSavePlayerBank p id) s d m name
      { a with bank := (List.range p.bankCount).map fun i => { p.bank i with slot := i } } :=
  rewrite_leaves bankTable 4 (fun i => { p.bank i with slot := i }) _ h hid

theorem saveRest_leaves (h : d.find? name = some a) (hid : a.id = id)
    (hcolumns : a.columns = saveColumns p) :
    Leaves (saveRest p id) s d m name (savedAccount p a) := by
  have hreset : Leaves stmtReset s d m name a := ⟨d, stmtReset_does, h⟩
  unfold saveRest
  refine hreset.bind fun d h => ?_
  refine (databaseSavePlayerVariables_leaves h hid).bind fun d h => ?_
  refine (clear_leaves contactsTable h hid).bind fun d h => ?_
  refine (databaseSavePlayerContacts_leaves false h hid).bind fun d h => ?_
  refine (databaseSavePlayerContacts_leaves true h hid).bind fun d h => ?_
  refine (databaseSavePlayerInventory_leaves h hid).bind fun d h => ?_
  have hlast := databaseSavePlayerBank_leaves (p := p) (s := s) (m := m) h hid
  unfold savedAccount
  rw [← hcolumns]
  exact hlast

theorem databaseSavePlayer_does (h : s.find? (mod37Namedec p.name) = some a) :
    ∃ d, Does databaseSavePlayer (s, none) p 0 (d, none) p ∧
      d.find? (mod37Namedec p.name) = some (savedAccount p a) := by
  have hkey : (a.key == accountKey (mod37Namedec p.name)) = true :=
    List.find?_some (p := fun a : Account => a.key == accountKey (mod37Namedec p.name)) h
  have hcolumns : (s.setColumns (mod37Namedec p.name) (saveColumns p)).find?
      (mod37Namedec p.name) = some { a with columns := saveColumns p } :=
    find_update (fun _ => rfl) h hkey
  obtain ⟨d, hrest, hfind⟩ := saveRest_leaves (s := s) (m := p) hcolumns (Eq.refl a.id) rfl
  refine ⟨d, ?_, hfind⟩
  refine Does.bind Does.start (Does.bind Does.get (Does.bind (binds_does _)
    (Does.bind stmtBind_does (Does.bind (Does.call _) ?_))))
  rw [h]
  exact Does.bind hrest (Does.bind Does.commit (Does.pure 0))

/-! ## What a load reads -/

theorem stmtFetch_does {ρ : Type} (rows : List ρ) (f : ρ → Profile → Profile) :
    Does (stmtFetch rows f) (s, some d) m () (s, some d) (rows.foldl (fun m r => f r m) m) := by
  have hrow : ∀ r d m, Does (do stmtRead fun _ => (); Act.modify (f r)) (s, some d) m ()
      (s, some d) (f r m) := fun r d m => Does.bind (Does.call _) (Does.modify _)
  have hrows := Does.each (D := fun d _ => d) (M := fun m r => f r m) hrow rows d m
  rw [foldl_same] at hrows
  exact Does.bind hrows (Does.call _)

/-- The one account of an id. -/
theorem filter_id {l : List Account} (h : (l.map Account.id).Nodup) (ha : a ∈ l) :
    l.filter (fun b => b.id == a.id) = [a] := by
  induction l with
  | nil => cases ha
  | cons b l ih =>
      obtain ⟨hb, hl⟩ := List.nodup_cons.1 h
      rcases List.mem_cons.1 ha with rfl | ha
      · rw [List.filter_cons_of_pos (by simp), List.filter_eq_nil_iff.2]
        intro c hc hid
        exact hb (List.mem_map.2 ⟨c, hc, beq_iff_eq.1 hid⟩)
      · have hne : ¬ (b.id == a.id) = true := by
          intro hid
          exact hb (List.mem_map.2 ⟨a, ha, (beq_iff_eq.1 hid).symm⟩)
        rw [List.filter_cons_of_neg (by simpa using hne), ih hl ha]

theorem loadTable_does {ρ : Type} (table : Account → List ρ) (f : ρ → Profile → Profile)
    (h : d.find? name = some a) :
    Does (loadTable table a.id f) (s, some d) m () (s, some d)
      ((table a).foldl (fun m r => f r m) m) := by
  have hrows : tableOf table a.id d = table a := by
    unfold tableOf
    rw [filter_id d.nodup (List.mem_of_find?_eq_some h)]
    simp
  have hfetch := stmtFetch_does (s := s) (d := d) (m := m) (tableOf table a.id d) f
  rw [← hrows]
  exact Does.bind stmtBind_does (Does.bind Does.rows (Does.bind hfetch stmtReset_does))

/-- The player after the five loads of its account. -/
def loadedFrom (a : Account) (m : Profile) : Profile :=
  let m := a.playerVariables.foldl (fun m r => playerVariableSet r m) (loadColumns a m)
  let m := a.contacts.foldl (fun m r => loadContact r m) m
  let m := a.inventory.foldl (fun m r => loadItem r m) m
  a.bank.foldl (fun m r => loadBankItem r m) m

theorem playerLoad_does (h : PwHash) (tile : StartTile)
    (hrow : d.find? (mod37Namedec m.name) = some a) (hpw : h.verify a.password m.password = true) :
    Does (playerLoad h tile) (d, none) m 0 (d, none) (loadedFrom a (loadDefaults tile m)) := by
  have hrest : Does (loadRest a.id) (d, some d) (loadColumns a (loadDefaults tile m)) () (d, none)
      (loadedFrom a (loadDefaults tile m)) :=
    Does.bind stmtReset_does (Does.bind (loadTable_does _ _ hrow)
      (Does.bind (loadTable_does _ _ hrow) (Does.bind (loadTable_does _ _ hrow)
        (Does.bind (loadTable_does _ _ hrow) Does.commit))))
  have hloadRow : Does (loadRow a) (d, some d) (loadDefaults tile m) 0 (d, none)
      (loadedFrom a (loadDefaults tile m)) :=
    Does.bind (Does.modify _) (Does.bind (Does.attempt hrest) (Does.pure 0))
  refine Does.bind (Does.modify _) (Does.bind Does.start (Does.bind Does.get
    (Does.bind stmtBind_does (Does.bind (Does.call _) ?_))))
  show Does (loadFound h (d.find? (mod37Namedec m.name))) _ _ _ _ _
  rw [hrow]
  refine Does.bind Does.get ?_
  show Does (if h.verify a.password m.password = true then _ else _) _ _ _ _ _
  rw [if_pos hpw]
  exact hloadRow

def friendSlots : Field Profile ((Nat → Int) × Nat) where
  get p := (p.friendList, p.friendCount)
  set t p := { p with friendList := t.1, friendCount := t.2 }
  get_set _ _ := rfl
  set_set _ _ _ := rfl
  set_get _ := rfl

def ignoreSlots : Field Profile ((Nat → Int) × Nat) where
  get p := (p.ignoreList, p.ignoreCount)
  set t p := { p with ignoreList := t.1, ignoreCount := t.2 }
  get_set _ _ := rfl
  set_set _ _ _ := rfl
  set_get _ := rfl

def itemSlots : Field Profile ((Nat → InventoryRow) × Nat) where
  get p := (p.inventory, p.invCount)
  set t p := { p with inventory := t.1, invCount := t.2 }
  get_set _ _ := rfl
  set_set _ _ _ := rfl
  set_get _ := rfl

def bankSlots : Field Profile ((Nat → BankRow) × Nat) where
  get p := (p.bank, p.bankCount)
  set t p := { p with bank := t.1, bankCount := t.2 }
  get_set _ _ := rfl
  set_set _ _ _ := rfl
  set_get _ := rfl

def friends (p : Profile) : List Int := slots (friendSlots.get p)

def ignores (p : Profile) : List Int := slots (ignoreSlots.get p)

/-- The items in their slots, whatever slots they say they are from. -/
def items (p : Profile) : List InventoryRow :=
  slots (fun i => { p.inventory i with slot := i }, p.invCount)

def bankItems (p : Profile) : List BankRow :=
  slots (fun i => { p.bank i with slot := i }, p.bankCount)

theorem loadContacts_eq (p m : Profile) :
    (contactRows false p ++ contactRows true p).foldl (fun m r => loadContact r m) m =
      ignoreSlots.set
        (fun j => if j < p.ignoreCount then mod37Nameenc (mod37Namedec (p.ignoreList j))
          else m.ignoreList j, m.ignoreCount + p.ignoreCount)
        (friendSlots.set
          (fun j => if j < p.friendCount then mod37Nameenc (mod37Namedec (p.friendList j))
            else m.friendList j, m.friendCount + p.friendCount) m) := by
  have hfriends := friendSlots.foldl_fill (fun i => mod37Nameenc (mod37Namedec (p.friendList i)))
    p.friendCount m
  have hignores := fun m => ignoreSlots.foldl_fill
    (fun i => mod37Nameenc (mod37Namedec (p.ignoreList i))) p.ignoreCount m
  have hall := (congrArg ((List.range p.ignoreCount).foldl fun m i => ignoreSlots.through
    (fun t => fillSlot t i (mod37Nameenc (mod37Namedec (p.ignoreList i)))) m) hfriends).trans
      (hignores _)
  unfold contactRows
  rw [List.foldl_append, List.foldl_map, List.foldl_map]
  exact hall

theorem loadItems_eq (p m : Profile) :
    ((List.range p.bankCount).map fun i => { p.bank i with slot := i }).foldl
        (fun m r => loadBankItem r m)
        (((List.range p.invCount).map fun i => { p.inventory i with slot := i }).foldl
          (fun m r => loadItem r m) m) =
      bankSlots.set
        (fun j => if j < p.bankCount then { p.bank j with slot := j } else m.bank j,
          m.bankCount + p.bankCount)
        (itemSlots.set
          (fun j => if j < p.invCount then { p.inventory j with slot := j } else m.inventory j,
            m.invCount + p.invCount) m) := by
  have hitems := itemSlots.foldl_fill (fun i => { p.inventory i with slot := i }) p.invCount m
  have hbank := fun m => bankSlots.foldl_fill (fun i => { p.bank i with slot := i }) p.bankCount m
  have hall := (congrArg ((List.range p.bankCount).foldl fun m i => bankSlots.through
    (fun t => fillSlot t i { p.bank i with slot := i }) m) hitems).trans (hbank _)
  rw [List.foldl_map, List.foldl_map]
  exact hall

/-- The player `m` after a load of what a save of `p` left, if it was new. -/
def comeBack (p m : Profile) (a : Account) : Profile :=
  { loadColumns (savedAccount p a) m with
    playerVariables := p.playerVariables.filter fun v => v.2 != 0
    friendList := fun j =>
      if j < p.friendCount then mod37Nameenc (mod37Namedec (p.friendList j)) else m.friendList j
    friendCount := m.friendCount + p.friendCount
    ignoreList := fun j =>
      if j < p.ignoreCount then mod37Nameenc (mod37Namedec (p.ignoreList j)) else m.ignoreList j
    ignoreCount := m.ignoreCount + p.ignoreCount
    inventory := fun j => if j < p.invCount then { p.inventory j with slot := j } else m.inventory j
    invCount := m.invCount + p.invCount
    bank := fun j => if j < p.bankCount then { p.bank j with slot := j } else m.bank j
    bankCount := m.bankCount + p.bankCount }

theorem loadedFrom_saved {p m : Profile} (hdistinct : Distinct p.playerVariables)
    (hnew : m.playerVariables = []) (a : Account) :
    loadedFrom (savedAccount p a) m = comeBack p m a := by
  have hfresh : (loadColumns (savedAccount p a) m).playerVariables = [] := hnew
  have hnames : Distinct ((loadColumns (savedAccount p a) m).playerVariables ++
      (savedAccount p a).playerVariables) := by
    rw [hfresh]
    exact hdistinct.sublist (List.filter_sublist.map _)
  have hvars := foldl_playerVariableSet hnames
  rw [hfresh] at hvars
  have hcontacts := (congrArg ((savedAccount p a).contacts.foldl fun m r => loadContact r m)
    hvars).trans (loadContacts_eq p _)
  have hitems := loadItems_eq p
    ((savedAccount p a).contacts.foldl (fun m r => loadContact r m)
      ((savedAccount p a).playerVariables.foldl (fun m r => playerVariableSet r m)
        (loadColumns (savedAccount p a) m)))
  refine hitems.trans ?_
  rw [hcontacts]
  rfl

/-! ## The round trip -/

/-- Every component that is to persist is in `q` what it was in `p`. -/
structure Restored (p q : Profile) : Prop where
  columns : q.columns = p.columns
  clientSetting2 : q.clientSetting2 = p.clientSetting2
  gender : q.gender = p.gender
  legSprite : q.legSprite = p.legSprite
  scripts : ∀ varname, playerVariableGet q varname = playerVariableGet p varname
  friends : friends q = friends p
  ignores : ignores q = ignores p
  items : items q = items p
  bank : bankItems q = bankItems p

/-- What no operation on a player breaks: the legs are the only ones there
are, no variable is there twice, and contacts are 64 bit numbers. -/
structure Ordinary (p : Profile) : Prop where
  legSprite : p.legSprite = 3
  scripts : Distinct p.playerVariables
  friends : ∀ k, InRange (p.friendList k)
  ignores : ∀ k, InRange (p.ignoreList k)

/-- The players there can be: one that was loaded, from whatever rows and with
whatever failures, and then any changes. What the rest of the game writes is
left open, as no change of a column, an item or a contact is special here. -/
inductive Reached (h : PwHash) (tile : StartTile) : Profile → Prop where
  | loaded (c : Store Rows) (name : Int) (password : List Char) :
      Reached h tile (playerLoad h tile c (Profile.named name password)).2.2
  | design {p : Profile} (hp : Reached h tile p) (protocolRev : Nat) (data : List Nat) :
      Reached h tile (opCliAcceptDesign protocolRev data p)
  | setting {p : Profile} (hp : Reached h tile p) (data : List Nat) :
      Reached h tile (opCliSaveSetting data p)
  | script {p : Profile} (hp : Reached h tile p) (r : List Char × Int) :
      Reached h tile (playerVariableSet r p)
  | contacts {p : Profile} (hp : Reached h tile p) (friends ignores : (Nat → Int) × Nat)
      (hfriends : ∀ k, InRange (friends.1 k)) (hignores : ∀ k, InRange (ignores.1 k)) :
      Reached h tile (friendSlots.set friends (ignoreSlots.set ignores p))
  | world {p : Profile} (hp : Reached h tile p) (columns : Columns)
      (items : (Nat → InventoryRow) × Nat) (bank : (Nat → BankRow) × Nat) :
      Reached h tile (itemSlots.set items (bankSlots.set bank { p with columns := columns }))

theorem Ordinary.playerVariableSet (hp : Ordinary p) (r : List Char × Int) :
    Ordinary (playerVariableSet r p) := by
  have hset := playerVariableSet_distinct r hp.scripts
  unfold Ref.playerVariableSet at hset ⊢
  split
  · split
    · next hi hzero =>
      simp only [hi, hzero, if_true] at hset
      exact ⟨hp.legSprite, hset, hp.friends, hp.ignores⟩
    · next hi hzero =>
      simp only [hi, hzero, if_false] at hset
      exact ⟨hp.legSprite, hset, hp.friends, hp.ignores⟩
  · next hi =>
    simp only [hi] at hset
    exact ⟨hp.legSprite, hset, hp.friends, hp.ignores⟩

/-- A load, whatever fails, keeps what each of the rows it may read keeps. -/
theorem playerLoad_minds {Q : Profile → Prop} {h : PwHash} {tile : StartTile} {c : Store Rows}
    (hcolumns : ∀ a m, Q m → Q (loadColumns a m))
    (hvariable : ∀ r m, Q m → Q (playerVariableSet r m))
    (hcontact : ∀ r m, Q m → Q (loadContact r m)) (hitem : ∀ r m, Q m → Q (loadItem r m))
    (hbank : ∀ r m, Q m → Q (loadBankItem r m)) (m : Profile) (hm : Q (loadDefaults tile m)) :
    Q (playerLoad h tile c m).2.2 := by
  have hrest : ∀ id, Minds Q (loadRest id) := fun id =>
    Minds.bind stmtReset_minds fun _ =>
    Minds.bind (loadTable_minds _ _ hvariable) fun _ =>
    Minds.bind (loadTable_minds _ _ hcontact) fun _ =>
    Minds.bind (loadTable_minds _ _ hitem) fun _ =>
    Minds.bind (loadTable_minds _ _ hbank) fun _ => Minds.commit
  have hfound : ∀ row, Minds Q (loadFound h row) := by
    intro row
    cases row with
    | none => exact loadEnd_minds _
    | some a =>
        refine Minds.bind Minds.get fun p => ?_
        show Minds Q (if h.verify a.password p.password = true then _ else _)
        split
        · refine Minds.bind (Minds.modify (hcolumns a)) fun _ =>
            Minds.bind (Minds.attempt (hrest a.id)) fun done => ?_
          show Minds Q (if done.isSome = true then _ else _)
          split
          · exact Minds.pure 0
          · exact loadEnd_minds _
        · exact loadEnd_minds _
  have hload : Minds Q (databaseLoadPlayer h) :=
    Minds.bind Minds.start fun _ => Minds.bind Minds.get fun p =>
      Minds.bind (Minds.call _) fun _ => Minds.bind (Minds.call _) fun row => hfound row
  exact hload c (loadDefaults tile m) hm

theorem Reached.ordinary {h : PwHash} {tile : StartTile} (hp : Reached h tile p) : Ordinary p := by
  induction hp with
  | loaded c name password =>
      have hcontact : ∀ r m, Ordinary m → Ordinary (loadContact r m) := by
        intro r m hm
        unfold loadContact
        simp only
        split
        · refine ⟨hm.legSprite, hm.scripts, hm.friends, fun k => ?_⟩
          show InRange (if k = r.slot then _ else _)
          split
          · exact inRange_nameenc _
          · exact hm.ignores k
        · refine ⟨hm.legSprite, hm.scripts, fun k => ?_, hm.ignores⟩
          show InRange (if k = r.slot then _ else _)
          split
          · exact inRange_nameenc _
          · exact hm.friends k
      refine playerLoad_minds ?_ ?_ hcontact ?_ ?_ (Profile.named name password) ?_
      · exact fun a m hm => ⟨hm.legSprite, hm.scripts, hm.friends, hm.ignores⟩
      · exact fun r m hm => hm.playerVariableSet r
      · exact fun r m hm => ⟨hm.legSprite, hm.scripts, hm.friends, hm.ignores⟩
      · exact fun r m hm => ⟨hm.legSprite, hm.scripts, hm.friends, hm.ignores⟩
      · exact ⟨rfl, List.nodup_nil, fun _ => inRange_zero, fun _ => inRange_zero⟩
  | design hp protocolRev data ih => exact ⟨rfl, ih.scripts, ih.friends, ih.ignores⟩
  | setting hp data ih =>
      unfold opCliSaveSetting
      split
      · split
        · exact ⟨ih.legSprite, ih.scripts, ih.friends, ih.ignores⟩
        · exact ⟨ih.legSprite, ih.scripts, ih.friends, ih.ignores⟩
        · exact ⟨ih.legSprite, ih.scripts, ih.friends, ih.ignores⟩
        · exact ih
      · exact ih
  | script hp r ih =>
      exact ih.playerVariableSet r
  | contacts hp friends ignores hfriends hignores ih =>
      exact ⟨ih.legSprite, ih.scripts, hfriends, hignores⟩
  | world hp columns items bank ih => exact ⟨ih.legSprite, ih.scripts, ih.friends, ih.ignores⟩

/-- What a save and a load do not lose. -/
structure Recorded (p : Profile) : Prop where
  mouse : p.columns.oneMouseButton = p.clientSetting2
  settingUnused : p.clientSetting2 = 0
  male : p.gender = 0
  friends : ∀ n ∈ friends p, 0 < n
  ignores : ∀ n ∈ ignores p, 0 < n

section Relog

variable (h : PwHash) (tile : StartTile)

/-- The player that connects after the save and is loaded. -/
def relogged (c : Store Rows) (p : Profile) (password : List Char) : Profile :=
  (playerLoad h tile (databaseSavePlayer c p).2.1 (Profile.named p.name password)).2.2

/-- Both calls say that they have done it, and everything is back. -/
def RoundTrip (c : Store Rows) (p : Profile) (password : List Char) : Prop :=
  (databaseSavePlayer c p).1 = some 0 ∧
  (playerLoad h tile (databaseSavePlayer c p).2.1 (Profile.named p.name password)).1 = some 0 ∧
  Restored p (relogged h tile c p password)

theorem map_readBack_iff {l : List Int} (hl : ∀ n ∈ l, InRange n) :
    (l.map fun n => mod37Nameenc (mod37Namedec n)) = l ↔ ∀ n ∈ l, 0 < n := by
  conv_lhs =>
    rhs
    rw [← List.map_id' l]
  rw [List.map_inj_left]
  exact forall₂_congr fun n hn => mod37Nameenc_namedec_iff (hl n hn)

theorem relogged_eq {p : Profile} (hdistinct : Distinct p.playerVariables) {c : Store Rows}
    {s : Rows} (hc : Serves c (s, none)) {a : Account}
    (hrow : s.find? (mod37Namedec p.name) = some a) {password : List Char}
    (hpw : h.verify a.password password = true) :
    (databaseSavePlayer c p).1 = some 0 ∧
    (playerLoad h tile (databaseSavePlayer c p).2.1 (Profile.named p.name password)).1 = some 0 ∧
    relogged h tile c p password =
      comeBack p (loadDefaults tile (Profile.named p.name password)) a := by
  obtain ⟨d, hsave, hfind⟩ := databaseSavePlayer_does hrow
  obtain ⟨hsaved, -, hd⟩ := hsave.result hc
  have hload := playerLoad_does (m := Profile.named p.name password) h tile hfind hpw
  rw [loadedFrom_saved hdistinct rfl] at hload
  obtain ⟨hloaded, hplayer, -⟩ := hload.result hd
  exact ⟨hsaved, hloaded, hplayer⟩

variable {tile} in
/-- A save and a load of the account give the player back exactly when the
second and third settings are as in a new player, the gender is too, and every
contact is a name. -/
theorem relog_restores_iff {p : Profile} (hp : Reached h tile p) {c : Store Rows} {s : Rows}
    (hc : Serves c (s, none)) {a : Account} (hrow : s.find? (mod37Namedec p.name) = some a)
    {password : List Char} (hpw : h.verify a.password password = true) :
    RoundTrip h tile c p password ↔ Recorded p := by
  have hord := hp.ordinary
  let m := loadDefaults tile (Profile.named p.name password)
  obtain ⟨hsaved, hloaded, hback⟩ := relogged_eq h tile hord.scripts hc hrow hpw
  have hfriends : friends (comeBack p m a) =
      (friends p).map fun n => mod37Nameenc (mod37Namedec n) :=
    (slots_filled (fun _ n => n) _ _ _).trans
      (slots_map (fun n => mod37Nameenc (mod37Namedec n)) (friendSlots.get p))
  have hignores : ignores (comeBack p m a) =
      (ignores p).map fun n => mod37Nameenc (mod37Namedec n) :=
    (slots_filled (fun _ n => n) _ _ _).trans
      (slots_map (fun n => mod37Nameenc (mod37Namedec n)) (ignoreSlots.get p))
  have hfriend : ∀ n ∈ friends p, InRange n := by
    intro n hn
    obtain ⟨k, -, rfl⟩ := List.mem_map.1 hn
    exact hord.friends k
  have hignore : ∀ n ∈ ignores p, InRange n := by
    intro n hn
    obtain ⟨k, -, rfl⟩ := List.mem_map.1 hn
    exact hord.ignores k
  constructor
  · rintro ⟨-, -, hr⟩
    rw [hback] at hr
    have hmouse := congrArg Columns.oneMouseButton hr.columns
    exact ⟨hmouse.symm, hr.clientSetting2.symm, hr.gender.symm,
      (map_readBack_iff hfriend).1 (hfriends.symm.trans hr.friends),
      (map_readBack_iff hignore).1 (hignores.symm.trans hr.ignores)⟩
  · intro hr
    refine ⟨hsaved, hloaded, ?_⟩
    rw [hback]
    refine ⟨?_, hr.settingUnused.symm, hr.male.symm, hord.legSprite.symm, ?_, ?_, ?_, ?_, ?_⟩
    · show saveColumns p = p.columns
      rw [saveColumns, ← hr.mouse]
    · exact playerVariableGet_filter hord.scripts
    · exact hfriends.trans ((map_readBack_iff hfriend).2 hr.friends)
    · exact hignores.trans ((map_readBack_iff hignore).2 hr.ignores)
    · exact slots_filled (fun i (r : InventoryRow) => { r with slot := i }) _ _ _
    · exact slots_filled (fun i (r : BankRow) => { r with slot := i }) _ _ _

end Relog

/-- A player of the name 5, loaded from its row. -/
def five : Profile :=
  (playerLoad plainHash ⟨0, 0⟩ (playedStore fun _ => false) (Profile.named 5 ['p'])).2.2

theorem reached_five : Reached plainHash ⟨0, 0⟩ five := .loaded _ 5 ['p']

/-- The player of the name 5 with one friend and a variable comes back. -/
theorem relog_restores_iff_friend :
    RoundTrip plainHash ⟨0, 0⟩ (playedStore fun _ => false)
      (playerVariableSet (['q'], 2)
        (friendSlots.set (fun _ => 7, 1) (ignoreSlots.set (fun _ => 0, 0) five))) ['p'] := by
  have hseven : InRange 7 := by
    unfold InRange
    decide
  have hcontacts := reached_five.contacts (fun _ => 7, 1) (fun _ => 0, 0) (fun _ => hseven)
    fun _ => inRange_zero
  refine (relog_restores_iff plainHash (hcontacts.script (['q'], 2))
    ⟨fun _ => rfl, rfl, rfl⟩ rfl rfl).2 ⟨rfl, rfl, rfl, ?_, ?_⟩
  · decide
  · decide

/-- The player of the name 5 has accepted the design of a woman. -/
theorem gender_lost : ¬ ∀ (h : PwHash) (tile : StartTile) (p : Profile), Reached h tile p →
    ∀ (c : Store Rows) (s : Rows), Serves c (s, none) →
    ∀ a, s.find? (mod37Namedec p.name) = some a →
    ∀ password, h.verify a.password password = true → RoundTrip h tile c p password := by
  intro hall
  have hreached := reached_five.design 203 [0, 1, 3, 4, 2, 2, 8, 14, 0]
  have hc : Serves (playedStore fun _ => false) ((playedStore fun _ => false).saved, none) :=
    ⟨fun _ => rfl, rfl, rfl⟩
  have hpw : plainHash.verify ['p'] ['p'] = true := rfl
  obtain ⟨-, -, hr⟩ := hall plainHash ⟨0, 0⟩ _ hreached _ _ hc _ rfl ['p'] hpw
  obtain ⟨-, -, hback⟩ :=
    relogged_eq plainHash ⟨0, 0⟩ hreached.ordinary.scripts hc rfl hpw
  have hgender := hr.gender
  rw [hback] at hgender
  have hnew : (0 : Nat) = 1 := hgender
  cases hnew

end Sundae.Proofs
