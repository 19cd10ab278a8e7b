import Mathlib.Data.List.Basic
import Mathlib.Data.List.Nodup

/-!
# Limits and item definitions

The constants of `entity.h` and `server.h` the modelled code reads, and the
item table of `config.h`. A C string is a list of characters here, without its
terminator; the server compares names with `strcasecmp`, so does `strcasecmp`
below.

`config_parse_items` writes `items[i].id = i` for every record it fills, and
the inventory code leans on it: it looks a record up by id and then uses the
record's own `id`. `ItemTable` keeps that fact with the list.
-/

namespace Sundae.Ref

/-- `MAX_STACK_SIZE`, `INT32_MAX`: "signed to accomodate java client". -/
def maxStackSize : Nat := 2147483647

/-- A `uint32_t` wraps at this many. -/
def u32Size : Nat := 4294967296

def maxInvSize : Nat := 30
def maxOfferSize : Nat := 12
def maxBankSize : Nat := 48
def maxPlayers : Nat := 1000
def planeLevelInc : Nat := 944
def adjBlock : Nat := 16

/-- C's `strcasecmp(a, b) == 0` in the C locale. -/
def strcasecmp (a b : List Char) : Bool :=
  a.map Char.toLower == b.map Char.toLower

/-- `struct item_config`: the fields the modelled code reads. A weight above
zero means unstackable. -/
structure ItemConfig where
  id : Nat
  names : List (List Char)
  weight : Nat
  respawnRate : Nat
  deriving DecidableEq, Repr

/-- The server's `item_config` array; every record sits at its own id. -/
structure ItemTable where
  items : List ItemConfig
  id_eq : ∀ (i : Nat) (c : ItemConfig), items[i]? = some c → c.id = i

namespace ItemTable

variable (t : ItemTable)

/-- `server_item_config_by_id`; `none` is the NULL pointer. -/
def byId (id : Nat) : Option ItemConfig := t.items[id]?

/-- `server_find_item_config`: the first record one of whose names matches,
through `config_find_item`, which answers `-1` for the name "na". -/
def byName (name : List Char) : Option ItemConfig :=
  if strcasecmp name ['n', 'a'] then none
  else t.items.find? fun c => c.names.any (strcasecmp name ·)

/-- An id the item table knows and calls weightless: one slot holds it all. -/
def stackable (id : Nat) : Bool := (t.byId id).any (·.weight == 0)

theorem byId_id {t : ItemTable} {id : Nat} {c : ItemConfig}
    (h : t.byId id = some c) : c.id = id := t.id_eq id c h

theorem find_of_byName {t : ItemTable} {name : List Char} {c : ItemConfig}
    (h : t.byName name = some c) :
    t.items.find? (fun c => c.names.any (strcasecmp name ·)) = some c := by
  unfold byName at h
  split at h
  · cases h
  · exact h

theorem byId_of_byName {t : ItemTable} {name : List Char} {c : ItemConfig}
    (h : t.byName name = some c) : t.byId c.id = some c := by
  obtain ⟨i, hi⟩ := List.mem_iff_getElem?.1 (List.mem_of_find?_eq_some (find_of_byName h))
  rw [byId, t.id_eq i c hi, hi]

theorem stackable_of_byId {t : ItemTable} {id : Nat} {c : ItemConfig}
    (h : t.byId id = some c) : t.stackable id = decide (c.weight = 0) := by
  simp only [stackable, h, Option.any_some, beq_eq_decide]

end ItemTable

end Sundae.Ref
