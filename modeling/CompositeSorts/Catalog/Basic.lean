import Std.Data.ExtTreeMap
import CompositeSorts.Journal
import CompositeSorts.Refusal

/-!
The catalog of a registry: its live sorts, the names they are registered under, and the bookkeeping
of sessions. Sorts are kept in slots; a handle of another registry or of a sort that is gone is
refused. A session begins with an empty list of new sorts; rolling it back removes the sorts made
since, with the names and the kept attributes that lead to them. What the operations did to older
sorts stays.

Main definitions: `Catalog`, the look-up `Catalog.get`, `Catalog.openSession`, `Catalog.remove`,
`Catalog.rollBack`, `Catalog.clear`, and `Op`, the type of the operations, which change the catalog
and keep what they changed even when they end early. `Op.read` lifts a question to an operation that
changes nothing.
-/

set_option autoImplicit false
set_option relaxedAutoImplicit false

namespace CompositeSorts

/-- A name whose definition is being evaluated, with the recursive sort that stands for it, once
the name was mentioned. -/
structure Pending where
  name : String
  placeholder : Option SortId
deriving DecidableEq, Repr

/-- The sorts of a registry. Lists have the newest entry first. `history` holds every live sort,
`fresh` those made since the session began, `pending` the definitions under way. `clock` counts
all sorts ever made. -/
structure Catalog where
  home : RegistryId
  store : SlotMap SortRecord
  names : Std.ExtTreeMap String SortId
  interned : Std.ExtTreeMap String SortId
  history : List SortId
  fresh : List SortId
  clock : Nat
  pending : List Pending
  journal : List Event

namespace Catalog

/-- The catalog without sorts. -/
def empty (home : RegistryId) : Catalog where
  home := home
  store := .empty
  names := ∅
  interned := ∅
  history := []
  fresh := []
  clock := 0
  pending := []
  journal := []

/-- The number of live sorts. -/
def size (c : Catalog) : Nat := c.store.live

/-- Looks up a live sort. -/
def get (c : Catalog) (id : SortId) : Except Refusal SortRecord :=
  if id.registry = c.home then
    match c.store.get? id.key with
    | some sort => .ok sort
    | none => .error (.dead id)
  else .error (.foreign id)

/-- Looks up the display of a live sort. -/
def display (c : Catalog) (id : SortId) : Except Refusal String :=
  (c.get id).map SortRecord.display

/-- The sort registered under a name. -/
def sortOf (c : Catalog) (name : String) : Option SortId := c.names[name]?

/-- The live sorts in the order they were made. -/
def sorts (c : Catalog) : List SortRecord :=
  c.history.reverse.filterMap fun id ↦ c.store.get? id.key

/-- Puts `sort` in the place of the live sort with its handle. -/
def replace (c : Catalog) (sort : SortRecord) : Catalog :=
  { c with store := c.store.set sort.id.key sort }

/-- Notes an event. -/
def note (c : Catalog) (event : Event) : Catalog := { c with journal := event :: c.journal }

/-- The handle that the next sort gets. -/
def nextId (c : Catalog) : SortId := ⟨c.home, c.store.nextKey⟩

/-- Adds a sort, stamped with the clock, under the handle `nextId`. -/
def add (c : Catalog) (name : Option String) (canonical : String) (counts : ComponentCounts)
    (body : Body) : Catalog :=
  let id := c.nextId
  { c with
    store := c.store.allocate ⟨id, name, canonical, c.clock, counts, body⟩
    history := id :: c.history
    fresh := id :: c.fresh
    clock := c.clock + 1 }

theorem get_of_foreign {c : Catalog} {id : SortId} (h : id.registry ≠ c.home) :
    c.get id = .error (.foreign id) := by
  simp [get, h]

theorem get_eq_ok_iff {c : Catalog} {id : SortId} {sort : SortRecord} :
    c.get id = .ok sort ↔ id.registry = c.home ∧ c.store.get? id.key = some sort := by
  unfold get
  split
  · split <;> simp_all
  · simp_all

/-! ### Sessions -/

/-- Begins a session. -/
def openSession (c : Catalog) : Catalog :=
  { c with fresh := [], pending := [] }.note .sessionStarted

/-- Takes a key out of a map if it leads to the handle. -/
def eraseEntry (entries : Std.ExtTreeMap String SortId) (key : String) (id : SortId) :
    Std.ExtTreeMap String SortId :=
  if entries[key]? = some id then entries.erase key else entries

/-- Removes a live sort from its slot, and its name and canonical text as far as they lead to
it. -/
def remove (c : Catalog) (id : SortId) : Catalog :=
  match c.store.get? id.key with
  | none => c
  | some sort =>
    { c with
      store := c.store.deallocate id.key
      names := match sort.name with
        | some name => eraseEntry c.names name id
        | none => c.names
      interned := eraseEntry c.interned sort.canonical id }

/-- Removes the sorts made in the session, the newest first, and ends the definitions under
way. -/
def rollBack (c : Catalog) : Catalog :=
  { c.fresh.foldl remove c with
    history := c.history.filter (· ∉ c.fresh)
    fresh := []
    pending := [] }

/-- Drops all sorts and names. The clock goes on. -/
def clear (c : Catalog) : Catalog :=
  { Catalog.empty c.home with clock := c.clock, journal := c.journal }.note .registryCleared

end Catalog

/-! ### Operations -/

/-- An operation on a catalog. What it changed stays when it ends early. -/
abbrev Op (α : Type) := EStateM (Stop Refusal) Catalog α

namespace Op

/-- Asks the catalog and changes nothing. -/
def read {α : Type} (question : Catalog → Except Refusal α) : Op α := fun c ↦
  match question c with
  | .ok answer => .ok answer c
  | .error reason => .error (.refused reason) c

/-- Ends with a refusal. -/
def refuse {α : Type} (reason : Refusal) : Op α := throw (.refused reason)

/-- Changes the catalog. -/
def change (step : Catalog → Catalog) : Op Unit := modify step

/-- Adds a sort and returns its handle. -/
def add (name : Option String) (canonical : String) (counts : ComponentCounts) (body : Body) :
    Op SortId := fun c ↦
  let id := c.nextId
  .ok id (c.add name canonical counts body)

end Op

end CompositeSorts
