import Std.Data.ExtTreeMap
import CompositeSorts.Handle
import CompositeSorts.Text.Listing

/-!
Categories. A primitive sort belongs to a category, named by a tag; the category says what
arguments its sorts take and may provide a factory that makes a form for a sort. Categories are
kept in a table which the owner of the individuals fills in; it is fixed as long as a registry
uses it. A tag can be one whose question is never answered: whoever asks is stopped on the spot.

Main definitions: `ParamShape`, `CategoryTable`, `CategoryTable.lookup`, `CategoryTable.newForm`.
-/

set_option autoImplicit false
set_option relaxedAutoImplicit false

namespace CompositeSorts

/-- The arguments a category takes: none, an identifier or quoted text, a number, a pair of
language and region, or a tuple of so many sorts. -/
inductive ParamShape where
  | nothing
  | identifier
  | bound
  | locale
  | sorts (arity : Nat)
deriving DecidableEq, Repr

namespace ParamShape

/-- The number of argument positions. -/
def cardinality : ParamShape → Nat
  | nothing => 0
  | identifier => 1
  | bound => 1
  | locale => 2
  | sorts arity => arity

/-- The name of a shape in diagnostic output. -/
def text : ParamShape → String
  | nothing => "Nothing"
  | identifier => "Identifier"
  | bound => "Bound"
  | locale => "Locale"
  | sorts arity => "Sorts(" ++ toString arity ++ ")"

end ParamShape

/-- An answer about a tag: the shape of its category, that there is no such category, or none at
all, ever. -/
inductive ShapeAnswer where
  | known (shape : ParamShape)
  | unknown
  | never
deriving DecidableEq, Repr

/-- What a factory makes for a sort. It is passed on as it is. -/
abbrev SortForm := String

/-- The categories: their shapes and factories by tag, and the tags that are never answered. -/
structure CategoryTable where
  shapes : Std.ExtTreeMap String ParamShape
  factories : Std.ExtTreeMap String (SortId → SortForm)
  unanswered : List String

namespace CategoryTable

/-- The table without categories. -/
def empty : CategoryTable := ⟨∅, ∅, []⟩

/-- The tag under which the factory for composite sorts stands. -/
def compositeTag : String := "*"

/-- Adds a category, or gives its tag another shape. -/
def withCategory (table : CategoryTable) (tag : String) (shape : ParamShape) : CategoryTable :=
  { table with shapes := table.shapes.insert tag shape }

/-- Adds a factory, or replaces the one of its tag. -/
def withFactory (table : CategoryTable) (tag : String) (factory : SortId → SortForm) :
    CategoryTable :=
  { table with factories := table.factories.insert tag factory }

/-- The table in which questions about `tag` are never answered. -/
def withUnanswered (table : CategoryTable) (tag : String) : CategoryTable :=
  { table with unanswered := tag :: table.unanswered }

/-- The tags with a shape, in order. -/
def tags (table : CategoryTable) : List String := table.shapes.keys

/-- The shape a tag stands for in the table. -/
def shape? (table : CategoryTable) (tag : String) : Option ParamShape := table.shapes[tag]?

/-- Asks for the shape of a tag. -/
def lookup (table : CategoryTable) (tag : String) : ShapeAnswer :=
  if tag ∈ table.unanswered then .never
  else match table.shape? tag with
    | some shape => .known shape
    | none => .unknown

/-- The form of a sort, made by the factory of its category, or by the one for composite sorts
when it has no category. -/
def newForm (table : CategoryTable) (tag : Option String) (id : SortId) : Option SortForm :=
  (table.factories[tag.getD compositeTag]?).map (· id)

/-- The table in diagnostic output. -/
def text (table : CategoryTable) : String :=
  let shape (entry : String × ParamShape) :=
    (Text.quoted entry.1, Text.record "CategoryShape" [("params", entry.2.text)])
  Text.record "CategoryTable" [
    ("shapes", Text.mapping (table.shapes.toList.map shape)),
    ("factories", Text.listing (table.factories.keys.map Text.quoted))]

theorem lookup_eq_known_iff (table : CategoryTable) (tag : String) (shape : ParamShape) :
    table.lookup tag = .known shape ↔ tag ∉ table.unanswered ∧ table.shape? tag = some shape := by
  unfold lookup
  split
  · simp_all
  · split <;> simp_all

end CategoryTable

end CompositeSorts
