import CompositeSorts.Counter
import CompositeSorts.Handle
import CompositeSorts.Text.Listing

/-!
Sorts as a catalog keeps them. A sort is one of six variants: a primitive of a category; an
attribute, which is a base with a weight; a disjunction of components; an aspects tuple, which links
its aspects to sorts; one of those aspects; or a recursive name that stands for another sort.

The *canonical* text of a sort shows its structure, with each component shown by its display. The
*display* is the name of the sort if it has one and its canonical text otherwise. Two sorts are
equal when they belong to the same registry and have the same display.
-/

set_option autoImplicit false
set_option relaxedAutoImplicit false

namespace CompositeSorts

/-- How many components a sort has: those with a name, those that are simple, and all. -/
structure ComponentCounts where
  named : Counter
  simple : Counter
  total : Counter
deriving DecidableEq, Repr

namespace ComponentCounts

/-- The counts of a simple sort without a name. -/
def ofSimple : ComponentCounts := ⟨0, 1, 1⟩

/-- The counts of a recursive name that stands for nothing yet. -/
def ofPlaceholder : ComponentCounts := ⟨1, 0, 1⟩

/-- Adds the counts of two parts. -/
def add (a b : ComponentCounts) : ComponentCounts :=
  ⟨a.named + b.named, a.simple + b.simple, a.total + b.total⟩

/-- The counts of a sort with these parts. -/
def composite (parts : List ComponentCounts) : ComponentCounts := parts.foldl add ⟨0, 0, 1⟩

/-- The counts once the sort is given a name. -/
def renamed (counts : ComponentCounts) : ComponentCounts :=
  { counts with named := counts.named + 1 }

/-- The size by which match scores are scaled. -/
def scale (counts : ComponentCounts) : Counter := counts.named + counts.simple

/-- Whether one of the counts has carried, or the size does. -/
def carried (counts : ComponentCounts) : Bool := counts.scale.carried || counts.total.carried

end ComponentCounts

/-- The argument of a primitive sort. A number is kept as it was written. -/
inductive Argument where
  | identifier (text : String)
  | bound (lexeme : String)
  | locale (language region : String)
  | sorts (linked : List SortId)
deriving DecidableEq, Repr

/-- The kinds of sorts. -/
inductive Variant where
  | primitive
  | weighted
  | disjunctive
  | aspects
  | aspect
  | recursive
deriving DecidableEq, Repr

/-- The word for a variant. -/
def Variant.text : Variant → String
  | primitive => "primitive"
  | weighted => "attribute"
  | disjunctive => "disjunctive"
  | aspects => "aspects"
  | aspect => "aspect"
  | recursive => "recursive"

/-- What a sort is made of. -/
inductive Body where
  | primitive (category : String) (argument : Option Argument)
  | weighted (base weight : SortId)
  | disjunctive (components : List SortId)
  | aspects (category : String) (aspects arguments : List SortId)
  | aspect (owner : SortId) (position : Nat)
  | recursive (target : Option SortId)
deriving DecidableEq, Repr

namespace Body

/-- The variant of a body. -/
def variant : Body → Variant
  | primitive _ _ => .primitive
  | weighted _ _ => .weighted
  | disjunctive _ => .disjunctive
  | aspects _ _ _ => .aspects
  | aspect _ _ => .aspect
  | recursive _ => .recursive

/-- Primitive sorts and aspects are simple. -/
def isSimple : Body → Bool
  | primitive _ _ => true
  | aspect _ _ => true
  | _ => false

end Body

/-- A sort in a catalog. `created` counts the sorts made before it. -/
structure SortRecord where
  id : SortId
  name : Option String
  canonical : String
  created : Nat
  counts : ComponentCounts
  body : Body
deriving DecidableEq, Repr

namespace SortRecord

/-- The name, or the canonical text of a sort without one. -/
def display (sort : SortRecord) : String := sort.name.getD sort.canonical

/-- Whether the sort has a name. -/
def isNamed (sort : SortRecord) : Bool := sort.name.isSome

/-- The text that defines the sort. -/
def definition (sort : SortRecord) : String :=
  match sort.name with
  | some name => name ++ ": " ++ sort.canonical
  | none => sort.canonical

/-- The variant of the sort. -/
def variant (sort : SortRecord) : Variant := sort.body.variant

/-- Whether two sorts are equal: same registry, same display. -/
def same (a b : SortRecord) : Bool := a.id.registry = b.id.registry && a.display = b.display

/-- The components a sort contributes to a disjunction: its own when it is a disjunction without a
name, otherwise itself. -/
def summands (sort : SortRecord) : List SortId :=
  match sort.body, sort.name with
  | .disjunctive components, none => components
  | _, _ => [sort.id]

end SortRecord

end CompositeSorts
