import CompositeSorts.Catalog.Basic

/-!
Canonical texts. Components are shown by their displays: `[Label] x` is a primitive sort,
`base^weight` an attribute, `a+b` a disjunction with its components in order,
`[Relation] (x, y)` an aspects tuple, and `owner@0` its first aspect.
-/

set_option autoImplicit false
set_option relaxedAutoImplicit false

namespace CompositeSorts

namespace Catalog

/-- The displays of several sorts. -/
def displays (c : Catalog) (ids : List SortId) : Except Refusal (List String) := ids.mapM c.display

/-- `(x, y)` -/
def tupleText (texts : List String) : String := "(" ++ Text.joined ", " texts ++ ")"

/-- The text of an argument. Words are quoted unless they are identifiers. -/
def argumentText (c : Catalog) : Argument → Except Refusal String
  | .identifier text => .ok (Text.wordOrQuoted text)
  | .bound lexeme => .ok lexeme
  | .locale language region =>
    .ok (tupleText [Text.wordOrQuoted language, Text.wordOrQuoted region])
  | .sorts linked => (c.displays linked).map tupleText

/-- The canonical text of a primitive sort. -/
def primitiveText (c : Catalog) (category : String) (argument : Option Argument) :
    Except Refusal String :=
  match argument with
  | none => .ok ("[" ++ category ++ "]")
  | some argument => (c.argumentText argument).map fun text ↦ "[" ++ category ++ "] " ++ text

/-- The canonical text of an attribute. A disjunction without a name stands in parentheses. -/
def weightedText (base weight : SortRecord) : String :=
  let text := weight.display
  base.display ++ "^" ++
    (if weight.variant = .disjunctive ∧ weight.name = none then "(" ++ text ++ ")" else text)

/-- The canonical text of a disjunction. The order of its components does not matter. -/
def disjunctiveText (displays : List String) : String :=
  Text.joined "+" (Text.sorted displays)

/-- The canonical text of an aspects tuple. -/
def aspectsText (category : String) (arguments : List String) : String :=
  "[" ++ category ++ "] " ++ tupleText arguments

/-- The canonical text of an aspect. -/
def aspectText (owner : String) (position : Nat) : String := owner ++ "@" ++ toString position

end Catalog

end CompositeSorts
