import CompositeSorts.Catalog.Algebra
import CompositeSorts.Definition.Phrase

/-!
Evaluating phrases. A name denotes the recursive sort that stands for it while it is under
definition, and otherwise the sort registered under it. Parts are evaluated from left to right; a
definition announces its name first and names its body last.

Main definitions: `Evaluation`, `Phrase.evaluate`.
-/

set_option autoImplicit false
set_option relaxedAutoImplicit false

namespace CompositeSorts

/-- A computation on a catalog that can fail with a problem. What it changed stays. -/
abbrev Evaluation (α : Type) := EStateM (Stop Problem) Catalog α

/-- An operation at a place of a text: a refusal becomes a problem there. -/
def Op.at {α : Type} (operation : Op α) (position : Position) : Evaluation α := fun c ↦
  match operation c with
  | .ok value changed => .ok value changed
  | .error reason changed =>
    .error (reason.map fun refusal ↦ ⟨.refused refusal, position⟩) changed

namespace Evaluation

/-- Ends with a problem. -/
def fail {α : Type} (cause : ProblemCause) (position : Position) : Evaluation α :=
  throw (.refused ⟨cause, position⟩)

/-- The display of a recursive sort that is not bound. -/
def unboundDisplay (c : Catalog) (id : SortId) : Option String :=
  match c.get id with
  | .error _ => none
  | .ok sort => if sort.body = .recursive none then some sort.display else none

/-- The sort that a name denotes. -/
def lookUp (position : Position) (name : String) : Evaluation SortId := do
  match ← (Op.mention name).at position with
  | some placeholder => pure placeholder
  | none =>
    match (← get).sortOf name with
    | some id => pure id
    | none => fail (.undefinedName name) position

/-- Gives the finished body of a definition its name. If the name was mentioned in the body, the
recursive sort that stands for it is bound to the body; otherwise the body is copied under the
name. A body that is only a name under definition defines nothing. -/
def complete (position : Position) (name : String) (body : SortId) : Evaluation SortId := do
  let concluded ← Op.conclude.at position
  match concluded.bind Pending.placeholder with
  | some placeholder =>
    if placeholder = body then fail (.selfDefined name) position
    (Op.bind placeholder body).at position
    (Op.register placeholder).at position
    pure placeholder
  | none =>
    match unboundDisplay (← get) body with
    | some outer => fail (.pendingBody name outer) position
    | none =>
      let named ← (Op.duplicate body name).at position
      (Op.register named).at position
      pure named

end Evaluation

open Evaluation

mutual

/-- Evaluates a phrase to a sort. -/
def Phrase.evaluate (categories : CategoryTable) : Phrase → Evaluation SortId
  | .reference position name => lookUp position name
  | .primitive position tag argument =>
    (Op.primitive categories tag (argument.map Literal.argument)).at position
  | .linked position tag arguments => do
    let linked ← evaluateAll categories arguments
    (Op.primitive categories tag (some (.sorts linked))).at position
  | .weighted position base weight => do
    let base ← base.evaluate categories
    let weight ← weight.evaluate categories
    (Op.combine base weight).at position
  | .sum position left right => do
    let left ← left.evaluate categories
    let right ← right.evaluate categories
    (Op.sum left right).at position
  | .definition position name body => do
    (Op.announce name).at position
    let body ← body.evaluate categories
    complete position name body
  | .aspects position tag names arguments => do
    let linked ← evaluateAll categories arguments
    (Op.declareAspects categories tag names linked).at position
  | .after earlier last => do
    let _ ← evaluateAll categories earlier
    last.evaluate categories
  | .stop reason => throw reason

/-- Evaluates phrases one after the other. -/
def Phrase.evaluateAll (categories : CategoryTable) : List Phrase → Evaluation (List SortId)
  | [] => pure []
  | phrase :: phrases => do
    let id ← phrase.evaluate categories
    let ids ← evaluateAll categories phrases
    pure (id :: ids)

end

end CompositeSorts
