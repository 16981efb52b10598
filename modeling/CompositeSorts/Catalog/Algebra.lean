import CompositeSorts.Catalog.Naming
import CompositeSorts.Catalog.Rendering
import CompositeSorts.Catalog.Resolution
import CompositeSorts.Category

/-!
The operations of the algebra: primitive sorts, aspects tuples, copies under a name, attributes
and disjunctions. An attribute is kept under its canonical text, so the same attribute is the same
sort; its base is simple, and an attribute as a base is taken apart, which makes the operation
associative. A disjunction has no two components of the same display; when a disjunction without a
name is added to, it grows in place.

Main definitions: `Op.primitive`, `Op.declareAspects`, `Op.duplicate`, `Op.combine`, `Op.sum`.
-/

set_option autoImplicit false
set_option relaxedAutoImplicit false

namespace CompositeSorts.Op

/-- Refuses an aspects tuple where none can stand. -/
def refuseAspects (sort : SortRecord) (place : OperandPlace) : Op Unit :=
  if sort.variant = .aspects then refuse (.aspectsOperand sort.display place) else pure ()

/-- Refuses a handle that leads to no sort or to an aspects tuple. -/
def checkOperand (place : OperandPlace) (id : SortId) : Op Unit := do
  refuseAspects (← read (·.get id)) place

/-- Asks for the shape of a category. -/
def shapeOf (categories : CategoryTable) (tag : String) : Op ParamShape :=
  match categories.lookup tag with
  | .known shape => pure shape
  | .unknown => refuse (.unknownCategory tag)
  | .never => throw .abandoned

/-- Makes a primitive sort of a category, without a name. -/
def primitive (categories : CategoryTable) (tag : String) (argument : Option Argument) :
    Op SortId := do
  let _ ← shapeOf categories tag
  match argument with
  | some (.sorts linked) => linked.forM (checkOperand .primitiveArgument)
  | _ => pure ()
  let canonical ← read (·.primitiveText tag argument)
  add none canonical .ofSimple (.primitive tag argument)

/-- Refuses names that are given twice or are taken already. -/
def checkAspectNames : (earlier names : List String) → Op Unit
  | _, [] => pure ()
  | earlier, name :: names => do
    if name ∈ earlier then refuse (.repeatedAspect name)
    if ((← get).sortOf name).isSome then refuse (.alreadyDefined name)
    checkAspectNames (name :: earlier) names

/-- Makes the aspects of an owner, one for each name, from a position on. -/
def addAspects (owner : SortId) (canonical : String) :
    (position : Nat) → (names : List String) → Op (List SortId)
  | _, [] => pure []
  | position, name :: names => do
    let aspect ← add (some name) (Catalog.aspectText canonical position)
      ComponentCounts.ofSimple.renamed (.aspect owner position)
    let others ← addAspects owner canonical (position + 1) names
    pure (aspect :: others)

/-- Declares an aspects tuple over a category: one aspect for each name, linked to the argument at
its position. The aspects are registered, and then the tuple, under the name `(src, dst)`. -/
def declareAspects (categories : CategoryTable) (tag : String) (names : List String)
    (arguments : List SortId) : Op SortId := do
  let shape ← shapeOf categories tag
  if names.length < 2 ∨ names.length ≠ shape.cardinality ∨ names.length ≠ arguments.length then
    refuse (.linkCount tag shape.cardinality names.length arguments.length)
  checkAspectNames [] names
  arguments.forM (checkOperand .aspectArgument)
  let canonical := Catalog.aspectsText tag (← read (·.displays arguments))
  let owner ← add (some (Catalog.tupleText names)) canonical ComponentCounts.ofSimple.renamed
    (.aspects tag [] arguments)
  let aspects ← addAspects owner canonical 0 names
  let record ← read (·.get owner)
  change (·.replace { record with body := .aspects tag aspects arguments })
  aspects.forM register
  register owner
  pure owner

/-- Returns a sort under a name: itself if that is its name, otherwise a copy with the same
structure, which is not registered. -/
def duplicate (id : SortId) (name : String) : Op SortId := do
  let source ← read (·.get id)
  if source.name = some name then pure id
  else
    match source.body with
    | .aspects .. | .aspect .. => refuse (.notDuplicable source.variant source.display)
    | .recursive none => refuse (.unbound source.display)
    | body =>
      let counts := if source.isNamed then source.counts else source.counts.renamed
      add (some name) source.canonical counts body

/-- The attribute of a simple base and a weight: the one that is kept under its canonical text, or
a new one. -/
def attach (base weight : SortId) : Op SortId := do
  let b ← read (·.get base)
  let w ← read (·.get weight)
  refuseAspects b .weighted
  refuseAspects w .weighted
  if !b.body.isSimple then refuse (.compositeBase b.display b.variant)
  let canonical := Catalog.weightedText b w
  match (← get).interned[canonical]? with
  | some known => pure known
  | none =>
    let id ← add none canonical (.composite [b.counts, w.counts]) (.weighted base weight)
    change fun c ↦ { c with interned := c.interned.insert canonical id }.note
      (.weightedInterned canonical)
    pure id

/-- The attribute `base ^ weight`. The elements of the base's spine are attached one by one, the
last one first, so `(a^b)^c` and `a^(b^c)` are the same sort. -/
def combine (base weight : SortId) : Op SortId := do
  let elements ← read (·.spine base)
  elements.foldrM attach weight

/-- Whether one of the components has the display. -/
def shows (c : Catalog) (display : String) : List SortId → Except Refusal Bool
  | [] => pure false
  | id :: others => do
    if (← c.display id) = display then pure true else shows c display others

/-- Appends the components that are not shown already. -/
def merged (c : Catalog) (components : List SortId) : List SortId → Except Refusal (List SortId)
  | [] => pure components
  | id :: others => do
    let display ← c.display id
    let present ← shows c display components
    merged c (if present then components else components ++ [id]) others

/-- The disjunction `a + b`. A disjunction without a name on the left grows in place. -/
def sum (a b : SortId) : Op SortId := do
  let left ← read (·.get a)
  let right ← read (·.get b)
  refuseAspects left .disjunction
  refuseAspects right .disjunction
  if left.display = right.display then pure a
  else
    let components ← read (merged · left.summands right.summands)
    match components with
    | [only] => pure only
    | _ =>
      let parts ← read fun c ↦ components.mapM c.get
      let counts := ComponentCounts.composite (parts.map SortRecord.counts)
      let canonical := Catalog.disjunctiveText (parts.map SortRecord.display)
      let body := Body.disjunctive components
      if left.variant = .disjunctive ∧ left.name = none then
        change (·.replace { left with canonical, counts, body })
        pure a
      else add none canonical counts body

end CompositeSorts.Op
