import CompositeSorts.Catalog.Basic
import CompositeSorts.Category

/-!
What a sort stands for, and its spine. A recursive sort stands for its instance, which may be
recursive again; following instances ends after at most as many steps as there are sorts, or leads
around in a circle. Questions about simplicity, category and form are answered for the sort it ends
at.

The spine of a sort has the bases of an attribute and of the attributes that are its weight, one
behind the other, and the last weight. A weight is older than the attribute it belongs to, so the
age of a sort bounds the length of its spine. Recursive sorts are not followed there.

Main definitions: `Catalog.resolve`, `Catalog.categoryOf`, `Catalog.argumentOf`, `Catalog.spine`.
-/

set_option autoImplicit false
set_option relaxedAutoImplicit false

namespace CompositeSorts.Catalog

/-- Follows instances from `cursor`, visiting at most so many sorts; `start` is named when that is
not enough. -/
def resolveWithin (c : Catalog) (start : SortId) : Nat → SortId → Except Refusal SortId
  | 0, _ => do
    let sort ← c.get start
    .error (.unresolvable sort.display)
  | bound + 1, cursor => do
    let sort ← c.get cursor
    match sort.body with
    | .recursive (some target) => c.resolveWithin start bound target
    | .recursive none => .error (.unbound sort.display)
    | _ => .ok cursor

/-- The sort that a sort stands for. -/
def resolve (c : Catalog) (id : SortId) : Except Refusal SortId :=
  c.resolveWithin id (c.size + 1) id

/-- Whether a sort stands for a simple one. -/
def isSimple (c : Catalog) (id : SortId) : Except Refusal Bool := do
  let sort ← c.get (← c.resolve id)
  pure sort.body.isSimple

/-- The category of an aspects tuple. -/
def tupleCategory (sort : SortRecord) : Option String :=
  match sort.body with
  | .aspects category _ _ => some category
  | _ => none

/-- The category of the primitive sort, aspects tuple or aspect that a sort stands for; an aspect
has the category of its owner. Other sorts have none. -/
def categoryOf (c : Catalog) (id : SortId) : Except Refusal (Option String) := do
  let sort ← c.get (← c.resolve id)
  match sort.body with
  | .primitive category _ => pure (some category)
  | .aspects category _ _ => pure (some category)
  | .aspect owner _ => return tupleCategory (← c.get owner)
  | _ => pure none

/-- The sort that an aspect is linked to. -/
def argumentOf (c : Catalog) (id : SortId) : Except Refusal SortId := do
  let sort ← c.get id
  match sort.body with
  | .aspect owner position =>
    let tuple ← c.get owner
    match tuple.body with
    | .aspects _ _ arguments =>
      match arguments[position]? with
      | some argument => pure argument
      | none => .error (.noArgument sort.display)
    | _ => .error (.noArgument sort.display)
  | _ => .error (.notAspect sort.display)

/-- The form that a sort's category makes for it. -/
def newForm (c : Catalog) (categories : CategoryTable) (id : SortId) :
    Except Refusal (Option SortForm) := do
  let tag ← c.categoryOf id
  pure (categories.newForm tag id)

/-! ### Spines -/

/-- The spine of a sort, cut off behind the given number of bases. -/
def spineWithin (c : Catalog) : Nat → SortId → Except Refusal (List SortId)
  | 0, id => do
    let _ ← c.get id
    pure [id]
  | bound + 1, id => do
    let sort ← c.get id
    match sort.body with
    | .weighted base weight =>
      let behind ← c.spineWithin bound weight
      pure (base :: behind)
    | _ => pure [id]

/-- The spine of a sort. -/
def spine (c : Catalog) (id : SortId) : Except Refusal (List SortId) := c.spineWithin c.clock id

end CompositeSorts.Catalog
