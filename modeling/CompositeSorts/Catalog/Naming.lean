import CompositeSorts.Catalog.Basic

/-!
Names. A sort that carries a name becomes known under it when it is registered; a name is given
away once. While a definition is being evaluated its name is announced, and a mention of it makes
a recursive sort that stands for the sort to come, which is bound to it in the end.

Main definitions: `Op.register`, `Op.announce`, `Op.mention`, `Op.conclude`, `Op.bind`.
-/

set_option autoImplicit false
set_option relaxedAutoImplicit false

namespace CompositeSorts.Op

/-- Makes a named sort known under its name. Doing so again changes nothing. -/
def register (id : SortId) : Op Unit := do
  let sort ← read (·.get id)
  match sort.name with
  | none => refuse (.unnamed sort.display)
  | some name =>
    let c ← get
    match c.sortOf name with
    | some known => if known = id then pure () else refuse (.alreadyDefined name)
    | none => change fun c ↦ { c with names := c.names.insert name id }.note (.sortRegistered name)

/-- Announces that the definition of a name begins. -/
def announce (name : String) : Op Unit := do
  let c ← get
  if c.pending.any (·.name = name) then refuse (.beingDefined name)
  else if (c.sortOf name).isSome then refuse (.alreadyDefined name)
  else change fun c ↦ { c with pending := ⟨name, none⟩ :: c.pending }

/-- The recursive sort that stands for a name under definition; it is made when the name is
mentioned first. The innermost definition of the name counts. Nothing when the name is not under
definition. -/
def mention (name : String) : Op (Option SortId) := do
  let c ← get
  match c.pending.findIdx? (·.name = name) with
  | none => pure none
  | some index =>
    match c.pending[index]?.bind Pending.placeholder with
    | some placeholder => pure (some placeholder)
    | none =>
      let placeholder ← add (some name) name .ofPlaceholder (.recursive none)
      change fun c ↦ { c with
        pending := c.pending.set index ⟨name, some placeholder⟩ }.note (.placeholderCreated name)
      pure (some placeholder)

/-- Ends the innermost definition. -/
def conclude : Op (Option Pending) := do
  let c ← get
  match c.pending with
  | [] => pure none
  | innermost :: outer =>
    set { c with pending := outer }
    pure (some innermost)

/-- Makes a recursive sort stand for another sort, whose canonical text and counts it takes over.
This can be done once, and not with the sort itself or with an aspects tuple. -/
def bind (recursive target : SortId) : Op Unit := do
  if recursive = target then refuse (.ownInstance recursive)
  let goal ← read (·.get target)
  if goal.variant = .aspects then refuse .aspectsInstance
  let sort ← read (·.get recursive)
  match sort.body with
  | .recursive (some _) => refuse (.alreadyBound sort.display)
  | .recursive none =>
    change fun c ↦
      (c.replace { sort with
        canonical := goal.canonical, counts := goal.counts, body := .recursive (some target) }).note
      (.recursiveBound sort.display)
  | _ => refuse (.notRecursive sort.display)

end CompositeSorts.Op
