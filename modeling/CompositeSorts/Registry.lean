import CompositeSorts.Catalog.Containment
import CompositeSorts.Catalog.Resolution
import CompositeSorts.Configuration
import CompositeSorts.Definition.Evaluation
import CompositeSorts.Definition.Grammar
import CompositeSorts.Matching.Relate
import CompositeSorts.Matching.Report

/-!
Registries. A registry owns a catalog of sorts over a table of categories, and the matches between
them. Definition texts and the operations of the algebra change the catalog only; matching reads
the catalog and changes the matches only; rolling back and clearing change both.

Main definitions: `Registry`, `Registry.defineAll`, `Registry.operate` for the operations of the
algebra, `Registry.matchSorts`, `Registry.undo`, `Registry.clear`.
-/

set_option autoImplicit false
set_option relaxedAutoImplicit false

namespace CompositeSorts

/-- A registry of sorts. -/
structure Registry where
  config : Configuration
  categories : CategoryTable
  catalog : Catalog
  matchings : Matchings

namespace Registry

/-- A registry without sorts. -/
def empty (id : RegistryId) (categories : CategoryTable) (config : Configuration) : Registry :=
  ⟨config, categories, .empty id, .empty⟩

/-- What a computation of a registry gives: an answer or the reason why there is none, and the
registry afterwards. -/
abbrev Answer (ε α : Type) := Except ε α × Registry

/-! ### Sessions -/

/-- Removes the sorts made in the session, and what is remembered of their matches; answers how
many sorts were removed. -/
def undo (r : Registry) : Nat × Registry :=
  let gone := r.catalog.fresh
  let (purged, matchings) := r.matchings.forget gone
  let rolledBack := r.catalog.rollBack
  let warned := if purged > 0 then rolledBack.note (.matchesPurged purged) else rolledBack
  (gone.length, { r with
    catalog := warned.note (.sessionRolledBack gone.length), matchings := matchings })

/-- Drops all sorts and matches. -/
def clear (r : Registry) : Registry :=
  { r with catalog := r.catalog.clear, matchings := r.matchings.clear }

/-- Evaluates a definition text on a catalog in which a session has begun. -/
def evaluateText (categories : CategoryTable) (text : String) : Evaluation (List SortId) :=
  match TokenStream.ofText text with
  | .ok stream => Phrase.evaluateAll categories (Grammar.program categories stream)
  | .error problem => throw (.refused problem)

/-- Defines the sorts of a text and returns them in order. When there is a problem, all sorts made
by the text are removed again. An evaluation that is abandoned leaves everything as it is. -/
def defineAll (r : Registry) (text : String) : Answer (Stop Problem) (List SortId) :=
  match evaluateText r.categories text r.catalog.openSession with
  | .ok ids catalog =>
    (.ok ids, { r with catalog := catalog.note (.definitionsCompiled ids.length) })
  | .error .abandoned catalog => (.error .abandoned, { r with catalog })
  | .error (.refused problem) catalog =>
    let (removed, undone) := undo { r with catalog }
    (.error (.refused problem), { undone with
      catalog := undone.catalog.note (.definitionFailed removed problem.text) })

/-- Defines the sorts of a text and returns the last one. -/
def define (r : Registry) (text : String) : Answer (Stop Problem) SortId :=
  match r.defineAll text with
  | (.ok ids, after) =>
    match ids.getLast? with
    | some id => (.ok id, after)
    | none => (.error (.refused ⟨.nothingDefined, .start⟩), after)
  | (.error reason, after) => (.error reason, after)

/-! ### Operations -/

/-- Carries out an operation of the algebra. -/
def operate {α : Type} (r : Registry) (operation : Op α) : Answer (Stop Refusal) α :=
  match operation r.catalog with
  | .ok value catalog => (.ok value, { r with catalog })
  | .error reason catalog => (.error reason, { r with catalog })

/-- Makes a primitive sort. -/
def primitive (r : Registry) (tag : String) (argument : Option Argument) :
    Answer (Stop Refusal) SortId :=
  r.operate (.primitive r.categories tag argument)

/-- Declares an aspects tuple. -/
def declareAspects (r : Registry) (tag : String) (names : List String) (arguments : List SortId) :
    Answer (Stop Refusal) SortId :=
  r.operate (.declareAspects r.categories tag names arguments)

/-- The form that a sort's category makes for it. -/
def newForm (r : Registry) (id : SortId) : Except Refusal (Option SortForm) :=
  r.catalog.newForm r.categories id

/-! ### Matching -/

/-- Matches two sorts. -/
def matchSorts (r : Registry) (left right : SortId) : Answer Refusal MatchId :=
  match Matching.relate r.catalog r.config [] left right r.matchings with
  | .ok id matchings => (.ok id, { r with matchings })
  | .error reason matchings => (.error reason, { r with matchings })

/-- Whether a counter of the registry has carried. A build that checks its arithmetic has stopped
then. -/
def carried (r : Registry) : Bool :=
  r.catalog.sorts.any (·.counts.carried) ||
    r.matchings.nodes.any fun node ↦ node.tally.carried || node.scale.carried

/-- The report of a match. -/
def report (r : Registry) (id : MatchId) : Option Report := r.matchings.report r.catalog id

/-! ### Journal and diagnostic output -/

/-- Takes the entries of the log out of the journals, the oldest first. In one step either the
catalog notes events or the matches do. -/
def takeLog (r : Registry) : List LogEntry × Registry :=
  let events := r.catalog.journal.reverse ++ r.matchings.journal.reverse
  (events.map (Event.entry r.config.label), { r with
    catalog := { r.catalog with journal := [] }
    matchings := { r.matchings with journal := [] } })

/-- A registry's number in diagnostic output. -/
def idText (id : RegistryId) : String := "RegistryId(" ++ id.text ++ ")"

/-- A handle in diagnostic output. -/
def handleText (id : SortId) : String :=
  Text.record "SortId" [
    ("registry", idText id.registry),
    ("slot", toString id.key.index),
    ("generation", toString id.key.generation.toNat)]

/-- A definition under way in diagnostic output. -/
def pendingText (pending : Pending) : String :=
  let placeholder := match pending.placeholder with
    | some id => "Some(" ++ handleText id ++ ")"
    | none => "None"
  Text.record "Hook" [("name", Text.quoted pending.name), ("placeholder", placeholder)]

/-- The registry in diagnostic output. -/
def text (r : Registry) : String :=
  Text.record "Registry" [
    ("id", idText r.catalog.home),
    ("label", Text.quoted r.config.label),
    ("sorts", toString r.catalog.size),
    ("names", Text.mapping (r.catalog.names.toList.map fun entry ↦
      (Text.quoted entry.1, handleText entry.2))),
    ("hooks", Text.listing (r.catalog.pending.reverse.map pendingText))]

end Registry

end CompositeSorts
