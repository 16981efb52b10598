import CompositeSorts.Handle

/-!
Events. A registry keeps a journal of what it did, for a log. An entry of the log has a severity,
a message and labelled fields; most entries name the registry by its label.

Main definitions: `Event`, `Event.entry`.
-/

set_option autoImplicit false
set_option relaxedAutoImplicit false

namespace CompositeSorts

/-- What can happen in a registry. -/
inductive Event where
  | sessionStarted
  | definitionsCompiled (count : Nat)
  | definitionFailed (removed : Nat) (problem : String)
  | sessionRolledBack (removed : Nat)
  | matchesPurged (purged : Nat)
  | registryCleared
  | sortRegistered (name : String)
  | placeholderCreated (name : String)
  | recursiveBound (name : String)
  | weightedInterned (canonical : String)
  | memoHit (id : MatchId)
  | cycleBroken (left right : SortId)
  | tieRecorded (head alternative : MatchId)
deriving DecidableEq, Repr

/-- How much an entry of the log matters. -/
inductive Severity where
  | trace
  | debug
  | warn
deriving DecidableEq, Repr

/-- The word for a severity. -/
def Severity.text : Severity → String
  | trace => "TRACE"
  | debug => "DEBUG"
  | warn => "WARN"

/-- An entry of the log. -/
structure LogEntry where
  severity : Severity
  message : String
  fields : List (String × String)
deriving DecidableEq, Repr

/-- The entry for an event in the registry with that label. -/
def Event.entry (label : String) : Event → LogEntry
  | sessionStarted => ⟨.debug, "session started", [("registry", label)]⟩
  | definitionsCompiled count =>
    ⟨.debug, "definitions compiled", [("registry", label), ("count", toString count)]⟩
  | definitionFailed removed problem =>
    ⟨.debug, "definition failed",
      [("registry", label), ("removed", toString removed), ("error", problem)]⟩
  | sessionRolledBack removed =>
    ⟨.debug, "session rolled back", [("registry", label), ("removed", toString removed)]⟩
  | matchesPurged purged =>
    ⟨.warn, "rollback purged memoized matches",
      [("registry", label), ("purged", toString purged)]⟩
  | registryCleared => ⟨.debug, "registry cleared", [("registry", label)]⟩
  | sortRegistered name => ⟨.debug, "registered sort", [("registry", label), ("name", name)]⟩
  | placeholderCreated name =>
    ⟨.debug, "recursive placeholder created", [("registry", label), ("name", name)]⟩
  | recursiveBound name =>
    ⟨.debug, "recursive sort bound", [("registry", label), ("name", name)]⟩
  | weightedInterned canonical => ⟨.trace, "attribute interned", [("canonical", canonical)]⟩
  | memoHit id => ⟨.trace, "memo hit", [("id", id.text)]⟩
  | cycleBroken left right => ⟨.trace, "cycle broken", [("lhs", left.text), ("rhs", right.text)]⟩
  | tieRecorded head alternative =>
    ⟨.trace, "tie recorded", [("head", head.text), ("alternative", alternative.text)]⟩

end CompositeSorts
