import Std.Data.ExtTreeMap
import CompositeSorts.Journal
import CompositeSorts.Matching.Level
import CompositeSorts.Matching.Tally
import CompositeSorts.Refusal

/-!
The matches of a registry, and the preference between them. A match is a node: the answer to the
question how two sorts relate, a level, a grade and a tally, the size they are measured by, the
matches of the parts it was put together from, and a match that is exactly as good, if one is
chained behind it.

Nodes are only ever appended. A match is remembered for the pair of displays of its sorts; the match
of a sort with itself is remembered for the sort; and so is, for a pair of displays, the node that
stands for a match while it is being computed. The pairs whose matches are being computed are kept
as long as they are.

Main definitions: `MatchNode`, `MatchNode.prefer`, `PairKey`, `Matchings`, `Matching`, the type of
computations on them, and the steps `Matching.push`, `Matching.nodeOf`, `Matching.lookUp`,
`Matching.during`, and `Matchings.forget` for sorts that are gone.
-/

set_option autoImplicit false
set_option relaxedAutoImplicit false

namespace CompositeSorts

/-! ### Nodes -/

/-- A match of the sorts `left` and `right`. A sentinel stands for a match that was still being
computed when it was asked for. -/
structure MatchNode where
  left : SortId
  right : SortId
  level : Level
  grade : Grade
  tally : Tally
  scale : Counter
  parts : List MatchId
  tiedWith : Option MatchId
  sentinel : Bool
deriving DecidableEq, Repr

namespace MatchNode

/-- The score of a match. -/
def score (node : MatchNode) : Ratio := node.tally.score node.scale

/-- Whether the sorts do not correspond at all. -/
def incongruous (node : MatchNode) : Bool := node.level = .incongruous

/-- Which match is the better one: `lt` when it is the first. Incongruous matches come last; then
the rank of the level decides, the score, and the rank of the grade. -/
def prefer (a b : MatchNode) : Ordering :=
  (compare a.incongruous.toNat b.incongruous.toNat).then <|
  (compare a.level.rank b.level.rank).then <|
  (a.score.compare b.score).then <|
  compare a.grade.rank b.grade.rank

/-- The node seen from the other side. Its parts and its tie stay what they are. -/
def reversed (node : MatchNode) : MatchNode :=
  { node with
    left := node.right
    right := node.left
    grade := node.grade.reverse
    tally := node.tally.reversed }

end MatchNode

/-! ### Keys -/

/-- The displays of the left and the right sort of a match. -/
structure PairKey where
  left : String
  right : String
deriving DecidableEq, Repr

namespace PairKey

/-- Pairs are ordered by the left display, then by the right one. -/
def compare : PairKey → PairKey → Ordering :=
  compareLex (compareOn PairKey.left) (compareOn PairKey.right)

instance : Std.TransCmp PairKey.compare :=
  inferInstanceAs (Std.TransCmp (compareLex (compareOn PairKey.left) (compareOn PairKey.right)))

instance : Std.LawfulEqCmp PairKey.compare where
  eq_of_compare {a b} h := by
    simp only [compare, compareLex, compareOn, Ordering.then_eq_eq] at h
    cases a
    cases b
    simp_all

end PairKey

namespace SortId

/-- Handles are ordered by registry, slot and generation. -/
def compare : SortId → SortId → Ordering :=
  compareLex (compareOn fun id ↦ id.registry.number.toNat)
    (compareLex (compareOn fun id ↦ id.key.index) (compareOn fun id ↦ id.key.generation.toNat))

instance : Std.TransCmp SortId.compare :=
  inferInstanceAs (Std.TransCmp (compareLex _ (compareLex _ _)))

instance : Std.LawfulEqCmp SortId.compare where
  eq_of_compare {a b} h := by
    simp only [compare, compareLex, compareOn, Ordering.then_eq_eq, Nat.compare_eq_eq] at h
    exact toTriple_injective (by simp [toTriple, h])

end SortId

/-- What was looked up and computed so far. -/
structure Metrics where
  memoHits : Nat := 0
  memoMisses : Nat := 0
  computed : Nat := 0
  cyclesBroken : Nat := 0
  alternativesRecorded : Nat := 0
  purged : Nat := 0
deriving DecidableEq, Repr

namespace Metrics

/-- A match was found in the memo. -/
def recordHit (m : Metrics) : Metrics := { m with memoHits := m.memoHits + 1 }

/-- A match was not found in the memo. -/
def recordMiss (m : Metrics) : Metrics := { m with memoMisses := m.memoMisses + 1 }

/-- A match was put into the memo. -/
def recordComputed (m : Metrics) : Metrics := { m with computed := m.computed + 1 }

/-- A match was asked for while it was being computed. -/
def recordCycle (m : Metrics) : Metrics := { m with cyclesBroken := m.cyclesBroken + 1 }

/-- A match was chained behind one that is as good. -/
def recordAlternative (m : Metrics) : Metrics :=
  { m with alternativesRecorded := m.alternativesRecorded + 1 }

/-- The part of the look-ups that found something, zero before the first. -/
def hitRatio (m : Metrics) : Float :=
  let total := m.memoHits + m.memoMisses
  if total = 0 then 0 else m.memoHits.toUInt64.toFloat / total.toUInt64.toFloat

end Metrics

/-- The matches of a registry. The pairs whose matches are being computed are `underWay`, each of
them once. The journal has the newest event first. -/
structure Matchings where
  nodes : Array MatchNode
  memo : Std.ExtTreeMap PairKey MatchId PairKey.compare
  identities : Std.ExtTreeMap SortId MatchId SortId.compare
  underWay : List PairKey
  sentinels : Std.ExtTreeMap PairKey MatchId PairKey.compare
  metrics : Metrics
  journal : List Event

namespace Matchings

/-- No matches. -/
def empty : Matchings := ⟨#[], ∅, ∅, [], ∅, {}, []⟩

/-- The match of that number. -/
def get? (t : Matchings) (id : MatchId) : Option MatchNode := t.nodes[id.index]?

/-- Notes an event. -/
def note (t : Matchings) (event : Event) : Matchings := { t with journal := event :: t.journal }

/-- The match of a pair begins to be computed. -/
def begin (t : Matchings) (key : PairKey) : Matchings :=
  { t with underWay := t.underWay.insert key }

/-- The match of a pair is no longer being computed. -/
def finish (t : Matchings) (key : PairKey) : Matchings :=
  { t with underWay := t.underWay.erase key }

/-- Appends a match. -/
def push (t : Matchings) (node : MatchNode) : Matchings := { t with nodes := t.nodes.push node }

/-- Whether a match relates one of the sorts. A match that is not there counts as doing so. -/
def mentions (t : Matchings) (gone : List SortId) (id : MatchId) : Bool :=
  match t.get? id with
  | some node => node.left ∈ gone || node.right ∈ gone
  | none => true

/-- Forgets what is remembered of sorts that are gone, and counts the matches that are forgotten.
The nodes stay. -/
def forget (t : Matchings) (gone : List SortId) : Nat × Matchings :=
  let memo := t.memo.filter fun _ id ↦ !t.mentions gone id
  let purged := t.memo.size - memo.size
  (purged, { t with
    memo := memo
    identities := t.identities.filter fun sort _ ↦ sort ∉ gone
    sentinels := t.sentinels.filter fun _ id ↦ !t.mentions gone id
    metrics := { t.metrics with purged := t.metrics.purged + purged } })

/-- Drops all matches. What was counted stays. -/
def clear (t : Matchings) : Matchings :=
  { Matchings.empty with metrics := t.metrics, journal := t.journal }

end Matchings

/-- A computation on the matches of a registry. What it added stays when it is refused. -/
abbrev Matching (α : Type) := EStateM Refusal Matchings α

namespace Matching

/-- Appends a match and returns its handle. -/
def push (node : MatchNode) : Matching MatchId := fun t ↦
  let id : MatchId := ⟨t.nodes.size⟩
  .ok id (t.push node)

/-- Looks up a match. -/
def nodeOf (id : MatchId) : Matching MatchNode := do
  match (← get).get? id with
  | some node => pure node
  | none => throw (.unknownMatch id.index)

/-- Looks for a match in the memo, and counts whether it was there. -/
def lookUp (key : PairKey) : Matching (Option MatchId) := do
  match (← get).memo[key]? with
  | some id =>
    modify fun t ↦ { t with metrics := t.metrics.recordHit }.note (.memoHit id)
    pure (some id)
  | none =>
    modify fun t ↦ { t with metrics := t.metrics.recordMiss }
    pure none

/-- Carries out a computation while the match of a pair is under way, which it no longer is when the
computation has ended, be it early. -/
def during {α : Type} (key : PairKey) (computation : Matching α) : Matching α := fun t ↦
  match computation (t.begin key) with
  | .ok value t' => .ok value (t'.finish key)
  | .error reason t' => .error reason (t'.finish key)

end Matching

end CompositeSorts
