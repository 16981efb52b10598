import CompositeSorts.Catalog.Resolution
import CompositeSorts.Matching.Reversal
import CompositeSorts.Matching.Tie

/-!
The rules by which two sorts are matched, one for each pair of variants, but for those of two
disjunctions and of two attributes. A rule is given the function `relate` that matches the sorts
inside; it never matches the two sorts themselves. A sort on the right that is of the more complex
variant is handled from the other side: the match of the exchanged pair is reversed.

Main definitions: `Rule`, and the rules for primitive sorts, aspects tuples, aspects, recursive
sorts, a disjunction or an attribute beside a simpler sort, and `Rule.exchanged`.
-/

set_option autoImplicit false
set_option relaxedAutoImplicit false

namespace CompositeSorts

/-- What matches two sorts. -/
abbrev Relate := SortId → SortId → Matching MatchId

namespace Matching

/-- The answer of the catalog. -/
def ask {α : Type} (answer : Except Refusal α) : Matching α := fun t ↦
  match answer with
  | .ok value => .ok value t
  | .error reason => .error reason t

/-- The size by which a match of two sorts is measured. -/
def commonScale (l r : SortRecord) : Counter := max (max l.counts.scale r.counts.scale) 1

/-- A match of two sorts that was put together from the given values. -/
def node (l r : SortRecord) (level : Level) (grade : Grade) (tally : Tally)
    (parts : List MatchId) : MatchNode where
  left := l.id
  right := r.id
  level := level
  grade := grade
  tally := tally
  scale := commonScale l r
  parts := parts
  tiedWith := none
  sentinel := false

/-- The two sorts do not correspond; `parts` shows why. -/
def incongruous (l r : SortRecord) (parts : List MatchId) : Matching MatchId :=
  push (node l r .incongruous .concordant .none parts)

/-- The two sorts are equivalent. -/
def equivalent (l r : SortRecord) (tally : Tally) : Matching MatchId :=
  push (node l r .equivalent .concordant tally [])

/-- The matches that say something: those of a sort with itself are left out. -/
def nontrivial (t : Matchings) (ids : List MatchId) : List MatchId :=
  ids.filter fun id ↦
    match t.get? id with
    | some node => node.level ≠ .identical
    | none => false

/-- A match of two sorts that is like the match `inner`, adjusted. -/
def pushLike (l r : SortRecord) (inner : MatchId) (adjust : MatchNode → MatchNode) :
    Matching MatchId := do
  let source ← nodeOf inner
  let parts := nontrivial (← get) [inner]
  push (adjust (node l r source.level.lifted source.grade source.tally parts))

/-- The best of several matches of two sorts; they are incongruous when there is none. -/
def chooseOrIncongruous (config : Configuration) (l r : SortRecord) (candidates : List MatchId)
    (parts : List MatchId) : Matching MatchId := do
  match ← choose config candidates with
  | some best => pure best
  | none => incongruous l r parts

end Matching

/-! ### Rules -/

namespace Rule

open Matching

/-- The match of the exchanged pair, reversed. -/
def exchanged (relate : Relate) (l r : SortRecord) : Matching MatchId := do
  let forward ← relate r.id l.id
  reverse forward l.id r.id

/-- Two primitive sorts: equivalent when they have the same definition, convertible when only their
arguments differ. -/
def primitives (l r : SortRecord) (leftTag rightTag : String) : Matching MatchId :=
  if l.canonical = r.canonical then equivalent l r { byDefinition := 1 }
  else if leftTag = rightTag then
    push (node l r .convertible .concordant { byArgument := 1 } [])
  else incongruous l r []

/-- Two aspects tuples: equivalent when they have the same definition. -/
def tuples (l r : SortRecord) : Matching MatchId :=
  if l.canonical = r.canonical then equivalent l r .none else incongruous l r []

/-- Two aspects, whose owners have to be equivalent: equivalent at the same position, otherwise as
close as the sorts they are linked to, with one swap. -/
def aspects (c : Catalog) (relate : Relate) (l r : SortRecord) (leftOwner rightOwner : SortId)
    (leftPosition rightPosition : Nat) : Matching MatchId := do
  let owners ← relate leftOwner rightOwner
  if (← nodeOf owners).level.rank > 0 then incongruous l r [owners]
  else if leftPosition = rightPosition then
    let parts := nontrivial (← get) [owners]
    push (node l r .equivalent .concordant .none parts)
  else
    let leftArgument ← ask (c.argumentOf l.id)
    let rightArgument ← ask (c.argumentOf r.id)
    let arguments ← relate leftArgument rightArgument
    if (← nodeOf arguments).incongruous then incongruous l r [arguments]
    else
      pushLike l r arguments fun node ↦ { node with
        level := node.level.atLeast .stronglySimilar
        tally := node.tally.add { swapped := 1 } }

/-- Whether a sort has a name and is not primitive. -/
def isNamedAggregate (sort : SortRecord) : Bool := sort.isNamed && sort.variant ≠ .primitive

/-- A recursive sort on the left: the match of its instance, demoted by name when one of the sides
is a named sort that is not primitive. -/
def recursive (relate : Relate) (l r : SortRecord) (target : Option SortId) : Matching MatchId :=
  match target with
  | none => throw (.unbound l.display)
  | some instanceId =>
    if l.canonical = r.canonical then equivalent l r .none
    else do
      let inner ← relate instanceId r.id
      let source ← nodeOf inner
      let demotion : Counter := if isNamedAggregate l || isNamedAggregate r then 1 else 0
      push (node l r source.level.lifted source.grade
        (source.tally.add { byName := demotion }) [inner])

/-- A disjunction beside a sort that is none: the best match of a component. The other components
are in excess. -/
def disjunction (config : Configuration) (relate : Relate) (l r : SortRecord)
    (components : List SortId) : Matching MatchId := do
  let extra := components.length - 1
  let candidates ← components.mapM fun component ↦ do
    let inner ← relate component r.id
    pushLike l r inner fun node ↦ { node with
      tally := node.tally.add { excess := extra }
      grade := if extra > 0 then node.grade.combine .subsumptive else node.grade }
  chooseOrIncongruous config l r candidates []

/-- The left side holds more: the match is incomplete at best, and subsumptive. -/
def diminished (dims : Counter) (node : MatchNode) : MatchNode :=
  { node with
    level := node.level.atLeast .incomplete
    grade := node.grade.combine .subsumptive
    tally := node.tally.add { dims := dims } }

/-- An attribute beside a simple sort: the better of the matches of its base and of its weight. -/
def weightedBesideSimple (c : Catalog) (config : Configuration) (relate : Relate)
    (l r : SortRecord) (base weight : SortId) : Matching MatchId := do
  let weightSimple := (← ask (c.get weight)).counts.simple
  let byBase ← pushLike l r (← relate base r.id) (diminished weightSimple)
  let byWeight ← pushLike l r (← relate weight r.id) (diminished 1)
  chooseOrIncongruous config l r [byBase, byWeight] []

end Rule

end CompositeSorts
