import CompositeSorts.Matching.Relate
import CompositeSorts.Proofs.Ends
import CompositeSorts.Proofs.Matching.Steps

/-!
Findings. A *finding* is what a match says of its sorts, with the findings of its parts inside it:
the match as a tree, without a table, handles or ties. This module matches sorts in terms of
findings alone. Each rule is given again as a computation that keeps nothing but a memory, the
findings of the pairs that were matched before; ties are neither recorded nor looked at, and nothing
depends on how a registry is configured.

Main definitions: `Finding`, `Finding.turned` for the finding seen from the other side, `Memory`,
and `Appraisal.relate`, which matches two sorts. That the table of a registry holds these findings,
and nothing else, is shown where the two are run side by side.
-/

set_option autoImplicit false
set_option relaxedAutoImplicit false

namespace CompositeSorts

open Matching

/-- The node without its parts and its tie. -/
def MatchNode.alone (node : MatchNode) : MatchNode := { node with parts := [], tiedWith := none }

theorem MatchNode.level_alone (node : MatchNode) : node.alone.level = node.level := rfl

theorem MatchNode.incongruous_alone (node : MatchNode) :
    node.alone.incongruous = node.incongruous :=
  rfl

theorem MatchNode.sentinel_alone (node : MatchNode) : node.alone.sentinel = node.sentinel := rfl

/-- What a match says: its node, without parts and tie, and the findings of its parts. -/
inductive Finding where
  | mk (node : MatchNode) (parts : List Finding)

namespace Finding

/-- What the match says of its two sorts. -/
def node : Finding → MatchNode
  | ⟨node, _⟩ => node

/-- What its parts say. -/
def parts : Finding → List Finding
  | ⟨_, parts⟩ => parts

theorem node_mk (node : MatchNode) (parts : List Finding) :
    (Finding.mk node parts).node = node := rfl

/-- What holds of a finding when it holds of its parts holds of all findings. -/
theorem induction {good : Finding → Prop}
    (step : ∀ finding : Finding, (∀ part ∈ finding.parts, good part) → good finding) :
    ∀ finding, good finding := by
  intro finding
  refine finding.rec (motive_1 := good) (motive_2 := fun parts ↦ ∀ part ∈ parts, good part)
    (fun node parts inner ↦ step ⟨node, parts⟩ inner) ?_ ?_
  · rintro part ⟨⟩
  · intro part parts here inner other inside
    rcases List.mem_cons.mp inside with rfl | inside
    · exact here
    · exact inner other inside

mutual

/-- The finding seen from the other side. That of a sort with itself is the same from both. -/
def mirror : Finding → Finding
  | ⟨node, parts⟩ =>
    if node.left = node.right then ⟨node, parts⟩
    else ⟨node.mirrored node.right node.left [] none, mirrorAll parts⟩

/-- Several findings seen from the other side. -/
def mirrorAll : List Finding → List Finding
  | [] => []
  | finding :: findings => finding.mirror :: mirrorAll findings

end

theorem mirrorAll_eq_map (findings : List Finding) : mirrorAll findings = findings.map mirror := by
  induction findings with
  | nil => rfl
  | cons finding findings ih => rw [mirrorAll, ih, List.map_cons]

theorem mirror_eq (finding : Finding) : finding.mirror =
    if finding.node.left = finding.node.right then finding
    else ⟨finding.node.mirrored finding.node.right finding.node.left [] none,
      finding.parts.map mirror⟩ := by
  cases finding
  rw [mirror, mirrorAll_eq_map]
  rfl

/-- The finding of the exchanged pair, for these two sorts. -/
def turned (finding : Finding) (left right : SortId) : Finding :=
  ⟨finding.node.mirrored left right [] none, finding.parts.map mirror⟩

/-! ### Findings of two sorts -/

variable (l r : SortRecord)

/-- A sort is identical to itself. -/
def identity (sort : SortRecord) : Finding :=
  ⟨Matching.node sort sort .identical .concordant .none [], []⟩

/-- What is said while the match is being computed. -/
def pending : Finding :=
  ⟨{ Matching.node l r .incongruous .concordant .none [] with sentinel := true }, []⟩

/-- The sorts are equivalent. -/
def equivalent (tally : Tally) : Finding :=
  ⟨Matching.node l r .equivalent .concordant tally [], []⟩

/-- The sorts do not correspond; `parts` shows why. -/
def incongruous (parts : List Finding) : Finding :=
  ⟨Matching.node l r .incongruous .concordant .none [], parts⟩

/-- The findings that say something. -/
def telling (findings : List Finding) : List Finding :=
  findings.filter fun finding ↦ finding.node.level ≠ .identical

/-- A finding like the one of a part, adjusted. -/
def like (inner : Finding) (adjust : MatchNode → MatchNode) : Finding :=
  ⟨adjust (Matching.node l r inner.node.level.lifted inner.node.grade inner.node.tally []),
    telling [inner]⟩

/-- The better of two findings, the first one when they are tied. -/
def better (best other : Finding) : Finding :=
  if other.node.prefer best.node = .lt then other else best

/-- The best of several findings, the first of those that are equally good. -/
def choose : List Finding → Option Finding
  | [] => none
  | first :: others => some (others.foldl better first)

/-- The best of several findings; the sorts are incongruous when there is none. -/
def chooseOrIncongruous (candidates parts : List Finding) : Finding :=
  (choose candidates).getD (incongruous l r parts)

end Finding

/-! ### Rules -/

/-- What was found before, for pairs of displays, and whether a pair was ever met while its finding
was being made. -/
structure Memory where
  known : PairKey → Option Finding
  broken : Bool

namespace Memory

/-- Nothing was found yet. -/
def empty : Memory := ⟨fun _ ↦ none, false⟩

/-- The memory with one more finding. -/
def learn (memory : Memory) (key : PairKey) (finding : Finding) : Memory :=
  { memory with known := Function.update memory.known key (some finding) }

end Memory

/-- A computation of findings. -/
abbrev Appraisal (α : Type) := EStateM Refusal Memory α

/-- What appraises two sorts. -/
abbrev Appraiser := SortId → SortId → Appraisal Finding

namespace Appraisal

/-- The answer of the catalog. -/
def ask {α : Type} (answer : Except Refusal α) : Appraisal α := fun memory ↦
  match answer with
  | .ok value => .ok value memory
  | .error reason => .error reason memory

section

variable (c : Catalog) (relate : Appraiser) (l r : SortRecord)

/-- The finding of the exchanged pair, from the other side. -/
def exchanged : Appraisal Finding := do
  let forward ← relate r.id l.id
  pure (forward.turned l.id r.id)

/-- Two primitive sorts. -/
def primitives (leftTag rightTag : String) : Finding :=
  if l.canonical = r.canonical then .equivalent l r { byDefinition := 1 }
  else if leftTag = rightTag then
    ⟨node l r .convertible .concordant { byArgument := 1 } [], []⟩
  else .incongruous l r []

/-- Two aspects tuples. -/
def tuples : Finding :=
  if l.canonical = r.canonical then .equivalent l r .none else .incongruous l r []

/-- Two aspects. -/
def aspects (leftOwner rightOwner : SortId) (leftPosition rightPosition : Nat) :
    Appraisal Finding := do
  let owners ← relate leftOwner rightOwner
  if owners.node.level.rank > 0 then pure (.incongruous l r [owners])
  else if leftPosition = rightPosition then
    pure ⟨node l r .equivalent .concordant .none [], Finding.telling [owners]⟩
  else
    let leftArgument ← ask (c.argumentOf l.id)
    let rightArgument ← ask (c.argumentOf r.id)
    let arguments ← relate leftArgument rightArgument
    if arguments.node.incongruous then pure (.incongruous l r [arguments])
    else
      pure (.like l r arguments fun node ↦ { node with
        level := node.level.atLeast .stronglySimilar
        tally := node.tally.add { swapped := 1 } })

/-- A recursive sort on the left. -/
def recursive (target : Option SortId) : Appraisal Finding :=
  match target with
  | none => throw (.unbound l.display)
  | some instanceId =>
    if l.canonical = r.canonical then pure (.equivalent l r .none)
    else do
      let inner ← relate instanceId r.id
      let demotion : Counter := if Rule.isNamedAggregate l || Rule.isNamedAggregate r then 1 else 0
      pure ⟨node l r inner.node.level.lifted inner.node.grade
        (inner.node.tally.add { byName := demotion }) [], [inner]⟩

/-- A disjunction beside a sort that is none. -/
def disjunction (components : List SortId) : Appraisal Finding := do
  let extra := components.length - 1
  let candidates ← components.mapM fun component ↦ do
    let inner ← relate component r.id
    pure (.like l r inner fun node ↦ { node with
      tally := node.tally.add { excess := extra }
      grade := if extra > 0 then node.grade.combine .subsumptive else node.grade })
  pure (.chooseOrIncongruous l r candidates [])

/-- An attribute beside a simple sort. -/
def weightedBesideSimple (base weight : SortId) : Appraisal Finding := do
  let weightSimple := (← ask (c.get weight)).counts.simple
  let byBase := Finding.like l r (← relate base r.id) (Rule.diminished weightSimple)
  let byWeight := Finding.like l r (← relate weight r.id) (Rule.diminished 1)
  pure (.chooseOrIncongruous l r [byBase, byWeight] [])

/-- What the aligned elements of two chains add up to. -/
structure Alignment where
  level : Level
  grade : Grade
  tally : Tally
  elements : List Finding

/-- Aligned elements, pair by pair. -/
def align (sofar : Alignment) : List (SortId × SortId) → Appraisal (Option Alignment)
  | [] => pure (some sofar)
  | (left, right) :: pairs => do
    let element ← relate left right
    if element.node.level.rank > Level.convertible.rank then pure none
    else
      align ⟨sofar.level.worst element.node.level, sofar.grade.combine element.node.grade,
        sofar.tally.add element.node.tally, sofar.elements ++ [element]⟩ pairs

/-- Two chains of the same length, with the left one rotated. -/
def rotation (left right : List SortId) (shift : Nat) : Appraisal (Option Finding) := do
  let start : Alignment :=
    ⟨.convertible, .concordant, { swapped := (min shift (left.length - shift) : Nat) }, []⟩
  let aligned ← align relate start ((left.rotateLeft shift).zip right)
  pure (aligned.map fun found ↦
    ⟨node l r found.level found.grade found.tally [], Finding.telling found.elements⟩)

/-- The best rotation of two chains of the same length. -/
def bestRotation : Appraisal (Option Finding) := do
  let left ← ask (c.spine l.id)
  let right ← ask (c.spine r.id)
  if left.length < 2 ∨ left.length ≠ right.length then pure none
  else
    let candidates ← (List.range left.length).mapM (rotation relate l r left right)
    pure (Finding.choose candidates.reduceOption)

/-- The half of a pair that stands beside a match under way. -/
def beside (base weight : Finding) : Option Finding :=
  match base.node.sentinel, weight.node.sentinel with
  | false, true => if base.node.incongruous then none else some base
  | true, false => if weight.node.incongruous then none else some weight
  | _, _ => none

/-- The attributes are as close as base and weight are, or as one of them. -/
def halves (base weight : Finding) : List Finding :=
  if !base.node.incongruous && !weight.node.incongruous then
    let tally := base.node.tally.add weight.node.tally
    [⟨node l r ((base.node.level.worst weight.node.level).atLeast .incomplete)
      (base.node.grade.combine weight.node.grade) (tally.add { augs := 1 }) [],
      Finding.telling [base, weight]⟩]
  else
    match beside base weight with
    | none => []
    | some kept =>
      [⟨node l r (kept.node.level.atLeast .incomplete) kept.node.grade
        (kept.node.tally.add { skipped := 1 }) [], Finding.telling [kept]⟩]

/-- The left attribute beside the right weight. -/
def augmented (rightBase rightWeight : SortId) : Appraisal (List Finding) := do
  let added := (← ask (c.get rightBase)).counts.simple
  let inner ← relate l.id rightWeight
  if inner.node.incongruous then pure []
  else
    pure [.like l r inner fun node ↦ { node with
      level := node.level.atLeast .incomplete
      grade := node.grade.combine .partOf
      tally := node.tally.add { augs := added, skipped := 1 } }]

/-- The left weight beside the right attribute. -/
def lessened (leftBase leftWeight : SortId) : Appraisal (List Finding) := do
  let removed := (← ask (c.get leftBase)).counts.simple
  let inner ← relate leftWeight r.id
  if inner.node.incongruous then pure []
  else
    pure [.like l r inner fun node ↦ { node with
      level := node.level.atLeast .incomplete
      grade := node.grade.combine .subsumptive
      tally := node.tally.add { dims := removed, skipped := 1 } }]

/-- Two attributes. -/
def weighted (leftBase leftWeight rightBase rightWeight : SortId) : Appraisal Finding := do
  if l.canonical = r.canonical then pure (.equivalent l r .none)
  else
    let base ← relate leftBase rightBase
    let weight ← relate leftWeight rightWeight
    match Rule.similarLevel base.node.level weight.node.level with
    | some level =>
      pure ⟨node l r level (base.node.grade.combine weight.node.grade)
        (base.node.tally.add weight.node.tally) [], Finding.telling [base, weight]⟩
    | none =>
      match ← bestRotation c relate l r with
      | some found => pure found
      | none =>
        let byRight ← augmented c relate l r rightBase rightWeight
        let byLeft ← lessened c relate l r leftBase leftWeight
        pure (.chooseOrIncongruous l r (halves l r base weight ++ byRight ++ byLeft) [base, weight])

/-- A finding of two components, with their positions. -/
structure Pairing where
  left : Nat
  right : Nat
  finding : Finding

/-- Pairings in the order in which they are taken. -/
def Pairing.compare (a b : Pairing) : Ordering :=
  (a.finding.node.prefer b.finding.node).then <|
    (Ord.compare a.left b.left).then (Ord.compare a.right b.right)

/-- Appraises two components. Incongruous ones are no pairing. -/
def pairing (left right : SortId × Nat) : Appraisal (List Pairing) := do
  let finding ← relate left.1 right.1
  pure (if finding.node.incongruous then [] else [⟨left.2, right.2, finding⟩])

/-- The pairings of all components on the left with all on the right. -/
def allPairings (left right : List SortId) : Appraisal (List Pairing) := do
  let found ← left.zipIdx.mapM fun l ↦ do
    let row ← right.zipIdx.mapM fun r ↦ pairing relate l r
    pure row.flatten
  pure found.flatten

/-- Takes each pairing whose components are both free. -/
def takeFree (taken : List Pairing) : List Pairing → List Pairing
  | [] => taken
  | pairing :: others =>
    if taken.any fun earlier ↦ earlier.left = pairing.left || earlier.right = pairing.right then
      takeFree taken others
    else takeFree (taken ++ [pairing]) others

/-- The pairings in the order of preference, taken as long as components are free. -/
def accept (found : List Pairing) : List Pairing :=
  takeFree [] (found.mergeSort fun a b ↦ (a.compare b).isLE)

/-- What the pairings that are taken add up to, with the components that are left over. -/
def combined (left right : List SortId) (accepted : List Pairing) : Finding :=
  let level : Level := (accepted.map (·.finding.node.level)).foldl .worst .identical
  let tally : Tally := (accepted.map (·.finding.node.tally)).foldl .add .none
  let excess := Rule.countFree left.length (accepted.map Pairing.left)
  let omits := Rule.countFree right.length (accepted.map Pairing.right)
  let grade := Rule.jointGrade (accepted.map (·.finding.node.grade) ++
    List.replicate excess .subsumptive ++ List.replicate omits .partOf)
  ⟨node l r level.lifted grade
    (tally.add { excess := excess, omits := omits }) [],
    Finding.telling (accepted.map Pairing.finding)⟩

/-- Two disjunctions. -/
def composition (left right : List SortId) : Appraisal Finding := do
  if l.canonical = r.canonical then pure (.equivalent l r .none)
  else
    let accepted := accept (← allPairings relate left right)
    pure (if accepted.isEmpty then .incongruous l r [] else combined l r left right accepted)

/-- The rule for the variants of two different sorts. -/
def forVariants : Appraisal Finding :=
  let descending := r.display < l.display
  match l.body, r.body with
  | .aspects .., .aspects .. => pure (tuples l r)
  | .aspects .., _ => throw (.unrelatable l.display r.display r.variant)
  | _, .aspects .. => throw (.unrelatable l.display r.display l.variant)
  | .recursive target, .recursive _ =>
    if descending then exchanged relate l r else recursive relate l r target
  | .recursive target, _ => recursive relate l r target
  | _, .recursive _ => exchanged relate l r
  | .disjunctive left, .disjunctive right =>
    if descending then exchanged relate l r else composition relate l r left right
  | .disjunctive components, _ => disjunction relate l r components
  | _, .disjunctive _ => exchanged relate l r
  | .weighted leftBase leftWeight, .weighted rightBase rightWeight =>
    if descending then exchanged relate l r
    else weighted c relate l r leftBase leftWeight rightBase rightWeight
  | .weighted base weight, _ => weightedBesideSimple c relate l r base weight
  | _, .weighted .. => exchanged relate l r
  | .primitive leftTag _, .primitive rightTag _ => pure (primitives l r leftTag rightTag)
  | .aspect leftOwner leftPosition, .aspect rightOwner rightPosition =>
    if descending then exchanged relate l r
    else aspects c relate l r leftOwner rightOwner leftPosition rightPosition
  | _, _ => pure (.incongruous l r [])

end

/-- What is said of a pair that is met while its finding is being made. -/
def breakCycle (l r : SortRecord) : Appraisal Finding := do
  modify fun memory ↦ { memory with broken := true }
  pure (.pending l r)

/-- Remembers what was found. What is remembered already is not replaced. -/
def remember (key : PairKey) (finding : Finding) : Appraisal Finding := do
  match (← get).known key with
  | some known => pure known
  | none =>
    modify fun memory ↦ memory.learn key finding
    pure finding

/-- Appraises two sorts while the findings of the pairs `underWay` are being made. -/
def relate (c : Catalog) (underWay : List PairKey) (left right : SortId) : Appraisal Finding :=
  match _left : c.get left, _right : c.get right with
  | .error reason, _ => throw reason
  | .ok _, .error reason => throw reason
  | .ok l, .ok r => do
    if left = right then pure (.identity l)
    else
      let key : PairKey := ⟨l.display, r.display⟩
      if _idle : key ∈ underWay then breakCycle l r
      else
        match (← get).known key with
        | some known => pure known
        | none =>
          let finding ← forVariants c (relate c (key :: underWay)) l r
          remember key finding
termination_by (unvisited c.pairKeys underWay).length
decreasing_by exact length_unvisited_cons_lt (Catalog.pairKey_mem_pairKeys _left _right) _idle

theorem mem_rotateLeft_iff {α : Type} {items : List α} {shift : Nat} {item : α} :
    item ∈ items.rotateLeft shift ↔ item ∈ items := by
  unfold List.rotateLeft
  dsimp only
  split_ifs
  · exact Iff.rfl
  · rw [List.mem_append, or_comm, ← List.mem_append, List.take_append_drop]

variable {c : Catalog} {underWay : List PairKey} {left right : SortId} {l r : SortRecord}
  {reason : Refusal}

theorem relate_of_missing_left (missing : c.get left = .error reason) :
    relate c underWay left right = throw reason := by
  rw [relate]
  split
  · rename_i found
    rw [missing] at found
    cases found
    rfl
  all_goals
    rename_i found _
    rw [missing] at found
    cases found

theorem relate_of_missing_right (foundLeft : c.get left = .ok l)
    (missing : c.get right = .error reason) : relate c underWay left right = throw reason := by
  rw [relate]
  split
  · rename_i found
    rw [foundLeft] at found
    cases found
  · rename_i found
    rw [missing] at found
    cases found
    rfl
  · rename_i found
    rw [missing] at found
    cases found

theorem relate_of_found (foundLeft : c.get left = .ok l) (foundRight : c.get right = .ok r) :
    relate c underWay left right =
      if left = right then pure (.identity l)
      else if (⟨l.display, r.display⟩ : PairKey) ∈ underWay then breakCycle l r
      else (do
        match (← get).known ⟨l.display, r.display⟩ with
        | some known => pure known
        | none =>
          let finding ← forVariants c (relate c (⟨l.display, r.display⟩ :: underWay)) l r
          remember ⟨l.display, r.display⟩ finding) := by
  rw [relate]
  split
  · rename_i found
    rw [foundLeft] at found
    cases found
  · rename_i found
    rw [foundRight] at found
    cases found
  · rename_i foundLeft' foundRight'
    rw [foundLeft] at foundLeft'
    rw [foundRight] at foundRight'
    cases foundLeft'
    cases foundRight'
    rfl

end Appraisal

end CompositeSorts
