import CompositeSorts.Matching.Rules

/-!
Matching two attributes. Their bases are matched and their weights; when both are close, so are the
attributes. Otherwise the elements of their chains are matched in every rotation, and if no
rotation fits, links are added or passed over.

Main definitions: `Rule.weighted`, `Rule.beside` for the half of a pair that stands when the other
half is a match under way, and `Rule.bestRotation` for the rotations.
-/

set_option autoImplicit false
set_option relaxedAutoImplicit false

namespace CompositeSorts.Rule

open Matching

/-- What the aligned elements of two chains add up to. -/
structure Alignment where
  level : Level
  grade : Grade
  tally : Tally
  elements : List MatchId

/-- Matches aligned elements pair by pair. Nothing as soon as a pair is not even convertible. -/
def align (relate : Relate) (sofar : Alignment) :
    List (SortId × SortId) → Matching (Option Alignment)
  | [] => pure (some sofar)
  | (left, right) :: pairs => do
    let element ← relate left right
    let node ← nodeOf element
    if node.level.rank > Level.convertible.rank then pure none
    else
      align relate ⟨sofar.level.worst node.level, sofar.grade.combine node.grade,
        sofar.tally.add node.tally, sofar.elements ++ [element]⟩ pairs

/-- The match of two chains of the same length with the left one rotated by `shift`. A rotation is
counted as so many swaps as it takes in the shorter direction. -/
def rotation (relate : Relate) (l r : SortRecord) (left right : List SortId) (shift : Nat) :
    Matching (Option MatchId) := do
  let start : Alignment :=
    ⟨.convertible, .concordant, { swapped := (min shift (left.length - shift) : Nat) }, []⟩
  match ← align relate start ((left.rotateLeft shift).zip right) with
  | none => pure none
  | some found =>
    let parts := nontrivial (← get) found.elements
    some <$> push (node l r found.level found.grade found.tally parts)

/-- The best rotation of two chains of the same length, if one fits. -/
def bestRotation (c : Catalog) (config : Configuration) (relate : Relate) (l r : SortRecord) :
    Matching (Option MatchId) := do
  let left ← ask (c.spine l.id)
  let right ← ask (c.spine r.id)
  if left.length < 2 ∨ left.length ≠ right.length then pure none
  else
    let candidates ← (List.range left.length).mapM (rotation relate l r left right)
    choose config candidates.reduceOption

/-- The half of a pair of matches that stands beside a sentinel, if it is congruous itself. -/
def beside (base weight : MatchId × MatchNode) : Option (MatchId × MatchNode) :=
  match base.2.sentinel, weight.2.sentinel with
  | false, true => if base.2.incongruous then none else some base
  | true, false => if weight.2.incongruous then none else some weight
  | _, _ => none

/-- The attributes are as close as base and weight are, but one of these is not close: incomplete,
with one augmentation; or one of them is a match under way, and is passed over. -/
def halves (l r : SortRecord) (base weight : MatchId × MatchNode) : Matching (List MatchId) := do
  if !base.2.incongruous && !weight.2.incongruous then
    let tally := base.2.tally.add weight.2.tally
    let parts := nontrivial (← get) [base.1, weight.1]
    let id ← push (node l r ((base.2.level.worst weight.2.level).atLeast .incomplete)
      (base.2.grade.combine weight.2.grade) (tally.add { augs := 1 }) parts)
    pure [id]
  else
    match beside base weight with
    | none => pure []
    | some kept =>
      let parts := nontrivial (← get) [kept.1]
      let id ← push (node l r (kept.2.level.atLeast .incomplete) kept.2.grade
        (kept.2.tally.add { skipped := 1 }) parts)
      pure [id]

/-- The left attribute beside the right weight: the right base is added. -/
def augmented (c : Catalog) (relate : Relate) (l r : SortRecord) (rightBase rightWeight : SortId) :
    Matching (List MatchId) := do
  let added := (← ask (c.get rightBase)).counts.simple
  let inner ← relate l.id rightWeight
  if (← nodeOf inner).incongruous then pure []
  else
    let id ← pushLike l r inner fun node ↦ { node with
      level := node.level.atLeast .incomplete
      grade := node.grade.combine .partOf
      tally := node.tally.add { augs := added, skipped := 1 } }
    pure [id]

/-- The left weight beside the right attribute: the left base is taken away. -/
def lessened (c : Catalog) (relate : Relate) (l r : SortRecord) (leftBase leftWeight : SortId) :
    Matching (List MatchId) := do
  let removed := (← ask (c.get leftBase)).counts.simple
  let inner ← relate leftWeight r.id
  if (← nodeOf inner).incongruous then pure []
  else
    let id ← pushLike l r inner fun node ↦ { node with
      level := node.level.atLeast .incomplete
      grade := node.grade.combine .subsumptive
      tally := node.tally.add { dims := removed, skipped := 1 } }
    pure [id]

/-- The level of attributes whose bases and weights have these levels, when both are similar. -/
def similarLevel (base weight : Level) : Option Level :=
  if base.rank ≤ 2 ∧ weight.rank ≤ 2 then
    some (if base.rank ≤ 1 ∧ weight.rank ≤ 1 then .stronglySimilar else .weaklySimilar)
  else none

/-- Two attributes. -/
def weighted (c : Catalog) (config : Configuration) (relate : Relate) (l r : SortRecord)
    (leftBase leftWeight rightBase rightWeight : SortId) : Matching MatchId := do
  if l.canonical = r.canonical then equivalent l r .none
  else
    let baseId ← relate leftBase rightBase
    let weightId ← relate leftWeight rightWeight
    let base ← nodeOf baseId
    let weight ← nodeOf weightId
    match similarLevel base.level weight.level with
    | some level =>
      let parts := nontrivial (← get) [baseId, weightId]
      push (node l r level (base.grade.combine weight.grade) (base.tally.add weight.tally) parts)
    | none =>
      match ← bestRotation c config relate l r with
      | some found => pure found
      | none =>
        let byHalves ← halves l r (baseId, base) (weightId, weight)
        let byRight ← augmented c relate l r rightBase rightWeight
        let byLeft ← lessened c relate l r leftBase leftWeight
        chooseOrIncongruous config l r (byHalves ++ byRight ++ byLeft) [baseId, weightId]

end CompositeSorts.Rule
