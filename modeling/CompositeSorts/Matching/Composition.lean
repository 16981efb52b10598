import CompositeSorts.Matching.Rules

/-!
Matching two disjunctions. Every component on the left is matched with every one on the right; the
matches are taken in the order of preference, each with components that are still free, until none
is left. Components without a counterpart are in excess or omitted.

Main definition: `Rule.composition`.
-/

set_option autoImplicit false
set_option relaxedAutoImplicit false

namespace CompositeSorts.Rule

open Matching

/-- A match of two components, with their positions. -/
structure Pairing where
  left : Nat
  right : Nat
  id : MatchId
  node : MatchNode

/-- Pairings in the order in which they are taken: the better match first, then the smaller
positions. -/
def Pairing.compare (a b : Pairing) : Ordering :=
  (a.node.prefer b.node).then <| (Ord.compare a.left b.left).then (Ord.compare a.right b.right)

/-- Matches two components. The alternatives of their match count as well; incongruous matches do
not. -/
def pairings (relate : Relate) (left right : SortId × Nat) : Matching (List Pairing) := do
  let head ← relate left.1 right.1
  let ids := head :: (← get).alternatives head
  let found ← ids.mapM fun id ↦ return ⟨left.2, right.2, id, ← nodeOf id⟩
  pure (found.filter fun pairing ↦ !pairing.node.incongruous)

/-- The pairings of all components on the left with all on the right. -/
def allPairings (relate : Relate) (left right : List SortId) : Matching (List Pairing) := do
  let found ← left.zipIdx.mapM fun l ↦ do
    let row ← right.zipIdx.mapM fun r ↦ pairings relate l r
    pure row.flatten
  pure found.flatten

/-- Takes each pairing whose components are both free. -/
def takeFree (taken : List Pairing) : List Pairing → List Pairing
  | [] => taken
  | pairing :: others =>
    if taken.any fun earlier ↦ earlier.left = pairing.left || earlier.right = pairing.right then
      takeFree taken others
    else takeFree (taken ++ [pairing]) others

/-- The pairings in the order of preference, taken as long as components are free. -/
def accept (found : List Pairing) : List Pairing :=
  takeFree [] (found.mergeSort fun a b ↦ (a.compare b).isLE)

/-- How many positions below `length` are not among those taken. -/
def countFree (length : Nat) (taken : List Nat) : Nat :=
  (List.range length).countP (· ∉ taken)

/-- The grade that contributions add up to: concordant if all are, otherwise the one grade that
the others have, or both. -/
def jointGrade (contributions : List Grade) : Grade :=
  match contributions.filter (· ≠ .concordant) with
  | [] => .concordant
  | first :: others => if others.all (· = first) then first else .mixed

/-- Two disjunctions. -/
def composition (relate : Relate) (l r : SortRecord) (left right : List SortId) :
    Matching MatchId := do
  if l.canonical = r.canonical then equivalent l r .none
  else
    let accepted := accept (← allPairings relate left right)
    if accepted.isEmpty then incongruous l r []
    else
      let level : Level := (accepted.map (·.node.level)).foldl .worst .identical
      let tally : Tally := (accepted.map (·.node.tally)).foldl .add .none
      let excess := countFree left.length (accepted.map Pairing.left)
      let omits := countFree right.length (accepted.map Pairing.right)
      let grade := jointGrade (accepted.map (·.node.grade) ++
        List.replicate excess .subsumptive ++ List.replicate omits .partOf)
      let parts := nontrivial (← get) (accepted.map Pairing.id)
      push (node l r level.lifted grade
        (tally.add { excess := excess, omits := omits }) parts)

end CompositeSorts.Rule
