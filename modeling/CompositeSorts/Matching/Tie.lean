import CompositeSorts.Configuration
import CompositeSorts.Matching.Basic

/-!
Ties. Matches that are exactly as good as the chosen one are chained behind it, up to a number
that the configuration sets.

Main definitions: `Matchings.alternatives`, the chain behind a match, `Matching.chain`, which
appends to it, `Matching.remember`, which makes a match the answer for its pair, and
`Matching.choose`, which chooses among candidates and chains the ties.
-/

set_option autoImplicit false
set_option relaxedAutoImplicit false

namespace CompositeSorts

namespace Matchings

/-- The match chained directly behind another. -/
def next (t : Matchings) (id : MatchId) : Option MatchId := (t.get? id).bind MatchNode.tiedWith

/-- The chain from `cursor` on, behind `head` and the matches that were passed. -/
def chainFrom (t : Matchings) (head : MatchId) :
    (bound : Nat) → (passed : List MatchId) → (cursor : Option MatchId) → List MatchId
  | 0, _, _ => []
  | _ + 1, _, none => []
  | bound + 1, passed, some id =>
    if id = head ∨ id ∈ passed then []
    else id :: t.chainFrom head bound (id :: passed) (t.next id)

/-- The matches chained behind `head`. A chain that leads back is left where it does. -/
def alternatives (t : Matchings) (head : MatchId) : List MatchId :=
  t.chainFrom head (t.nodes.size + 1) [] (t.next head)

/-- The end of the chain from `cursor` on, if it has room for so many more and does not hold
`alternative`. -/
def chainEnd (t : Matchings) (alternative : MatchId) : (room : Nat) → (cursor : MatchId) →
    Option MatchId
  | 0, _ => none
  | room + 1, cursor =>
    if cursor = alternative then none
    else match t.get? cursor with
      | none => none
      | some node =>
        match node.tiedWith with
        | none => some cursor
        | some next => t.chainEnd alternative room next

end Matchings

namespace Matching

/-- Chains a match behind `head`, if matches are chained and there is room. -/
def chain (config : Configuration) (head alternative : MatchId) : Matching Unit :=
  if config.keepAlternatives then
    modify fun t ↦
      match t.chainEnd alternative config.maxAlternatives head with
      | none => t
      | some last =>
        { t with
          nodes := t.nodes.modify last.index fun node ↦ { node with tiedWith := some alternative }
          metrics := t.metrics.recordAlternative }.note (.tieRecorded head alternative)
  else pure ()

/-- Remembers the match of a pair. A match that is remembered already is not replaced: the other one
is chained behind it. -/
def remember (config : Configuration) (key : PairKey) (id : MatchId) : Matching MatchId := do
  match (← get).memo[key]? with
  | some known =>
    if known ≠ id then chain config known id
    pure known
  | none =>
    modify fun t ↦ { t with
      memo := t.memo.insert key id, metrics := t.metrics.recordComputed }
    pure id

/-- A match with its node. -/
abbrev Candidate := MatchId × MatchNode

/-- Keeps the better of two candidates, the first one when they are tied. -/
def better (best other : Candidate) : Candidate :=
  if other.2.prefer best.2 = .lt then other else best

/-- Chooses the best of several matches, the first of those that are equally good, and chains the
others behind it, unless even the best is incongruous. -/
def choose (config : Configuration) (ids : List MatchId) : Matching (Option MatchId) := do
  let candidates ← ids.mapM fun id ↦ return (id, ← nodeOf id)
  match candidates with
  | [] => pure none
  | first :: others =>
    let best := others.foldl better first
    if !best.2.incongruous then
      candidates.forM fun candidate ↦
        if candidate.1 ≠ best.1 ∧ candidate.2.prefer best.2 = .eq then
          chain config best.1 candidate.1
        else pure ()
    pure (some best.1)

end Matching

end CompositeSorts
