import CompositeSorts.Matching.Reversal
import Mathlib.Tactic.Common

/-!
How deep a reversal goes. The reversal of a match contains those of its parts and of the matches
chained behind it. Nothing is asked of a table here: parts may be their own parts, and handles may
lead nowhere. A match whose reversal is under way is not entered again, so the reversals that stand
inside each other are those of different matches, and there are not more of them than matches.
`copyWithin` reverses with a bound on how many do, and hands what would stand deeper to a function
of which nothing is known; with a bound of so many as there are matches it never does
(`copiesWithin_eq_copies`).
-/

set_option autoImplicit false
set_option relaxedAutoImplicit false

namespace CompositeSorts.Matchings

/-- The copy of a match, whose parts and tie are copied as given. -/
def copyEntered (t : Matchings) (copy : MatchId → Copying MatchId) (id : MatchId)
    (node : MatchNode) :
    Copying MatchId := do
  let parts ← node.parts.mapM copy
  let tiedWith ← node.tiedWith.mapM copy
  let reversal ← t.addCopy { node.reversed with parts, tiedWith, sentinel := false }
  modify fun copies ↦ { copies with done := copies.done.insert id.index reversal }
  pure reversal

/-- The reversal of a part or a tie; a match that is neither copied yet nor under way is entered as
given. -/
def copyBy (t : Matchings) (enter : MatchId → MatchNode → Copying MatchId) (underWay : List Nat)
    (id : MatchId) : Copying MatchId := do
  match (← get).done[id.index]? with
  | some known => pure known
  | none =>
    if inside : id.index < t.nodes.size then
      let node := t.nodes[id.index]
      if node.left = node.right then pure id
      else if id.index ∈ underWay then pure id
      else enter id node
    else throw (.unknownMatch id.index)

/-- The reversal of a part or a tie; `depth` reversals may stand inside each other, and what stands
inside of so many goes `beyond`. -/
def copyWithin (t : Matchings) (beyond : MatchId → MatchNode → Copying MatchId) :
    (depth : Nat) → (underWay : List Nat) → (id : MatchId) → Copying MatchId
  | 0, underWay => t.copyBy beyond underWay
  | depth + 1, underWay => t.copyBy
      (fun id ↦ t.copyEntered (t.copyWithin beyond depth (id.index :: underWay)) id) underWay

/-- The reversal of a match; `depth` reversals may stand inside each other within it. -/
def copiesWithin (t : Matchings) (beyond : MatchId → MatchNode → Copying MatchId) (depth : Nat)
    (id : MatchId) (left right : SortId) : Copying MatchId :=
  if inside : id.index < t.nodes.size then do
    let node := t.nodes[id.index]
    let parts ← node.parts.mapM (t.copyWithin beyond depth [id.index])
    let tiedWith ← node.tiedWith.mapM (t.copyWithin beyond depth [id.index])
    t.addCopy { node.reversed with left, right, parts, tiedWith, sentinel := false }
  else throw (.unknownMatch id.index)

variable {t : Matchings} {underWay : List Nat}

/-- A reversal goes by how a match is entered that is there and not under way. -/
theorem copyBy_eq_copy {enter : MatchId → MatchNode → Copying MatchId}
    (entered : ∀ id node, id.index < t.nodes.size → id.index ∉ underWay →
      enter id node = t.copyEntered (t.copy (id.index :: underWay)) id node) :
    t.copyBy enter underWay = t.copy underWay := by
  funext id
  rw [copyBy, copy]
  refine congrArg (bind get) (funext fun copies ↦ ?_)
  cases copies.done[id.index]? with
  | some known => rfl
  | none =>
    dsimp only
    split_ifs with inside own busy
    · rfl
    · rfl
    · exact entered id _ inside busy
    · rfl

/-- With as many reversals inside each other as there are matches whose reversal is not under way,
none is handed over. -/
theorem copyWithin_eq_copy (beyond : MatchId → MatchNode → Copying MatchId) (depth : Nat)
    (enough : (unvisited (List.range t.nodes.size) underWay).length ≤ depth) :
    t.copyWithin beyond depth underWay = t.copy underWay := by
  induction depth generalizing underWay with
  | zero =>
    refine copyBy_eq_copy fun id _ inside new ↦ ?_
    have fewer := length_unvisited_cons_lt (List.mem_range.mpr inside) new
    omega
  | succ depth ih =>
    refine copyBy_eq_copy fun id _ inside new ↦ ?_
    have fewer := length_unvisited_cons_lt (List.mem_range.mpr inside) new
    rw [ih (by omega)]

/-- However the matches of a table hang together, reversing one never goes deeper than there are
matches. -/
theorem copiesWithin_eq_copies (t : Matchings) (beyond : MatchId → MatchNode → Copying MatchId)
    (id : MatchId) (left right : SortId) (depth : Nat) (enough : t.nodes.size ≤ depth) :
    t.copiesWithin beyond depth id left right = t.copies id left right := by
  have same : t.copyWithin beyond depth [id.index] = t.copy [id.index] := by
    refine copyWithin_eq_copy beyond depth (Nat.le_trans ?_ enough)
    exact Nat.le_trans (List.length_filter_le _ _) (Nat.le_of_eq List.length_range)
  unfold copiesWithin copies
  rw [same]

end CompositeSorts.Matchings
