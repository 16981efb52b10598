import CompositeSorts.Matching.Basic
import CompositeSorts.Unvisited

/-!
Reversal. A match seen from the other side is a copy with its sides exchanged, and so are the
matches of its parts and those chained behind it. Matches of a sort with itself are their own
reversals, and what is met twice is copied once.

The copies are collected before any is appended, so all reading is from the table as it was: main
definitions `Matchings.copies` and `Matching.reverse`.
-/

set_option autoImplicit false
set_option relaxedAutoImplicit false

namespace CompositeSorts

/-- The copies made so far, in order, and the handle of the copy of each match that has one. -/
structure Copies where
  nodes : Array MatchNode
  done : Std.ExtTreeMap Nat MatchId

/-- A computation that collects copies. -/
abbrev Copying (α : Type) := EStateM Refusal Copies α

namespace Matchings

/-- Appends a copy to those made so far; its handle is the one it will have in the table. -/
def addCopy (t : Matchings) (node : MatchNode) : Copying MatchId := fun copies ↦
  let id : MatchId := ⟨t.nodes.size + copies.nodes.size⟩
  .ok id { copies with nodes := copies.nodes.push node }

/-- The reversal of a part or a tie: the copy made before, the match itself if it is that of a sort
with itself or one whose reversal is under way, a new copy otherwise. -/
def copy (t : Matchings) (underWay : List Nat) (id : MatchId) : Copying MatchId := do
  match (← get).done[id.index]? with
  | some known => pure known
  | none =>
    if _inside : id.index < t.nodes.size then
      let node := t.nodes[id.index]
      if node.left = node.right then pure id
      else if _new : id.index ∈ underWay then pure id
      else
        let parts ← node.parts.mapM (t.copy (id.index :: underWay))
        let tiedWith ← node.tiedWith.mapM (t.copy (id.index :: underWay))
        let reversal ← t.addCopy { node.reversed with parts, tiedWith, sentinel := false }
        modify fun copies ↦ { copies with done := copies.done.insert id.index reversal }
        pure reversal
    else throw (.unknownMatch id.index)
termination_by (unvisited (List.range t.nodes.size) underWay).length
decreasing_by
  all_goals exact length_unvisited_cons_lt (List.mem_range.2 _inside) _new

/-- The copies that make up the reversal of a match, which goes by the given sides. -/
def copies (t : Matchings) (id : MatchId) (left right : SortId) : Copying MatchId :=
  if _inside : id.index < t.nodes.size then do
    let node := t.nodes[id.index]
    let parts ← node.parts.mapM (t.copy [id.index])
    let tiedWith ← node.tiedWith.mapM (t.copy [id.index])
    t.addCopy { node.reversed with left, right, parts, tiedWith, sentinel := false }
  else throw (.unknownMatch id.index)

end Matchings

/-- Appends the reversal of a match, which goes by the given sides, and returns its handle. -/
def Matching.reverse (id : MatchId) (left right : SortId) : Matching MatchId := fun t ↦
  match t.copies id left right ⟨#[], ∅⟩ with
  | .ok reversal made => .ok reversal { t with nodes := t.nodes ++ made.nodes }
  | .error reason made => .error reason { t with nodes := t.nodes ++ made.nodes }

end CompositeSorts
