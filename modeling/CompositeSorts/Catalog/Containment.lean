import CompositeSorts.Catalog.Basic
import CompositeSorts.Unvisited

/-!
Containment. A sort contains the sorts that are equal to one it reaches, through components, bases
and weights, instances and the aspects of a tuple; and it contains a disjunction whose components
it contains one by one. Each sort is visited once, so circles do no harm.

Main definitions: `SortRecord.children`, `Catalog.reaches`, `Catalog.contains`.
-/

set_option autoImplicit false
set_option relaxedAutoImplicit false

namespace CompositeSorts

/-- The sorts directly inside a sort, in the order in which they are searched. -/
def SortRecord.children (sort : SortRecord) : List SortId :=
  match sort.body with
  | .disjunctive components => components
  | .weighted base weight => [base, weight]
  | .recursive target => target.toList
  | .aspects _ aspects _ => aspects
  | .primitive .. | .aspect .. => []

namespace Catalog

/-- The handles of the live sorts. -/
def handles (c : Catalog) : List SortId := c.store.keys.map fun key ↦ ⟨c.home, key⟩

theorem mem_handles_of_get {c : Catalog} {id : SortId} {sort : SortRecord}
    (h : c.get id = .ok sort) : id ∈ c.handles := by
  rw [get_eq_ok_iff] at h
  obtain ⟨home, found⟩ := h
  refine List.mem_map.2 ⟨id.key, SlotMap.mem_keys_of_get? found, ?_⟩
  rw [← home]

/-- Searches the sorts to do, and what is inside them, for one equal to `goal`. Sorts that were
visited are not searched again. -/
def reachesFrom (c : Catalog) (goal : SortId) (visited todo : List SortId) : Except Refusal Bool :=
  match todo with
  | [] => .ok false
  | id :: others =>
    match _found : c.get id with
    | .error reason => .error reason
    | .ok outer => do
      let inner ← c.get goal
      if outer.same inner then pure true
      else if _new : id ∈ visited then c.reachesFrom goal visited others
      else c.reachesFrom goal (id :: visited) (outer.children ++ others)
termination_by ((unvisited c.handles visited).length, todo.length)
decreasing_by
  · exact Prod.Lex.right _ (by simp)
  · exact Prod.Lex.left _ _ (length_unvisited_cons_lt (mem_handles_of_get _found) _new)

/-- Whether `a` reaches a sort equal to `b`. -/
def reaches (c : Catalog) (a b : SortId) : Except Refusal Bool := c.reachesFrom b [] [a]

/-- Whether `a` reaches a sort equal to each of the others. -/
def reachesAll (c : Catalog) (a : SortId) : List SortId → Except Refusal Bool
  | [] => .ok true
  | part :: parts => do
    if ← c.reaches a part then c.reachesAll a parts else pure false

/-- Whether `a` contains `b`: it reaches `b`, or `b` is a disjunction and `a` reaches all of its
components. -/
def contains (c : Catalog) (a b : SortId) : Except Refusal Bool := do
  if ← c.reaches a b then pure true
  else
    let inner ← c.get b
    match inner.body with
    | .disjunctive components => c.reachesAll a components
    | _ => pure false

/-- Whether `a` is part of `b`. -/
def partOf (c : Catalog) (a b : SortId) : Except Refusal Bool := c.contains b a

end Catalog

end CompositeSorts
