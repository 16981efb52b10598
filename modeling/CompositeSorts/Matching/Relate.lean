import CompositeSorts.Matching.Weighted
import CompositeSorts.Matching.Composition

/-!
Matching. The match of a sort with itself is made once for each sort. Any other match goes by the
displays of the two sorts: it is taken from the memo, or computed by the rule for their variants
and remembered. A match that is asked for while it is being computed is answered by a sentinel, an
incongruous match that is made once for each such pair; this is how sorts that refer to themselves
are matched.

Matching ends because every pair under way is a pair of displays of live sorts, and none is under
way twice. Main definitions: `Rule.forVariants`, `Matching.consult` and `Matching.relate`.
-/

set_option autoImplicit false
set_option relaxedAutoImplicit false

namespace CompositeSorts

/-- Matches two different sorts by the rule for their variants. Of two sorts of the same composite
variant the one whose display comes first is taken as the left one. -/
def Rule.forVariants (c : Catalog) (config : Configuration) (relate : Relate) (l r : SortRecord) :
    Matching MatchId :=
  let descending := r.display < l.display
  match l.body, r.body with
  | .aspects .., .aspects .. => tuples l r
  | .aspects .., _ => throw (.unrelatable l.display r.display r.variant)
  | _, .aspects .. => throw (.unrelatable l.display r.display l.variant)
  | .recursive target, .recursive _ =>
    if descending then exchanged relate l r else recursive relate l r target
  | .recursive target, _ => recursive relate l r target
  | _, .recursive _ => exchanged relate l r
  | .disjunctive left, .disjunctive right =>
    if descending then exchanged relate l r else composition relate l r left right
  | .disjunctive components, _ => disjunction config relate l r components
  | _, .disjunctive _ => exchanged relate l r
  | .weighted leftBase leftWeight, .weighted rightBase rightWeight =>
    if descending then exchanged relate l r
    else weighted c config relate l r leftBase leftWeight rightBase rightWeight
  | .weighted base weight, _ => weightedBesideSimple c config relate l r base weight
  | _, .weighted .. => exchanged relate l r
  | .primitive leftTag _, .primitive rightTag _ => primitives l r leftTag rightTag
  | .aspect leftOwner leftPosition, .aspect rightOwner rightPosition =>
    if descending then exchanged relate l r
    else aspects c relate l r leftOwner rightOwner leftPosition rightPosition
  | _, _ => Matching.incongruous l r []

namespace Catalog

/-- The displays of the live sorts. -/
def liveDisplays (c : Catalog) : List String := c.store.values.map SortRecord.display

/-- The pairs of displays of live sorts. -/
def pairKeys (c : Catalog) : List PairKey :=
  c.liveDisplays.flatMap fun left ↦ c.liveDisplays.map fun right ↦ ⟨left, right⟩

theorem display_mem_liveDisplays {c : Catalog} {id : SortId} {sort : SortRecord}
    (h : c.get id = .ok sort) : sort.display ∈ c.liveDisplays :=
  List.mem_map.2 ⟨sort, SlotMap.mem_values_of_get? (get_eq_ok_iff.1 h).2, rfl⟩

theorem pairKey_mem_pairKeys {c : Catalog} {left right : SortId} {l r : SortRecord}
    (hl : c.get left = .ok l) (hr : c.get right = .ok r) : ⟨l.display, r.display⟩ ∈ c.pairKeys :=
  List.mem_flatMap.2 ⟨_, display_mem_liveDisplays hl,
    List.mem_map.2 ⟨_, display_mem_liveDisplays hr, rfl⟩⟩

end Catalog

namespace Matching

/-- The match of a sort with itself. -/
def identity (sort : SortRecord) : Matching MatchId := do
  match (← get).identities[sort.id]? with
  | some known => pure known
  | none =>
    let id ← push (node sort sort .identical .concordant .none [])
    modify fun t ↦ { t with identities := t.identities.insert sort.id id }
    pure id

/-- The sentinel for a match under way: the one made before, if it is for the same sorts. -/
def breakCycle (key : PairKey) (l r : SortRecord) : Matching MatchId := do
  modify fun t ↦
    { t with metrics := t.metrics.recordCycle }.note (.cycleBroken l.id r.id)
  let t ← get
  let known := t.sentinels[key]?.filter fun id ↦
    match t.get? id with
    | some node => node.left = l.id && node.right = r.id
    | none => false
  match known with
  | some id => pure id
  | none =>
    let id ← push { node l r .incongruous .concordant .none [] with sentinel := true }
    modify fun t ↦ { t with sentinels := t.sentinels.insert key id }
    pure id

/-- The match that is remembered for a pair. If there is none it is computed, while its pair is
under way, and remembered. -/
def consult (config : Configuration) (key : PairKey) (computation : Matching MatchId) :
    Matching MatchId := do
  match ← lookUp key with
  | some known => pure known
  | none =>
    let id ← during key computation
    remember config key id

/-- Matches two sorts while the matches of the pairs `underWay` are being computed. -/
def relate (c : Catalog) (config : Configuration) (underWay : List PairKey) (left right : SortId) :
    Matching MatchId :=
  match _left : c.get left, _right : c.get right with
  | .error reason, _ => throw reason
  | .ok _, .error reason => throw reason
  | .ok l, .ok r => do
    if left = right then identity l
    else
      let key : PairKey := ⟨l.display, r.display⟩
      if _idle : key ∈ underWay then breakCycle key l r
      else
        consult config key (Rule.forVariants c config (relate c config (key :: underWay)) l r)
termination_by (unvisited c.pairKeys underWay).length
decreasing_by exact length_unvisited_cons_lt (Catalog.pairKey_mem_pairKeys _left _right) _idle

end Matching

end CompositeSorts
