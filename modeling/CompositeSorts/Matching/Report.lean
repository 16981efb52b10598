import CompositeSorts.Catalog.Basic
import CompositeSorts.Matching.Tie
import CompositeSorts.Unvisited

/-!
Reports. A report shows a match as a tree: the displays of its sorts, level, grade, tally and
score, the reports of its parts, and at the top those of the matches chained behind it. A sort that
is gone is shown as removed.

Main definitions: `Report`, `Report.size`, `Matchings.report`.
-/

set_option autoImplicit false
set_option relaxedAutoImplicit false

namespace CompositeSorts

/-- A match shown as a tree. -/
structure Report where
  left : String
  right : String
  level : Level
  grade : Grade
  tally : Tally
  score : Ratio
  parts : List Report
  alternatives : List Report
deriving Repr

mutual

/-- The number of matches in a report. -/
def Report.size : Report → Nat
  | ⟨_, _, _, _, _, _, parts, alternatives⟩ => 1 + sizeAll parts + sizeAll alternatives

/-- The number of matches in several reports. -/
def Report.sizeAll : List Report → Nat
  | [] => 0
  | report :: reports => report.size + sizeAll reports

end

mutual

/-- Whether two reports are the same tree. -/
def Report.beq : Report → Report → Bool
  | ⟨l, r, level, grade, tally, score, parts, alternatives⟩,
    ⟨l', r', level', grade', tally', score', parts', alternatives'⟩ =>
    l = l' && r = r' && level = level' && grade = grade' && tally = tally' && score = score' &&
      beqAll parts parts' && beqAll alternatives alternatives'

/-- Whether two lists hold the same trees. -/
def Report.beqAll : List Report → List Report → Bool
  | [], [] => true
  | report :: reports, report' :: reports' => report.beq report' && beqAll reports reports'
  | _, _ => false

end

namespace Matchings

/-- What is shown of a sort. -/
def shown (c : Catalog) (id : SortId) : String :=
  match c.get id with
  | .ok sort => sort.display
  | .error _ => "<removed>"

/-- The report of a match with the given reports inside. It shows the words of the counters. -/
def reportNode (c : Catalog) (node : MatchNode) (parts alternatives : List Report) : Report where
  left := shown c node.left
  right := shown c node.right
  level := node.level
  grade := node.grade
  tally := node.tally.plain
  score := node.score
  parts := parts
  alternatives := alternatives

/-- The report of a part. There is none for a match that contains the part. -/
def reportPart (t : Matchings) (c : Catalog) (around : List Nat) (id : MatchId) : Option Report :=
  if _inside : id.index < t.nodes.size then
    if _new : id.index ∈ around then none
    else
      let node := t.nodes[id.index]
      some (reportNode c node
        (node.parts.filterMap (t.reportPart c (id.index :: around))) [])
  else none
termination_by (unvisited (List.range t.nodes.size) around).length
decreasing_by exact length_unvisited_cons_lt (List.mem_range.2 _inside) _new

/-- The report of a match, with those chained behind it. -/
def report (t : Matchings) (c : Catalog) (id : MatchId) : Option Report :=
  (t.get? id).map fun node ↦
    reportNode c node (node.parts.filterMap (t.reportPart c [id.index]))
      ((t.alternatives id).filterMap (t.reportPart c [id.index]))

end Matchings

end CompositeSorts
