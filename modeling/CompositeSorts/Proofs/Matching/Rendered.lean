import CompositeSorts.Matching.Report
import CompositeSorts.Proofs.Matching.Relating
import CompositeSorts.Proofs.Matching.Remembered

/-!
What is left of a rendered table, and what is shown of it. A table renders its memory as long as
live sorts stay what they are, and what is left of the memory when some sorts are gone and their
matches are forgotten; how many are forgotten goes by the memory alone. The report of a match,
without those of the matches chained behind it, is that of its finding: no part is missing from it.
-/

set_option autoImplicit false
set_option relaxedAutoImplicit false

namespace CompositeSorts

variable {c d : Catalog} {t u : Matchings} {id : MatchId} {memory : Memory} {finding : Finding}
  {gone : List SortId}

/-- The memory without findings of sorts that are gone. -/
def Memory.without (memory : Memory) (gone : List SortId) : Memory where
  known key := (memory.known key).filter fun finding ↦
    finding.node.left ∉ gone && finding.node.right ∉ gone
  broken := false

namespace Matchings

/-- What is rendered stays so while live sorts stay what they are. -/
theorem Renders.mono (h : t.Renders c memory)
    (stays : ∀ {sort : SortId} {s : SortRecord}, c.get sort = .ok s → d.get sort = .ok s) :
    t.Renders d memory where
  orderly := h.orderly
  memo := h.memo
  identities entry := by
    obtain ⟨s, found, shows⟩ := h.identities entry
    exact ⟨s, stays found, shows⟩
  sentinels entry := by
    obtain ⟨l, r, left, right, shows⟩ := h.sentinels entry
    exact ⟨l, r, stays left, stays right, shows⟩
  broken := h.broken

/-- What is counted and noted does not matter. -/
theorem Renders.counted (h : t.Renders c memory) (metrics : Metrics) (journal : List Event) :
    Renders c { t with metrics, journal } memory :=
  ((Reached.refl h).counted metrics journal).renders

/-- A match is forgotten if its finding is about a sort that is gone. -/
theorem Shows.mentions_eq (h : t.Shows id finding) (gone : List SortId) :
    t.mentions gone id = !(finding.node.left ∉ gone && finding.node.right ∉ gone) := by
  obtain ⟨node, parts, found, rfl, -⟩ := h.exists_node
  unfold mentions
  rw [found, Finding.node_mk]
  change (decide (node.left ∈ gone) || decide (node.right ∈ gone)) =
    !(decide (node.left ∉ gone) && decide (node.right ∉ gone))
  rw [decide_not, decide_not, Bool.not_and, Bool.not_not, Bool.not_not]

theorem getElem?_memo_forget (t : Matchings) (gone : List SortId) (key : PairKey) :
    (t.forget gone).2.memo[key]? = (t.memo[key]?).filter fun id ↦ !t.mentions gone id :=
  Std.ExtTreeMap.getElem?_filter'

theorem enters_forget (t : Matchings) (gone : List SortId) : Enters t (t.forget gone).2 [] where
  nodes := rfl
  memo {key id} entry := by
    rw [getElem?_memo_forget, Option.filter_eq_some_iff] at entry
    exact Or.inl entry.1
  identities {sort id} entry := by
    change (t.identities.filter _)[sort]? = some id at entry
    rw [Std.ExtTreeMap.getElem?_filter', Option.filter_eq_some_iff] at entry
    exact Or.inl entry.1
  sentinels {key id} entry := by
    change (t.sentinels.filter _)[key]? = some id at entry
    rw [Std.ExtTreeMap.getElem?_filter', Option.filter_eq_some_iff] at entry
    exact Or.inl entry.1

/-- What is left after forgetting renders what is left of the memory. -/
theorem Renders.forget (h : t.Renders c memory)
    (stays : ∀ {sort : SortId} {s : SortRecord}, c.get sort = .ok s → sort ∉ gone →
      d.get sort = .ok s) : (t.forget gone).2.Renders d (memory.without gone) where
  orderly := (enters_forget t gone).orderly h.orderly
  memo key := by
    rw [getElem?_memo_forget]
    unfold Memory.without
    dsimp only
    have same := h.memo key
    generalize t.memo[key]? = entry at same
    generalize memory.known key = known at same
    cases same with
    | none => exact .none
    | @some id finding shows =>
      rw [Option.filter_some, Option.filter_some, shows.mentions_eq, Bool.not_not]
      split_ifs
      · exact .some (shows.extend (enters_forget t gone).nodes_kept)
      · exact .none
  identities {sort id} entry := by
    change (t.identities.filter _)[sort]? = some id at entry
    rw [Std.ExtTreeMap.getElem?_filter', Option.filter_eq_some_iff] at entry
    obtain ⟨s, found, shows⟩ := h.identity_later (enters_forget t gone).nodes_kept entry.1
    exact ⟨s, stays found (of_decide_eq_true entry.2), shows⟩
  sentinels {key id} entry := by
    change (t.sentinels.filter _)[key]? = some id at entry
    rw [Std.ExtTreeMap.getElem?_filter', Option.filter_eq_some_iff] at entry
    obtain ⟨l, r, left, right, shows⟩ := h.sentinels entry.1
    have kept := entry.2
    rw [shows.mentions_eq, Bool.not_not, Bool.and_eq_true, decide_eq_true_eq, decide_eq_true_eq]
      at kept
    exact ⟨l, r, stays left kept.1, stays right kept.2,
      shows.extend (enters_forget t gone).nodes_kept⟩
  broken was := by cases was

/-- Tables that render the same memory remember equally many matches. -/
theorem Renders.size_eq (h : t.Renders c memory) (h' : u.Renders d memory) :
    t.memo.size = u.memo.size := by
  have keys : (t.memo.map fun _ _ ↦ ()) = u.memo.map fun _ _ ↦ () := by
    refine Std.ExtTreeMap.ext_getElem? fun key ↦ ?_
    rw [Std.ExtTreeMap.getElem?_map, Std.ExtTreeMap.getElem?_map]
    have same := h.memo key
    have same' := h'.memo key
    generalize t.memo[key]? = entry at same
    generalize u.memo[key]? = entry' at same'
    generalize memory.known key = known at same same'
    cases same <;> cases same' <;> rfl
  rw [← Std.ExtTreeMap.size_map (f := fun _ _ ↦ ()), keys, Std.ExtTreeMap.size_map]

/-- Equally many matches are forgotten in tables that render the same memory. -/
theorem Renders.purged_eq (h : t.Renders c memory) (h' : u.Renders c memory)
    (stays : ∀ {sort : SortId} {s : SortRecord}, c.get sort = .ok s → sort ∉ gone →
      d.get sort = .ok s) : (t.forget gone).1 = (u.forget gone).1 := by
  change t.memo.size - (t.forget gone).2.memo.size = u.memo.size - (u.forget gone).2.memo.size
  rw [h.size_eq h', (h.forget stays).size_eq (h'.forget stays)]

end Matchings

/-! ### Reports -/

namespace Finding

mutual

/-- The report of a finding. -/
def report (c : Catalog) : Finding → Report
  | ⟨node, parts⟩ => Matchings.reportNode c node (reportAll c parts) []

/-- The reports of several findings. -/
def reportAll (c : Catalog) : List Finding → List Report
  | [] => []
  | finding :: findings => finding.report c :: reportAll c findings

end

theorem reportAll_eq_map (c : Catalog) (findings : List Finding) :
    reportAll c findings = findings.map (report c) := by
  induction findings with
  | nil => rfl
  | cons finding findings ih => rw [reportAll, ih, List.map_cons]

theorem report_eq (c : Catalog) (finding : Finding) :
    finding.report c = Matchings.reportNode c finding.node (finding.parts.map (report c)) [] := by
  cases finding
  rw [report, reportAll_eq_map]
  rfl

end Finding

/-- The report without those of the matches chained behind. -/
def Report.alone (report : Report) : Report := { report with alternatives := [] }

namespace Matchings

/-- Parts that show findings are all reported. -/
theorem filterMap_reportPart {ids : List MatchId} {findings : List Finding} {around : List Nat}
    (shown : List.Forall₂ t.Shows ids findings) (each : ∀ finding ∈ findings, ∀ id ∈ ids,
      t.Shows id finding → t.reportPart c around id = some (finding.report c)) :
    ids.filterMap (t.reportPart c around) = findings.map (Finding.report c) := by
  induction shown with
  | nil => rfl
  | cons first _ ih =>
    rw [List.filterMap_cons_some (each _ List.mem_cons_self _ List.mem_cons_self first),
      ih fun finding inside id among ↦ each finding (List.mem_cons_of_mem _ inside) id
        (List.mem_cons_of_mem _ among), List.map_cons]

/-- Parts are of lower rank, so no match around a part is the part itself. -/
theorem reportPart_of_shows {rank : MatchId → Nat}
    (ranked : ∀ {id link : MatchId} {node : MatchNode}, t.get? id = some node →
      link ∈ node.links → rank link < rank id)
    (shows : t.Shows id finding) {around : List Nat}
    (outside : ∀ index ∈ around, rank id < rank ⟨index⟩) :
    t.reportPart c around id = some (finding.report c) := by
  induction finding using Finding.induction generalizing id around with
  | step finding inner =>
    obtain ⟨node, found, alone, parts⟩ := shows_iff.mp shows
    have inside : id.index < t.nodes.size := index_lt_of_get found
    have new : id.index ∉ around := fun among ↦ Nat.lt_irrefl _ (outside _ among)
    have here : t.nodes[id.index] = node := by
      unfold get? at found
      rw [Array.getElem?_eq_getElem inside] at found
      exact Option.some.inj found
    have reports : node.parts.filterMap (t.reportPart c (id.index :: around)) =
        finding.parts.map (Finding.report c) := by
      refine filterMap_reportPart parts fun part among id' below shown ↦
        inner part among shown fun index around' ↦ ?_
      have lower := ranked found (List.mem_append_left node.tiedWith.toList below)
      rcases List.mem_cons.mp around' with rfl | around'
      · exact lower
      · exact lower.trans (outside index around')
    rw [reportPart, dif_pos inside, dif_neg new, here]
    dsimp only
    rw [reports, Finding.report_eq, ← alone]
    rfl

/-- The report of a match holds those of all its parts and of all matches chained behind it. -/
theorem Orderly.report_eq (h : t.Orderly) {node : MatchNode} {ties : List MatchId}
    {parts behind : List Finding} (found : t.get? id = some node) (chain : t.Chain id ties)
    (shown : List.Forall₂ t.Shows node.parts parts) (tied : List.Forall₂ t.Shows ties behind) :
    t.report c id =
      some (reportNode c node (parts.map (Finding.report c)) (behind.map (Finding.report c))) := by
  obtain ⟨rank, ranked⟩ := h.ranked
  have below {ids : List MatchId} {findings : List Finding}
      (shown : List.Forall₂ t.Shows ids findings) (lower : ∀ link ∈ ids, rank link < rank id) :
      ids.filterMap (t.reportPart c [id.index]) = findings.map (Finding.report c) := by
    refine filterMap_reportPart shown fun _ _ link among shows ↦
      reportPart_of_shows ranked shows fun index around ↦ ?_
    obtain rfl := List.mem_singleton.mp around
    exact lower link among
  have parts := below shown fun part inside ↦
    ranked found (List.mem_append_left node.tiedWith.toList inside)
  have ties := below tied fun tie inside ↦ chain.rank_lt ranked inside
  unfold report
  rw [found, Option.map_some, chain.alternatives_eq h, parts, ties]

/-- The report of a match, but for those chained behind it, is that of its finding. -/
theorem Renders.report_eq (h : t.Renders c memory) (shows : t.Shows id finding) :
    (t.report c id).map Report.alone = some (finding.report c) := by
  obtain ⟨node, found, alone, parts⟩ := shows_iff.mp shows
  obtain ⟨ties, chain⟩ := h.orderly.exists_chain found
  obtain ⟨behind, tied⟩ := exists_forall₂ fun tie inside ↦
    (chain.exists_of_mem inside).elim fun _ there ↦ h.orderly.exists_shows there
  rw [h.orderly.report_eq found chain parts tied, Option.map_some, Finding.report_eq, ← alone]
  rfl

end Matchings

end CompositeSorts
