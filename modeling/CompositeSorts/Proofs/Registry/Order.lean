import CompositeSorts.Proofs.Matching.Unaided
import CompositeSorts.Proofs.Registry.Recall

/-!
The order of questions. What is remembered is meant to save work and nothing else: it should not
matter for an answer what was asked before. This holds for sorts that are distinct, that is, when no
sort that they lead to shares its display with another one, and that are matched without meeting a
pair under way (`sameAnswer_after_questions`): whatever else was matched before, and however it was
matched, they are found to correspond as if they were asked about first.

It does not hold otherwise. Matches are remembered by displays, so a question is answered by the
match of other sorts of the same displays, which can share fewer parts with each other
(`exists_answer_of_other_sorts`). And what is found while a pair is under way is remembered like
anything else (`exists_answer_from_under_way`).
-/

set_option autoImplicit false
set_option relaxedAutoImplicit false

namespace CompositeSorts

open Catalog Matchings

variable {c : Catalog} {r r₁ : Registry} {memory : Memory} {left right : SortId} {id : MatchId}

namespace Catalog

theorem mem_sorts (steady : c.Steady) {sort : SortId} {record : SortRecord}
    (found : c.get sort = .ok record) : record ∈ c.sorts := by
  unfold sorts
  rw [List.mem_filterMap]
  exact ⟨sort, List.mem_reverse.mpr ((steady.listed sort).mpr ⟨record, found⟩),
    (get_eq_ok_iff.mp found).2⟩

/-- All sorts are distinct when no two of them have the same display. -/
theorem distinct_of_nodup (steady : c.Steady) (apart : (c.sorts.map SortRecord.display).Nodup)
    (sort : SortId) : c.Distinct sort := by
  intro part other record record' _ found found' same
  have equal : record' = record := List.inj_on_of_nodup_map apart (mem_sorts steady found')
    (mem_sorts steady found) same
  rw [← steady.placed found, ← steady.placed found', equal]

end Catalog

namespace Registry

/-- The calls by which texts are defined. -/
def Defining (_ : Registry) : Call → Prop
  | .define _ | .defineAll _ => True
  | _ => False

/-- The registry after several questions, whatever the answers are. -/
def afterQuestions (r : Registry) (asked : List (SortId × SortId)) : Registry :=
  asked.foldl (fun r pair ↦ (r.matchSorts pair.1 pair.2).2) r

/-- Texts that are defined match nothing. -/
theorem Reachable.matchings_of_defining (built : Reachable Defining r) : r.matchings = .empty := by
  induction built with
  | empty id categories config => rfl
  | @step r before call allow ih =>
    cases call with
    | define text =>
      change (r.define text).2.matchings = _
      rw [snd_define, matchings_defineAll before.proper, ih]
    | defineAll text =>
      change (r.defineAll text).2.matchings = _
      rw [matchings_defineAll before.proper, ih]
    | _ => exact absurd allow id

/-- The memory after a question, which does not contradict what can be worked out without it. -/
theorem recalls_matchSorts (proper : r.Proper) (recalls : r.Recalls memory)
    (kept : memory.Keeps r.catalog r.catalog.Agreed) (left right : SortId) :
    ∃ later, (r.matchSorts left right).2.Recalls later ∧
      later.Keeps r.catalog r.catalog.Agreed := by
  have textual : (Call.matchSorts left right).Textual := trivial
  refine ⟨_, recalls_perform proper recalls textual, ?_⟩
  have tracked := Appraisal.tracked_relate proper.steady.toRooted [] left right memory
    Appraisal.beneath_nil kept
  unfold Ends at tracked
  unfold Catalog.recall
  dsimp only
  split at tracked
  · rename_i run
    rw [run]
    exact tracked.1
  · rename_i run
    rw [run]
    exact tracked.1

theorem recalls_afterQuestions (proper : r.Proper) (recalls : r.Recalls memory)
    (kept : memory.Keeps r.catalog r.catalog.Agreed) (asked : List (SortId × SortId)) :
    (r.afterQuestions asked).Proper ∧ (r.afterQuestions asked).catalog = r.catalog ∧
      ∃ later, (r.afterQuestions asked).Recalls later ∧
        later.Keeps r.catalog r.catalog.Agreed := by
  induction asked generalizing r memory with
  | nil => exact ⟨proper, rfl, memory, recalls, kept⟩
  | cons pair asked ih =>
    have same := catalog_matchSorts r pair.1 pair.2
    obtain ⟨later, recalls, kept⟩ := recalls_matchSorts proper recalls kept pair.1 pair.2
    rw [← same] at kept ⊢
    exact ih (proper.matchSorts pair.1 pair.2) recalls kept

/-- What is answered to a first question, when no pair was met that was under way. -/
theorem exists_unaided (proper : r.Proper) (recalls : r.Recalls .empty)
    (isLeft : r.catalog.Distinct left) (isRight : r.catalog.Distinct right)
    (first : r.matchSorts left right = (.ok id, r₁))
    (unbroken : r₁.matchings.sentinels = ∅) :
    ∃ finding later, r.catalog.Unaided left right finding ∧ r₁.Recalls later ∧
      r₁.matchings.Shows id finding ∧ r₁.catalog = r.catalog := by
  have answered := follows_matchSorts proper recalls left right
  have traced := Appraisal.traced_relate proper.steady.toRooted [] left right .empty isLeft isRight
  unfold Ends at traced
  split at traced
  · rename_i finding later run
    rw [run, first] at answered
    obtain ⟨_, _, ⟨⟩, recalls, shows, same⟩ := answered
    have quiet : later.broken = false := by
      by_contra broken
      obtain ⟨key, id, entry⟩ := recalls.broken (Bool.not_eq_false _ ▸ broken)
      rw [unbroken, Std.ExtTreeMap.getElem?_empty] at entry
      cases entry
    exact ⟨finding, later, ((traced quiet).2 (Memory.keeps_empty _ _)).2, recalls, shows, same⟩
  · rename_i reason later run
    rw [run, first] at answered
    obtain ⟨_, ⟨⟩, -⟩ := answered

/-- What is answered to a question about distinct sorts that have an unaided finding. -/
theorem matchSorts_of_unaided {finding : Finding} (proper : r.Proper) (recalls : r.Recalls memory)
    (kept : memory.Keeps r.catalog r.catalog.Agreed) (isLeft : r.catalog.Distinct left)
    (isRight : r.catalog.Distinct right) (worked : r.catalog.Unaided left right finding) :
    ∃ id r' later, r.matchSorts left right = (.ok id, r') ∧ r'.Recalls later ∧
      r'.matchings.Shows id finding ∧ r'.catalog = r.catalog := by
  have answered := follows_matchSorts proper recalls left right
  have tracked := Appraisal.tracked_relate proper.steady.toRooted [] left right memory
    Appraisal.beneath_nil kept
  unfold Ends at tracked
  split at tracked
  · rename_i other later run
    rw [run] at answered
    obtain ⟨id, r', answer, recalls, shows, same⟩ := answered
    obtain rfl := tracked.2 isLeft isRight finding worked
    exact ⟨id, r', later, answer, recalls, shows, same⟩
  · exact (tracked.2 isLeft isRight finding worked).elim

/-- Distinct sorts that match without a pair being met under way when they are asked about first get
the same answer after any other questions: the levels, grades and tallies are the same, and so are
the reports, but for what is chained behind them. -/
theorem sameAnswer_after_questions (built : Reachable Defining r) (isLeft : r.catalog.Distinct left)
    (isRight : r.catalog.Distinct right) (first : r.matchSorts left right = (.ok id, r₁))
    (unbroken : r₁.matchings.sentinels = ∅)
    (asked : List (SortId × SortId)) :
    ∃ id' r₂ node node', (r.afterQuestions asked).matchSorts left right = (.ok id', r₂) ∧
      r₁.matchings.get? id = some node ∧ r₂.matchings.get? id' = some node' ∧
      node'.level = node.level ∧ node'.grade = node.grade ∧ node'.tally = node.tally ∧
      (r₂.report id').map Report.alone = (r₁.report id).map Report.alone := by
  have empty : r.Recalls .empty := by
    unfold Recalls
    rw [built.matchings_of_defining]
    exact renders_empty _
  obtain ⟨finding, later, worked, recalls, shows, same⟩ :=
    exists_unaided built.proper empty isLeft isRight first unbroken
  obtain ⟨proper, catalog, memory, recalls', kept⟩ :=
    recalls_afterQuestions built.proper empty (Memory.keeps_empty _ _) asked
  rw [← catalog] at kept isLeft isRight worked
  obtain ⟨id', r₂, later', answer, recalls', shows', same'⟩ :=
    matchSorts_of_unaided proper recalls' kept isLeft isRight worked
  obtain ⟨node, found, alone, -⟩ := shows_iff.mp shows
  obtain ⟨node', found', alone', -⟩ := shows_iff.mp shows'
  have equal : node'.alone = node.alone := alone'.trans alone.symm
  have level := congrArg MatchNode.level equal
  have grade := congrArg MatchNode.grade equal
  have tally := congrArg MatchNode.tally equal
  refine ⟨id', r₂, node, node', answer, found, found', level, grade, tally, ?_⟩
  unfold Registry.report
  rw [Renders.report_eq recalls shows, Renders.report_eq recalls' shows', same, same', catalog]

/-- An attribute and a part of its weight, asked about first, and after an attribute that leads back
to itself was matched with them. -/
theorem sameAnswer_after_questions_sample :
    let r := sample.perform (.defineAll "x: [Label] x; r: x ^ r; b: [Flag] ^ x")
    let asked : List (SortId × SortId) :=
      [(⟨⟨0⟩, ⟨2, 0⟩⟩, ⟨⟨0⟩, ⟨6, 0⟩⟩), (⟨⟨0⟩, ⟨3, 0⟩⟩, ⟨⟨0⟩, ⟨1, 0⟩⟩)]
    (r.matchSorts ⟨⟨0⟩, ⟨6, 0⟩⟩ ⟨⟨0⟩, ⟨1, 0⟩⟩).1 = .ok ⟨3⟩ ∧
      ∃ id r' node node',
        (r.afterQuestions asked).matchSorts ⟨⟨0⟩, ⟨6, 0⟩⟩ ⟨⟨0⟩, ⟨1, 0⟩⟩ = (.ok id, r') ∧
        (r.matchSorts ⟨⟨0⟩, ⟨6, 0⟩⟩ ⟨⟨0⟩, ⟨1, 0⟩⟩).2.matchings.get? ⟨3⟩ = some node ∧
        r'.matchings.get? id = some node' ∧ node'.level = node.level := by
  intro r asked
  have built : Reachable Defining r := .step (reachable_sample _) (.defineAll _) trivial
  have apart : (r.catalog.sorts.map SortRecord.display).Nodup := by decide +kernel
  have distinct := distinct_of_nodup built.proper.steady apart
  have first : (r.matchSorts ⟨⟨0⟩, ⟨6, 0⟩⟩ ⟨⟨0⟩, ⟨1, 0⟩⟩).1 = .ok ⟨3⟩ := by decide +kernel
  have unbroken : (r.matchSorts ⟨⟨0⟩, ⟨6, 0⟩⟩ ⟨⟨0⟩, ⟨1, 0⟩⟩).2.matchings.sentinels.isEmpty = true := by
    decide +kernel
  obtain ⟨id, r', node, node', answer, found, found', level, -⟩ := sameAnswer_after_questions built
    (distinct _) (distinct _) (Prod.ext first rfl)
    (Std.ExtTreeMap.isEmpty_iff.mp unbroken) asked
  exact ⟨first, id, r', node, node', answer, found, found', level⟩

/-- A primitive sort and a disjunction that it is a component of. Once another sort of the same
display was matched with the disjunction, its match is the answer, which counts the component as the
same by definition only. -/
theorem exists_answer_of_other_sorts :
    ¬ ∀ (r r₁ r₂ : Registry) (left right : SortId) (asked : List (SortId × SortId))
      (id id' : MatchId), Reachable Defining r → r.matchSorts left right = (.ok id, r₁) →
      (r.afterQuestions asked).matchSorts left right = (.ok id', r₂) →
      ∀ node node', r₁.matchings.get? id = some node → r₂.matchings.get? id' = some node' →
        node'.level = node.level ∧ node'.grade = node.grade ∧ node'.tally = node.tally := by
  intro independent
  let r := sample.perform (.defineAll "d: [Label] x + [Label] y; [Label] x")
  let asked : List (SortId × SortId) := [(⟨⟨0⟩, ⟨4, 0⟩⟩, ⟨⟨0⟩, ⟨3, 0⟩⟩)]
  let r₁ := (r.matchSorts ⟨⟨0⟩, ⟨0, 0⟩⟩ ⟨⟨0⟩, ⟨3, 0⟩⟩).2
  let r₂ := ((r.afterQuestions asked).matchSorts ⟨⟨0⟩, ⟨0, 0⟩⟩ ⟨⟨0⟩, ⟨3, 0⟩⟩).2
  have first : (r.matchSorts ⟨⟨0⟩, ⟨0, 0⟩⟩ ⟨⟨0⟩, ⟨3, 0⟩⟩).1 = .ok ⟨4⟩ := by decide +kernel
  have later : ((r.afterQuestions asked).matchSorts ⟨⟨0⟩, ⟨0, 0⟩⟩ ⟨⟨0⟩, ⟨3, 0⟩⟩).1 = .ok ⟨5⟩ := by
    decide +kernel
  have built : Reachable Defining r := .step (reachable_sample _) (.defineAll _) trivial
  have counted : (r₁.matchings.get? ⟨4⟩).map (·.tally.byDefinition) = some 0 ∧
      (r₂.matchings.get? ⟨5⟩).map (·.tally.byDefinition) = some 1 := by decide +kernel
  obtain ⟨⟨node, found, count⟩, ⟨node', found', count'⟩⟩ :=
    counted.imp Option.map_eq_some_iff.mp Option.map_eq_some_iff.mp
  obtain ⟨-, -, tally⟩ := independent r r₁ r₂ _ _ asked ⟨4⟩ ⟨5⟩ built (Prod.ext first rfl)
    (Prod.ext later rfl) node node' found found'
  rw [tally, count] at count'
  cases count'

/-- A recursive sort and the base of the attribute that it stands for. Once that attribute was
matched with the base, a sentinel stands in the answer for the match that was under way: the sorts
are incongruous. No two sorts have the same display here. -/
theorem exists_answer_from_under_way :
    ¬ ∀ (r r₁ r₂ : Registry) (left right : SortId) (asked : List (SortId × SortId))
      (id id' : MatchId), Reachable Defining r → r.catalog.Distinct left →
      r.catalog.Distinct right → r.matchSorts left right = (.ok id, r₁) →
      (r.afterQuestions asked).matchSorts left right = (.ok id', r₂) →
      ∀ node node', r₁.matchings.get? id = some node → r₂.matchings.get? id' = some node' →
        node'.level = node.level := by
  intro sameLevel
  let r := sample.perform (.defineAll "x: [Label] x; r: x ^ r")
  let asked : List (SortId × SortId) := [(⟨⟨0⟩, ⟨3, 0⟩⟩, ⟨⟨0⟩, ⟨1, 0⟩⟩)]
  let r₁ := (r.matchSorts ⟨⟨0⟩, ⟨2, 0⟩⟩ ⟨⟨0⟩, ⟨1, 0⟩⟩).2
  let r₂ := ((r.afterQuestions asked).matchSorts ⟨⟨0⟩, ⟨2, 0⟩⟩ ⟨⟨0⟩, ⟨1, 0⟩⟩).2
  have first : (r.matchSorts ⟨⟨0⟩, ⟨2, 0⟩⟩ ⟨⟨0⟩, ⟨1, 0⟩⟩).1 = .ok ⟨4⟩ := by decide +kernel
  have later : ((r.afterQuestions asked).matchSorts ⟨⟨0⟩, ⟨2, 0⟩⟩ ⟨⟨0⟩, ⟨1, 0⟩⟩).1 = .ok ⟨3⟩ := by
    decide +kernel
  have built : Reachable Defining r := .step (reachable_sample _) (.defineAll _) trivial
  have apart : (r.catalog.sorts.map SortRecord.display).Nodup := by decide +kernel
  have distinct := distinct_of_nodup built.proper.steady apart
  have levels : (r₁.matchings.get? ⟨4⟩).map MatchNode.level = some .incomplete ∧
      (r₂.matchings.get? ⟨3⟩).map MatchNode.level = some .incongruous := by decide +kernel
  obtain ⟨⟨node, found, level⟩, ⟨node', found', level'⟩⟩ :=
    levels.imp Option.map_eq_some_iff.mp Option.map_eq_some_iff.mp
  have same := sameLevel r r₁ r₂ _ _ asked ⟨4⟩ ⟨3⟩ built (distinct _) (distinct _)
    (Prod.ext first rfl) (Prod.ext later rfl) node node' found found'
  rw [same, level] at level'
  cases level'

end Registry

end CompositeSorts
