import CompositeSorts.Proofs.Registry.Identity
import CompositeSorts.Proofs.Registry.Recall

/-!
Alternatives. Whether equally good matches are chained behind the chosen one, and how many of them,
is not to be seen in what is matched: after the same calls, two registries over the same categories
answer a matching request alike, however they are configured (`sameAnswer_matchSorts`). The chains
differ, the numbers of the matches differ, and disjunctions look at what is chained behind the
matches of their components; but both tables render one memory.
-/

set_option autoImplicit false
set_option relaxedAutoImplicit false

namespace CompositeSorts

open Catalog Matchings

namespace Registry

variable {r s : Registry} {memory : Memory}

/-- The registry after several calls. -/
def after (r : Registry) (calls : List Call) : Registry := calls.foldl perform r

/-- The answers to a matching request say the same: both are refused for one reason, or both are
matches of the same level, grade, tally and scale, and with the same report, but for what is chained
behind them. -/
def SameAnswer : Answer Refusal MatchId → Answer Refusal MatchId → Prop
  | (.ok id, r), (.ok id', s) => ∃ node node' report,
    r.matchings.get? id = some node ∧ s.matchings.get? id' = some node' ∧
      node'.level = node.level ∧ node'.grade = node.grade ∧ node'.tally = node.tally ∧
      node'.scale = node.scale ∧ (r.report id).map Report.alone = some report ∧
      (s.report id').map Report.alone = some report
  | (.error reason, _), (.error reason', _) => reason' = reason
  | _, _ => False

/-- Two registries with the same sorts, the matches of which render one memory. -/
structure Alike (r s : Registry) : Prop where
  proper : r.Proper
  other : s.Proper
  categories : s.categories = r.categories
  catalog : s.catalog = r.catalog
  memory : ∃ memory, r.Recalls memory ∧ s.Recalls memory

theorem alike_empty (id : RegistryId) (categories : CategoryTable)
    (config config' : Configuration) :
    Alike (empty id categories config) (empty id categories config') where
  proper := proper_empty _ _ _
  other := proper_empty _ _ _
  categories := rfl
  catalog := rfl
  memory := ⟨.empty, recalls_empty _ _ _, recalls_empty _ _ _⟩

/-! ### Calls -/

theorem catalog_undo (steady : r.catalog.Steady) (h : r.Recalls memory) (h' : s.Recalls memory)
    (same : s.catalog = r.catalog) : s.undo.2.catalog = r.undo.2.catalog := by
  have purged : (s.matchings.forget r.catalog.fresh).1 =
      (r.matchings.forget r.catalog.fresh).1 := by
    unfold Recalls at h'
    rw [same] at h'
    exact Renders.purged_eq h' h fun found out ↦ get_undo steady found out
  unfold undo
  dsimp only
  rw [same, purged]

theorem Alike.catalog_defineAll (h : Alike r s) (text : String) :
    (s.defineAll text).2.catalog = (r.defineAll text).2.catalog := by
  obtain ⟨memory, recalls, recalls'⟩ := h.memory
  have later := advance_evaluated h.proper.steady text
  have evaluates : evaluateText s.categories text s.catalog.openSession =
      evaluateText r.categories text r.catalog.openSession := by rw [h.catalog, h.categories]
  unfold evaluated at later
  unfold defineAll
  rw [evaluates]
  split at later
  · rename_i run
    rw [run]
  · rename_i reason c run
    rw [run]
    cases reason with
    | abandoned => rfl
    | refused problem =>
      have grown : { r with catalog := c }.Recalls memory := Renders.mono recalls later.stays
      have grown' : { s with catalog := c }.Recalls memory := by
        unfold Recalls at recalls'
        rw [h.catalog] at recalls'
        exact Renders.mono recalls' later.stays
      have same := catalog_undo later.toSteady grown grown' rfl
      dsimp only
      rw [same]
      rfl

theorem Alike.catalog_perform (h : Alike r s) {call : Call} (textual : call.Textual) :
    (s.perform call).catalog = (r.perform call).catalog := by
  obtain ⟨memory, recalls, recalls'⟩ := h.memory
  cases call with
  | define text =>
    change (s.define text).2.catalog = (r.define text).2.catalog
    rw [snd_define, snd_define]
    exact h.catalog_defineAll text
  | defineAll text => exact h.catalog_defineAll text
  | undo => exact catalog_undo h.proper.steady recalls recalls' h.catalog
  | clear => exact congrArg Catalog.clear h.catalog
  | matchSorts left right =>
    change (s.matchSorts left right).2.catalog = (r.matchSorts left right).2.catalog
    rw [catalog_matchSorts, catalog_matchSorts]
    exact h.catalog
  | takeLog => exact congrArg (fun c : Catalog ↦ { c with journal := [] }) h.catalog
  | _ => exact absurd textual id

theorem Alike.perform (h : Alike r s) {call : Call} (textual : call.Textual) :
    Alike (r.perform call) (s.perform call) where
  proper := h.proper.perform call
  other := h.other.perform call
  categories := by rw [categories_perform r, categories_perform s, h.categories]
  catalog := h.catalog_perform textual
  memory := by
    obtain ⟨memory, recalls, recalls'⟩ := h.memory
    refine ⟨r.catalog.recall memory call, recalls_perform h.proper recalls textual, ?_⟩
    have later := recalls_perform h.other recalls' textual
    rwa [h.catalog] at later

theorem Alike.after (h : Alike r s) {calls : List Call} (textual : ∀ call ∈ calls, call.Textual) :
    Alike (r.after calls) (s.after calls) := by
  induction calls generalizing r s with
  | nil => exact h
  | cons call calls ih =>
    exact ih (h.perform (textual call List.mem_cons_self)) fun other inside ↦
      textual other (List.mem_cons_of_mem _ inside)

/-! ### Answers -/

theorem Alike.sameAnswer (h : Alike r s) (left right : SortId) :
    SameAnswer (r.matchSorts left right) (s.matchSorts left right) := by
  obtain ⟨memory, recalls, recalls'⟩ := h.memory
  have answered := follows_matchSorts h.proper recalls left right
  have answered' := follows_matchSorts h.other recalls' left right
  rw [h.catalog] at answered'
  generalize Appraisal.relate r.catalog [] left right memory = found at answered answered'
  cases found with
  | ok finding later =>
    obtain ⟨id, r', run, recalls, shows, same⟩ := answered
    obtain ⟨id', s', run', recalls', shows', same'⟩ := answered'
    rw [run, run']
    obtain ⟨node, found, alone, -⟩ := shows_iff.mp shows
    obtain ⟨node', found', alone', -⟩ := shows_iff.mp shows'
    have equal : node'.alone = node.alone := alone'.trans alone.symm
    have level := congrArg MatchNode.level equal
    have grade := congrArg MatchNode.grade equal
    have tally := congrArg MatchNode.tally equal
    have scale := congrArg MatchNode.scale equal
    have report := Renders.report_eq recalls shows
    have report' := Renders.report_eq recalls' shows'
    rw [same', ← same] at report'
    exact ⟨node, node', _, found, found', level, grade, tally, scale, report, by
      unfold Registry.report; rw [same', ← same]; exact report'⟩
  | error reason later =>
    obtain ⟨r', run, -, -⟩ := answered
    obtain ⟨s', run', -, -⟩ := answered'
    rw [run, run']
    rfl

/-- After the same calls, a matching request is answered alike, however alternatives are kept. -/
theorem sameAnswer_matchSorts (id : RegistryId) (categories : CategoryTable)
    (config config' : Configuration) (calls : List Call) (textual : ∀ call ∈ calls, call.Textual)
    (left right : SortId) :
    SameAnswer (((empty id categories config).after calls).matchSorts left right)
      (((empty id categories config').after calls).matchSorts left right) :=
  ((alike_empty id categories config config').after textual).sameAnswer left right

/-- A disjunction that matches an attribute in several ways, equally well, and two disjunctions of
such attributes. The registries differ in what they chain, and number their matches differently. -/
theorem sameAnswer_matchSorts_sample :
    let defined : Call := .defineAll
      "a: [Label] x + [Label] y; b: [Label] z; c: b ^ a + [Flag]; d: b ^ b + [Label] v ^ b"
    let calls := [defined, .matchSorts ⟨⟨0⟩, ⟨3, 0⟩⟩ ⟨⟨0⟩, ⟨10, 0⟩⟩]
    let r := empty ⟨0⟩ sample.categories {}
    let s := empty ⟨0⟩ sample.categories { keepAlternatives := false }
    ((r.perform defined).matchSorts ⟨⟨0⟩, ⟨3, 0⟩⟩ ⟨⟨0⟩, ⟨10, 0⟩⟩).1 = .ok ⟨6⟩ ∧
      ((s.perform defined).matchSorts ⟨⟨0⟩, ⟨3, 0⟩⟩ ⟨⟨0⟩, ⟨10, 0⟩⟩).1 = .ok ⟨5⟩ ∧
      SameAnswer ((r.after calls).matchSorts ⟨⟨0⟩, ⟨14, 0⟩⟩ ⟨⟨0⟩, ⟨9, 0⟩⟩)
        ((s.after calls).matchSorts ⟨⟨0⟩, ⟨14, 0⟩⟩ ⟨⟨0⟩, ⟨9, 0⟩⟩) := by
  intro defined calls r s
  have textual : ∀ call ∈ calls, call.Textual :=
    List.forall_mem_cons.mpr ⟨trivial, List.forall_mem_singleton.mpr trivial⟩
  exact ⟨by decide +kernel, by decide +kernel, sameAnswer_matchSorts _ _ _ _ calls textual _ _⟩

end Registry

end CompositeSorts
