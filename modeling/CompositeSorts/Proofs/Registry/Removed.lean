import CompositeSorts.Proofs.Matching.MemoLinks
import CompositeSorts.Proofs.Registry.Order
import CompositeSorts.Proofs.Registry.Repeating

/-!
What a report shows. The report of a sheltered match shows nothing but live sorts
(`displayed_of_sheltered`), so as long as what is remembered is secure, no removed sort is shown in
the report of a match that is answered (`displayed_of_matchSorts`).

It is secure unless an undo removes a sort that some match was made of while another sort of its
display stays. Then a removed sort may be shown (`exists_removed_shown`): undoing forgets the
matches of the removed sorts, but not those of other sorts that have them as parts.
-/

set_option autoImplicit false
set_option relaxedAutoImplicit false

namespace CompositeSorts

open Catalog Matchings Matching

mutual

/-- What is shown of sorts anywhere in a report. -/
def Report.sides : Report → List String
  | ⟨left, right, _, _, _, _, parts, alternatives⟩ =>
    left :: right :: (sidesAll parts ++ sidesAll alternatives)

/-- What is shown of sorts anywhere in several reports. -/
def Report.sidesAll : List Report → List String
  | [] => []
  | report :: reports => report.sides ++ sidesAll reports

end

theorem Report.sidesAll_eq (reports : List Report) :
    sidesAll reports = reports.flatMap sides := by
  induction reports with
  | nil => rfl
  | cons report reports ih => rw [sidesAll, ih, List.flatMap_cons]

namespace Matchings

variable {c : Catalog} {t : Matchings} {id : MatchId} {node : MatchNode} {report : Report}
  {sort : SortId}

/-- The text is the display of a live sort. -/
def Displayed (c : Catalog) (text : String) : Prop :=
  ∃ id sort, c.get id = .ok sort ∧ text = sort.display

theorem displayed_shown (live : c.Live sort) : Displayed c (shown c sort) := by
  obtain ⟨record, found⟩ := live
  refine ⟨sort, record, found, ?_⟩
  unfold shown
  rw [found]

/-- The report of a match of live sorts shows live sorts, if those inside do. -/
theorem displayed_of_reportNode (left : c.Live node.left) (right : c.Live node.right)
    {parts alternatives : List Report} (inside : ∀ report ∈ parts,
      ∀ side ∈ report.sides, Displayed c side)
    (behind : ∀ report ∈ alternatives, ∀ side ∈ report.sides, Displayed c side) :
    ∀ side ∈ (reportNode c node parts alternatives).sides, Displayed c side := by
  intro side isSide
  rw [reportNode, Report.sides, Report.sidesAll_eq, Report.sidesAll_eq,
    List.mem_cons, List.mem_cons,
    List.mem_append, List.mem_flatMap, List.mem_flatMap] at isSide
  rcases isSide with rfl | rfl | ⟨report, among, isSide⟩ | ⟨report, among, isSide⟩
  · exact displayed_shown left
  · exact displayed_shown right
  · exact inside report among side isSide
  · exact behind report among side isSide

/-- The report of a sheltered part shows live sorts. -/
theorem displayed_of_part (c : Catalog) (t : Matchings) (around : List Nat) (id : MatchId)
    (sheltered : Sheltered c t id) (report : Report)
    (made : t.reportPart c around id = some report) :
    ∀ side ∈ report.sides, Displayed c side := by
  obtain ⟨node, found, housed⟩ := closed_sheltered c t id sheltered
  obtain ⟨present, here⟩ := Array.getElem?_eq_some_iff.mp found
  rw [reportPart, dif_pos present] at made
  split_ifs at made with busy
  obtain rfl := Option.some.inj made
  rw [here]
  refine displayed_of_reportNode housed.left housed.right (fun report among ↦ ?_)
    fun report among ↦ absurd among List.not_mem_nil
  obtain ⟨part, isPart, made⟩ := List.mem_filterMap.mp among
  exact displayed_of_part c t (id.index :: around) part (housed.parts part isPart).1 report made
termination_by (unvisited (List.range t.nodes.size) around).length
decreasing_by exact length_unvisited_cons_lt (List.mem_range.2 ‹_›) ‹_›

/-- A sheltered match has a report, and it shows live sorts. -/
theorem displayed_of_sheltered (sheltered : Sheltered c t id) :
    ∃ report, t.report c id = some report ∧ ∀ side ∈ report.sides, Displayed c side := by
  obtain ⟨node, found, housed⟩ := closed_sheltered c t id sheltered
  refine ⟨_, by rw [Matchings.report, found]; rfl, displayed_of_reportNode housed.left housed.right
    (fun report among ↦ ?_) fun report among ↦ ?_⟩
  · obtain ⟨part, isPart, made⟩ := List.mem_filterMap.mp among
    exact displayed_of_part c t _ part (housed.parts part isPart).1 report made
  · obtain ⟨other, behind, made⟩ := List.mem_filterMap.mp among
    exact displayed_of_part c t _ other
      (cognate_of_alternative sheltered found behind).1 report made

end Matchings

namespace Registry

variable {r r' : Registry} {left right : SortId} {id : MatchId}

/-- The calls by which texts are defined, undone, dropped and matched, where no match is of a sort
that is undone while a sort of its display stays. -/
def Severing (r : Registry) (call : Call) : Prop :=
  r.ByText call ∧ (call = .undo → r.matchings.Severed r.catalog r.catalog.fresh)

theorem secure_perform (proper : r.Proper) (rested : r.catalog.Rested)
    (suited : Suited r.categories r.catalog) (h : r.matchings.Secure r.catalog) (call : Call)
    (allow : r.Severing call) : (r.perform call).matchings.Secure (r.perform call).catalog := by
  obtain ⟨allow, severed⟩ := allow
  have defined (text : String) :
      (r.defineAll text).2.matchings.Secure (r.defineAll text).2.catalog := by
    rw [matchings_defineAll proper]
    exact h.mono fun found ↦ get_defineAll proper text found
  cases call with
  | define text =>
    change (r.define text).2.matchings.Secure (r.define text).2.catalog
    rw [snd_define]
    exact defined text
  | defineAll text => exact defined text
  | undo =>
    exact h.forget (severed rfl) (fun out found ↦ get_undo proper.steady found out)
      fun out found ↦ rested.closed found out
  | clear => exact (secure_empty _).quiet ⟨rfl, rfl, rfl, Extends.refl _⟩ (.of_nodes rfl)
  | matchSorts left right =>
    change (r.matchSorts left right).2.matchings.Secure (r.matchSorts left right).2.catalog
    obtain ⟨id, t, answer, made⟩ | ⟨reason, t, answer, kept⟩ :=
      ends_matchSorts (sheltering_relate rested suited r.config [] left right r.matchings h)
    · rw [answer]
      exact made.1.1
    · rw [answer]
      exact kept.1
  | takeLog =>
    have quiet : Quiet r.matchings r.takeLog.2.matchings := quiet_aside r.matchings _ _ _
    exact (h.quiet quiet (.of_nodes rfl)).mono fun found ↦ found
  | _ => exact absurd allow id

theorem Reachable.secure (reached : Reachable Severing r) : r.matchings.Secure r.catalog := by
  induction reached with
  | empty id _ _ => exact secure_empty _
  | step before call allow secure =>
    have textual := before.mono fun _ _ allowed ↦ allowed.1
    exact secure_perform before.proper textual.rested textual.suited secure call allow

/-- Whatever texts were defined, undone, dropped and matched before, as long as no match was of a
sort that was undone while a sort of its display stayed: the report of a match that is answered
shows nothing but live sorts. -/
theorem displayed_of_matchSorts (reached : Reachable Severing r)
    (answered : r.matchSorts left right = (.ok id, r')) :
    ∃ report, r'.report id = some report ∧ ∀ side ∈ report.sides, Displayed r'.catalog side := by
  have textual := reached.mono fun _ _ allowed ↦ allowed.1
  obtain ⟨id', t, answer, made⟩ | ⟨reason, t, answer, -⟩ := ends_matchSorts
    (sheltering_relate textual.rested textual.suited r.config [] left right r.matchings reached.secure)
  · rw [answered] at answer
    cases answer
    exact displayed_of_sheltered made.2.1
  · rw [answered] at answer
    cases answer

/-- Matches are severed if the removed sorts among theirs display as none of the sorts that stay. -/
theorem severed_of_sorts {c : Catalog} {gone : List SortId} {t : Matchings} (steady : c.Steady)
    (apart : ∀ node ∈ t.nodes.toList, ∀ side ∈ [node.left, node.right], side ∈ gone →
      ∀ sort ∈ c.sorts, sort.id ∉ gone → shown c side ≠ sort.display) : t.Severed c gone := by
  rintro id node found side isSide removed other stays ⟨s, o, foundSide, foundOther, same⟩
  have among : node ∈ t.nodes.toList := Array.mem_toList_iff.mpr (Array.mem_of_getElem? found)
  have placed : o.id = other := steady.toSound.placed foundOther
  refine apart node among side isSide removed o (mem_sorts steady foundOther) (placed ▸ stays) ?_
  unfold shown
  rw [foundSide]
  exact same

theorem Reachable.nextSevering (reached : Reachable Severing r) {text : String}
    (finished : (r.defineAll text).1 ≠ .error .abandoned) :
    Reachable Severing (r.perform (.defineAll text)) := .step reached _ ⟨finished, by rintro ⟨⟩⟩

/-- Two sorts of which one was matched with a sort that is undone. -/
theorem displayed_of_matchSorts_sample :
    let defined := sample.perform (.defineAll "b: [Count] 3 ^ [Label] p; d: [Count] 4 ^ [Label] p")
    let before := (defined.perform (.defineAll "c: b ^ d")).perform
      (.matchSorts ⟨⟨0⟩, ⟨3, 0⟩⟩ ⟨⟨0⟩, ⟨9, 0⟩⟩)
    let r := before.perform .undo
    let r' := (r.matchSorts ⟨⟨0⟩, ⟨3, 0⟩⟩ ⟨⟨0⟩, ⟨7, 0⟩⟩).2
    (before.matchings.get? ⟨24⟩).map (shown r.catalog ·.right) = some "<removed>" ∧
      ∃ report, r'.report ⟨16⟩ = some report ∧ ∀ side ∈ report.sides, Displayed r'.catalog side := by
  intro defined before r r'
  have matched : Reachable Severing before :=
    .step (((reachable_sample _).nextSevering (by decide +kernel)).nextSevering (by decide +kernel)) _
      ⟨trivial, by rintro ⟨⟩⟩
  have severed : before.matchings.Severed before.catalog before.catalog.fresh :=
    severed_of_sorts matched.proper.steady (by decide +kernel)
  have reached : Reachable Severing r := .step matched _ ⟨trivial, fun _ ↦ severed⟩
  have answered : (r.matchSorts ⟨⟨0⟩, ⟨3, 0⟩⟩ ⟨⟨0⟩, ⟨7, 0⟩⟩).1 = .ok ⟨16⟩ := by decide +kernel
  exact ⟨by decide +kernel, displayed_of_matchSorts reached (Prod.ext answered rfl)⟩

/-- Two components are matched by way of an equal component that is undone later. What was
remembered of them is forgotten, but not the match that has it as a part. -/
theorem exists_removed_shown :
    ¬ ∀ (r r' : Registry) (left right : SortId) (id : MatchId) (report : Report),
      Reachable ByText r → r.matchSorts left right = (.ok id, r') → r'.report id = some report →
      ∀ side ∈ report.sides, side ≠ "<removed>" := by
  intro neverRemoved
  let defined := (sample.perform (.defineAll "[Label] a ^ [Label] k; [Label] b ^ [Label] k")).perform
    (.defineAll "[Label] a")
  let first := defined.perform (.matchSorts ⟨⟨0⟩, ⟨6, 0⟩⟩ ⟨⟨0⟩, ⟨3, 0⟩⟩)
  let second := first.perform (.matchSorts ⟨⟨0⟩, ⟨2, 0⟩⟩ ⟨⟨0⟩, ⟨5, 0⟩⟩)
  let r := second.perform .undo
  let r' := (r.matchSorts ⟨⟨0⟩, ⟨2, 0⟩⟩ ⟨⟨0⟩, ⟨5, 0⟩⟩).2
  have built : Reachable ByText defined :=
    ((reachable_sample _).next (by decide +kernel)).next (by decide +kernel)
  have asked : Reachable ByText first := .step built _ trivial
  have reached : Reachable ByText r := .step (.step asked (.matchSorts _ _) trivial) .undo trivial
  have answered : (r.matchSorts ⟨⟨0⟩, ⟨2, 0⟩⟩ ⟨⟨0⟩, ⟨5, 0⟩⟩).1 = .ok ⟨2⟩ := by decide +kernel
  have removed : (r'.report ⟨2⟩).map (decide <| "<removed>" ∈ ·.sides) = some true := by
    decide +kernel
  obtain ⟨report, made, inside⟩ := Option.map_eq_some_iff.mp removed
  exact neverRemoved r r' _ _ ⟨2⟩ report reached (Prod.ext answered rfl) made _
    (of_decide_eq_true inside) rfl

end Registry

end CompositeSorts
