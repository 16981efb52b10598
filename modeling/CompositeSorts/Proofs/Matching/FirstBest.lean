import CompositeSorts.Proofs.Matching.Rotating
import CompositeSorts.Proofs.Matching.Scores

/-!
The first of the best. The preference is a total preorder in which incongruous matches come last,
and the score in it is compared exactly (`Matching.preference_exact`). Choosing among matches that
are there always answers: none of none, else the first of those to which no other is preferred.
Where a match is not there, the first that is not is reported, and nothing has changed.

Main definitions: `TotalPreorder`, `Matchings.FirstBest`, `Matching.ExactPreference`.
-/

set_option autoImplicit false
set_option relaxedAutoImplicit false

namespace CompositeSorts

open Matching Matchings

variable {α : Type} {t t' : Matchings} {config : Configuration} {ids : List MatchId}
  {a b : MatchNode}

/-! ### The preference -/

/-- A comparison that puts all values in a row, some of them in the same place. -/
structure TotalPreorder (order : α → α → Ordering) : Prop where
  refl : ∀ a, order a a = .eq
  total : ∀ a b, (order a b).isLE ∨ (order b a).isLE
  trans : ∀ a b c, (order a b).isLE → (order b c).isLE → (order a c).isLE
  antisymm : ∀ a b, (order a b).isLE → (order b a).isLE → order a b = .eq
  swap : ∀ a b, order a b = (order b a).swap

theorem TotalPreorder.of_transCmp (order : α → α → Ordering) [Std.TransCmp order] :
    TotalPreorder order where
  refl _ := Std.ReflCmp.compare_self
  total a b := by
    have swap : order a b = (order b a).swap := Std.OrientedCmp.eq_swap
    rw [swap]
    cases order b a <;> simp
  trans _ _ _ := Std.TransCmp.isLE_trans
  antisymm a b before after := by
    have swap : order a b = (order b a).swap := Std.OrientedCmp.eq_swap
    rw [swap] at before ⊢
    revert before after
    cases order b a <;> simp
  swap _ _ := Std.OrientedCmp.eq_swap

namespace MatchNode

/-- Matches are tied that have the same rank and grade and equal scores. -/
theorem prefer_eq_eq_iff : a.prefer b = .eq ↔
    a.level.rank = b.level.rank ∧ a.score.compare b.score = .eq ∧ a.grade = b.grade := by
  unfold prefer
  simp only [Ordering.then_eq_eq, Nat.compare_eq_eq, incongruous_eq]
  constructor
  · rintro ⟨-, rank, score, grade⟩
    exact ⟨rank, score, Grade.rank_injective grade⟩
  · rintro ⟨rank, score, grade⟩
    exact ⟨by rw [rank], rank, score, by rw [grade]⟩

/-- Every match of sorts that correspond somehow is preferred to an incongruous one. -/
theorem prefer_incongruous (congruous : a.level ≠ .incongruous) (far : b.level = .incongruous) :
    a.prefer b = .lt := by
  have first : a.incongruous = false := decide_eq_false congruous
  have last : b.incongruous = true := decide_eq_true far
  unfold prefer
  rw [first, last]
  rfl

end MatchNode

/-! ### Choosing -/

/-- The first of several matches to which no other of them is preferred. -/
def Matchings.FirstBest (t : Matchings) (ids : List MatchId) (best : MatchId) : Prop :=
  ∃ before after node, ids = before ++ best :: after ∧ t.get? best = some node ∧
    (∀ id ∈ before, ∃ other, t.get? id = some other ∧ node.prefer other = .lt) ∧
    ∀ id ∈ after, ∃ other, t.get? id = some other ∧ (node.prefer other).isLE

namespace Matching

/-- What there is to choose from: the matches, each with its node. -/
def candidates (ids : List MatchId) : Matching (List Candidate) :=
  ids.mapM fun id ↦ return (id, ← nodeOf id)

theorem nodeOf_of_some {id : MatchId} {node : MatchNode} (here : t.get? id = some node) :
    nodeOf id t = .ok node t := by
  have looked : (get : Matching Matchings) t = .ok t t := rfl
  rw [nodeOf, Ends.run_bind looked, here]
  rfl

theorem nodeOf_of_none {id : MatchId} (gone : t.get? id = none) :
    nodeOf id t = .error (.unknownMatch id.index) t := by
  have looked : (get : Matching Matchings) t = .ok t t := rfl
  rw [nodeOf, Ends.run_bind looked, gone]
  rfl

theorem candidates_cons (id : MatchId) (ids : List MatchId) : candidates (id :: ids) = do
    let candidate ← (return (id, ← nodeOf id) : Matching Candidate)
    let others ← candidates ids
    return candidate :: others := List.mapM_cons

/-- Candidates that are there are read in order. -/
theorem exists_candidates (present : ∀ id ∈ ids, t.get? id ≠ none) :
    ∃ read, candidates ids t = .ok read t := by
  induction ids with
  | nil => exact ⟨[], rfl⟩
  | cons id ids ih =>
    obtain ⟨here, present⟩ := List.forall_mem_cons.1 present
    obtain ⟨node, here⟩ := Option.ne_none_iff_exists'.1 here
    obtain ⟨others, run⟩ := ih present
    have first : (return (id, ← nodeOf id) : Matching Candidate) t = .ok (id, node) t :=
      Ends.run_bind (nodeOf_of_some here)
    rw [candidates_cons, Ends.run_bind first]
    exact ⟨_, Ends.run_bind run⟩

/-- The first candidate that is not there is reported. -/
theorem candidates_error {before after : List MatchId} {id : MatchId}
    (present : ∀ other ∈ before, t.get? other ≠ none) (gone : t.get? id = none) :
    candidates (before ++ id :: after) t = .error (.unknownMatch id.index) t := by
  induction before with
  | nil =>
    have first : (return (id, ← nodeOf id) : Matching Candidate) t =
        .error (.unknownMatch id.index) t := Ends.error_bind (nodeOf_of_none gone)
    rw [List.nil_append, candidates_cons]
    exact Ends.error_bind first
  | cons other before ih =>
    obtain ⟨here, present⟩ := List.forall_mem_cons.1 present
    obtain ⟨node, here⟩ := Option.ne_none_iff_exists'.1 here
    have first : (return (other, ← nodeOf other) : Matching Candidate) t = .ok (other, node) t :=
      Ends.run_bind (nodeOf_of_some here)
    rw [List.cons_append, candidates_cons, Ends.run_bind first]
    exact Ends.error_bind (ih present)

/-- Nothing is refused while ties are chained. -/
theorem unrefused_ties (config : Configuration) (best : Candidate) (read : List Candidate)
    (t : Matchings) :
    Ends (read.forM fun candidate ↦
      if candidate.1 ≠ best.1 ∧ candidate.2.prefer best.2 = .eq then
        chain config best.1 candidate.1
      else pure ()) t (fun _ _ ↦ True) fun _ ↦ False := by
  refine Ends.forM (fun _ ↦ True) trivial read fun candidate _ t' _ ↦ ?_
  split_ifs
  · exact ends_chain trivial fun _ _ ↦ trivial
  · exact Ends.pure trivial

/-- Among matches that are there, choosing answers. -/
theorem exists_choose_run (config : Configuration) (present : ∀ id ∈ ids, t.get? id ≠ none) :
    ∃ best t', choose config ids t = .ok best t' := by
  obtain ⟨read, run⟩ := exists_candidates present
  suffices answers : Ends (choose config ids) t (fun _ _ ↦ True) fun _ ↦ False from
    answers.exists_ok.imp fun _ found ↦ found.imp fun _ h ↦ h.1
  refine Ends.bind (Ends.of_run run ?_)
  cases read with
  | nil => exact Ends.pure trivial
  | cons first others =>
    dsimp only
    split_ifs
    · exact Ends.bind ((unrefused_ties config _ _ t).mono (fun _ _ _ ↦ Ends.pure trivial)
        fun _ h ↦ h)
    · exact Ends.pure trivial

/-- Choosing among matches that are there answers the first of the best, none of none. -/
theorem exists_choose (config : Configuration) (present : ∀ id ∈ ids, t.get? id ≠ none) :
    ∃ best t', choose config ids t = .ok best t' ∧ (best = none ↔ ids = []) ∧
      ∀ id, best = some id → t.FirstBest ids id := by
  obtain ⟨best, t', run⟩ := exists_choose_run config present
  obtain ⟨retains, ⟨rfl, rfl⟩ | ⟨id, before, after, rfl, rfl, first⟩⟩ :=
    (ends_choose_first config ids).of_ok run
  · exact ⟨none, t', run, by simp, by simp⟩
  refine ⟨some id, t', run, by simp, fun best same ↦ ?_⟩
  cases same
  -- Ties do not change what the preference goes by.
  have found (other : MatchId) (among : other ∈ before ++ id :: after) : ∃ node node',
      t.get? other = some node ∧ t'.get? other = some node' ∧ node'.standing = node.standing := by
    obtain ⟨node, here⟩ := Option.ne_none_iff_exists'.1 (present other among)
    obtain ⟨node', here', untied⟩ := retains.nodes _ _ here
    exact ⟨node, node', here, here', MatchNode.standing_of_untied untied⟩
  obtain ⟨node, node', here, here', standing⟩ := found id (by simp)
  obtain ⟨strict, weak⟩ := first node' here'
  refine ⟨before, after, node, rfl, here, fun other among ↦ ?_, fun other among ↦ ?_⟩
  · obtain ⟨rival, rival', there, there', equal⟩ := found other (by simp [among])
    exact ⟨rival, there, MatchNode.prefer_congr standing equal ▸ strict other among rival' there'⟩
  · obtain ⟨rival, rival', there, there', equal⟩ := found other (by simp [among])
    exact ⟨rival, there, MatchNode.prefer_congr standing equal ▸ weak other among rival' there'⟩

/-- The preference is exact, and choosing from matches goes by it. -/
structure ExactPreference (config : Configuration) (t : Matchings) : Prop where
  /-- Scores are compared in words, without overflow. -/
  words : ∀ (a b : Tally) (scale scale' : Counter),
    a.compareInWords scale b scale' = some ((a.score scale).compare (b.score scale'))
  /-- Scores are compared by the values of the fractions. -/
  fractions : ∀ (a b : Tally) (scale scale' : Counter),
    (a.score scale).compare (b.score scale') =
      compare (((2 * a.structural + a.demotions : Nat) : ℚ) / ((2 * max scale.value 1 : Nat) : ℚ))
        (((2 * b.structural + b.demotions : Nat) : ℚ) / ((2 * max scale'.value 1 : Nat) : ℚ))
  preorder : TotalPreorder MatchNode.prefer
  ties : ∀ a b : MatchNode, a.prefer b = .eq ↔
    a.level.rank = b.level.rank ∧ a.score.compare b.score = .eq ∧ a.grade = b.grade
  /-- Incongruous matches come last. -/
  last : ∀ a b : MatchNode, a.level ≠ .incongruous → b.level = .incongruous → a.prefer b = .lt
  /-- Among matches that are there, the first of the best is answered. -/
  answers : ∀ ids : List MatchId, (∀ id ∈ ids, t.get? id ≠ none) →
    ∃ best t', choose config ids t = .ok best t' ∧ (best = none ↔ ids = []) ∧
      ∀ id, best = some id → t.FirstBest ids id
  /-- The first match that is not there is reported. -/
  unknown : ∀ before id after, (∀ other ∈ before, t.get? other ≠ none) → t.get? id = none →
    choose config (before ++ id :: after) t = .error (.unknownMatch id.index) t

/-- Whatever the settings and the matches, the preference is exact and consistent. -/
theorem preference_exact (config : Configuration) (t : Matchings) : ExactPreference config t where
  words := Tally.compareInWords_eq
  fractions := Tally.compare_score
  preorder := .of_transCmp _
  ties _ _ := MatchNode.prefer_eq_eq_iff
  last _ _ := MatchNode.prefer_incongruous
  answers _ := exists_choose config
  unknown _ _ _ present gone := Ends.error_bind (candidates_error present gone)

/-- Three matches of two sorts: an incongruous one, and two that are tied although the terms of
their scores differ. -/
def draw : Matchings :=
  let node (level : Level) (omits scale : Counter) : MatchNode :=
    ⟨⟨⟨0⟩, ⟨0, 0⟩⟩, ⟨⟨0⟩, ⟨1, 0⟩⟩, level, .concordant, { omits }, scale, [], none, false⟩
  { Matchings.empty with
    nodes := #[node .incongruous 0 1, node .incomplete 1 2, node .incomplete 2 4] }

/-- The largest counters beside small ones, and a choice between two matches that are tied. -/
theorem preference_exact_sample :
    let most : Counter := 4294967295
    let crowded : Tally := ⟨most, most, most, most, most, most, most, most, most⟩
    crowded.compareInWords most { excess := 7 } 1 = some .gt ∧
      (∀ id ∈ [⟨0⟩, ⟨1⟩, ⟨2⟩], draw.get? id ≠ none) ∧
      (∃ t', choose {} [⟨0⟩, ⟨1⟩, ⟨2⟩] draw = .ok (some ⟨1⟩) t') ∧
      draw.FirstBest [⟨0⟩, ⟨1⟩, ⟨2⟩] ⟨1⟩ ∧ draw.get? ⟨3⟩ = none ∧
      choose {} [⟨0⟩, ⟨3⟩, ⟨4⟩] draw = .error (.unknownMatch 3) draw := by
  intro most crowded
  have chosen := preference_exact {} draw
  have present : ∀ id ∈ [⟨0⟩, ⟨1⟩, ⟨2⟩], draw.get? id ≠ none := by decide
  obtain ⟨best, t', run, -, first⟩ := chosen.answers _ present
  have second : best = some ⟨1⟩ := by
    have evaluated : (match choose {} [⟨0⟩, ⟨1⟩, ⟨2⟩] draw with
      | .ok best _ => best
      | .error .. => none) = some ⟨1⟩ := by decide +kernel
    rwa [run] at evaluated
  refine ⟨?_, present, ⟨t', second ▸ run⟩, first _ second, rfl,
    chosen.unknown [⟨0⟩] ⟨3⟩ [⟨4⟩] (by decide) rfl⟩
  rw [chosen.words crowded { excess := 7 } most 1]
  decide +kernel

end Matching

end CompositeSorts
