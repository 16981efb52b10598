import CompositeSorts.Proofs.Matching.Labels

/-!
The course of a match. The variants of two sorts, their displays, texts and categories decide which
rule matches them: whether the verdict stands at once, whether the sorts are looked at in the order
in which they are given or from the other side, or whether they cannot be matched (`course`). The
course of the exchanged pair is that of the pair, turned around (`course_swap`).
-/

set_option autoImplicit false
set_option relaxedAutoImplicit false

namespace CompositeSorts

open Matchings Matching Rule

variable {t t' : Matchings} {id : MatchId} {l r l' r' : SortRecord}

/-- What a match says of its sorts. -/
structure Verdict where
  level : Level
  grade : Grade
  tally : Tally
deriving DecidableEq

namespace Verdict

/-- The verdict seen from the other side. -/
def reversed (v : Verdict) : Verdict := ⟨v.level, v.grade.reverse, v.tally.reversed⟩

/-- The verdict of a sort on itself. -/
def same : Verdict := ⟨.identical, .concordant, .none⟩

/-- The sorts have the same definition. -/
def equivalent (tally : Tally) : Verdict := ⟨.equivalent, .concordant, tally⟩

/-- The sorts do not correspond, and nothing else is said: the verdict of a sentinel. -/
def bare : Verdict := ⟨.incongruous, .concordant, .none⟩

theorem reversed_reversed (v : Verdict) : v.reversed.reversed = v := by
  unfold reversed
  rw [Grade.reverse_reverse, Tally.reversed_reversed]

theorem reversed_bare : bare.reversed = bare := rfl

end Verdict

/-- What the node says of its sorts. -/
def MatchNode.verdict (node : MatchNode) : Verdict := ⟨node.level, node.grade, node.tally⟩

theorem MatchNode.verdict_mirrored (node : MatchNode) (left right : SortId) (parts : List MatchId)
    (tiedWith : Option MatchId) :
    (node.mirrored left right parts tiedWith).verdict = node.verdict.reversed := rfl

theorem MatchNode.verdict_eq_of_untied {node node' : MatchNode}
    (same : node'.untied = node.untied) :
    node'.verdict = node.verdict := by
  have eq := congrArg MatchNode.verdict same
  exact eq

/-- The match says this of its sorts. -/
def Matchings.Gives (t : Matchings) (id : MatchId) (v : Verdict) : Prop :=
  ∃ node, t.get? id = some node ∧ node.verdict = v

namespace Matchings.Gives

variable {v v' : Verdict}

theorem extend (h : t.Gives id v) (later : Extends t t') : t'.Gives id v := by
  obtain ⟨node, found, rfl⟩ := h
  obtain ⟨node', found', same⟩ := later id node found
  exact ⟨node', found', MatchNode.verdict_eq_of_untied same⟩

theorem unique (h : t.Gives id v) (h' : t.Gives id v') : v = v' := by
  obtain ⟨node, found, rfl⟩ := h
  obtain ⟨node', found', rfl⟩ := h'
  rw [found] at found'
  cases found'
  rfl

theorem push (node : MatchNode) : (t.push node).Gives ⟨t.nodes.size⟩ node.verdict :=
  ⟨node, get?_push_size node, rfl⟩

end Matchings.Gives

/-! ### Courses -/

/-- How two sorts are matched: the verdict is settled by their looks, the left one is examined, the
match of the exchanged pair is reversed, or the question is refused. -/
inductive Course where
  | settled (verdict : Verdict)
  | forward
  | backward
  | refused

/-- The course of the exchanged pair. -/
def Course.turned : Course → Course
  | settled verdict => settled verdict
  | forward => backward
  | backward => forward
  | refused => refused

/-- The category of a primitive sort. -/
def SortRecord.tag (sort : SortRecord) : Option String :=
  match sort.body with
  | .primitive tag _ => some tag
  | _ => none

/-- How complex a variant is; the more complex sort of two is examined. -/
def Variant.complexity : Variant → Nat
  | recursive => 3
  | disjunctive => 2
  | weighted => 1
  | _ => 0

/-- The verdict on two primitive sorts. -/
def Verdict.ofPrimitives (l r : SortRecord) : Verdict :=
  if l.canonical = r.canonical then .equivalent { byDefinition := 1 }
  else if l.tag = r.tag then ⟨.convertible, .concordant, { byArgument := 1 }⟩
  else .bare

/-- The course of the match of two different sorts. -/
def course (l r : SortRecord) : Course :=
  match l.variant, r.variant with
  | .aspects, .aspects =>
    .settled (if l.canonical = r.canonical then .equivalent .none else .bare)
  | .aspects, _ => .refused
  | _, .aspects => .refused
  | .primitive, .primitive => .settled (.ofPrimitives l r)
  | .primitive, .aspect => .settled .bare
  | .aspect, .primitive => .settled .bare
  | left, right =>
    if left = .disjunctive ∧ right = .disjunctive ∧ l.display = r.display then
      .settled (.equivalent .none)
    else if left.complexity < right.complexity ∨ left = right ∧ r.display < l.display then .backward
    else .forward

/-- When a match is made from the other side: the right sort is the more complex one, or they are of
one variant, and the right display comes first. -/
theorem course_eq_backward_iff : course l r = .backward ↔
    l.variant ≠ .aspects ∧ r.variant ≠ .aspects ∧
      (l.variant.complexity < r.variant.complexity ∨
        l.variant = r.variant ∧ l.variant ≠ .primitive ∧ r.display < l.display) := by
  have apart (same : l.display = r.display) : ¬ r.display < l.display := by
    rw [same]
    exact String.lt_irrefl _
  unfold course
  cases left : l.variant <;> cases right : r.variant
  case disjunctive.disjunctive =>
    dsimp only
    split_ifs with same turns
    · refine iff_of_false nofun ?_
      rintro ⟨-, -, lower | ⟨-, -, descending⟩⟩
      · exact Nat.lt_irrefl _ lower
      · exact apart same.2.2 descending
    · exact iff_of_true rfl ⟨nofun, nofun, turns.imp_right fun h ↦ ⟨h.1, nofun, h.2⟩⟩
    · exact iff_of_false nofun fun h ↦ turns (h.2.2.imp_right fun h ↦ ⟨h.1, h.2.2⟩)
  all_goals simp [Variant.complexity]

/-- What is made from the other side is not made from this side again. -/
theorem course_ne_backward_of_swap (turns : course l r = .backward) : course r l ≠ .backward := by
  intro again
  obtain ⟨-, -, lower | ⟨same, -, descending⟩⟩ := course_eq_backward_iff.mp turns <;>
    obtain ⟨-, -, lower' | ⟨same', -, descending'⟩⟩ := course_eq_backward_iff.mp again
  · exact Nat.lt_asymm lower lower'
  · exact Nat.ne_of_lt lower (congrArg Variant.complexity same'.symm)
  · exact Nat.ne_of_lt lower' (congrArg Variant.complexity same.symm)
  · exact String.lt_asymm descending descending'

/-- Sorts that show the same take the same course. -/
structure SortRecord.Twin (sort other : SortRecord) : Prop where
  display : sort.display = other.display
  canonical : sort.canonical = other.canonical
  variant : sort.variant = other.variant
  tag : sort.tag = other.tag

theorem SortRecord.Twin.refl (sort : SortRecord) : sort.Twin sort := ⟨rfl, rfl, rfl, rfl⟩

theorem course_congr (left : l.Twin l') (right : r.Twin r') : course l r = course l' r' := by
  unfold course Verdict.ofPrimitives
  rw [left.display, left.canonical, left.variant, left.tag, right.display, right.canonical,
    right.variant, right.tag]

theorem Verdict.ofPrimitives_comm (l r : SortRecord) : ofPrimitives l r = ofPrimitives r l := by
  unfold ofPrimitives
  simp only [@eq_comm _ l.canonical, @eq_comm _ l.tag]

/-- Exchanging the sorts turns the course. -/
theorem course_swap (apart : l.display = r.display →
    l.variant = r.variant ∧ (l.variant = .primitive ∨ l.variant = .disjunctive)) :
    course r l = (course l r).turned := by
  unfold course
  simp only [Verdict.ofPrimitives_comm r l, @eq_comm _ r.canonical, @eq_comm _ r.display]
  by_cases same : l.display = r.display
  · obtain ⟨variants, kind⟩ := apart same
    rw [← variants]
    rcases kind with kind | kind <;> rw [kind] <;> simp [same, Course.turned]
  · by_cases before : l.display < r.display
    · have after := String.lt_asymm before
      cases l.variant <;> cases r.variant <;>
        simp [same, Course.turned, Variant.complexity, before, after]
    · have after : r.display < l.display := by
        by_contra other
        exact same (String.le_antisymm other before)
      cases l.variant <;> cases r.variant <;>
        simp [same, Course.turned, Variant.complexity, before, after]

/-- A verdict that is settled looks the same from both sides. -/
theorem reversed_of_settled {v : Verdict} (settled : course l r = .settled v) : v.reversed = v := by
  unfold course Verdict.ofPrimitives at settled
  split at settled
  all_goals first | cases settled | (split_ifs at settled; cases settled)
  all_goals first | rfl | (split_ifs <;> rfl)

/-! ### Rules -/

section

variable {c : Catalog} {config : Configuration} {relate : Relate}

/-- From the other side, the rule is to reverse. -/
theorem forVariants_of_backward (turns : course l r = .backward) :
    forVariants c config relate l r = exchanged relate l r := by
  unfold course SortRecord.variant at turns
  unfold forVariants
  cases left : l.body <;> cases right : r.body <;> rw [left, right] at turns
  all_goals first | rfl | cases turns | skip
  all_goals
    by_cases descending : r.display < l.display
    · exact if_pos descending
    · by_cases same : l.display = r.display <;>
        simp [Body.variant, Variant.complexity, descending, same] at turns

/-- A question that is refused is not answered. -/
theorem forVariants_of_refused (c : Catalog) (config : Configuration) (relate : Relate)
    (refused : course l r = .refused) :
    ∃ reason, forVariants c config relate l r = throw reason := by
  unfold course SortRecord.variant at refused
  unfold forVariants
  cases left : l.body <;> cases right : r.body <;> rw [left, right] at refused <;>
    simp only [Body.variant] at refused
  all_goals first | exact ⟨_, rfl⟩ | cases refused | split_ifs at refused

/-- A verdict that is settled is given at once. -/
theorem ends_forVariants_of_settled {v : Verdict} (settled : course l r = .settled v)
    (same : l.display = r.display → l.canonical = r.canonical) :
    Ends (forVariants c config relate l r) t (fun id t' ↦ t'.Gives id v) fun _ ↦ False := by
  have pushed (node : MatchNode) (gives : node.verdict = v) :
      Ends (push node) t (fun id t' ↦ t'.Gives id v) fun _ ↦ False :=
    ends_push (gives ▸ Gives.push node)
  unfold course SortRecord.variant Verdict.ofPrimitives SortRecord.tag at settled
  unfold forVariants primitives tuples composition
  cases left : l.body <;> cases right : r.body <;> rw [left, right] at settled <;>
    simp only [Body.variant, Option.some.injEq, reduceCtorEq, false_and, true_and,
      and_false, if_false] at settled
  all_goals first | (split_ifs at settled; done) | dsimp only
  case primitive.primitive =>
    split_ifs at settled ⊢ <;> cases settled
    · exact pushed _ rfl
    · exact pushed _ rfl
    · exact pushed _ rfl
  case primitive.aspect =>
    cases settled
    exact pushed _ rfl
  case aspect.primitive =>
    cases settled
    exact pushed _ rfl
  case aspects.aspects =>
    split_ifs at settled ⊢ <;> cases settled
    · exact pushed _ rfl
    · exact pushed _ rfl
  case disjunctive.disjunctive =>
    split_ifs at settled with shown
    cases settled
    rw [if_neg (shown ▸ String.lt_irrefl _), if_pos (same shown)]
    exact pushed _ rfl

end

end CompositeSorts
