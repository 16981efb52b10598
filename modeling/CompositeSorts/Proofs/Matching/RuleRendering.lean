import CompositeSorts.Proofs.Matching.Rendering
import CompositeSorts.Proofs.Matching.Taking
import Mathlib.Data.List.ReduceOption

/-!
Rules in a table. Beside the rule that makes findings, each rule makes a new match in the table that
shows the same finding, given that the matching of the sorts inside does. It goes on at the same
questions, in the same order, and is refused where the other is; ties and the way a registry is
configured make no difference. So matching in a table is matching in terms of findings
(`rendering_relate`).
-/

set_option autoImplicit false
set_option relaxedAutoImplicit false

namespace CompositeSorts

open Matchings Matching

variable {c : Catalog} {config : Configuration} {t t' u : Matchings} {id : MatchId}
  {memory memory' : Memory} {relate : Relate} {plain : Appraiser} {left right : SortId}
  {l r : SortRecord} {finding : Finding}

/-- Matching in a table answers matches that show the findings. -/
abbrev Rendering (c : Catalog) (relate : Relate) (plain : Appraiser) : Prop :=
  ∀ left right t memory, t.Renders c memory →
    Follows (relate left right) (plain left right) t memory (Answer c t) (Reached c t)

theorem Rendering.since (inside : Rendering c relate plain) (left right : SortId)
    (h : Reached c u t memory) :
    Follows (relate left right) (plain left right) t memory
      (fun id finding t' memory' ↦ Reached c u t' memory' ∧ Grows t t' ∧ Usable u t' id finding)
      (Reached c u) :=
  (inside left right t memory h.renders).mono
    (fun _ _ _ _ answer ↦ ⟨answer.toReached.since h.grows, answer.grows, answer.shows,
      (h.grows.trans answer.grows).not_loose answer.held⟩)
    fun _ _ reached ↦ reached.since h.grows

theorem adjusts_diminished (dims : Counter) : Adjusts (Rule.diminished dims) :=
  ⟨fun _ ↦ rfl, fun _ ↦ ⟨rfl, rfl⟩, fun _ ↦ ⟨rfl, rfl⟩, fun _ ↦ rfl⟩

/-! ### Rules of one step -/

theorem follows_push (h : Reached c u t memory) {node : MatchNode} {findings : List Finding}
    (untied : node.tiedWith = none) (usable : List.Forall₂ (Usable u t) node.parts findings) :
    Follows (push node) (pure ⟨node.alone, findings⟩ : Appraisal Finding) t memory (Made c u)
      (Reached c u) :=
  Follows.last ((ends_push_made h untied usable).mono (fun _ _ made ↦ made.1) fun _ failed ↦ failed)

theorem follows_equivalent (h : Reached c u t memory) (tally : Tally) :
    Follows (equivalent l r tally) (pure (.equivalent l r tally) : Appraisal Finding) t memory
      (Made c u) (Reached c u) := follows_push h rfl .nil

theorem follows_incongruous (h : Reached c u t memory) {ids : List MatchId}
    {findings : List Finding} (usable : List.Forall₂ (Usable u t) ids findings) :
    Follows (Matching.incongruous l r ids) (pure (.incongruous l r findings) : Appraisal Finding)
      t memory (Made c u) (Reached c u) := follows_push h rfl usable

theorem follows_primitives (h : Reached c u t memory) (leftTag rightTag : String) :
    Follows (Rule.primitives l r leftTag rightTag)
      (pure (Appraisal.primitives l r leftTag rightTag) : Appraisal Finding) t memory (Made c u)
      (Reached c u) := by
  unfold Rule.primitives Appraisal.primitives
  split_ifs
  · exact follows_equivalent h _
  · exact follows_push h rfl .nil
  · exact follows_incongruous h .nil

theorem follows_tuples (h : Reached c u t memory) :
    Follows (Rule.tuples l r) (pure (Appraisal.tuples l r) : Appraisal Finding) t memory (Made c u)
      (Reached c u) := by
  unfold Rule.tuples Appraisal.tuples
  split_ifs
  · exact follows_equivalent h _
  · exact follows_incongruous h .nil

/-! ### Rules that look inside -/

section

variable (differ : l.id ≠ r.id) (inside : Rendering c relate plain)

include inside

theorem follows_exchanged (h : t.Renders c memory) :
    Follows (Rule.exchanged relate l r) (Appraisal.exchanged plain l r) t memory (Made c t)
      (Reached c t) := by
  refine Follows.bind ((inside.since _ _ (.refl h)).mono ?_ fun _ _ failed ↦ failed)
  rintro forward finding t₁ memory₁ ⟨reached, -, usable⟩
  refine Follows.last ((ends_reverse_turned reached.renders usable.shows l.id r.id).mono ?_
    fun _ failed ↦ failed)
  rintro reversal t₂ ⟨renders, grows, shows, new⟩
  exact ⟨⟨renders, reached.grows.trans grows⟩, shows, reached.grows.nodes.get?_eq_none new⟩

include differ in
theorem follows_aspects (h : t.Renders c memory) (leftOwner rightOwner : SortId)
    (leftPosition rightPosition : Nat) :
    Follows (Rule.aspects c relate l r leftOwner rightOwner leftPosition rightPosition)
      (Appraisal.aspects c plain l r leftOwner rightOwner leftPosition rightPosition) t memory
      (Made c t) (Reached c t) := by
  refine Follows.bind ((inside.since _ _ (.refl h)).mono ?_ fun _ _ failed ↦ failed)
  rintro owners finding t₁ memory₁ ⟨reached, -, usable⟩
  obtain ⟨node, parts, found, rfl, -⟩ := usable.shows.exists_node
  refine Follows.step (ends_found found ?_)
  rw [Finding.node_mk, MatchNode.level_alone]
  split_ifs with apart same
  · exact follows_incongruous reached (.cons usable .nil)
  · refine Follows.step (Ends.get ?_)
    exact follows_push reached rfl (forall₂_telling (.cons usable .nil))
  · refine Follows.bind (follows_ask (fun leftArgument _ ↦ ?_) reached)
    refine Follows.bind (follows_ask (fun rightArgument _ ↦ ?_) reached)
    refine Follows.bind ((inside.since _ _ reached).mono ?_ fun _ _ failed ↦ failed)
    rintro arguments finding' t₂ memory₂ ⟨reached₂, -, usable₂⟩
    obtain ⟨node', parts', found', rfl, -⟩ := usable₂.shows.exists_node
    refine Follows.step (ends_found found' ?_)
    rw [Finding.node_mk, MatchNode.incongruous_alone]
    split_ifs
    · exact follows_incongruous reached₂ (.cons usable₂ .nil)
    · refine Follows.last ((ends_pushLike_offer reached₂ usable₂ ?_ differ).mono
        (fun _ _ offer ↦ offer.toMade) fun _ failed ↦ failed)
      exact ⟨fun _ ↦ rfl, fun _ ↦ ⟨rfl, rfl⟩, fun _ ↦ ⟨rfl, rfl⟩, fun _ ↦ rfl⟩

theorem follows_recursive (h : t.Renders c memory) (target : Option SortId) :
    Follows (Rule.recursive relate l r target) (Appraisal.recursive plain l r target) t memory
      (Made c t) (Reached c t) := by
  unfold Rule.recursive Appraisal.recursive
  cases target with
  | none => exact Follows.throw (.refl h)
  | some instanceId =>
    dsimp only
    split_ifs
    · exact follows_equivalent (.refl h) _
    all_goals
      refine Follows.bind ((inside.since _ _ (.refl h)).mono ?_ fun _ _ failed ↦ failed)
      rintro inner finding t₁ memory₁ ⟨reached, -, usable⟩
      obtain ⟨node, parts, found, rfl, -⟩ := usable.shows.exists_node
      refine Follows.step (ends_found found ?_)
      exact follows_push reached rfl (.cons usable .nil)

include differ in
theorem follows_disjunction (h : t.Renders c memory) (components : List SortId) :
    Follows (Rule.disjunction config relate l r components)
      (Appraisal.disjunction plain l r components) t memory (Made c t) (Reached c t) := by
  refine Follows.bind ((Follows.mapM (fun _ ids findings t' memory' ↦ Reached c t t' memory' ∧
    Candidates t t' (commonScale l r) ids findings) components
    ⟨.refl h, candidates_nil t t _⟩ ?_).mono ?_ fun _ _ failed ↦ failed)
  · rintro component - before ids findings t₁ memory₁ ⟨reached, candidates⟩
    refine Follows.bind ((inside.since component r.id (.refl reached.renders)).mono ?_
      fun _ _ failed ↦ failed.since reached.grows)
    rintro inner finding t₂ memory₂ ⟨reached₂, grows, usable⟩
    refine Follows.last ((ends_pushLike_offer reached₂ usable ?_ differ).mono ?_
      fun _ failed ↦ failed)
    · exact ⟨fun _ ↦ rfl, fun _ ↦ ⟨rfl, rfl⟩, fun _ ↦ ⟨rfl, rfl⟩, fun _ ↦ rfl⟩
    · intro id t₃ offer
      exact ⟨offer.toReached.since reached.grows,
        candidates.append reached.grows offer.grows offer.candidates⟩
  · rintro ids findings t₁ memory₁ ⟨reached, candidates⟩
    exact Follows.last (ends_chooseOrIncongruous_made reached candidates .nil)

include differ in
theorem follows_weightedBesideSimple (h : t.Renders c memory) (base weight : SortId) :
    Follows (Rule.weightedBesideSimple c config relate l r base weight)
      (Appraisal.weightedBesideSimple c plain l r base weight) t memory (Made c t)
      (Reached c t) := by
  refine Follows.bind (follows_ask (fun weightSort _ ↦ ?_) (.refl h))
  refine Follows.bind ((inside.since _ _ (.refl h)).mono ?_ fun _ _ failed ↦ failed)
  rintro byBase finding t₁ memory₁ ⟨reached, -, usable⟩
  refine Follows.step ((ends_pushLike_offer reached usable (adjusts_diminished _) differ).mono ?_
    fun _ failed ↦ failed)
  intro first t₂ offer
  refine Follows.bind ((inside.since weight r.id (.refl offer.renders)).mono ?_
    fun _ _ failed ↦ failed.since offer.grows)
  rintro byWeight finding' t₃ memory₃ ⟨reached', grows, usable'⟩
  refine Follows.step ((ends_pushLike_offer reached' usable' (adjusts_diminished 1) differ).mono ?_
    fun _ failed ↦ failed)
  intro second t₄ offer'
  exact Follows.last (ends_chooseOrIncongruous_made (offer'.toReached.since offer.grows)
    (offer.candidates.append offer.grows offer'.grows offer'.candidates) .nil)

/-! ### Two attributes -/

/-- The alignments add up to the same, and the elements show the findings. -/
structure Aligned (u t : Matchings) (a : Rule.Alignment) (b : Appraisal.Alignment) : Prop where
  level : a.level = b.level
  grade : a.grade = b.grade
  tally : a.tally = b.tally
  elements : List.Forall₂ (Usable u t) a.elements b.elements

theorem follows_align (pairs : List (SortId × SortId)) :
    ∀ {t memory} {sofar : Rule.Alignment} {plainSofar : Appraisal.Alignment},
      Reached c u t memory → Aligned u t sofar plainSofar →
      Follows (Rule.align relate sofar pairs) (Appraisal.align plain plainSofar pairs) t memory
        (fun found finding t' memory' ↦ Reached c u t' memory' ∧
          Option.Rel (Aligned u t') found finding) (Reached c u) := by
  induction pairs with
  | nil => exact fun reached aligned ↦ Follows.pure ⟨reached, .some aligned⟩
  | cons pair pairs ih =>
    intro t memory sofar plainSofar reached aligned
    refine Follows.bind ((inside.since _ _ reached).mono ?_ fun _ _ failed ↦ failed)
    rintro element finding t₁ memory₁ ⟨reached₁, grows, usable⟩
    obtain ⟨node, parts, found, rfl, -⟩ := usable.shows.exists_node
    refine Follows.step (ends_found found ?_)
    rw [Finding.node_mk, MatchNode.level_alone]
    split_ifs
    · exact Follows.pure ⟨reached₁, .none⟩
    · refine ih reached₁ ⟨congrArg (Level.worst · _) aligned.level,
        congrArg (Grade.combine · _) aligned.grade, congrArg (Tally.add · _) aligned.tally, ?_⟩
      exact List.rel_append (forall₂_usable_later aligned.elements grows.nodes) (.cons usable .nil)

include differ in
theorem follows_rotation (h : t.Renders c memory) (leftChain rightChain : List SortId)
    (shift : Nat) :
    Follows (Rule.rotation relate l r leftChain rightChain shift)
      (Appraisal.rotation plain l r leftChain rightChain shift) t memory
      (fun id finding t' memory' ↦ Reached c t t' memory' ∧
        Candidates t t' (commonScale l r) id.toList finding.toList) (Reached c t) := by
  refine Follows.bind ((follows_align inside _ (.refl h) ⟨rfl, rfl, rfl, .nil⟩).mono ?_
    fun _ _ failed ↦ failed)
  rintro found finding t₁ memory₁ ⟨reached, aligned⟩
  cases aligned with
  | none => exact Follows.pure ⟨reached, candidates_nil t t₁ _⟩
  | @some a b aligned =>
    refine Follows.step (Ends.get ?_)
    dsimp only
    rw [map_eq_pure_bind, aligned.level, aligned.grade, aligned.tally]
    refine Follows.step ((ends_push_offer reached rfl (forall₂_telling aligned.elements)
      differ).mono (fun id t₂ offer ↦ ?_) fun _ failed ↦ failed)
    exact Follows.pure ⟨offer.toReached, offer.candidates⟩

/-- Some new match that shows some finding, or neither. -/
def MadeIf (c : Catalog) (u : Matchings) :
    Option MatchId → Option Finding → Matchings → Memory → Prop
  | some id, some finding, t, memory => Made c u id finding t memory
  | none, none, t, memory => Reached c u t memory
  | _, _, _, _ => False

include differ in
theorem follows_bestRotation (h : t.Renders c memory) :
    Follows (Rule.bestRotation c config relate l r) (Appraisal.bestRotation c plain l r) t memory
      (MadeIf c t) (Reached c t) := by
  refine Follows.bind (follows_ask (fun leftChain _ ↦ ?_) (.refl h))
  refine Follows.bind (follows_ask (fun rightChain _ ↦ ?_) (.refl h))
  split_ifs
  · exact Follows.pure (.refl h)
  refine Follows.bind ((Follows.mapM (fun _ ids findings t' memory' ↦ Reached c t t' memory' ∧
    Candidates t t' (commonScale l r) ids.reduceOption findings.reduceOption)
    (List.range leftChain.length) ⟨.refl h, candidates_nil t t _⟩ ?_).mono ?_
      fun _ _ failed ↦ failed)
  · rintro shift - before ids findings t₁ memory₁ ⟨reached, candidates⟩
    refine (follows_rotation differ inside reached.renders leftChain rightChain shift).mono ?_
      fun _ _ failed ↦ failed.since reached.grows
    rintro id finding t₂ memory₂ ⟨reached₂, more⟩
    refine ⟨reached₂.since reached.grows, ?_⟩
    rw [List.reduceOption_append, List.reduceOption_append, List.reduceOption_singleton,
      List.reduceOption_singleton]
    exact candidates.append reached.grows reached₂.grows more
  · rintro ids findings t₁ memory₁ ⟨reached, candidates⟩
    refine Follows.last ((ends_choose_finding reached.renders reached.grows candidates).mono ?_
      fun _ failed ↦ failed)
    rintro best t₂ ⟨renders, grows, -, chosen, new⟩
    generalize Finding.choose findings.reduceOption = answer at chosen
    cases chosen with
    | some shows => exact ⟨⟨renders, grows⟩, shows, new _ rfl⟩
    | none => exact ⟨renders, grows⟩

omit inside in
/-- The same half stands. -/
theorem rel_beside {baseId weightId : MatchId} {base weight : MatchNode}
    {baseParts weightParts : List Finding} (usableBase : Usable u t baseId ⟨base.alone, baseParts⟩)
    (usableWeight : Usable u t weightId ⟨weight.alone, weightParts⟩) :
    Option.Rel (fun (kept : MatchId × MatchNode) finding ↦ finding.node = kept.2.alone ∧
        Usable u t kept.1 finding) (Rule.beside (baseId, base) (weightId, weight))
      (Appraisal.beside ⟨base.alone, baseParts⟩ ⟨weight.alone, weightParts⟩) := by
  unfold Rule.beside Appraisal.beside
  rw [Finding.node_mk, Finding.node_mk, MatchNode.sentinel_alone, MatchNode.sentinel_alone,
    MatchNode.incongruous_alone, MatchNode.incongruous_alone]
  cases base.sentinel <;> cases weight.sentinel <;> dsimp only
  · exact .none
  · split_ifs
    · exact .none
    · exact .some ⟨rfl, usableBase⟩
  · split_ifs
    · exact .none
    · exact .some ⟨rfl, usableWeight⟩
  · exact .none

include differ in
omit inside in
theorem ends_halves_candidates (h : Reached c u t memory) {baseId weightId : MatchId}
    {base weight : MatchNode} {baseParts weightParts : List Finding}
    (usableBase : Usable u t baseId ⟨base.alone, baseParts⟩)
    (usableWeight : Usable u t weightId ⟨weight.alone, weightParts⟩) :
    Ends (Rule.halves l r (baseId, base) (weightId, weight)) t
      (fun ids t' ↦ Reached c u t' memory ∧ Extends t t' ∧ Candidates u t' (commonScale l r) ids
        (Appraisal.halves l r ⟨base.alone, baseParts⟩ ⟨weight.alone, weightParts⟩))
      fun _ ↦ False := by
  have pushed {node : MatchNode} {findings : List Finding} (untied : node.tiedWith = none)
      (sides : node.left = l.id ∧ node.right = r.id ∧ node.scale = commonScale l r)
      (usable : List.Forall₂ (Usable u t) node.parts findings) :
      Ends (do let id ← push node; pure [id]) t (fun ids t' ↦ Reached c u t' memory ∧ Extends t t' ∧
        Candidates u t' (commonScale l r) ids [⟨node.alone, findings⟩]) fun _ ↦ False := by
    have apart : node.left ≠ node.right := by
      rw [sides.1, sides.2.1]
      exact differ
    have offer : Offer c u node.scale ⟨t.nodes.size⟩ ⟨node.alone, findings⟩ (t.push node) memory :=
      ends_push_offer h untied usable apart
    rw [sides.2.2] at offer
    exact Ends.bind (ends_push (Ends.pure ⟨offer.toReached, extends_push node, offer.candidates⟩))
  unfold Rule.halves Appraisal.halves
  rw [Finding.node_mk, Finding.node_mk, MatchNode.incongruous_alone, MatchNode.incongruous_alone]
  split_ifs
  · refine Ends.bind (Ends.get ?_)
    exact pushed rfl ⟨rfl, rfl, rfl⟩ (forall₂_telling (.cons usableBase (.cons usableWeight .nil)))
  · have same := rel_beside usableBase usableWeight
    generalize Rule.beside (baseId, base) (weightId, weight) = kept at same
    generalize Appraisal.beside ⟨base.alone, baseParts⟩ ⟨weight.alone, weightParts⟩ =
      finding at same
    cases same with
    | none => exact Ends.pure ⟨h, Extends.refl t, candidates_nil u t _⟩
    | @some kept finding same =>
      refine Ends.bind (Ends.get ?_)
      dsimp only
      rw [same.1]
      exact pushed rfl ⟨rfl, rfl, rfl⟩ (forall₂_telling (.cons same.2 .nil))

include differ in
theorem follows_augmented (h : t.Renders c memory) (rightBase rightWeight : SortId) :
    Follows (Rule.augmented c relate l r rightBase rightWeight)
      (Appraisal.augmented c plain l r rightBase rightWeight) t memory
      (fun ids findings t' memory' ↦ Reached c t t' memory' ∧
        Candidates t t' (commonScale l r) ids findings) (Reached c t) := by
  refine Follows.bind (follows_ask (fun added _ ↦ ?_) (.refl h))
  refine Follows.bind ((inside.since _ _ (.refl h)).mono ?_ fun _ _ failed ↦ failed)
  rintro inner finding t₁ memory₁ ⟨reached, -, usable⟩
  obtain ⟨node, parts, found, rfl, -⟩ := usable.shows.exists_node
  refine Follows.step (ends_found found ?_)
  rw [Finding.node_mk, MatchNode.incongruous_alone]
  split_ifs
  · exact Follows.pure ⟨reached, candidates_nil t t₁ _⟩
  · refine Follows.step ((ends_pushLike_offer reached usable ?_ differ).mono
      (fun id t₂ offer ↦ Follows.pure ⟨offer.toReached, offer.candidates⟩) fun _ failed ↦ failed)
    exact ⟨fun _ ↦ rfl, fun _ ↦ ⟨rfl, rfl⟩, fun _ ↦ ⟨rfl, rfl⟩, fun _ ↦ rfl⟩

include differ in
theorem follows_lessened (h : t.Renders c memory) (leftBase leftWeight : SortId) :
    Follows (Rule.lessened c relate l r leftBase leftWeight)
      (Appraisal.lessened c plain l r leftBase leftWeight) t memory
      (fun ids findings t' memory' ↦ Reached c t t' memory' ∧
        Candidates t t' (commonScale l r) ids findings) (Reached c t) := by
  refine Follows.bind (follows_ask (fun removed _ ↦ ?_) (.refl h))
  refine Follows.bind ((inside.since _ _ (.refl h)).mono ?_ fun _ _ failed ↦ failed)
  rintro inner finding t₁ memory₁ ⟨reached, -, usable⟩
  obtain ⟨node, parts, found, rfl, -⟩ := usable.shows.exists_node
  refine Follows.step (ends_found found ?_)
  rw [Finding.node_mk, MatchNode.incongruous_alone]
  split_ifs
  · exact Follows.pure ⟨reached, candidates_nil t t₁ _⟩
  · refine Follows.step ((ends_pushLike_offer reached usable ?_ differ).mono
      (fun id t₂ offer ↦ Follows.pure ⟨offer.toReached, offer.candidates⟩) fun _ failed ↦ failed)
    exact ⟨fun _ ↦ rfl, fun _ ↦ ⟨rfl, rfl⟩, fun _ ↦ ⟨rfl, rfl⟩, fun _ ↦ rfl⟩

include differ in
theorem follows_weighted (h : t.Renders c memory)
    (leftBase leftWeight rightBase rightWeight : SortId) :
    Follows (Rule.weighted c config relate l r leftBase leftWeight rightBase rightWeight)
      (Appraisal.weighted c plain l r leftBase leftWeight rightBase rightWeight) t memory (Made c t)
      (Reached c t) := by
  unfold Rule.weighted Appraisal.weighted
  split_ifs
  · exact follows_equivalent (.refl h) _
  refine Follows.bind ((inside.since _ _ (.refl h)).mono ?_ fun _ _ failed ↦ failed)
  rintro baseId baseFinding t₁ memory₁ ⟨reached₁, -, usableBase⟩
  refine Follows.bind ((inside.since _ _ reached₁).mono ?_ fun _ _ failed ↦ failed)
  rintro weightId weightFinding t₂ memory₂ ⟨reached₂, grows₂, usableWeight⟩
  replace usableBase := usableBase.later grows₂.nodes
  obtain ⟨base, baseParts, foundBase, rfl, -⟩ := usableBase.shows.exists_node
  obtain ⟨weight, weightParts, foundWeight, rfl, -⟩ := usableWeight.shows.exists_node
  refine Follows.step (ends_found foundBase (Follows.step (ends_found foundWeight ?_)))
  rw [Finding.node_mk, Finding.node_mk, MatchNode.level_alone, MatchNode.level_alone]
  cases Rule.similarLevel base.level weight.level with
  | some level =>
    refine Follows.step (Ends.get ?_)
    exact follows_push reached₂ rfl (forall₂_telling (.cons usableBase (.cons usableWeight .nil)))
  | none =>
    refine Follows.bind ((follows_bestRotation differ inside reached₂.renders).mono ?_
      fun _ _ failed ↦ failed.since reached₂.grows)
    rintro rotated finding t₃ memory₃ made
    cases rotated with
    | some id =>
      cases finding with
      | some finding => exact Follows.pure (Made.since made reached₂.grows)
      | none => exact made.elim
    | none =>
      cases finding with
      | some finding => exact made.elim
      | none =>
        have reached₃ : Reached c t₂ t₃ memory₃ := made
        have usableBase₃ := usableBase.later reached₃.grows.nodes
        have usableWeight₃ := usableWeight.later reached₃.grows.nodes
        refine Follows.step ((ends_halves_candidates differ (reached₃.since reached₂.grows)
          usableBase₃ usableWeight₃).mono ?_ fun _ failed ↦ failed)
        rintro byHalves t₄ ⟨reached₄, later₄, first⟩
        refine Follows.bind ((follows_augmented differ inside reached₄.renders _ _).mono ?_
          fun _ _ failed ↦ failed.since reached₄.grows)
        rintro byRight second t₅ memory₅ ⟨reached₅, candidates₅⟩
        refine Follows.bind ((follows_lessened differ inside reached₅.renders _ _).mono ?_
          fun _ _ failed ↦ failed.since (reached₄.grows.trans reached₅.grows))
        rintro byLeft third t₆ memory₆ ⟨reached₆, candidates₆⟩
        have later : Extends t₃ t₆ := later₄.trans (reached₅.grows.trans reached₆.grows).nodes
        have grows₅ := reached₄.grows.trans reached₅.grows
        have candidates := (first.append reached₄.grows reached₅.grows candidates₅).append grows₅
          reached₆.grows candidates₆
        exact Follows.last (ends_chooseOrIncongruous_made (reached₆.since grows₅) candidates
          (.cons (usableBase₃.later later) (.cons (usableWeight₃.later later) .nil)))

/-! ### Two disjunctions -/

omit inside in
/-- What is tied behind a match is there and has its standing. -/
theorem Matchings.Orderly.exists_of_alternative (h : t.Orderly) {head : MatchId} {node : MatchNode}
    (found : t.get? head = some node) (inside : id ∈ t.alternatives head) :
    ∃ other, t.get? id = some other ∧ other.standing = node.standing := by
  have chain (bound : Nat) : ∀ passed cursor, (∀ next, cursor = some next → ∃ other,
      t.get? next = some other ∧ other.standing = node.standing) →
      id ∈ t.chainFrom head bound passed cursor →
        ∃ other, t.get? id = some other ∧ other.standing = node.standing := by
    induction bound with
    | zero => exact fun _ _ _ inside ↦ by cases inside
    | succ bound ih =>
      intro passed cursor equal inside
      cases cursor with
      | none => cases inside
      | some next =>
        rw [chainFrom] at inside
        split_ifs at inside
        · cases inside
        rcases List.mem_cons.mp inside with rfl | inside
        · exact equal _ rfl
        · refine ih _ _ (fun after tied ↦ ?_) inside
          obtain ⟨other, there, standing⟩ := equal next rfl
          rw [Matchings.next, there] at tied
          obtain ⟨last, there'⟩ := h.inside there (MatchNode.mem_links_of_tied tied)
          exact ⟨last, there', (h.tied there tied there').1.trans standing⟩
  refine chain _ _ _ (fun next tied ↦ ?_) inside
  rw [Matchings.next, found] at tied
  obtain ⟨other, there⟩ := h.inside found (MatchNode.mem_links_of_tied tied)
  exact ⟨other, there, (h.tied found tied there).1⟩

theorem follows_pairings (h : Reached c u t memory) (leftComponent rightComponent : SortId × Nat) :
    Follows (Rule.pairings relate leftComponent rightComponent)
      (Appraisal.pairing plain leftComponent rightComponent) t memory
      (fun cell plainCell t' memory' ↦ Reached c u t' memory' ∧ Grows t t' ∧
        Cell u t' cell plainCell) (Reached c u) := by
  refine Follows.bind ((inside.since _ _ h).mono ?_ fun _ _ failed ↦ failed)
  rintro head finding t₁ memory₁ ⟨reached, grows, usable⟩
  obtain ⟨node, parts, found, rfl, -⟩ := usable.shows.exists_node
  refine Follows.step (Ends.get ?_)
  dsimp only
  have there : ∀ id ∈ head :: t₁.alternatives head, ∃ other, t₁.get? id = some other ∧
      other.standing = node.standing := by
    intro id among
    rcases List.mem_cons.mp among with rfl | among
    · exact ⟨node, found, rfl⟩
    · exact reached.renders.orderly.exists_of_alternative found among
  refine Follows.last (Ends.bind ((Ends.mapM (fun before read t' ↦ t' = t₁ ∧
    List.Forall₂ (fun id (pairing : Rule.Pairing) ↦ pairing.id = id ∧
      pairing.left = leftComponent.2 ∧ pairing.right = rightComponent.2 ∧
      pairing.node.standing = node.standing ∧ t₁.get? id = some pairing.node) before read)
    (head :: t₁.alternatives head) ⟨rfl, .nil⟩ ?_).mono ?_ fun _ failed ↦ failed))
  · rintro id among before read _ ⟨rfl, same⟩
    obtain ⟨other, here, standing⟩ := there id among
    exact Ends.bind (ends_found here (Ends.pure ⟨rfl, List.rel_append same
      (.cons ⟨rfl, rfl, rfl, standing, here⟩ .nil)⟩))
  · rintro read t₂ ⟨equal, same⟩
    subst equal
    refine Ends.pure ⟨reached, grows, ?_⟩
    cases same with
    | @cons _ first _ ties here rest =>
      obtain ⟨rfl, left, right, -, found'⟩ := here
      rw [found] at found'
      obtain rfl := Option.some.inj found'
      have tied : ∀ tie ∈ ties, SameCell first tie ∧ tie.node.standing = first.node.standing := by
        intro tie among
        obtain ⟨_, -, -, left', right', standing, -⟩ := exists_of_forall₂ rest among
        exact ⟨⟨left.trans left'.symm, right.trans right'.symm⟩, standing⟩
      have alike : ∀ pairing ∈ first :: ties,
          pairing.node.incongruous = first.node.incongruous := by
        intro pairing among
        rcases List.mem_cons.mp among with rfl | among
        · rfl
        · exact MatchNode.incongruous_congr (tied pairing among).2
      rw [Finding.node_mk, MatchNode.incongruous_alone]
      split_ifs with apart
      · refine Or.inl ⟨List.filter_eq_nil_iff.mpr fun pairing among ↦ ?_, rfl⟩
        rw [alike pairing among, apart]
        decide
      · refine Or.inr ⟨first, ties, _, List.filter_eq_self.mpr fun pairing among ↦ ?_, rfl,
          ⟨left, right, usable, rfl⟩, tied⟩
        rw [alike pairing among]
        simpa using apart

theorem follows_allPairings (h : t.Renders c memory)
    (leftComponents rightComponents : List SortId) :
    Follows (Rule.allPairings relate leftComponents rightComponents)
      (Appraisal.allPairings plain leftComponents rightComponents) t memory
      (fun found plainFound t' memory' ↦ Reached c t t' memory' ∧ ∃ cells plainCells,
        List.Forall₂ (Cell t t') cells plainCells ∧ found = cells.flatten ∧
          plainFound = plainCells.flatten) (Reached c t) := by
  refine Follows.bind ((Follows.mapM (fun _ rows plainRows t' memory' ↦ Reached c t t' memory' ∧
    ∃ cells plainCells, List.Forall₂ (Cell t t') cells plainCells ∧ rows.flatten = cells.flatten ∧
      plainRows.flatten = plainCells.flatten) leftComponents.zipIdx
    ⟨.refl h, [], [], .nil, rfl, rfl⟩ ?_).mono ?_ fun _ _ failed ↦ failed)
  · rintro leftComponent - before rows plainRows t₁ memory₁
      ⟨reached, cells, plainCells, same, eq, eq'⟩
    refine Follows.bind ((Follows.mapM (fun _ row plainRow t' memory' ↦ Reached c t t' memory' ∧
      Grows t₁ t' ∧ List.Forall₂ (Cell t t') row plainRow) rightComponents.zipIdx
      ⟨reached, .refl t₁, .nil⟩ ?_).mono ?_ fun _ _ failed ↦ failed)
    · rintro rightComponent - before row plainRow t₂ memory₂ ⟨reached₂, grows₂, same₂⟩
      refine (follows_pairings inside reached₂ leftComponent rightComponent).mono ?_
        fun _ _ failed ↦ failed
      rintro cell plainCell t₃ memory₃ ⟨reached₃, grows₃, here⟩
      exact ⟨reached₃, grows₂.trans grows₃, List.rel_append
        (same₂.imp fun _ _ cell ↦ cell.later grows₃.nodes) (.cons here .nil)⟩
    · rintro row plainRow t₂ memory₂ ⟨reached₂, grows₂, same₂⟩
      refine Follows.pure ⟨reached₂, cells ++ row, plainCells ++ plainRow, ?_, ?_, ?_⟩
      · exact List.rel_append (same.imp fun _ _ cell ↦ cell.later grows₂.nodes) same₂
      · rw [List.flatten_append, List.flatten_append, eq, List.flatten_singleton]
      · rw [List.flatten_append, List.flatten_append, eq', List.flatten_singleton]
  · rintro rows plainRows t₁ memory₁ ⟨reached, cells, plainCells, same, eq, eq'⟩
    exact Follows.pure ⟨reached, cells, plainCells, same, eq, eq'⟩

omit inside in
/-- Lists that correspond are mapped to one list when each two elements are mapped to one. -/
theorem map_eq_of_forall₂ {α β γ : Type} {related : α → β → Prop} {xs : List α} {ys : List β}
    {f : α → γ} {g : β → γ} (h : List.Forall₂ related xs ys)
    (each : ∀ x y, related x y → f x = g y) : xs.map f = ys.map g := by
  induction h with
  | nil => rfl
  | cons first _ ih => rw [List.map_cons, List.map_cons, each _ _ first, ih]

theorem follows_composition (h : t.Renders c memory)
    (leftComponents rightComponents : List SortId) :
    Follows (Rule.composition relate l r leftComponents rightComponents)
      (Appraisal.composition plain l r leftComponents rightComponents) t memory (Made c t)
      (Reached c t) := by
  unfold Rule.composition Appraisal.composition
  split_ifs
  · exact follows_equivalent (.refl h) _
  refine Follows.bind ((follows_allPairings inside h _ _).mono ?_ fun _ _ failed ↦ failed)
  rintro _ _ t₁ memory₁ ⟨reached, cells, plainCells, same, rfl, rfl⟩
  have taken := forall₂_accept same
  dsimp only
  generalize Rule.accept cells.flatten = accepted at taken
  generalize Appraisal.accept plainCells.flatten = plainAccepted at taken
  have empty : accepted.isEmpty = plainAccepted.isEmpty := by cases taken <;> rfl
  rw [empty]
  split_ifs
  · exact follows_incongruous reached .nil
  · refine Follows.step (Ends.get ?_)
    have usable : List.Forall₂ (Usable t t₁) (accepted.map Rule.Pairing.id)
        (plainAccepted.map Appraisal.Pairing.finding) :=
      List.forall₂_map_left_iff.mpr (List.forall₂_map_right_iff.mpr
        (taken.imp fun _ _ pairs ↦ pairs.usable))
    have same {α : Type} (read : MatchNode → α)
      (only : ∀ node : MatchNode, read node.alone = read node) :
        accepted.map (read ·.node) = plainAccepted.map (read ·.finding.node) :=
      map_eq_of_forall₂ taken fun a _ pairs ↦ (only a.node).symm.trans (congrArg read pairs.node)
    unfold Appraisal.combined
    rw [same _ MatchNode.level_alone, same MatchNode.tally fun _ ↦ rfl,
      same MatchNode.grade fun _ ↦ rfl, map_eq_of_forall₂ taken fun _ _ pairs ↦ pairs.left,
      map_eq_of_forall₂ taken fun _ _ pairs ↦ pairs.right]
    exact follows_push reached rfl (forall₂_telling usable)

end

end CompositeSorts
