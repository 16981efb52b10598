import CompositeSorts.Proofs.Catalog.Common
import CompositeSorts.Proofs.Matching.Findings
import Mathlib.Data.List.ReduceOption

/-!
Grounds of findings. Matching in terms of findings is never refused at rest, unless exactly one of
the sorts is an aspects tuple, and it never says that sorts correspond which have no ground in
common. Both are shown together, rule by rule, from the same of the matching of the sorts inside: a
rule looks only at sorts that its sorts lead to, and says that they correspond only if some of those
do, or if their texts or categories are the same. A memory is *attested* when every finding in it
has been made of live sorts, both or none of them tuples, that have a ground in common unless it
says that they are incongruous.
-/

set_option autoImplicit false
set_option relaxedAutoImplicit false

namespace CompositeSorts

open Catalog Matching

variable {c : Catalog} {memory : Memory} {plain : Appraiser} {left right : SortId}
  {l r : SortRecord} {finding : Finding} {findings : List Finding}

namespace Level

theorem congruous_of_lifted {level : Level} (h : level.lifted ≠ incongruous) :
    level ≠ incongruous := by
  rintro rfl
  exact h rfl

theorem congruous_of_atLeast {level floor : Level} (h : level.atLeast floor ≠ incongruous) :
    level ≠ incongruous := by
  rintro rfl
  cases floor <;> exact h rfl

theorem congruous_of_rank {level : Level} {bound : Nat} (h : level.rank ≤ bound)
    (low : bound < incongruous.rank) : level ≠ incongruous := by
  rintro rfl
  exact absurd low (Nat.not_lt.mpr h)

end Level

theorem MatchNode.incongruous_iff {node : MatchNode} :
    node.incongruous = true ↔ node.level = .incongruous := decide_eq_true_iff

/-- Both sorts are live, and both or none of them are aspects tuples. -/
def Catalog.Relatable (c : Catalog) (left right : SortId) : Prop :=
  ∃ l r, c.get left = .ok l ∧ c.get right = .ok r ∧ (l.variant = .aspects ↔ r.variant = .aspects)

theorem Catalog.Relatable.symm (h : c.Relatable left right) : c.Relatable right left := by
  obtain ⟨l, r, foundLeft, foundRight, kinds⟩ := h
  exact ⟨r, l, foundRight, foundLeft, kinds.symm⟩

theorem Catalog.relatable_of_operands (isLeft : Op.Operand c left) (isRight : Op.Operand c right) :
    c.Relatable left right := by
  obtain ⟨l, foundLeft, plainLeft⟩ := isLeft
  obtain ⟨r, foundRight, plainRight⟩ := isRight
  exact ⟨l, r, foundLeft, foundRight, iff_of_false plainLeft plainRight⟩

/-- The finding is about these sorts, and unless it says that they are incongruous, they have a
ground in common. -/
structure Finding.Sound (c : Catalog) (l r : SortRecord) (finding : Finding) : Prop where
  left : finding.node.left = l.id
  right : finding.node.right = r.id
  grounds : finding.node.level ≠ .incongruous → c.Grounded l.id r.id

/-- Every finding was made of live sorts of its displays, both or none of them tuples, which have a
ground in common unless it says that they are incongruous. -/
def Memory.Attested (c : Catalog) (memory : Memory) : Prop :=
  ∀ (key : PairKey) (finding : Finding), memory.known key = some finding →
    ∃ l r, c.get finding.node.left = .ok l ∧ c.get finding.node.right = .ok r ∧
      key = ⟨l.display, r.display⟩ ∧ (l.variant = .aspects ↔ r.variant = .aspects) ∧
      (finding.node.level ≠ .incongruous → c.Grounded finding.node.left finding.node.right)

/-- Sorts that can be matched are, and they have a ground in common unless they are incongruous. -/
abbrev Grounding (c : Catalog) (plain : Appraiser) : Prop :=
  ∀ left right memory, c.Relatable left right → memory.Attested c →
    Ends (plain left right) memory (fun finding memory' ↦ memory'.Attested c ∧
      (finding.node.level ≠ .incongruous → c.Grounded left right)) fun _ ↦ False

/-- A rule has made a sound finding. -/
abbrev Judged (c : Catalog) (l r : SortRecord) (finding : Finding) (memory : Memory) : Prop :=
  memory.Attested c ∧ finding.Sound c l r

namespace Finding

theorem sound_incongruous (parts : List Finding) : (incongruous l r parts).Sound c l r :=
  ⟨rfl, rfl, fun apart ↦ absurd rfl apart⟩

/-- An adjustment that leaves the sides alone and makes no sorts correspond. -/
def Modest (adjust : MatchNode → MatchNode) : Prop :=
  ∀ node, (adjust node).left = node.left ∧ (adjust node).right = node.right ∧
    ((adjust node).level ≠ .incongruous → node.level ≠ .incongruous)

theorem modest_atLeast (floor : Level) (grade : MatchNode → Grade) (tally : MatchNode → Tally) :
    Modest fun node ↦ { node with
      level := node.level.atLeast floor, grade := grade node, tally := tally node } :=
  fun _ ↦ ⟨rfl, rfl, Level.congruous_of_atLeast⟩

theorem sound_like {inner : Finding} {adjust : MatchNode → MatchNode} (modest : Modest adjust)
    (grounds : inner.node.level ≠ .incongruous → c.Grounded l.id r.id) :
    (like l r inner adjust).Sound c l r := by
  have kept := modest (Matching.node l r inner.node.level.lifted inner.node.grade
    inner.node.tally [])
  exact ⟨kept.1, kept.2.1, fun close ↦ grounds (Level.congruous_of_lifted (kept.2.2 close))⟩

/-- What is chosen is one of the candidates. -/
theorem mem_of_choose (chosen : choose findings = some finding) : finding ∈ findings := by
  cases findings with
  | nil => cases chosen
  | cons first others =>
    obtain rfl := Option.some.inj chosen
    induction others generalizing first with
    | nil => exact List.mem_cons_self
    | cons next others ih =>
      rw [List.foldl_cons]
      rcases List.mem_cons.mp (ih (better first next) rfl) with same | inside
      · rw [same]
        unfold better
        split_ifs
        · exact List.mem_cons_of_mem _ List.mem_cons_self
        · exact List.mem_cons_self
      · exact List.mem_cons_of_mem _ (List.mem_cons_of_mem _ inside)

theorem sound_chooseOrIncongruous {parts : List Finding}
    (each : ∀ finding ∈ findings, finding.Sound c l r) :
    (chooseOrIncongruous l r findings parts).Sound c l r := by
  unfold chooseOrIncongruous
  cases chosen : choose findings with
  | none => exact sound_incongruous parts
  | some finding => exact each finding (mem_of_choose chosen)

end Finding

namespace Appraisal

open Finding

theorem ends_ask {α : Type} {answer : Except Refusal α} {value : α} {post : α → Memory → Prop}
    {fault : Memory → Prop} (answered : answer = .ok value) (h : post value memory) :
    Ends (ask answer) memory post fault := by
  unfold Ends ask
  rw [answered]
  exact h

section

variable (isLeft : c.get l.id = .ok l) (isRight : c.get r.id = .ok r)

/-! ### Rules of one step -/

section

include isLeft isRight

theorem sound_of_kindred (kindred : l.Kindred r) (left : finding.node.left = l.id)
    (right : finding.node.right = r.id) : finding.Sound c l r :=
  ⟨left, right, fun _ ↦ .of_kindred isLeft isRight kindred⟩

theorem sound_equivalent (same : l.canonical = r.canonical) (tally : Tally) :
    (Finding.equivalent l r tally).Sound c l r :=
  sound_of_kindred isLeft isRight (Or.inl same) rfl rfl

theorem sound_primitives {leftTag rightTag : String} {argument argument' : Option Argument}
    (left : l.body = .primitive leftTag argument) (right : r.body = .primitive rightTag argument') :
    (primitives l r leftTag rightTag).Sound c l r := by
  unfold primitives
  split_ifs with same alike
  · exact sound_equivalent isLeft isRight same _
  · subst alike
    exact sound_of_kindred isLeft isRight
      (Or.inr ⟨leftTag, argument, argument', left, right⟩) rfl rfl
  · exact sound_incongruous []

theorem sound_tuples : (tuples l r).Sound c l r := by
  unfold tuples
  split_ifs with same
  · exact sound_equivalent isLeft isRight same _
  · exact sound_incongruous []

end

/-! ### Rules that look inside -/

variable (rested : c.Rested) (inside : Grounding c plain) (attested : memory.Attested c)

include inside attested

theorem judged_exchanged (relatable : c.Relatable l.id r.id) :
    Ends (exchanged plain l r) memory (Judged c l r) fun _ ↦ False := by
  refine Ends.bind ((inside _ _ memory relatable.symm attested).mono (fun forward later h ↦ ?_)
    fun _ failed ↦ failed)
  exact Ends.pure ⟨h.1, rfl, rfl, fun close ↦ (h.2 close).symm⟩

include rested isLeft isRight

theorem judged_aspects {leftOwner rightOwner : SortId} {leftPosition rightPosition : Nat}
    (left : l.body = .aspect leftOwner leftPosition)
    (right : r.body = .aspect rightOwner rightPosition) :
    Ends (aspects c plain l r leftOwner rightOwner leftPosition rightPosition) memory (Judged c l r)
      fun _ ↦ False := by
  obtain ⟨⟨leftTuple, ownedLeft, isTuple⟩, leftArgument, linkedLeft, plainLeft⟩ :=
    rested.exists_argument isLeft left
  obtain ⟨⟨rightTuple, ownedRight, isTuple'⟩, rightArgument, linkedRight, plainRight⟩ :=
    rested.exists_argument isRight right
  have owners : c.Relatable leftOwner rightOwner :=
    ⟨leftTuple, rightTuple, ownedLeft, ownedRight, iff_of_true isTuple isTuple'⟩
  refine Ends.bind ((inside _ _ memory owners attested).mono (fun found later h ↦ ?_)
    fun _ failed ↦ failed)
  split_ifs with apart same
  · exact Ends.pure ⟨h.1, sound_incongruous _⟩
  · refine Ends.pure ⟨h.1, rfl, rfl, fun _ ↦ (h.2 ?_).behind (.single (.owner isLeft left))
      (.single (.owner isRight right))⟩
    exact Level.congruous_of_rank (Nat.le_of_not_lt apart) (by decide)
  · refine Ends.bind (ends_ask linkedLeft (Ends.bind (ends_ask linkedRight ?_)))
    refine Ends.bind ((inside _ _ later (relatable_of_operands plainLeft plainRight) h.1).mono
      (fun found' later' h' ↦ ?_) fun _ failed ↦ failed)
    split_ifs
    · exact Ends.pure ⟨h'.1, sound_incongruous _⟩
    · refine Ends.pure ⟨h'.1, sound_like (modest_atLeast _ (fun node ↦ node.grade) _)
        fun close ↦ ?_⟩
      exact (h'.2 close).behind (.single (.argument linkedLeft)) (.single (.argument linkedRight))

theorem judged_recursive {target : Option SortId} (left : l.body = .recursive target)
    (operand : Op.Operand c r.id) :
    Ends (recursive plain l r target) memory (Judged c l r) fun _ ↦ False := by
  unfold recursive
  cases target with
  | none => exact absurd left (rested.bound isLeft)
  | some instanceId =>
    dsimp only
    split_ifs with same
    · exact Ends.pure ⟨attested, sound_equivalent isLeft isRight same _⟩
    all_goals
      refine Ends.bind ((inside _ _ memory (relatable_of_operands
        (rested.operand_instance isLeft left) operand) attested).mono (fun found later h ↦ ?_)
        fun _ failed ↦ failed)
      exact Ends.pure ⟨h.1, rfl, rfl, fun close ↦ (h.2 (Level.congruous_of_lifted close)).behind
        (.single (.instance isLeft left)) .refl⟩

omit isRight in
theorem judged_disjunction {components : List SortId} (left : l.body = .disjunctive components)
    (operand : Op.Operand c r.id) :
    Ends (disjunction plain l r components) memory (Judged c l r) fun _ ↦ False := by
  refine Ends.bind ((Ends.mapM (fun _ findings later ↦ later.Attested c ∧
    ∀ finding ∈ findings, finding.Sound c l r) components ⟨attested, by simp⟩ ?_).mono ?_
      fun _ failed ↦ failed)
  · rintro component among before findings later ⟨attested, each⟩
    refine Ends.bind ((inside _ _ later (relatable_of_operands
      (rested.operand_component isLeft left among) operand) attested).mono (fun found later' h ↦ ?_)
      fun _ failed ↦ failed)
    refine Ends.pure ⟨h.1, fun finding here ↦ ?_⟩
    rcases List.mem_append.mp here with here | here
    · exact each finding here
    · obtain rfl := List.mem_singleton.mp here
      exact sound_like (fun _ ↦ ⟨rfl, rfl, fun close ↦ close⟩) fun close ↦
        (h.2 close).behind (.single (.component isLeft left among)) .refl
  · rintro findings later ⟨attested, each⟩
    exact Ends.pure ⟨attested, sound_chooseOrIncongruous each⟩

omit isRight in
theorem judged_weightedBesideSimple {base weight : SortId} (left : l.body = .weighted base weight)
    (operand : Op.Operand c r.id) :
    Ends (weightedBesideSimple c plain l r base weight) memory (Judged c l r) fun _ ↦ False := by
  have isBase := rested.operand_base isLeft left
  have isWeight := rested.operand_weight isLeft left
  obtain ⟨record, foundWeight, -⟩ := id isWeight
  refine Ends.bind (ends_ask foundWeight ?_)
  refine Ends.bind ((inside _ _ memory (relatable_of_operands isBase operand) attested).mono
    (fun byBase later h ↦ ?_) fun _ failed ↦ failed)
  refine Ends.bind ((inside _ _ later (relatable_of_operands isWeight operand) h.1).mono
    (fun byWeight later' h' ↦ ?_) fun _ failed ↦ failed)
  refine Ends.pure ⟨h'.1, sound_chooseOrIncongruous fun finding here ↦ ?_⟩
  rcases List.mem_cons.mp here with rfl | here
  · exact sound_like (modest_atLeast _ _ _) fun close ↦
      (h.2 close).behind (.single (.base isLeft left)) .refl
  · obtain rfl := List.mem_singleton.mp here
    exact sound_like (modest_atLeast _ _ _) fun close ↦
      (h'.2 close).behind (.single (.weight isLeft left)) .refl

/-! ### Two attributes -/

omit isLeft isRight rested in
/-- Chains that are aligned have grounds in common, pair by pair. -/
theorem ends_align (pairs : List (SortId × SortId))
    (relatable : ∀ pair ∈ pairs, c.Relatable pair.1 pair.2) (sofar : Alignment) :
    Ends (align plain sofar pairs) memory (fun found later ↦ later.Attested c ∧
      (found.isSome → ∀ pair ∈ pairs, c.Grounded pair.1 pair.2)) fun _ ↦ False := by
  induction pairs generalizing memory sofar with
  | nil => exact Ends.pure ⟨attested, fun _ _ none ↦ by cases none⟩
  | cons pair pairs ih =>
    refine Ends.bind ((inside _ _ memory (relatable pair List.mem_cons_self) attested).mono
      (fun element later h ↦ ?_) fun _ failed ↦ failed)
    split_ifs with apart
    · exact Ends.pure ⟨h.1, fun some ↦ by cases some⟩
    · refine (ih h.1 (fun other among ↦ relatable other (List.mem_cons_of_mem _ among)) _).mono
        (fun found later' h' ↦ ⟨h'.1, fun some other among ↦ ?_⟩) fun _ failed ↦ failed
      rcases List.mem_cons.mp among with rfl | among
      · exact h.2 (Level.congruous_of_rank (Nat.le_of_not_lt apart) (by decide))
      · exact h'.2 some other among

/-- The spine of the sort, in which no sort is an aspects tuple. -/
abbrev Walked (c : Catalog) (id : SortId) (chain : List SortId) : Prop :=
  c.spine id = .ok chain ∧ ∀ part ∈ chain, Op.Operand c part

omit isLeft isRight rested in
theorem ends_rotation {leftChain rightChain : List SortId} (left : Walked c l.id leftChain)
    (right : Walked c r.id rightChain) (several : 2 ≤ leftChain.length)
    (length : leftChain.length = rightChain.length) (shift : Nat) :
    Ends (rotation plain l r leftChain rightChain shift) memory (fun found later ↦
      later.Attested c ∧ ∀ finding ∈ found, finding.Sound c l r) fun _ ↦ False := by
  have sides : ∀ pair ∈ (leftChain.rotateLeft shift).zip rightChain,
      pair.1 ∈ leftChain ∧ pair.2 ∈ rightChain := fun pair among ↦
    ⟨mem_rotateLeft_iff.mp (List.of_mem_zip among).1, (List.of_mem_zip among).2⟩
  have first : ∃ pair, pair ∈ (leftChain.rotateLeft shift).zip rightChain := by
    obtain ⟨a, inside⟩ := List.exists_mem_of_length_pos (Nat.lt_of_lt_of_le Nat.two_pos several)
    obtain ⟨b, inside'⟩ := List.exists_mem_of_length_pos
      (length ▸ Nat.lt_of_lt_of_le Nat.two_pos several)
    obtain ⟨x, xs, rotated⟩ := List.exists_cons_of_ne_nil
      (List.ne_nil_of_mem (mem_rotateLeft_iff.mpr inside))
    obtain ⟨y, ys, rfl⟩ := List.exists_cons_of_ne_nil (List.ne_nil_of_mem inside')
    exact ⟨(x, y), by rw [rotated]; exact List.mem_cons_self⟩
  refine Ends.bind ((ends_align inside attested _ (fun pair among ↦ relatable_of_operands
    (left.2 _ (sides pair among).1) (right.2 _ (sides pair among).2)) _).mono
    (fun aligned later h ↦ ?_) fun _ failed ↦ failed)
  refine Ends.pure ⟨h.1, fun finding made ↦ ?_⟩
  obtain ⟨found, rfl, rfl⟩ := Option.map_eq_some_iff.mp made
  obtain ⟨pair, among⟩ := first
  exact ⟨rfl, rfl, fun _ ↦ (h.2 rfl pair among).behind
    (reaches_of_spine left.1 (sides pair among).1)
    (reaches_of_spine right.1 (sides pair among).2)⟩

omit isLeft isRight in
theorem ends_bestRotation (left : Op.Operand c l.id) (right : Op.Operand c r.id) :
    Ends (bestRotation c plain l r) memory (fun found later ↦
      later.Attested c ∧ ∀ finding ∈ found, finding.Sound c l r) fun _ ↦ False := by
  obtain ⟨leftChain, walkedLeft⟩ := rested.exists_spine left
  obtain ⟨rightChain, walkedRight⟩ := rested.exists_spine right
  refine Ends.bind (ends_ask walkedLeft.1 (Ends.bind (ends_ask walkedRight.1 ?_)))
  split_ifs with unlike
  · exact Ends.pure ⟨attested, fun _ none ↦ by cases none⟩
  obtain ⟨several, length⟩ := not_or.mp unlike
  refine Ends.bind ((Ends.mapM (fun _ findings later ↦ later.Attested c ∧
    ∀ finding ∈ findings.reduceOption, finding.Sound c l r) (List.range leftChain.length)
    ⟨attested, by simp⟩ ?_).mono ?_ fun _ failed ↦ failed)
  · rintro shift - before findings later ⟨attested, each⟩
    refine (ends_rotation inside attested walkedLeft walkedRight (Nat.le_of_not_lt several)
      (not_not.mp length) shift).mono (fun found later' h ↦ ⟨h.1, fun finding here ↦ ?_⟩)
      fun _ failed ↦ failed
    rw [List.reduceOption_append, List.reduceOption_singleton] at here
    exact (List.mem_append.mp here).elim (each finding)
      fun here ↦ h.2 finding (Option.mem_toList.mp here)
  · rintro findings later ⟨attested, each⟩
    exact Ends.pure ⟨attested, fun finding chosen ↦ each finding (mem_of_choose chosen)⟩

omit isLeft isRight rested inside attested in
/-- The half that stands beside a match under way is one of the two, and not incongruous. -/
theorem eq_of_beside {base weight kept : Finding} (h : beside base weight = some kept) :
    (kept = base ∨ kept = weight) ∧ kept.node.level ≠ .incongruous := by
  unfold beside at h
  split at h
  · split_ifs at h with apart
    cases h
    exact ⟨Or.inl rfl, mt MatchNode.incongruous_iff.mpr apart⟩
  · split_ifs at h with apart
    cases h
    exact ⟨Or.inr rfl, mt MatchNode.incongruous_iff.mpr apart⟩
  · cases h

omit isLeft isRight rested inside attested in
/-- Where a half corresponds, the sorts have a ground in common. -/
theorem sound_halves {base weight : Finding}
    (byBase : base.node.level ≠ .incongruous → c.Grounded l.id r.id)
    (byWeight : weight.node.level ≠ .incongruous → c.Grounded l.id r.id) :
    ∀ finding ∈ halves l r base weight, finding.Sound c l r := by
  intro finding here
  unfold halves at here
  split_ifs at here with both
  · obtain rfl := List.mem_singleton.mp here
    rw [Bool.and_eq_true, Bool.not_eq_true'] at both
    refine ⟨rfl, rfl, fun _ ↦ byBase fun apart ↦ ?_⟩
    rw [MatchNode.incongruous_iff.mpr apart] at both
    cases both.1
  · split at here
    · cases here
    · rename_i kept found
      obtain rfl := List.mem_singleton.mp here
      obtain ⟨rfl | rfl, close⟩ := eq_of_beside found
      · exact ⟨rfl, rfl, fun _ ↦ byBase close⟩
      · exact ⟨rfl, rfl, fun _ ↦ byWeight close⟩

omit isLeft in
theorem ends_augmented {rightBase rightWeight : SortId} (left : Op.Operand c l.id)
    (right : r.body = .weighted rightBase rightWeight) :
    Ends (augmented c plain l r rightBase rightWeight) memory (fun found later ↦
      later.Attested c ∧ ∀ finding ∈ found, finding.Sound c l r) fun _ ↦ False := by
  obtain ⟨record, foundBase, -⟩ := rested.operand_base isRight right
  refine Ends.bind (ends_ask foundBase ?_)
  refine Ends.bind ((inside _ _ memory (relatable_of_operands left
    (rested.operand_weight isRight right)) attested).mono (fun inner later h ↦ ?_)
    fun _ failed ↦ failed)
  split_ifs
  · exact Ends.pure ⟨h.1, by simp⟩
  · refine Ends.pure ⟨h.1, fun finding here ↦ ?_⟩
    obtain rfl := List.mem_singleton.mp here
    exact sound_like (modest_atLeast _ _ _) fun close ↦
      (h.2 close).behind .refl (.single (.weight isRight right))

omit isRight in
theorem ends_lessened {leftBase leftWeight : SortId} (left : l.body = .weighted leftBase leftWeight)
    (right : Op.Operand c r.id) :
    Ends (lessened c plain l r leftBase leftWeight) memory (fun found later ↦
      later.Attested c ∧ ∀ finding ∈ found, finding.Sound c l r) fun _ ↦ False := by
  obtain ⟨record, foundBase, -⟩ := rested.operand_base isLeft left
  refine Ends.bind (ends_ask foundBase ?_)
  refine Ends.bind ((inside _ _ memory (relatable_of_operands
    (rested.operand_weight isLeft left) right) attested).mono (fun inner later h ↦ ?_)
    fun _ failed ↦ failed)
  split_ifs
  · exact Ends.pure ⟨h.1, by simp⟩
  · refine Ends.pure ⟨h.1, fun finding here ↦ ?_⟩
    obtain rfl := List.mem_singleton.mp here
    exact sound_like (modest_atLeast _ _ _) fun close ↦
      (h.2 close).behind (.single (.weight isLeft left)) .refl

omit isLeft isRight rested inside attested in
theorem rank_le_of_similarLevel {base weight level : Level}
    (similar : Rule.similarLevel base weight = some level) : base.rank ≤ 2 := by
  by_contra far
  rw [Rule.similarLevel, if_neg fun close ↦ far close.1] at similar
  cases similar

theorem judged_weighted {leftBase leftWeight rightBase rightWeight : SortId}
    (left : l.body = .weighted leftBase leftWeight)
    (right : r.body = .weighted rightBase rightWeight) :
    Ends (weighted c plain l r leftBase leftWeight rightBase rightWeight) memory (Judged c l r)
      fun _ ↦ False := by
  have operandLeft : Op.Operand c l.id :=
    ⟨l, isLeft, by rw [SortRecord.variant, left]; simp [Body.variant]⟩
  have operandRight : Op.Operand c r.id :=
    ⟨r, isRight, by rw [SortRecord.variant, right]; simp [Body.variant]⟩
  unfold weighted
  split_ifs with same
  · exact Ends.pure ⟨attested, sound_equivalent isLeft isRight same _⟩
  refine Ends.bind ((inside _ _ memory (relatable_of_operands (rested.operand_base isLeft left)
    (rested.operand_base isRight right)) attested).mono (fun base later₁ byBase ↦ ?_)
    fun _ failed ↦ failed)
  refine Ends.bind ((inside _ _ later₁ (relatable_of_operands (rested.operand_weight isLeft left)
    (rested.operand_weight isRight right)) byBase.1).mono (fun weight later₂ byWeight ↦ ?_)
    fun _ failed ↦ failed)
  have groundsBase (close : base.node.level ≠ .incongruous) : c.Grounded l.id r.id :=
    (byBase.2 close).behind (.single (.base isLeft left)) (.single (.base isRight right))
  have groundsWeight (close : weight.node.level ≠ .incongruous) : c.Grounded l.id r.id :=
    (byWeight.2 close).behind (.single (.weight isLeft left)) (.single (.weight isRight right))
  split
  · rename_i level similar
    refine Ends.pure ⟨byWeight.1, rfl, rfl, fun _ ↦ groundsBase ?_⟩
    exact Level.congruous_of_rank (rank_le_of_similarLevel similar) (by decide)
  · refine Ends.bind ((ends_bestRotation rested inside byWeight.1 operandLeft operandRight).mono
      (fun rotated later₃ h₃ ↦ ?_) fun _ failed ↦ failed)
    split
    · exact Ends.pure ⟨h₃.1, h₃.2 _ rfl⟩
    · refine Ends.bind ((ends_augmented isRight rested inside h₃.1 operandLeft right).mono
        (fun byRight later₄ h₄ ↦ ?_) fun _ failed ↦ failed)
      refine Ends.bind ((ends_lessened isLeft rested inside h₄.1 left operandRight).mono
        (fun byLeft later₅ h₅ ↦ ?_) fun _ failed ↦ failed)
      refine Ends.pure ⟨h₅.1, sound_chooseOrIncongruous fun finding here ↦ ?_⟩
      rcases List.mem_append.mp here with here | here
      · rcases List.mem_append.mp here with here | here
        · exact sound_halves groundsBase groundsWeight finding here
        · exact h₄.2 finding here
      · exact h₅.2 finding here

/-! ### Two disjunctions -/

/-- Where components are paired, the sorts have a ground in common. -/
theorem ends_allPairings {leftComponents rightComponents : List SortId}
    (left : l.body = .disjunctive leftComponents) (right : r.body = .disjunctive rightComponents) :
    Ends (allPairings plain leftComponents rightComponents) memory (fun found later ↦
      later.Attested c ∧ (found ≠ [] → c.Grounded l.id r.id)) fun _ ↦ False := by
  refine Ends.bind ((Ends.mapM (fun _ rows later ↦ later.Attested c ∧
    (rows.flatten ≠ [] → c.Grounded l.id r.id)) leftComponents.zipIdx
    ⟨attested, fun some ↦ absurd rfl some⟩ ?_).mono (fun _ _ h ↦ Ends.pure h) fun _ failed ↦ failed)
  rintro leftComponent amongLeft before rows later ⟨attested, grounds⟩
  have isLeft' := List.fst_mem_of_mem_zipIdx amongLeft
  refine Ends.bind ((Ends.mapM (fun _ row later ↦ later.Attested c ∧
    (row.flatten ≠ [] → c.Grounded l.id r.id)) rightComponents.zipIdx
    ⟨attested, fun some ↦ absurd rfl some⟩ ?_).mono ?_ fun _ failed ↦ failed)
  · rintro rightComponent amongRight before row later ⟨attested, grounds⟩
    have isRight' := List.fst_mem_of_mem_zipIdx amongRight
    refine Ends.bind ((inside _ _ later (relatable_of_operands
      (rested.operand_component isLeft left isLeft')
      (rested.operand_component isRight right isRight')) attested).mono (fun found later' h ↦ ?_)
      fun _ failed ↦ failed)
    refine Ends.pure ⟨h.1, fun some ↦ ?_⟩
    rw [List.flatten_append, List.flatten_singleton] at some
    by_cases before : row.flatten = []
    · rw [before, List.nil_append] at some
      split_ifs at some with apart
      · exact absurd rfl some
      · exact (h.2 (mt MatchNode.incongruous_iff.mpr apart)).behind
          (.single (.component isLeft left isLeft')) (.single (.component isRight right isRight'))
    · exact grounds before
  · rintro row later' ⟨attested', grounds'⟩
    refine Ends.pure ⟨attested', fun some ↦ ?_⟩
    rw [List.flatten_append, List.flatten_singleton] at some
    by_cases before : rows.flatten = []
    · rw [before, List.nil_append] at some
      exact grounds' some
    · exact grounds before

theorem judged_composition {leftComponents rightComponents : List SortId}
    (left : l.body = .disjunctive leftComponents) (right : r.body = .disjunctive rightComponents) :
    Ends (composition plain l r leftComponents rightComponents) memory (Judged c l r)
      fun _ ↦ False := by
  unfold composition
  split_ifs with same
  · exact Ends.pure ⟨attested, sound_equivalent isLeft isRight same _⟩
  refine Ends.bind ((ends_allPairings isLeft isRight rested inside attested left right).mono
    (fun found later h ↦ ?_) fun _ failed ↦ failed)
  refine Ends.pure ⟨h.1, ?_⟩
  split_ifs with none
  · exact sound_incongruous []
  · refine ⟨rfl, rfl, fun _ ↦ h.2 ?_⟩
    rintro rfl
    exact none (by simp [accept, takeFree])

/-! ### Any two sorts -/

theorem judged_forVariants (kinds : l.variant = .aspects ↔ r.variant = .aspects) :
    Ends (forVariants c plain l r) memory (Judged c l r) fun _ ↦ False := by
  have relatable : c.Relatable l.id r.id := ⟨l, r, isLeft, isRight, kinds⟩
  unfold SortRecord.variant at kinds
  have operandLeft (differs : l.body.variant ≠ .aspects) : Op.Operand c l.id := ⟨l, isLeft, differs⟩
  have operandRight (differs : r.body.variant ≠ .aspects) : Op.Operand c r.id :=
    ⟨r, isRight, differs⟩
  have exchanged := judged_exchanged inside attested relatable
  unfold forVariants
  cases left : l.body <;> cases right : r.body <;> rw [left, right] at kinds <;> dsimp only
  case aspects.aspects => exact Ends.pure ⟨attested, sound_tuples isLeft isRight⟩
  case aspects.primitive | aspects.aspect | aspects.weighted | aspects.disjunctive |
      aspects.recursive | primitive.aspects | aspect.aspects | weighted.aspects |
      disjunctive.aspects | recursive.aspects => simp [Body.variant] at kinds
  case recursive.recursive =>
    split_ifs
    · exact exchanged
    · exact judged_recursive isLeft isRight rested inside attested left
        (operandRight (by simp [right, Body.variant]))
  case recursive.primitive | recursive.aspect | recursive.weighted | recursive.disjunctive =>
    exact judged_recursive isLeft isRight rested inside attested left
      (operandRight (by simp [right, Body.variant]))
  case disjunctive.disjunctive =>
    split_ifs
    · exact exchanged
    · exact judged_composition isLeft isRight rested inside attested left right
  case disjunctive.primitive | disjunctive.aspect | disjunctive.weighted =>
    exact judged_disjunction isLeft rested inside attested left
      (operandRight (by simp [right, Body.variant]))
  case weighted.weighted =>
    split_ifs
    · exact exchanged
    · exact judged_weighted isLeft isRight rested inside attested left right
  case weighted.primitive | weighted.aspect =>
    exact judged_weightedBesideSimple isLeft rested inside attested left
      (operandRight (by simp [right, Body.variant]))
  case primitive.recursive | aspect.recursive | weighted.recursive | disjunctive.recursive |
      primitive.disjunctive | aspect.disjunctive | weighted.disjunctive | primitive.weighted |
      aspect.weighted => exact exchanged
  case primitive.primitive => exact Ends.pure ⟨attested, sound_primitives isLeft isRight left right⟩
  case aspect.aspect =>
    split_ifs
    · exact exchanged
    · exact judged_aspects isLeft isRight rested inside attested left right
  case primitive.aspect | aspect.primitive => exact Ends.pure ⟨attested, sound_incongruous []⟩

end

/-! ### Relating -/

/-- What is found by a rule can be remembered. -/
theorem attested_learn (attested : memory.Attested c) (isLeft : c.get l.id = .ok l)
    (isRight : c.get r.id = .ok r) (kinds : l.variant = .aspects ↔ r.variant = .aspects)
    (sound : finding.Sound c l r) : (memory.learn ⟨l.display, r.display⟩ finding).Attested c := by
  intro key known found
  unfold Memory.learn at found
  dsimp only at found
  by_cases same : key = ⟨l.display, r.display⟩
  · subst same
    rw [Function.update_self] at found
    cases found
    refine ⟨l, r, ?_, ?_, rfl, kinds, fun close ↦ ?_⟩
    · rw [sound.left]
      exact isLeft
    · rw [sound.right]
      exact isRight
    · rw [sound.left, sound.right]
      exact sound.grounds close
  · rw [Function.update_of_ne same] at found
    exact attested key known found

/-- A finding that is remembered is right for all sorts of its displays. -/
theorem grounded_of_known {categories : CategoryTable} (rested : c.Rested)
    (suited : Suited categories c) (attested : memory.Attested c) (foundLeft : c.get left = .ok l)
    (foundRight : c.get right = .ok r)
    (known : memory.known ⟨l.display, r.display⟩ = some finding)
    (close : finding.node.level ≠ .incongruous) : c.Grounded left right := by
  obtain ⟨l', r', foundLeft', foundRight', key, -, grounds⟩ := attested _ _ known
  obtain ⟨sameLeft, sameRight⟩ := PairKey.mk.inj key
  exact ((grounds close).left_of_display rested suited foundLeft' foundLeft sameLeft.symm
    ).right_of_display rested suited foundRight' foundRight sameRight.symm

/-- Matching finds sorts to correspond only if they have a ground in common. -/
theorem grounding_relate {categories : CategoryTable} (rested : c.Rested)
    (suited : Suited categories c) (underWay : List PairKey) :
    Grounding c (relate c underWay) := by
  rintro left right memory ⟨l, r, foundLeft, foundRight, kinds⟩ attested
  have isLeft : c.get l.id = .ok l := rested.placed foundLeft ▸ foundLeft
  have isRight : c.get r.id = .ok r := rested.placed foundRight ▸ foundRight
  rw [relate_of_found foundLeft foundRight]
  split_ifs with same idle
  · subst same
    exact Ends.pure ⟨attested, fun _ ↦ .of_kindred foundLeft foundLeft (Or.inl rfl)⟩
  · exact Ends.bind (Ends.modify (Ends.pure ⟨attested, fun close ↦ absurd rfl close⟩))
  · refine Ends.bind (Ends.get ?_)
    split
    · rename_i known found
      exact Ends.pure ⟨attested, grounded_of_known rested suited attested
        foundLeft foundRight found⟩
    · have inside := grounding_relate rested suited (⟨l.display, r.display⟩ :: underWay)
      refine Ends.bind ((judged_forVariants isLeft isRight rested inside attested kinds).mono
        (fun finding later judged ↦ Ends.bind (Ends.get ?_)) fun _ failed ↦ failed)
      split
      · rename_i known found
        exact Ends.pure ⟨judged.1,
          grounded_of_known rested suited judged.1 foundLeft foundRight found⟩
      · refine Ends.bind (Ends.modify (Ends.pure
          ⟨attested_learn judged.1 isLeft isRight kinds judged.2, fun close ↦ ?_⟩))
        rw [← rested.placed foundLeft, ← rested.placed foundRight]
        exact judged.2.grounds close
termination_by (unvisited c.pairKeys underWay).length
decreasing_by
  exact length_unvisited_cons_lt (Catalog.pairKey_mem_pairKeys ‹_› ‹_›) ‹_›

end Appraisal

end CompositeSorts
