import CompositeSorts.Proofs.Catalog.Arrangement
import CompositeSorts.Proofs.Matching.Resembling
import CompositeSorts.Proofs.Matching.Unaided

/-!
Rules side by side. A rule for two sorts and the rule for corresponding sorts of another catalog ask
for the findings of corresponding sorts, in the same order; as long as what they are told resembles,
they go on in the same way, and what they answer resembles as well (`Parallel`). This is so for
every rule that does not read the components of a disjunction, for the order of these may differ.
-/

set_option autoImplicit false
set_option relaxedAutoImplicit false

namespace CompositeSorts.Appraisal

open Catalog Matching

variable {α α' β β' ι : Type} {alike : SortId → SortId → Prop} {close : Finding → Finding → Prop}
  {good : α → α' → Prop} {good' : β → β' → Prop}

/-- The computations ask for the findings of corresponding sorts, and go on alike when they are told
findings that are close; in the end the answers are good. Nothing is said of the second one when the
first one refuses. -/
inductive Parallel (alike : SortId → SortId → Prop) (close : Finding → Finding → Prop)
    (good : α → α' → Prop) : (Appraiser → Appraisal α) → (Appraiser → Appraisal α') → Prop where
  | pure {answer : α} {answer' : α'} (h : good answer answer') :
    Parallel alike close good (fun _ ↦ Pure.pure answer) fun _ ↦ Pure.pure answer'
  | throw (reason : Refusal) (rule' : Appraiser → Appraisal α') :
    Parallel alike close good (fun _ ↦ MonadExcept.throw reason) rule'
  | ask {left left' right right' : SortId} {next : Finding → Appraiser → Appraisal α}
    {next' : Finding → Appraiser → Appraisal α'} (lefts : alike left left')
    (rights : alike right right')
    (goes : ∀ finding finding', close finding finding' →
      Parallel alike close good (next finding) (next' finding')) :
    Parallel alike close good (fun relate ↦ relate left right >>= fun finding ↦ next finding relate)
      fun relate ↦ relate left' right' >>= fun finding ↦ next' finding relate

namespace Parallel

theorem bind {rule : Appraiser → Appraisal α} {rule' : Appraiser → Appraisal α'}
    {next : α → Appraiser → Appraisal β} {next' : α' → Appraiser → Appraisal β'}
    (h : Parallel alike close good rule rule')
    (more : ∀ answer answer', good answer answer' →
      Parallel alike close good' (next answer) (next' answer')) :
    Parallel alike close good' (fun relate ↦ rule relate >>= fun answer ↦ next answer relate)
      fun relate ↦ rule' relate >>= fun answer ↦ next' answer relate := by
  induction h with
  | pure h => exact more _ _ h
  | throw reason rule' => exact .throw reason _
  | @ask left left' right right' inner inner' lefts rights _ ih =>
    have assoc : ∀ {γ δ : Type} (left right : SortId) (inner : Finding → Appraiser → Appraisal γ)
        (next : γ → Appraiser → Appraisal δ), (fun relate : Appraiser ↦
          (relate left right >>= fun finding ↦ inner finding relate) >>= fun answer ↦
            next answer relate) = fun relate ↦ relate left right >>= fun finding ↦
              inner finding relate >>= fun answer ↦ next answer relate :=
      fun _ _ _ _ ↦ funext fun relate ↦ bind_assoc _ _ _
    rw [assoc, assoc]
    exact .ask lefts rights ih

/-- The catalogs answer at once. -/
theorem reply {answer : Except Refusal α} {answer' : Except Refusal α'}
    {next : α → Appraiser → Appraisal β} {next' : α' → Appraiser → Appraisal β'}
    (more : ∀ value, answer = .ok value → ∃ value', answer' = .ok value' ∧
      Parallel alike close good' (next value) (next' value')) :
    Parallel alike close good' (fun relate ↦ Appraisal.ask answer >>= fun value ↦ next value relate)
      fun relate ↦ Appraisal.ask answer' >>= fun value ↦ next' value relate := by
  cases answer with
  | ok value =>
    obtain ⟨value', rfl, goes⟩ := more value rfl
    exact goes
  | error reason => exact .throw reason _

theorem ite {condition condition' : Prop} [Decidable condition] [Decidable condition']
    {rule other : Appraiser → Appraisal α} {rule' other' : Appraiser → Appraisal α'}
    (agree : condition ↔ condition') (h : condition → Parallel alike close good rule rule')
    (h' : ¬ condition → Parallel alike close good other other') :
    Parallel alike close good (fun relate ↦ if condition then rule relate else other relate)
      fun relate ↦ if condition' then rule' relate else other' relate := by
  by_cases holds : condition
  · simp only [if_pos holds, if_pos (agree.mp holds)]
    exact h holds
  · simp only [if_neg holds, if_neg fun holds' ↦ holds (agree.mpr holds')]
    exact h' holds

theorem mapM {items : List ι} {work : ι → Appraiser → Appraisal α}
    {work' : ι → Appraiser → Appraisal α'}
    (each : ∀ item ∈ items, Parallel alike close good (work item) (work' item)) :
    Parallel alike close (List.Forall₂ good) (fun relate ↦ items.mapM fun item ↦ work item relate)
      fun relate ↦ items.mapM fun item ↦ work' item relate := by
  induction items with
  | nil => exact .pure .nil
  | cons item items ih =>
    simp only [List.mapM_cons]
    refine (each item List.mem_cons_self).bind fun _ _ first ↦ ?_
    exact (ih fun other inside ↦ each other (List.mem_cons_of_mem _ inside)).bind fun _ _ rest ↦
      .pure (.cons first rest)

/-- When close findings of corresponding sorts are in the tables, and the one computation answers
from its table, then the other one does so as well, and the answers are good. -/
theorem tells {table table' : SortId → SortId → Option Finding} {rule : Appraiser → Appraisal α}
    {rule' : Appraiser → Appraisal α'} {answer : α} (h : Parallel alike close good rule rule')
    (inside : ∀ {left left' right right' finding}, alike left left' → alike right right' →
      table left right = some finding →
      ∃ finding', table' left' right' = some finding' ∧ close finding finding')
    (tells : Tells table rule answer) :
    ∃ answer', Tells table' rule' answer' ∧ good answer answer' := by
  induction h with
  | pure h =>
    obtain rfl := tells.eq_of_pure
    exact ⟨_, .pure _, h⟩
  | throw => exact (not_tells_throw tells).elim
  | ask lefts rights _ ih =>
    obtain ⟨finding, entry, tells⟩ := tells_ask_iff.mp tells
    obtain ⟨finding', entry', near⟩ := inside lefts rights entry
    obtain ⟨answer', tells', h⟩ := ih finding finding' near tells
    exact ⟨answer', tells_ask_iff.mpr ⟨finding', entry', tells'⟩, h⟩

end Parallel

/-! ### Rules -/

section

variable {same : Tally → Tally → Prop} {c c' : Catalog} {l l' r r' : SortRecord}

/-- Findings of corresponding sorts are measured by the same scale. -/
theorem commonScale_eq (sameLeft : l.Rearranged alike l') (sameRight : r.Rearranged alike r') :
    commonScale l r = commonScale l' r' := by
  unfold commonScale
  rw [sameLeft.counts, sameRight.counts]

theorem isNamedAggregate_eq (sameLeft : l.Rearranged alike l') :
    Rule.isNamedAggregate l = Rule.isNamedAggregate l' := by
  unfold Rule.isNamedAggregate SortRecord.isNamed
  rw [sameLeft.name, sameLeft.variant]

variable (equates : Tally.Congruence same) (arranged : c.Arrangement c' alike)
  (lefts : alike l.id l'.id) (rights : alike r.id r'.id) (sameLeft : l.Rearranged alike l')
  (sameRight : r.Rearranged alike r')

include equates lefts rights in
theorem parallel_exchanged : Parallel alike (Finding.Agrees same) (Finding.Agrees same)
    (fun relate ↦ exchanged relate l r) fun relate ↦ exchanged relate l' r' :=
  .ask rights lefts fun _ _ near ↦ .pure (near.turned equates _ _ _ _)

include equates sameLeft sameRight in
theorem agrees_primitives (leftTag rightTag : String) :
    (primitives l r leftTag rightTag).Agrees same (primitives l' r' leftTag rightTag) := by
  have scale := commonScale_eq sameLeft sameRight
  unfold primitives
  rw [sameLeft.canonical, sameRight.canonical]
  split_ifs
  · exact Finding.agrees_equivalent equates scale _
  · exact .node equates scale rfl rfl (equates.refl _)
  · exact Finding.agrees_incongruous equates scale

include equates sameLeft sameRight in
theorem agrees_tuples : (tuples l r).Agrees same (tuples l' r') := by
  have scale := commonScale_eq sameLeft sameRight
  unfold tuples
  rw [sameLeft.canonical, sameRight.canonical]
  split_ifs
  · exact Finding.agrees_equivalent equates scale _
  · exact Finding.agrees_incongruous equates scale

include equates arranged lefts rights sameLeft sameRight in
theorem parallel_aspects {owner owner' other other' : SortId} (owners : alike owner owner')
    (others : alike other other') (position position' : Nat) :
    Parallel alike (Finding.Agrees same) (Finding.Agrees same)
      (fun relate ↦ aspects c relate l r owner other position position')
      fun relate ↦ aspects c' relate l' r' owner' other' position position' := by
  have scale := commonScale_eq sameLeft sameRight
  refine .ask owners others fun _ _ near ↦ .ite (by rw [near.rank]) (fun _ ↦ ?_) fun _ ↦ ?_
  · exact .pure (Finding.agrees_incongruous equates scale)
  refine .ite Iff.rfl (fun _ ↦ ?_) fun _ ↦ ?_
  · exact .pure (.node equates scale rfl rfl (equates.refl _))
  refine .reply fun argument linked ↦ ?_
  obtain ⟨argument', linked', arguments⟩ := arranged.argumentOf lefts linked
  refine ⟨argument', linked', .reply fun another leads ↦ ?_⟩
  obtain ⟨another', leads', anothers⟩ := arranged.argumentOf rights leads
  refine ⟨another', leads', .ask arguments anothers fun _ _ inner ↦ ?_⟩
  refine .ite (by rw [inner.incongruous]) (fun _ ↦ ?_) fun _ ↦ ?_
  · exact .pure (Finding.agrees_incongruous equates scale)
  · exact .pure (.node equates scale (congrArg (Level.atLeast · _) inner.lifted) inner.grade
      (equates.add inner.tally (equates.refl { swapped := 1 })))

include equates rights sameLeft sameRight in
theorem parallel_recursive {target target' : Option SortId}
    (targets : Option.Rel alike target target') :
    Parallel alike (Finding.Agrees same) (Finding.Agrees same)
      (fun relate ↦ recursive relate l r target) fun relate ↦ recursive relate l' r' target' := by
  have scale := commonScale_eq sameLeft sameRight
  cases targets with
  | none => exact .throw _ _
  | some instances =>
    refine .ite (by rw [sameLeft.canonical, sameRight.canonical]) (fun _ ↦ ?_) fun _ ↦ ?_
    · exact .pure (Finding.agrees_equivalent equates scale _)
    refine .ask instances rights fun _ _ inner ↦
      .pure (.node equates scale inner.lifted inner.grade ?_)
    rw [isNamedAggregate_eq sameLeft, isNamedAggregate_eq sameRight]
    exact equates.add inner.tally (equates.refl { byName := _ })

/-- A sort beside which the other side holds more. -/
theorem agrees_diminished {f f' : Finding} (equates : Tally.Congruence same)
    (scale : commonScale l r = commonScale l' r') (near : f.Agrees same f') (dims : Counter) :
    (Finding.like l r f (Rule.diminished dims)).Agrees same
      (Finding.like l' r' f' (Rule.diminished dims)) :=
  .node equates scale (congrArg (Level.atLeast · _) near.lifted)
    (congrArg (Grade.combine · .subsumptive) near.grade)
    (equates.add near.tally (equates.refl { dims := dims }))

include equates arranged rights sameLeft sameRight in
theorem parallel_weightedBesideSimple {base base' weight weight' : SortId}
    (bases : alike base base') (weights : alike weight weight') :
    Parallel alike (Finding.Agrees same) (Finding.Agrees same)
      (fun relate ↦ weightedBesideSimple c relate l r base weight)
      fun relate ↦ weightedBesideSimple c' relate l' r' base' weight' := by
  have scale := commonScale_eq sameLeft sameRight
  refine .reply fun w found ↦ ?_
  obtain ⟨w', found', rearranged⟩ := arranged.get weights found
  refine ⟨w', found', .ask bases rights fun _ _ byBase ↦ .ask weights rights fun _ _ byWeight ↦ ?_⟩
  rw [rearranged.counts]
  exact .pure (Finding.agrees_chooseOrIncongruous equates scale
    (.cons (agrees_diminished equates scale byBase _)
      (.cons (agrees_diminished equates scale byWeight _) .nil)))

/-- Aligned elements that add up to the same. -/
structure Alignment.Agrees (same : Tally → Tally → Prop) (a a' : Alignment) : Prop where
  level : a.level = a'.level
  grade : a.grade = a'.grade
  tally : same a.tally a'.tally

include equates in
theorem parallel_align {pairs pairs' : List (SortId × SortId)}
    (each : List.Forall₂ (fun pair pair' ↦ alike pair.1 pair'.1 ∧ alike pair.2 pair'.2)
      pairs pairs')
    {sofar sofar' : Alignment} (start : sofar.Agrees same sofar') :
    Parallel alike (Finding.Agrees same) (Option.Rel (Alignment.Agrees same))
      (fun relate ↦ align relate sofar pairs) fun relate ↦ align relate sofar' pairs' := by
  induction each generalizing sofar sofar' with
  | nil => exact .pure (.some start)
  | cons first _ ih =>
    refine .ask first.1 first.2 fun _ _ near ↦ .ite (by rw [near.rank]) (fun _ ↦ .pure .none)
      fun _ ↦ ih ⟨?_, ?_, equates.add start.tally near.tally⟩
    · rw [start.level, near.level]
    · rw [start.grade, near.grade]

theorem forall₂_rotateLeft {chain chain' : List SortId} (each : List.Forall₂ alike chain chain')
    (shift : Nat) : List.Forall₂ alike (chain.rotateLeft shift) (chain'.rotateLeft shift) := by
  unfold List.rotateLeft
  rw [each.length_eq]
  dsimp only
  split_ifs
  · exact each
  · exact List.rel_append (List.forall₂_drop _ each) (List.forall₂_take _ each)

theorem forall₂_zip {chain chain' other other' : List SortId}
    (each : List.Forall₂ alike chain chain') (others : List.Forall₂ alike other other') :
    List.Forall₂ (fun pair pair' ↦ alike pair.1 pair'.1 ∧ alike pair.2 pair'.2) (chain.zip other)
      (chain'.zip other') := by
  induction each generalizing other other' with
  | nil => exact .nil
  | cons first _ ih =>
    cases others with
    | nil => exact .nil
    | cons first' rest' => exact .cons ⟨first, first'⟩ (ih rest')

include equates sameLeft sameRight in
theorem parallel_rotation {chain chain' other other' : List SortId}
    (each : List.Forall₂ alike chain chain') (others : List.Forall₂ alike other other')
    (shift : Nat) :
    Parallel alike (Finding.Agrees same) (Option.Rel (Finding.Agrees same))
      (fun relate ↦ rotation relate l r chain other shift)
      fun relate ↦ rotation relate l' r' chain' other' shift := by
  have scale := commonScale_eq sameLeft sameRight
  refine .bind (parallel_align equates (forall₂_zip (forall₂_rotateLeft each shift) others)
    ⟨rfl, rfl, ?_⟩) fun _ _ aligned ↦ .pure ?_
  · rw [each.length_eq]
    exact equates.refl _
  · cases aligned with
    | none => exact .none
    | some found => exact .some (.node equates scale found.level found.grade found.tally)

include equates arranged lefts rights sameLeft sameRight in
theorem parallel_bestRotation (weighed : c.Weighed) (weighed' : c'.Weighed) :
    Parallel alike (Finding.Agrees same) (Option.Rel (Finding.Agrees same))
      (fun relate ↦ bestRotation c relate l r) fun relate ↦ bestRotation c' relate l' r' := by
  refine .reply fun chain walked ↦ ?_
  obtain ⟨chain', walked', each⟩ := arranged.spine weighed weighed' lefts walked
  refine ⟨chain', walked', .reply fun other walked ↦ ?_⟩
  obtain ⟨other', walked', others⟩ := arranged.spine weighed weighed' rights walked
  refine ⟨other', walked', .ite (by rw [each.length_eq, others.length_eq]) (fun _ ↦ .pure .none)
    fun _ ↦ ?_⟩
  rw [← each.length_eq]
  refine .bind (.mapM fun shift _ ↦ parallel_rotation equates sameLeft sameRight each others shift)
    fun _ _ found ↦ .pure (Finding.rel_choose (List.rel_filterMap (fun _ _ h ↦ h) found))

theorem rel_beside {base base' weight weight' : Finding} (bases : base.Agrees same base')
    (weights : weight.Agrees same weight') :
    Option.Rel (Finding.Agrees same) (beside base weight) (beside base' weight') := by
  unfold beside
  rw [bases.sentinel, weights.sentinel, bases.incongruous, weights.incongruous]
  cases base'.node.sentinel <;> cases weight'.node.sentinel <;> dsimp only
  · exact .none
  · split_ifs
    · exact .none
    · exact .some bases
  · split_ifs
    · exact .none
    · exact .some weights
  · exact .none

include equates sameLeft sameRight in
theorem forall₂_halves {base base' weight weight' : Finding} (bases : base.Agrees same base')
    (weights : weight.Agrees same weight') :
    List.Forall₂ (Finding.Agrees same) (halves l r base weight) (halves l' r' base' weight') := by
  have scale := commonScale_eq sameLeft sameRight
  unfold halves
  rw [bases.incongruous, weights.incongruous]
  split_ifs
  · refine .cons (.node equates scale ?_ ?_ ?_) .nil
    · rw [bases.level, weights.level]
    · rw [bases.grade, weights.grade]
    · exact equates.add (equates.add bases.tally weights.tally) (equates.refl { augs := 1 })
  · have kept := rel_beside bases weights
    generalize beside base weight = one at kept ⊢
    generalize beside base' weight' = one' at kept ⊢
    cases kept with
    | none => exact .nil
    | some near =>
      refine .cons (.node equates scale ?_ near.grade ?_) .nil
      · rw [near.level]
      · exact equates.add near.tally (equates.refl { skipped := 1 })

include equates arranged lefts sameLeft sameRight in
theorem parallel_augmented {base base' weight weight' : SortId} (bases : alike base base')
    (weights : alike weight weight') :
    Parallel alike (Finding.Agrees same) (List.Forall₂ (Finding.Agrees same))
      (fun relate ↦ augmented c relate l r base weight)
      fun relate ↦ augmented c' relate l' r' base' weight' := by
  have scale := commonScale_eq sameLeft sameRight
  refine .reply fun b found ↦ ?_
  obtain ⟨b', found', rearranged⟩ := arranged.get bases found
  refine ⟨b', found', .ask lefts weights fun _ _ near ↦ .ite (by rw [near.incongruous])
    (fun _ ↦ .pure .nil) fun _ ↦ ?_⟩
  rw [rearranged.counts]
  exact .pure (.cons (.node equates scale (congrArg (Level.atLeast · _) near.lifted)
    (congrArg (Grade.combine · .partOf) near.grade)
    (equates.add near.tally (equates.refl { augs := _, skipped := 1 }))) .nil)

include equates arranged rights sameLeft sameRight in
theorem parallel_lessened {base base' weight weight' : SortId} (bases : alike base base')
    (weights : alike weight weight') :
    Parallel alike (Finding.Agrees same) (List.Forall₂ (Finding.Agrees same))
      (fun relate ↦ lessened c relate l r base weight)
      fun relate ↦ lessened c' relate l' r' base' weight' := by
  have scale := commonScale_eq sameLeft sameRight
  refine .reply fun b found ↦ ?_
  obtain ⟨b', found', rearranged⟩ := arranged.get bases found
  refine ⟨b', found', .ask weights rights fun _ _ near ↦ .ite (by rw [near.incongruous])
    (fun _ ↦ .pure .nil) fun _ ↦ ?_⟩
  rw [rearranged.counts]
  exact .pure (.cons (.node equates scale (congrArg (Level.atLeast · _) near.lifted)
    (congrArg (Grade.combine · .subsumptive) near.grade)
    (equates.add near.tally (equates.refl { dims := _, skipped := 1 }))) .nil)

include equates arranged lefts rights sameLeft sameRight in
theorem parallel_weighted (weighed : c.Weighed) (weighed' : c'.Weighed)
    {base base' weight weight' : SortId} (bases : alike base base') (weights : alike weight weight')
    {other other' another another' : SortId} (others : alike other other')
    (anothers : alike another another') :
    Parallel alike (Finding.Agrees same) (Finding.Agrees same)
      (fun relate ↦ weighted c relate l r base weight other another)
      fun relate ↦ weighted c' relate l' r' base' weight' other' another' := by
  have scale := commonScale_eq sameLeft sameRight
  refine .ite (by rw [sameLeft.canonical, sameRight.canonical]) (fun _ ↦ ?_) fun _ ↦ ?_
  · exact .pure (Finding.agrees_equivalent equates scale _)
  refine .ask bases others fun byBase byBase' nearBase ↦
    .ask weights anothers fun byWeight byWeight' nearWeight ↦ ?_
  rw [nearBase.level, nearWeight.level]
  cases Rule.similarLevel byBase'.node.level byWeight'.node.level with
  | some level =>
    refine .pure (.node equates scale rfl ?_ (equates.add nearBase.tally nearWeight.tally))
    rw [nearBase.grade, nearWeight.grade]
  | none =>
    refine .bind (parallel_bestRotation equates arranged lefts rights sameLeft sameRight weighed
      weighed') fun _ _ rotated ↦ ?_
    cases rotated with
    | some near => exact .pure near
    | none =>
      refine .bind (parallel_augmented equates arranged lefts sameLeft sameRight others anothers)
        fun _ _ byRight ↦ .bind (parallel_lessened equates arranged rights sameLeft sameRight bases
          weights) fun _ _ byLeft ↦ ?_
      have byHalves := forall₂_halves equates sameLeft sameRight nearBase nearWeight
      exact .pure (Finding.agrees_chooseOrIncongruous equates scale
        (List.rel_append (List.rel_append byHalves byRight) byLeft))

end

end CompositeSorts.Appraisal
