import CompositeSorts.Proofs.Catalog.Common
import CompositeSorts.Proofs.Matching.Findings

/-!
What rules ask. A rule knows nothing of the memory: it asks for the findings of sorts inside, one
after the other, each time depending on what it was told, and in the end it answers or refuses. So
it is a tree of questions (`Asks`), whatever answers them, and what is shown for a question and
carried through such trees holds of all rules at once (`asks_forVariants`). The sorts that it asks
about are those that its sorts lead to.
-/

set_option autoImplicit false
set_option relaxedAutoImplicit false

namespace CompositeSorts

open Catalog Matching

variable {α β ι : Type} {c : Catalog} {near : SortId → Prop}

/-- The computation answers, refuses, or asks for the finding of two near sorts and goes on with it.
What answers its questions makes no other difference. -/
inductive Asks (near : SortId → Prop) : (Appraiser → Appraisal α) → Prop where
  | pure (answer : α) : Asks near fun _ ↦ Pure.pure answer
  | throw (reason : Refusal) : Asks near fun _ ↦ MonadExcept.throw reason
  | ask {left right : SortId} {next : Finding → Appraiser → Appraisal α} (isLeft : near left)
      (isRight : near right) (goes : ∀ finding, Asks near (next finding)) :
      Asks near fun relate ↦ relate left right >>= fun finding ↦ next finding relate

namespace Asks

theorem bind {rule : Appraiser → Appraisal α} {next : α → Appraiser → Appraisal β}
    (h : Asks near rule) (more : ∀ answer, Asks near (next answer)) :
    Asks near fun relate ↦ rule relate >>= fun answer ↦ next answer relate := by
  induction h with
  | pure answer => exact more answer
  | throw reason => exact .throw reason
  | @ask left right inner isLeft isRight _ ih =>
    have assoc : (fun relate : Appraiser ↦
        (relate left right >>= fun finding ↦ inner finding relate) >>= fun answer ↦
          next answer relate) = fun relate ↦ relate left right >>= fun finding ↦
            inner finding relate >>= fun answer ↦ next answer relate :=
      funext fun relate ↦ bind_assoc _ _ _
    rw [assoc]
    exact .ask isLeft isRight ih

/-- The catalog answers at once. -/
theorem reply {answer : Except Refusal α} {next : α → Appraiser → Appraisal β}
    (more : ∀ value, answer = .ok value → Asks near (next value)) :
    Asks near fun relate ↦ Appraisal.ask answer >>= fun value ↦ next value relate := by
  cases answer with
  | ok value => exact more value rfl
  | error reason => exact .throw reason

theorem ite {condition : Prop} [Decidable condition] {rule rule' : Appraiser → Appraisal α}
    (h : condition → Asks near rule) (h' : ¬ condition → Asks near rule') :
    Asks near fun relate ↦ if condition then rule relate else rule' relate := by
  by_cases holds : condition
  · simp only [if_pos holds]
    exact h holds
  · simp only [if_neg holds]
    exact h' holds

theorem mapM {items : List ι} {work : ι → Appraiser → Appraisal α}
    (each : ∀ item ∈ items, Asks near (work item)) :
    Asks near fun relate ↦ items.mapM fun item ↦ work item relate := by
  induction items with
  | nil => exact .pure []
  | cons item items ih =>
    simp only [List.mapM_cons]
    refine (each item List.mem_cons_self).bind fun answer ↦ ?_
    exact (ih fun other inside ↦ each other (List.mem_cons_of_mem _ inside)).bind fun _ ↦ .pure _

/-- What questions about near sorts keep up, a tree of them keeps up. The induction is on the
tree. -/
theorem ends {inv : Memory → Prop} {plain : Appraiser} {memory : Memory}
    {rule : Appraiser → Appraisal α} (asks : Asks near rule)
    (inside : ∀ left right memory, near left → near right → inv memory →
      Ends (plain left right) memory (fun _ later ↦ inv later) inv) (h : inv memory) :
    Ends (rule plain) memory (fun _ later ↦ inv later) inv := by
  induction asks generalizing memory with
  | pure answer => exact Ends.pure h
  | throw reason => exact Ends.throw h
  | ask isLeft isRight _ ih =>
    exact Ends.bind ((inside _ _ memory isLeft isRight h).mono (fun finding _ kept ↦ ih finding kept)
      fun _ failed ↦ failed)

end Asks

namespace Appraisal

/-- What a sort reaches is near, if the sort is. -/
theorem near_of_reaches (closed : ∀ {id part : SortId}, c.LeadsTo id part → near id → near part)
    {id part : SortId} (reaches : c.Reaches id part) (here : near id) : near part := by
  induction reaches with
  | refl => exact here
  | tail _ leads ih => exact closed leads ih

section

variable {l r : SortRecord} (isLeft : c.get l.id = .ok l) (isRight : c.get r.id = .ok r)
  (closed : ∀ {id part : SortId}, c.LeadsTo id part → near id → near part) (left : near l.id)
  (right : near r.id)

include left right

theorem asks_exchanged : Asks near fun relate ↦ exchanged relate l r :=
  .ask right left fun _ ↦ .pure _

include isLeft closed

theorem asks_recursive {target : Option SortId} (made : l.body = .recursive target) :
    Asks near fun relate ↦ recursive relate l r target := by
  cases target with
  | none => exact .throw _
  | some target =>
    refine .ite (fun _ ↦ .pure _) fun _ ↦ ?_
    exact .ask (closed (.instance isLeft made) left) right fun _ ↦ .pure _

theorem asks_disjunction {components : List SortId} (made : l.body = .disjunctive components) :
    Asks near fun relate ↦ disjunction relate l r components := by
  refine .bind (.mapM fun component inside ↦ ?_) fun _ ↦ .pure _
  exact .ask (closed (.component isLeft made inside) left) right fun _ ↦ .pure _

theorem asks_weightedBesideSimple {base weight : SortId} (made : l.body = .weighted base weight) :
    Asks near fun relate ↦ weightedBesideSimple c relate l r base weight := by
  refine .reply fun _ _ ↦ .ask (closed (.base isLeft made) left) right fun _ ↦ ?_
  exact .ask (closed (.weight isLeft made) left) right fun _ ↦ .pure _

theorem asks_lessened {base weight : SortId} (made : l.body = .weighted base weight) :
    Asks near fun relate ↦ lessened c relate l r base weight := by
  refine .reply fun _ _ ↦ .ask (closed (.weight isLeft made) left) right fun _ ↦ ?_
  exact .ite (fun _ ↦ .pure _) fun _ ↦ .pure _

include isRight

omit isLeft in
theorem asks_augmented {base weight : SortId} (made : r.body = .weighted base weight) :
    Asks near fun relate ↦ augmented c relate l r base weight := by
  refine .reply fun _ _ ↦ .ask left (closed (.weight isRight made) right) fun _ ↦ ?_
  exact .ite (fun _ ↦ .pure _) fun _ ↦ .pure _

theorem asks_aspects {owner owner' : SortId} {position position' : Nat}
    (made : l.body = .aspect owner position) (made' : r.body = .aspect owner' position') :
    Asks near fun relate ↦ aspects c relate l r owner owner' position position' := by
  refine .ask (closed (.owner isLeft made) left) (closed (.owner isRight made') right) fun _ ↦ ?_
  refine .ite (fun _ ↦ .pure _) fun _ ↦ .ite (fun _ ↦ .pure _) fun _ ↦ ?_
  refine .reply fun argument linked ↦ .reply fun argument' linked' ↦ ?_
  refine .ask (closed (.argument linked) left) (closed (.argument linked') right) fun _ ↦ ?_
  exact .ite (fun _ ↦ .pure _) fun _ ↦ .pure _

omit isLeft isRight closed left right in
theorem asks_align {pairs : List (SortId × SortId)}
    (each : ∀ pair ∈ pairs, near pair.1 ∧ near pair.2) (sofar : Alignment) :
    Asks near fun relate ↦ align relate sofar pairs := by
  induction pairs generalizing sofar with
  | nil => exact .pure _
  | cons pair pairs ih =>
    obtain ⟨nearLeft, nearRight⟩ := each pair List.mem_cons_self
    refine .ask nearLeft nearRight fun _ ↦ .ite (fun _ ↦ .pure _) fun _ ↦ ?_
    exact ih (fun other inside ↦ each other (List.mem_cons_of_mem _ inside)) _

omit isLeft isRight in
theorem asks_bestRotation : Asks near fun relate ↦ bestRotation c relate l r := by
  refine .reply fun chain walked ↦ .reply fun chain' walked' ↦ .ite (fun _ ↦ .pure _) fun _ ↦ ?_
  refine .bind (.mapM fun shift _ ↦ ?_) fun _ ↦ .pure _
  refine .bind (asks_align (fun pair inside ↦ ?_) _) fun _ ↦ .pure _
  obtain ⟨onLeft, onRight⟩ := List.of_mem_zip inside
  exact ⟨near_of_reaches closed (reaches_of_spine walked (mem_rotateLeft_iff.mp onLeft)) left,
    near_of_reaches closed (reaches_of_spine walked' onRight) right⟩

theorem asks_weighted {base weight base' weight' : SortId} (made : l.body = .weighted base weight)
    (made' : r.body = .weighted base' weight') :
    Asks near fun relate ↦ weighted c relate l r base weight base' weight' := by
  refine .ite (fun _ ↦ .pure _) fun _ ↦ ?_
  refine .ask (closed (.base isLeft made) left) (closed (.base isRight made') right) fun byBase ↦ ?_
  refine .ask (closed (.weight isLeft made) left) (closed (.weight isRight made') right)
    fun byWeight ↦ ?_
  cases Rule.similarLevel byBase.node.level byWeight.node.level with
  | some level => exact .pure _
  | none =>
    refine .bind (asks_bestRotation closed left right) fun found ↦ ?_
    cases found with
    | some found => exact .pure _
    | none =>
      refine .bind (asks_augmented isRight closed left right made') fun _ ↦ ?_
      exact .bind (asks_lessened isLeft closed left right made) fun _ ↦ .pure _

theorem asks_composition {components components' : List SortId}
    (made : l.body = .disjunctive components) (made' : r.body = .disjunctive components') :
    Asks near fun relate ↦ composition relate l r components components' := by
  refine .ite (fun _ ↦ .pure _) fun _ ↦ .bind (.bind (.mapM fun component inside ↦ ?_)
    fun _ ↦ .pure _) fun _ ↦ .pure _
  refine .bind (.mapM fun component' inside' ↦ ?_) fun _ ↦ .pure _
  exact .ask (closed (.component isLeft made (List.fst_mem_of_mem_zipIdx inside)) left)
    (closed (.component isRight made' (List.fst_mem_of_mem_zipIdx inside')) right) fun _ ↦ .pure _

/-- Whatever the variants of two sorts are, the rule for them is a tree of questions about sorts
that they lead to. -/
theorem asks_forVariants : Asks near fun relate ↦ forVariants c relate l r := by
  have turned : Asks near fun relate ↦ exchanged relate l r := asks_exchanged left right
  unfold forVariants
  cases made : l.body <;> cases made' : r.body <;> dsimp only
  case aspects.aspects | primitive.primitive | primitive.aspect | aspect.primitive => exact .pure _
  case aspects.primitive | aspects.aspect | aspects.weighted | aspects.disjunctive |
      aspects.recursive | primitive.aspects | aspect.aspects | weighted.aspects |
      disjunctive.aspects | recursive.aspects => exact .throw _
  case primitive.recursive | aspect.recursive | weighted.recursive | disjunctive.recursive |
      primitive.disjunctive | aspect.disjunctive | weighted.disjunctive | primitive.weighted |
      aspect.weighted => exact turned
  case recursive.recursive =>
    exact .ite (fun _ ↦ turned) fun _ ↦ asks_recursive isLeft closed left right made
  case recursive.primitive | recursive.aspect | recursive.weighted | recursive.disjunctive =>
    exact asks_recursive isLeft closed left right made
  case disjunctive.disjunctive =>
    exact .ite (fun _ ↦ turned) fun _ ↦ asks_composition isLeft isRight closed left right made made'
  case disjunctive.primitive | disjunctive.aspect | disjunctive.weighted =>
    exact asks_disjunction isLeft closed left right made
  case weighted.weighted =>
    exact .ite (fun _ ↦ turned) fun _ ↦ asks_weighted isLeft isRight closed left right made made'
  case weighted.primitive | weighted.aspect =>
    exact asks_weightedBesideSimple isLeft closed left right made
  case aspect.aspect =>
    exact .ite (fun _ ↦ turned) fun _ ↦ asks_aspects isLeft isRight closed left right made made'

end

end Appraisal

end CompositeSorts
