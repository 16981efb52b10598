import CompositeSorts.Proofs.Matching.Respects
import Mathlib.Data.List.ReduceOption

/-!
Labels. The match that answers a question is labelled with the two sorts of the question, by
whatever rule it was made; a node keeps its labels for good.
-/

set_option autoImplicit false
set_option relaxedAutoImplicit false

namespace CompositeSorts

open Matchings Matching Rule

variable {α : Type} {t t' : Matchings} {id : MatchId} {l r : SortRecord} {left right : SortId}

/-- The match relates these two sorts. -/
def Matchings.Labelled (left right : SortId) (t : Matchings) (id : MatchId) : Prop :=
  ∃ node, t.get? id = some node ∧ node.left = left ∧ node.right = right

theorem Matchings.Labelled.extend (h : Labelled left right t id) (later : Extends t t') :
    Labelled left right t' id := by
  obtain ⟨node, found, here, there⟩ := h
  obtain ⟨node', found', same⟩ := later id node found
  obtain ⟨left, right⟩ := MatchNode.sides_of_untied same
  exact ⟨node', found', left.trans here, right.trans there⟩

theorem labelled_push {node : MatchNode} (here : node.left = left) (there : node.right = right) :
    Labelled left right (t.push node) ⟨t.nodes.size⟩ :=
  ⟨node, get?_push_size node, here, there⟩

/-- An answer is labelled with the two sorts. -/
def Labels (left right : SortId) (m : Matching MatchId) : Prop :=
  ∀ t, Ends m t (fun id t' ↦ Labelled left right t' id) fun _ ↦ True

/-- All answers are labelled with the two sorts. -/
def LabelsAll (left right : SortId) (m : Matching (List MatchId)) : Prop :=
  ∀ t, Ends m t (fun ids t' ↦ ∀ id ∈ ids, Labelled left right t' id) fun _ ↦ True

namespace Labels

theorem bind {m : Matching α} {f : α → Matching MatchId} (h : ∀ a, Labels left right (f a)) :
    Labels left right (m >>= f) := by
  intro t
  apply Ends.bind
  unfold Ends
  split
  · exact h _ _
  · trivial

theorem bindAll {m : Matching α} {f : α → Matching (List MatchId)}
    (h : ∀ a, LabelsAll left right (f a)) : LabelsAll left right (m >>= f) := by
  intro t
  apply Ends.bind
  unfold Ends
  split
  · exact h _ _
  · trivial

theorem throw (reason : Refusal) :
    Labels left right (MonadExcept.throw reason : Matching MatchId) :=
  fun _ ↦ Ends.throw trivial

theorem push {node : MatchNode} (here : node.left = left) (there : node.right = right) :
    Labels left right (Matching.push node) := fun _ ↦ ends_push (labelled_push here there)

theorem pushLike {inner : MatchId} {adjust : MatchNode → MatchNode}
    (same : ∀ node, (adjust node).left = node.left ∧ (adjust node).right = node.right) :
    Labels l.id r.id (Matching.pushLike l r inner adjust) :=
  bind fun _ ↦ bind fun _ ↦ push (same _).1 (same _).2

theorem equivalent (l r : SortRecord) (tally : Tally) :
    Labels l.id r.id (Matching.equivalent l r tally) := push rfl rfl

theorem incongruous (l r : SortRecord) (parts : List MatchId) :
    Labels l.id r.id (Matching.incongruous l r parts) := push rfl rfl

theorem reverse (id : MatchId) (left right : SortId) :
    Labels left right (Matching.reverse id left right) := by
  intro t
  refine ends_reverse (fun _ ↦ trivial) fun node parts tiedWith nodes _ ↦ ?_
  exact ⟨_, get?_append_push_size _ _, rfl, rfl⟩

end Labels

/-- Of several labelled matches a labelled one is chosen. -/
theorem labelled_choose {config : Configuration} {ids : List MatchId}
    (labelled : ∀ id ∈ ids, Labelled left right t id) :
    Ends (choose config ids) t (fun best t' ↦ ∀ id, best = some id → Labelled left right t' id)
      fun _ ↦ True := by
  refine ends_choose (fun candidates _ t' ↦ ∀ candidate ∈ candidates,
    Labelled left right t' candidate.1) trivial (fun _ ↦ by simp) ?_ ?_ ?_
  · intro first others same _ candidate inside
    exact labelled _ (same ▸ List.mem_map_of_mem inside)
  · intro candidates best candidate _ _ _ t' reached
    refine (Respects.chain tolerant_extends config best.1 candidate.1 t').mono
      (fun _ t'' later other inside ↦ (reached other inside).extend later) fun _ _ ↦ trivial
  · rintro first others t' _ reached id ⟨⟩
    exact reached _ (foldl_better_mem first others)

theorem labelled_chooseOrIncongruous {config : Configuration} {ids parts : List MatchId}
    (labelled : ∀ id ∈ ids, Labelled l.id r.id t id) :
    Ends (chooseOrIncongruous config l r ids parts) t (fun id t' ↦ Labelled l.id r.id t' id)
      fun _ ↦ True := by
  refine Ends.bind ((labelled_choose labelled).mono (fun best t' chosen ↦ ?_) fun _ _ ↦ trivial)
  split
  · exact Ends.pure (chosen _ rfl)
  · exact Labels.incongruous l r parts t'

/-! ### Rules -/

section

variable {c : Catalog} {config : Configuration} {relate : Relate}

theorem labels_exchanged (l r : SortRecord) : Labels l.id r.id (exchanged relate l r) :=
  Labels.bind fun _ ↦ Labels.reverse _ _ _

theorem labels_primitives (l r : SortRecord) (leftTag rightTag : String) :
    Labels l.id r.id (primitives l r leftTag rightTag) := by
  unfold primitives
  split_ifs
  · exact Labels.equivalent l r _
  · exact Labels.push rfl rfl
  · exact Labels.incongruous l r _

theorem labels_tuples (l r : SortRecord) : Labels l.id r.id (tuples l r) := by
  unfold tuples
  split_ifs
  · exact Labels.equivalent l r _
  · exact Labels.incongruous l r _

theorem labels_aspects (l r : SortRecord) (leftOwner rightOwner : SortId)
    (leftPosition rightPosition : Nat) : Labels l.id r.id
      (aspects c relate l r leftOwner rightOwner leftPosition rightPosition) := by
  refine Labels.bind fun owners ↦ Labels.bind fun node ↦ ?_
  split_ifs
  · exact Labels.incongruous l r _
  · exact Labels.bind fun _ ↦ Labels.push rfl rfl
  · refine Labels.bind fun _ ↦ Labels.bind fun _ ↦ Labels.bind fun _ ↦ Labels.bind fun _ ↦ ?_
    split_ifs
    · exact Labels.incongruous l r _
    · exact Labels.pushLike fun _ ↦ ⟨rfl, rfl⟩

theorem labels_recursive (l r : SortRecord) (target : Option SortId) :
    Labels l.id r.id (recursive relate l r target) := by
  unfold recursive
  split
  · exact Labels.throw _
  · split_ifs
    · exact Labels.equivalent l r _
    all_goals exact Labels.bind fun _ ↦ Labels.bind fun _ ↦ Labels.push rfl rfl

variable (inside : ∀ left right, Respects Extends (relate left right))

include inside

theorem labels_disjunction (l r : SortRecord) (components : List SortId) :
    Labels l.id r.id (disjunction config relate l r components) := by
  intro t
  refine Ends.bind ((Ends.mapM (fun _ ids t' ↦ ∀ id ∈ ids, Labelled l.id r.id t' id) components
    (by simp) ?_).mono (fun ids t' labelled ↦ ?_) fun _ failed ↦ failed)
  · intro component _ before ids t' labelled
    refine Ends.bind ((inside component r.id t').mono (fun inner t'' later ↦ ?_)
      fun _ _ ↦ trivial)
    refine ends_pushLike trivial fun source _ other among ↦ ?_
    rcases List.mem_append.mp among with among | among
    · exact (labelled other among).extend (later.trans (extends_push _))
    · obtain rfl := List.mem_singleton.mp among
      exact labelled_push rfl rfl
  · exact labelled_chooseOrIncongruous labelled

theorem labels_weightedBesideSimple (l r : SortRecord) (base weight : SortId) :
    Labels l.id r.id (weightedBesideSimple c config relate l r base weight) := by
  refine Labels.bind fun _ ↦ Labels.bind fun byBaseInner ↦ ?_
  intro t
  refine Ends.bind (ends_pushLike trivial fun source _ ↦ ?_)
  refine Ends.bind ((inside weight r.id _).mono (fun inner t' later ↦ ?_) fun _ _ ↦ trivial)
  refine Ends.bind (ends_pushLike trivial fun source _ ↦ ?_)
  apply labelled_chooseOrIncongruous
  intro id among
  rcases List.mem_cons.mp among with rfl | among
  · exact (labelled_push rfl rfl).extend (later.trans (extends_push _))
  · obtain rfl := List.mem_singleton.mp among
    exact labelled_push rfl rfl

theorem labelled_bestRotation (l r : SortRecord) (t : Matchings) :
    Ends (bestRotation c config relate l r) t
      (fun best t' ↦ ∀ id, best = some id → Labelled l.id r.id t' id) fun _ ↦ True := by
  refine Ends.bind (ends_ask trivial fun left _ ↦ ?_)
  refine Ends.bind (ends_ask trivial fun right _ ↦ ?_)
  split_ifs
  · exact Ends.pure (by simp)
  refine Ends.bind ((Ends.mapM (fun _ found t' ↦ ∀ id, some id ∈ found → Labelled l.id r.id t' id)
    (List.range left.length) (by simp) ?_).mono (fun found t' labelled ↦ ?_)
    fun _ failed ↦ failed)
  · intro shift _ before found t' labelled
    refine Ends.bind ((respects_align tolerant_extends.gentle inside _ _ t').mono
      (fun aligned t'' later ↦ ?_) fun _ _ ↦ trivial)
    split
    · refine Ends.pure fun id among ↦ ?_
      have among : some id ∈ found := by simpa using among
      exact (labelled id among).extend later
    · refine Ends.bind (Ends.get ?_)
      rw [map_eq_pure_bind]
      refine Ends.bind (ends_push (Ends.pure fun id among ↦ ?_))
      rcases List.mem_append.mp among with among | among
      · exact (labelled id among).extend (later.trans (extends_push _))
      · obtain rfl := Option.some.inj (List.mem_singleton.mp among)
        exact labelled_push rfl rfl
  · apply labelled_choose
    intro id among
    exact labelled id (List.reduceOption_mem_iff.mp among)

omit inside in
theorem labelsAll_halves (l r : SortRecord) (base weight : MatchId × MatchNode) :
    LabelsAll l.id r.id (halves l r base weight) := by
  have one : ∀ {node : MatchNode}, node.left = l.id → node.right = r.id →
      LabelsAll l.id r.id (do let id ← push node; pure [id]) := by
    intro node here there t
    refine Ends.bind (ends_push (Ends.pure fun id among ↦ ?_))
    obtain rfl := List.mem_singleton.mp among
    exact labelled_push here there
  unfold halves
  split_ifs
  · exact Labels.bindAll fun _ ↦ one rfl rfl
  · split
    · exact fun t ↦ Ends.pure (by simp)
    · exact Labels.bindAll fun _ ↦ one rfl rfl

omit inside in
theorem labelsAll_augmented (l r : SortRecord) (rightBase rightWeight : SortId) :
    LabelsAll l.id r.id (augmented c relate l r rightBase rightWeight) := by
  refine Labels.bindAll fun _ ↦ Labels.bindAll fun inner ↦ Labels.bindAll fun node ↦ ?_
  split_ifs
  · exact fun t ↦ Ends.pure (by simp)
  · intro t
    refine Ends.bind (ends_pushLike trivial fun source _ ↦ Ends.pure fun id among ↦ ?_)
    obtain rfl := List.mem_singleton.mp among
    exact labelled_push rfl rfl

omit inside in
theorem labelsAll_lessened (l r : SortRecord) (leftBase leftWeight : SortId) :
    LabelsAll l.id r.id (lessened c relate l r leftBase leftWeight) := by
  refine Labels.bindAll fun _ ↦ Labels.bindAll fun inner ↦ Labels.bindAll fun node ↦ ?_
  split_ifs
  · exact fun t ↦ Ends.pure (by simp)
  · intro t
    refine Ends.bind (ends_pushLike trivial fun source _ ↦ Ends.pure fun id among ↦ ?_)
    obtain rfl := List.mem_singleton.mp among
    exact labelled_push rfl rfl

theorem labels_weighted (l r : SortRecord) (leftBase leftWeight rightBase rightWeight : SortId) :
    Labels l.id r.id
      (weighted c config relate l r leftBase leftWeight rightBase rightWeight) := by
  unfold weighted
  split_ifs
  · exact Labels.equivalent l r _
  refine Labels.bind fun baseId ↦ Labels.bind fun weightId ↦ Labels.bind fun base ↦
    Labels.bind fun weight ↦ ?_
  split
  · exact Labels.bind fun _ ↦ Labels.push rfl rfl
  · intro t
    refine Ends.bind ((labelled_bestRotation inside l r t).mono (fun rotated t₁ fits ↦ ?_)
      fun _ failed ↦ failed)
    split
    · exact Ends.pure (fits _ rfl)
    · refine Ends.bind ((labelsAll_halves l r (baseId, base) (weightId, weight) t₁).mono
        (fun byHalves t₂ first ↦ ?_) fun _ failed ↦ failed)
      refine Ends.bind (((labelsAll_augmented l r rightBase rightWeight t₂).and
        (respects_augmented tolerant_extends.gentle inside l r rightBase rightWeight t₂)).mono
        (fun byRight t₃ second ↦ ?_) fun _ _ ↦ trivial)
      refine Ends.bind (((labelsAll_lessened l r leftBase leftWeight t₃).and
        (respects_lessened tolerant_extends.gentle inside l r leftBase leftWeight t₃)).mono
        (fun byLeft t₄ third ↦ ?_) fun _ _ ↦ trivial)
      apply labelled_chooseOrIncongruous
      intro id among
      rcases List.mem_append.mp among with among | among
      · rcases List.mem_append.mp among with among | among
        · exact (first id among).extend (second.2.trans third.2)
        · exact (second.1 id among).extend third.2
      · exact third.1 id among

omit inside in
theorem labels_composition (l r : SortRecord) (left right : List SortId) :
    Labels l.id r.id (composition relate l r left right) := by
  unfold composition
  split_ifs
  · exact Labels.equivalent l r _
  · refine Labels.bind fun found ↦ ?_
    dsimp only
    split_ifs
    · exact Labels.incongruous l r _
    · exact Labels.bind fun _ ↦ Labels.push rfl rfl

/-- Every rule answers a match of its two sorts. -/
theorem labels_forVariants (l r : SortRecord) :
    Labels l.id r.id (forVariants c config relate l r) := by
  unfold forVariants
  dsimp only
  split
  · exact labels_tuples l r
  · exact Labels.throw _
  · exact Labels.throw _
  · split_ifs
    · exact labels_exchanged l r
    · exact labels_recursive l r _
  · exact labels_recursive l r _
  · exact labels_exchanged l r
  · split_ifs
    · exact labels_exchanged l r
    · exact labels_composition l r _ _
  · exact labels_disjunction inside l r _
  · exact labels_exchanged l r
  · split_ifs
    · exact labels_exchanged l r
    · exact labels_weighted inside l r _ _ _ _
  · exact labels_weightedBesideSimple inside l r _ _
  · exact labels_exchanged l r
  · exact labels_primitives l r _ _
  · split_ifs
    · exact labels_exchanged l r
    · exact labels_aspects l r _ _ _ _
  · exact Labels.incongruous l r _

end

end CompositeSorts
