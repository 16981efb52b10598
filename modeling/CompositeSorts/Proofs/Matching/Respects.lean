import CompositeSorts.Proofs.Matching.Steps
import Mathlib.Data.List.Forall2

/-!
What rules leave alone. Let a relation between earlier and later matches be transitive and hold
whenever nothing is remembered in between. A rule respects it as soon as the matching of the sorts
inside does, for all that a rule does itself is to append and to chain. Rules that choose among
nothing only append, so for them it is enough that the relation does not tell when matches are
appended. Where a list is worked off, each element is worked off at some time in between (`Occurs`).
-/

set_option autoImplicit false
set_option relaxedAutoImplicit false

namespace CompositeSorts

open Matchings Matching Rule

variable {α β : Type} {R : Matchings → Matchings → Prop} {t t' u : Matchings} {id : MatchId}
  {l r : SortRecord} {left right : SortId}

/-- A relation that does not tell changes by which nothing is remembered, and that leave the same
pairs under way. -/
structure Tolerant (R : Matchings → Matchings → Prop) : Prop where
  still : ∀ {t t'}, Still t t' → R t t'
  trans : ∀ {t t' u}, R t t' → R t' u → R t u

/-- A relation that does not tell when matches are appended. -/
structure Gentle (R : Matchings → Matchings → Prop) : Prop where
  refl : ∀ t, R t t
  append : ∀ t nodes, R t (t.append nodes)
  trans : ∀ {t t' u}, R t t' → R t' u → R t u

theorem Gentle.push (h : Gentle R) (t : Matchings) (node : MatchNode) : R t (t.push node) := by
  have appended := h.append t #[node]
  unfold Matchings.append at appended
  rw [← Array.push_eq_append] at appended
  exact appended

theorem Tolerant.gentle (h : Tolerant R) : Gentle R where
  refl t := h.still (Still.refl t)
  append _ nodes := h.still (still_append nodes)
  trans := h.trans

theorem tolerant_extends : Tolerant Extends := ⟨fun still ↦ still.nodes, Extends.trans⟩

/-- From its start to its end, whichever end it is, the computation keeps to the relation. -/
def Respects (R : Matchings → Matchings → Prop) (m : Matching α) : Prop :=
  ∀ t, Ends m t (fun _ t' ↦ R t t') (R t)

namespace Respects

variable {m : Matching α} {f : α → Matching β}

section

variable (gentle : Gentle R)

include gentle

theorem pure (a : α) : Respects R (Pure.pure a : Matching α) :=
  fun t ↦ Ends.pure (gentle.refl t)

theorem throw (reason : Refusal) : Respects R (MonadExcept.throw reason : Matching α) :=
  fun t ↦ Ends.throw (gentle.refl t)

theorem get : Respects R (MonadState.get : Matching Matchings) :=
  fun t ↦ Ends.get (gentle.refl t)

theorem bind (h : Respects R m) (h' : ∀ a, Respects R (f a)) : Respects R (m >>= f) := by
  intro t
  refine Ends.bind ((h t).mono (fun a t' first ↦ ?_) fun _ failed ↦ failed)
  exact (h' a t').mono (fun _ _ next ↦ gentle.trans first next)
    fun _ failed ↦ gentle.trans first failed

theorem mapM {work : α → Matching β} (items : List α) (h : ∀ a ∈ items, Respects R (work a)) :
    Respects R (items.mapM work) := by
  intro t
  refine Ends.mapM (fun _ _ t' ↦ R t t') items (gentle.refl t) ?_
  intro a inside _ _ t' reached
  exact (h a inside t').mono (fun _ _ next ↦ gentle.trans reached next)
    fun _ failed ↦ gentle.trans reached failed

theorem ask (answer : Except Refusal α) : Respects R (Matching.ask answer) := by
  intro t
  exact ends_ask (gentle.refl t) fun _ _ ↦ gentle.refl t

theorem nodeOf (id : MatchId) : Respects R (Matching.nodeOf id) := by
  intro t
  exact ends_nodeOf (gentle.refl t) fun _ _ ↦ gentle.refl t

theorem push (node : MatchNode) : Respects R (Matching.push node) :=
  fun t ↦ ends_push (gentle.push t node)

theorem pushLike (l r : SortRecord) (inner : MatchId) (adjust : MatchNode → MatchNode) :
    Respects R (Matching.pushLike l r inner adjust) :=
  bind gentle (nodeOf gentle inner) fun _ ↦ bind gentle (get gentle) fun _ ↦
    push gentle _

theorem reverse (id : MatchId) (left right : SortId) :
    Respects R (Matching.reverse id left right) := by
  intro t
  exact ends_reverse (fun nodes ↦ gentle.append t nodes) fun _ _ _ _ _ ↦ gentle.append t _

end

section

variable (tolerant : Tolerant R)

include tolerant

theorem chain (config : Configuration) (head alternative : MatchId) :
    Respects R (Matching.chain config head alternative) := by
  intro t
  exact ends_chain (tolerant.still (Still.refl t))
    fun last _ ↦ tolerant.still (still_tie last alternative _ _)

theorem choose (config : Configuration) (ids : List MatchId) :
    Respects R (Matching.choose config ids) := by
  intro t
  have here := tolerant.still (Still.refl t)
  refine ends_choose (fun _ _ t' ↦ R t t') here (fun _ ↦ here) (fun _ _ _ _ ↦ here) ?_ ?_
  · intro _ best candidate _ _ _ t' reached
    exact (chain tolerant config best.1 candidate.1 t').mono
      (fun _ _ next ↦ tolerant.trans reached next) fun _ failed ↦ tolerant.trans reached failed
  · exact fun _ _ _ _ reached ↦ reached

theorem chooseOrIncongruous (config : Configuration) (l r : SortRecord) (ids parts : List MatchId) :
    Respects R (Matching.chooseOrIncongruous config l r ids parts) := by
  refine bind tolerant.gentle (choose tolerant config ids) fun best ↦ ?_
  split
  · exact pure tolerant.gentle _
  · exact push tolerant.gentle _

end

end Respects

/-! ### Occurrences -/

/-- What a run answers, and where it ends. -/
theorem ends_answered (m : Matching α) (t : Matchings) :
    Ends m t (fun answer t' ↦ m t = .ok answer t') fun _ ↦ True := by
  unfold Ends
  split
  · assumption
  · trivial

/-- At some time from `t` to `t'` the computation was carried out, and this was its answer. -/
def Occurs (R : Matchings → Matchings → Prop) (m : Matching α) (t t' : Matchings) (answer : α) :
    Prop :=
  ∃ s s', R t s ∧ m s = .ok answer s' ∧ R s' t'

theorem Occurs.within {s s' : Matchings} {m : Matching α} {answer : α}
    (h : Occurs R m s s' answer) (gentle : Gentle R) (before : R t s) (later : R s' t') :
    Occurs R m t t' answer := by
  obtain ⟨u, u', started, run, ended⟩ := h
  exact ⟨u, u', gentle.trans before started, run, gentle.trans ended later⟩

/-- Each element of a list is worked off at some time. -/
theorem ends_mapM_occurs (gentle : Gentle R) {work : α → Matching β} {items : List α}
    (each : ∀ a ∈ items, Respects R (work a)) :
    Ends (items.mapM work) t (fun answers t' ↦ R t t' ∧
      List.Forall₂ (fun a answer ↦ Occurs R (work a) t t' answer) items answers)
      fun _ ↦ True := by
  refine Ends.mapM (fun before answers s ↦ R t s ∧
    List.Forall₂ (fun a answer ↦ Occurs R (work a) t s answer) before answers) items
    ⟨gentle.refl t, .nil⟩ fun a inside before answers s reached ↦ ?_
  refine ((each a inside s).and (ends_answered (work a) s)).mono (fun answer s' made ↦ ?_)
    fun _ _ ↦ trivial
  obtain ⟨onwards, run⟩ := made
  refine ⟨gentle.trans reached.1 onwards, List.rel_append
    (reached.2.imp fun _ _ before ↦ before.within gentle (gentle.refl t) onwards) (.cons ?_ .nil)⟩
  exact ⟨s, s', reached.1, run, gentle.refl s'⟩

/-! ### Rules -/

section

variable {c : Catalog} {config : Configuration} {relate : Relate}
variable (gentle : Gentle R) (inside : ∀ left right, Respects R (relate left right))

include gentle

theorem respects_equivalent (l r : SortRecord) (tally : Tally) :
    Respects R (equivalent l r tally) := Respects.push gentle _

theorem respects_incongruous (l r : SortRecord) (parts : List MatchId) :
    Respects R (Matching.incongruous l r parts) := Respects.push gentle _

theorem respects_primitives (l r : SortRecord) (leftTag rightTag : String) :
    Respects R (primitives l r leftTag rightTag) := by
  unfold primitives
  split_ifs
  · exact respects_equivalent gentle l r _
  · exact Respects.push gentle _
  · exact respects_incongruous gentle l r _

theorem respects_tuples (l r : SortRecord) : Respects R (tuples l r) := by
  unfold tuples
  split_ifs
  · exact respects_equivalent gentle l r _
  · exact respects_incongruous gentle l r _

include inside

theorem respects_exchanged (l r : SortRecord) : Respects R (exchanged relate l r) :=
  Respects.bind gentle (inside _ _) fun _ ↦ Respects.reverse gentle _ _ _

theorem respects_aspects (l r : SortRecord) (leftOwner rightOwner : SortId)
    (leftPosition rightPosition : Nat) :
    Respects R (aspects c relate l r leftOwner rightOwner leftPosition rightPosition) := by
  refine Respects.bind gentle (inside _ _) fun owners ↦ ?_
  refine Respects.bind gentle (Respects.nodeOf gentle _) fun node ↦ ?_
  split_ifs
  · exact respects_incongruous gentle l r _
  · refine Respects.bind gentle (Respects.get gentle) fun _ ↦ ?_
    exact Respects.push gentle _
  · refine Respects.bind gentle (Respects.ask gentle _) fun _ ↦ ?_
    refine Respects.bind gentle (Respects.ask gentle _) fun _ ↦ ?_
    refine Respects.bind gentle (inside _ _) fun arguments ↦ ?_
    refine Respects.bind gentle (Respects.nodeOf gentle _) fun node ↦ ?_
    split_ifs
    · exact respects_incongruous gentle l r _
    · exact Respects.pushLike gentle l r _ _

theorem respects_recursive (l r : SortRecord) (target : Option SortId) :
    Respects R (recursive relate l r target) := by
  unfold recursive
  split
  · exact Respects.throw gentle _
  · split_ifs
    · exact respects_equivalent gentle l r _
    all_goals
      refine Respects.bind gentle (inside _ _) fun inner ↦ ?_
      refine Respects.bind gentle (Respects.nodeOf gentle _) fun source ↦ ?_
      exact Respects.push gentle _

theorem respects_align (sofar : Rule.Alignment) (pairs : List (SortId × SortId)) :
    Respects R (align relate sofar pairs) := by
  induction pairs generalizing sofar with
  | nil => exact Respects.pure gentle _
  | cons pair pairs ih =>
    refine Respects.bind gentle (inside _ _) fun element ↦ ?_
    refine Respects.bind gentle (Respects.nodeOf gentle _) fun node ↦ ?_
    split_ifs
    · exact Respects.pure gentle _
    · exact ih _

theorem respects_rotation (l r : SortRecord) (left right : List SortId) (shift : Nat) :
    Respects R (rotation relate l r left right shift) := by
  refine Respects.bind gentle (respects_align gentle inside _ _) fun found ↦ ?_
  split
  · exact Respects.pure gentle _
  · refine Respects.bind gentle (Respects.get gentle) fun _ ↦ ?_
    rw [map_eq_pure_bind]
    exact Respects.bind gentle (Respects.push gentle _) fun _ ↦ Respects.pure gentle _

omit inside in
theorem respects_halves (l r : SortRecord) (base weight : MatchId × MatchNode) :
    Respects R (halves l r base weight) := by
  unfold halves
  split_ifs
  · refine Respects.bind gentle (Respects.get gentle) fun _ ↦ ?_
    exact Respects.bind gentle (Respects.push gentle _) fun _ ↦ Respects.pure gentle _
  · split
    · exact Respects.pure gentle _
    · refine Respects.bind gentle (Respects.get gentle) fun _ ↦ ?_
      exact Respects.bind gentle (Respects.push gentle _) fun _ ↦ Respects.pure gentle _

theorem respects_augmented (l r : SortRecord) (rightBase rightWeight : SortId) :
    Respects R (augmented c relate l r rightBase rightWeight) := by
  refine Respects.bind gentle (Respects.ask gentle _) fun _ ↦ ?_
  refine Respects.bind gentle (inside _ _) fun inner ↦ ?_
  refine Respects.bind gentle (Respects.nodeOf gentle _) fun node ↦ ?_
  split_ifs
  · exact Respects.pure gentle _
  · exact Respects.bind gentle (Respects.pushLike gentle l r _ _) fun _ ↦
      Respects.pure gentle _

theorem respects_lessened (l r : SortRecord) (leftBase leftWeight : SortId) :
    Respects R (lessened c relate l r leftBase leftWeight) := by
  refine Respects.bind gentle (Respects.ask gentle _) fun _ ↦ ?_
  refine Respects.bind gentle (inside _ _) fun inner ↦ ?_
  refine Respects.bind gentle (Respects.nodeOf gentle _) fun node ↦ ?_
  split_ifs
  · exact Respects.pure gentle _
  · exact Respects.bind gentle (Respects.pushLike gentle l r _ _) fun _ ↦
      Respects.pure gentle _

theorem respects_pairings (left right : SortId × Nat) :
    Respects R (pairings relate left right) := by
  refine Respects.bind gentle (inside _ _) fun head ↦ ?_
  refine Respects.bind gentle (Respects.get gentle) fun _ ↦ ?_
  refine Respects.bind gentle (Respects.mapM gentle _ fun id _ ↦ ?_) fun _ ↦
    Respects.pure gentle _
  exact Respects.bind gentle (Respects.nodeOf gentle _) fun _ ↦ Respects.pure gentle _

theorem respects_composition (l r : SortRecord) (left right : List SortId) :
    Respects R (composition relate l r left right) := by
  unfold composition
  split_ifs
  · exact respects_equivalent gentle l r _
  · have all : Respects R (allPairings relate left right) := by
      refine Respects.bind gentle (Respects.mapM gentle _ fun l _ ↦ ?_) fun _ ↦
        Respects.pure gentle _
      refine Respects.bind gentle (Respects.mapM gentle _ fun r _ ↦ ?_) fun _ ↦
        Respects.pure gentle _
      exact respects_pairings gentle inside l r
    refine Respects.bind gentle all fun found ↦ ?_
    dsimp only
    split_ifs
    · exact respects_incongruous gentle l r _
    · exact Respects.bind gentle (Respects.get gentle) fun _ ↦ Respects.push gentle _

end

section

variable {c : Catalog} {config : Configuration} {relate : Relate}
variable (tolerant : Tolerant R) (inside : ∀ left right, Respects R (relate left right))

include tolerant inside

theorem respects_disjunction (l r : SortRecord) (components : List SortId) :
    Respects R (disjunction config relate l r components) := by
  refine Respects.bind tolerant.gentle (Respects.mapM tolerant.gentle components
    fun component _ ↦ ?_) fun _ ↦ ?_
  · exact Respects.bind tolerant.gentle (inside _ _) fun inner ↦
      Respects.pushLike tolerant.gentle l r _ _
  · exact Respects.chooseOrIncongruous tolerant config l r _ _

theorem respects_weightedBesideSimple (l r : SortRecord) (base weight : SortId) :
    Respects R (weightedBesideSimple c config relate l r base weight) := by
  refine Respects.bind tolerant.gentle (Respects.ask tolerant.gentle _) fun _ ↦ ?_
  refine Respects.bind tolerant.gentle (inside _ _) fun _ ↦ ?_
  refine Respects.bind tolerant.gentle (Respects.pushLike tolerant.gentle l r _ _) fun _ ↦ ?_
  refine Respects.bind tolerant.gentle (inside _ _) fun _ ↦ ?_
  refine Respects.bind tolerant.gentle (Respects.pushLike tolerant.gentle l r _ _) fun _ ↦ ?_
  exact Respects.chooseOrIncongruous tolerant config l r _ _

theorem respects_bestRotation (l r : SortRecord) :
    Respects R (bestRotation c config relate l r) := by
  refine Respects.bind tolerant.gentle (Respects.ask tolerant.gentle _) fun left ↦ ?_
  refine Respects.bind tolerant.gentle (Respects.ask tolerant.gentle _) fun right ↦ ?_
  split_ifs
  · exact Respects.pure tolerant.gentle _
  · refine Respects.bind tolerant.gentle (Respects.mapM tolerant.gentle _ fun shift _ ↦ ?_)
      fun _ ↦ ?_
    · exact respects_rotation tolerant.gentle inside l r left right shift
    · exact Respects.choose tolerant config _

theorem respects_weighted (l r : SortRecord) (leftBase leftWeight rightBase rightWeight : SortId) :
    Respects R (weighted c config relate l r leftBase leftWeight rightBase rightWeight) := by
  unfold weighted
  split_ifs
  · exact respects_equivalent tolerant.gentle l r _
  refine Respects.bind tolerant.gentle (inside _ _) fun baseId ↦ ?_
  refine Respects.bind tolerant.gentle (inside _ _) fun weightId ↦ ?_
  refine Respects.bind tolerant.gentle (Respects.nodeOf tolerant.gentle _) fun base ↦ ?_
  refine Respects.bind tolerant.gentle (Respects.nodeOf tolerant.gentle _) fun weight ↦ ?_
  split
  · exact Respects.bind tolerant.gentle (Respects.get tolerant.gentle)
      fun _ ↦ Respects.push tolerant.gentle _
  · refine Respects.bind tolerant.gentle (respects_bestRotation tolerant inside l r)
      fun rotated ↦ ?_
    split
    · exact Respects.pure tolerant.gentle _
    · refine Respects.bind tolerant.gentle (respects_halves tolerant.gentle l r _ _) fun _ ↦ ?_
      refine Respects.bind tolerant.gentle (respects_augmented tolerant.gentle inside l r _ _)
        fun _ ↦ ?_
      refine Respects.bind tolerant.gentle (respects_lessened tolerant.gentle inside l r _ _)
        fun _ ↦ ?_
      exact Respects.chooseOrIncongruous tolerant config l r _ _

/-- Every rule respects what the matching of the sorts inside respects. -/
theorem respects_forVariants (l r : SortRecord) :
    Respects R (forVariants c config relate l r) := by
  unfold forVariants
  dsimp only
  split
  · exact respects_tuples tolerant.gentle l r
  · exact Respects.throw tolerant.gentle _
  · exact Respects.throw tolerant.gentle _
  · split_ifs
    · exact respects_exchanged tolerant.gentle inside l r
    · exact respects_recursive tolerant.gentle inside l r _
  · exact respects_recursive tolerant.gentle inside l r _
  · exact respects_exchanged tolerant.gentle inside l r
  · split_ifs
    · exact respects_exchanged tolerant.gentle inside l r
    · exact respects_composition tolerant.gentle inside l r _ _
  · exact respects_disjunction tolerant inside l r _
  · exact respects_exchanged tolerant.gentle inside l r
  · split_ifs
    · exact respects_exchanged tolerant.gentle inside l r
    · exact respects_weighted tolerant inside l r _ _ _ _
  · exact respects_weightedBesideSimple tolerant inside l r _ _
  · exact respects_exchanged tolerant.gentle inside l r
  · exact respects_primitives tolerant.gentle l r _ _
  · split_ifs
    · exact respects_exchanged tolerant.gentle inside l r
    · exact respects_aspects tolerant.gentle inside l r _ _ _ _
  · exact respects_incongruous tolerant.gentle l r _


end

end CompositeSorts
