import CompositeSorts.Proofs.Catalog.Heights
import CompositeSorts.Proofs.Matching.Mirrors
import CompositeSorts.Proofs.Matching.Routines
import CompositeSorts.Proofs.Matching.ReversalCopies

/-!
Matching that never goes around in a circle. A pair is known to be under way by the displays of its
sorts, so other sorts that show the same could be taken for it, and so could the pair itself when
its rule asks for the exchanged pair. Neither happens to straight sorts. What a rule asks for is
lower than its own pair, both heights taken together, but for the exchanged pair; and that one is
not exchanged again. So the questions that stand inside each other go down (`toGo`), and since the
heights are those of displays, no two of them go by one key.

Nothing else makes a sentinel: what a rule appends is settled, and so are the copies that a reversal
makes (`settles_copy`). So no cycle is broken (`unbroken_relate`).
-/

set_option autoImplicit false
set_option relaxedAutoImplicit false

namespace CompositeSorts

open Catalog Matchings Matching Rule

variable {c : Catalog} {config : Configuration} {t t' u : Matchings} {id : MatchId}
  {l r l' r' x y : SortRecord} {left right : SortId} {height : String → Nat}
  {underWay : List PairKey}

namespace Matchings

/-- The match stands for one that was under way. -/
def IsSentinel (t : Matchings) (id : MatchId) : Prop :=
  ∃ node, t.get? id = some node ∧ node.sentinel = true

/-- No cycle was broken in between: as many are counted, the same sentinels are remembered, and the
same matches are sentinels. -/
structure Unbroken (t t' : Matchings) : Prop where
  counted : t'.metrics.cyclesBroken = t.metrics.cyclesBroken
  remembered : t'.sentinels = t.sentinels
  nodes : ∀ id, t'.IsSentinel id ↔ t.IsSentinel id

/-- No copy is a sentinel. -/
def Settled (nodes : Array MatchNode) : Prop := ∀ node ∈ nodes, node.sentinel = false

namespace Unbroken

theorem of_nodes (counted : t'.metrics.cyclesBroken = t.metrics.cyclesBroken)
    (remembered : t'.sentinels = t.sentinels) (nodes : t'.nodes = t.nodes) : Unbroken t t' where
  counted := counted
  remembered := remembered
  nodes id := by rw [IsSentinel, IsSentinel, get?, get?, nodes]

theorem refl (t : Matchings) : Unbroken t t := ⟨rfl, rfl, fun _ ↦ Iff.rfl⟩

theorem trans (h : Unbroken t t') (h' : Unbroken t' u) : Unbroken t u where
  counted := h'.counted.trans h.counted
  remembered := h'.remembered.trans h.remembered
  nodes id := (h'.nodes id).trans (h.nodes id)

theorem append {nodes : Array MatchNode} (settled : Settled nodes) :
    Unbroken t (t.append nodes) where
  counted := rfl
  remembered := rfl
  nodes id := by
    unfold IsSentinel
    rw [get?_append]
    split_ifs with inside
    · rfl
    · have outside : t.get? id = none := Array.getElem?_eq_none_iff.mpr (Nat.not_lt.mp inside)
      simp only [outside, reduceCtorEq, false_and, exists_false, iff_false, not_exists, not_and]
      intro node found sentinel
      rw [settled node (Array.mem_of_getElem? found)] at sentinel
      cases sentinel

theorem push {node : MatchNode} (settled : node.sentinel = false) : Unbroken t (t.push node) := by
  have appended : Unbroken t (t.append #[node]) := append fun other inside ↦ by
    rwa [Array.mem_singleton.mp inside]
  unfold Matchings.append at appended
  rwa [← Array.push_eq_append] at appended

/-- Tying matches makes no sentinel. -/
theorem tie (metrics : Metrics) (same : metrics.cyclesBroken = t.metrics.cyclesBroken)
    (journal : List Event) (last alternative : MatchId) : Unbroken t { t with
      nodes := t.nodes.modify last.index fun node ↦ { node with tiedWith := some alternative }
      metrics, journal } where
  counted := same
  remembered := rfl
  nodes id := by
    unfold IsSentinel get?
    rw [Array.getElem?_modify]
    split_ifs with here
    · cases t.nodes[id.index]? <;> simp
    · rfl

end Unbroken

/-! ### Reversals -/

/-- However the computation ends, the copies stay settled. -/
abbrev Settles {α : Type} (m : Copying α) : Prop := ∀ s : Copies, Settled s.nodes →
  Ends m s (fun _ s' ↦ Settled s'.nodes) fun s' ↦ Settled s'.nodes

/-- The copy of a match is settled, and so are those of what it leads to. -/
theorem settles_links {γ : Type} {copy : MatchId → Copying MatchId}
    {rest : List MatchId → Option MatchId → Copying γ} (each : ∀ id, Settles (copy id))
    (done : ∀ parts tie, Settles (rest parts tie)) (parts : List MatchId) (tie : Option MatchId) :
    Settles (do
      let parts ← parts.mapM copy
      let tie ← tie.mapM copy
      rest parts tie) := by
  intro s settled
  refine Ends.bind ((Ends.mapM (fun _ _ s' ↦ Settled s'.nodes) parts settled
    fun part _ _ _ s' settled' ↦ each part s' settled').mono (fun parts' s₁ settled₁ ↦ ?_)
    fun _ failed ↦ failed)
  cases tie with
  | none => exact Ends.bind (Ends.pure (done parts' none s₁ settled₁))
  | some next =>
    refine Ends.bind (Ends.bind ((each next s₁ settled₁).mono (fun next' s₂ settled₂ ↦ ?_)
      fun _ failed ↦ failed))
    exact Ends.pure (done parts' (some next') s₂ settled₂)

theorem settles_addCopy {node : MatchNode} (new : node.sentinel = false) :
    Settles (t.addCopy node) := by
  refine fun s settled ↦ ends_addCopy fun other inside ↦ ?_
  rcases Array.mem_push.mp inside with inside | rfl
  · exact settled other inside
  · exact new

theorem settles_copy (t : Matchings) (underWay : List Nat) (id : MatchId) :
    Settles (t.copy underWay id) := by
  intro s settled
  rw [copy]
  refine Ends.bind (Ends.get ?_)
  split
  · exact Ends.pure settled
  dsimp only
  split_ifs with inside same busy
  · exact Ends.pure settled
  · exact Ends.pure settled
  · refine settles_links (fun link ↦ settles_copy t (id.index :: underWay) link)
      (fun parts tie s settled ↦ ?_) _ _ s settled
    exact Ends.bind ((settles_addCopy rfl s settled).mono
      (fun _ _ settled' ↦ Ends.bind (Ends.modify (Ends.pure settled'))) fun _ failed ↦ failed)
  · exact Ends.throw settled
termination_by (unvisited (List.range t.nodes.size) underWay).length
decreasing_by exact length_unvisited_cons_lt (List.mem_range.2 ‹_›) ‹_›

theorem settles_copies (t : Matchings) (id : MatchId) (left right : SortId) :
    Settles (t.copies id left right) := by
  intro s settled
  unfold copies
  split_ifs with inside
  · refine settles_links (fun link ↦ settles_copy t [id.index] link) (fun parts tie ↦ ?_) _ _ s
      settled
    exact settles_addCopy rfl
  · exact Ends.throw settled

end Matchings

/-- Reversing makes no sentinel. -/
theorem unbroken_reverse (id : MatchId) (left right : SortId) :
    Ends (reverse id left right) t (fun _ t' ↦ Unbroken t t') (Unbroken t) := by
  have copied := settles_copies t id left right ⟨#[], ∅⟩ (by simp [Settled])
  unfold Ends at copied ⊢
  unfold reverse
  cases run : t.copies id left right ⟨#[], ∅⟩ with
  | ok reversal copies =>
    rw [run] at copied
    exact Unbroken.append copied
  | error reason copies =>
    rw [run] at copied
    exact Unbroken.append copied

/-! ### Steps -/

/-- The steps of a rule break no cycle. -/
theorem upholds_unbroken (config : Configuration) (l r : SortRecord) :
    Routine.Upholds config l r (fun _ ↦ True) Unbroken (fun _ _ ↦ True) fun _ _ ↦ True where
  refl := Unbroken.refl
  trans := Unbroken.trans
  told _ _ := trivial
  made _ _ := trivial
  alternative _ _ := trivial
  push _ composed _ := ⟨trivial, Unbroken.push composed.settled, trivial⟩
  tie _ _ _ _ _ journal same := ⟨trivial, Unbroken.tie _ same journal _ _⟩

theorem unbroken_identity (sort : SortRecord) :
    Ends (identity sort) t (fun _ t' ↦ Unbroken t t') (Unbroken t) := by
  refine Ends.bind (Ends.get ?_)
  split
  · exact Ends.pure (.refl t)
  · exact Ends.bind (ends_push (Ends.bind (Ends.modify (Ends.pure
      ((Unbroken.push rfl).trans (.of_nodes rfl rfl rfl))))))

theorem unbroken_chain (config : Configuration) (head alternative : MatchId) :
    Ends (chain config head alternative) t (fun _ t' ↦ Unbroken t t') (Unbroken t) :=
  ends_chain (.refl t) fun last _ ↦ Unbroken.tie t.metrics.recordAlternative rfl
    (.tieRecorded head alternative :: t.journal) last alternative

theorem unbroken_remember (config : Configuration) (key : PairKey) (id : MatchId) :
    Ends (remember config key id) t (fun _ t' ↦ Unbroken t t') (Unbroken t) := by
  refine Ends.bind (Ends.get ?_)
  split
  · split_ifs
    · exact Ends.bind ((unbroken_chain config _ id).mono (fun _ _ tied ↦ Ends.pure tied)
        fun _ failed ↦ failed)
    · exact Ends.pure (.refl t)
  · exact Ends.bind (Ends.modify (Ends.pure (.of_nodes rfl rfl rfl)))

/-- Consulting the memo breaks no cycle if the computation breaks none. -/
theorem unbroken_consult {key : PairKey} {m : Matching MatchId}
    (h : ∀ t, Ends m t (fun _ t' ↦ Unbroken t t') (Unbroken t)) :
    Ends (consult config key m) t (fun _ t' ↦ Unbroken t t') (Unbroken t) := by
  refine ends_consult_counted (fun _ _ ↦ .of_nodes rfl rfl rfl) fun _ ↦ ?_
  let begun := { t with metrics := t.metrics.recordMiss }.begin key
  have finished {t' : Matchings} (made : Unbroken begun t') : Unbroken t (t'.finish key) := by
    have first : Unbroken t begun := .of_nodes rfl rfl rfl
    exact first.trans (made.trans (.of_nodes rfl rfl rfl))
  exact (h _).mono (fun id t' made ↦ (unbroken_remember config key id).mono
    (fun _ _ remembered ↦ (finished made).trans remembered)
    fun _ failed ↦ (finished made).trans failed) fun _ failed ↦ finished failed

/-- A rule breaks no cycle, if matching the sorts inside breaks none, and neither does matching the
exchanged pair when the rule is to reverse it. -/
theorem unbroken_forVariants {relate : Relate} (foundLeft : c.get l.id = .ok l)
    (foundRight : c.get r.id = .ok r)
    (inside : ∀ left right t, c.Inside l.id r.id left right →
      Ends (relate left right) t (fun _ t' ↦ Unbroken t t') (Unbroken t))
    (turned : ∀ t, course l r = .backward →
      Ends (relate r.id l.id) t (fun _ t' ↦ Unbroken t t') (Unbroken t)) :
    Ends (forVariants c config relate l r) t (fun _ t' ↦ Unbroken t t') (Unbroken t) := by
  have rule : Routine config (c.Inside l.id r.id) l r Routine.Own [] [] [] fun relate ↦
      forVariants c config relate l r := routine_forVariants foundLeft foundRight
  refine (rule.ends (upholds_unbroken config l r) (fun left right t within _ ↦ ?_)
    (fun t turns _ ↦ ?_) trivial (fun _ _ ↦ trivial) fun _ _ ↦ trivial).mono
    (fun _ _ made ↦ made.1.2) fun _ failed ↦ failed.2
  · exact (inside left right t within).mono (fun _ _ made ↦ ⟨⟨trivial, made⟩, trivial⟩)
      fun _ failed ↦ ⟨trivial, failed⟩
  · refine Ends.bind ((turned t turns).mono (fun forward t' made ↦ ?_)
      fun _ failed ↦ ⟨trivial, failed⟩)
    exact (unbroken_reverse forward l.id r.id).mono
      (fun _ _ reversed ↦ ⟨⟨trivial, made.trans reversed⟩, trivial⟩)
      fun _ failed ↦ ⟨trivial, made.trans failed⟩

/-! ### Questions -/

/-- How often a pair is still exchanged. -/
def Course.exchanges : Course → Nat
  | backward => 1
  | _ => 0

theorem Course.exchanges_le_one (course : Course) : course.exchanges ≤ 1 := by
  cases course <;> simp [exchanges]

/-- What bounds the questions that stand inside each other below a pair. -/
def toGo (height : String → Nat) (l r : SortRecord) : Nat :=
  2 * (height l.display + height r.display) + (course l r).exchanges

/-- What is lower has less to go. -/
theorem toGo_lt_of_lower (lower : height l'.display + height r'.display <
    height l.display + height r.display) : toGo height l' r' < toGo height l r := by
  have once := (course l' r').exchanges_le_one
  unfold toGo
  omega

/-- The exchanged pair has less to go than a pair that is made from the other side. -/
theorem toGo_swap_lt (turns : course l r = .backward) : toGo height r l < toGo height l r := by
  have last : (course r l).exchanges = 0 := by
    have settled := course_ne_backward_of_swap turns
    cases next : course r l <;> first | rfl | exact absurd next settled
  unfold toGo
  rw [last, turns, Course.exchanges]
  omega

/-- Sorts of the same displays have as far to go. -/
theorem toGo_congr (legible : c.Legible) (isLeft : c.get left = .ok l)
    (isRight : c.get right = .ok r) {left' right' : SortId} (isLeft' : c.get left' = .ok l')
    (isRight' : c.get right' = .ok r') (sameLeft : l'.display = l.display)
    (sameRight : r'.display = r.display) :
    toGo height l' r' = toGo height l r := by
  rw [toGo, toGo, course_congr (legible.twins isLeft' isLeft sameLeft)
    (legible.twins isRight' isRight sameRight), sameLeft, sameRight]

/-- The pair has less to go than all those under way. -/
def Ahead (c : Catalog) (height : String → Nat) (underWay : List PairKey) (l r : SortRecord) :
    Prop :=
  ∀ (left right : SortId) (x y : SortRecord), c.get left = .ok x → c.get right = .ok y →
    (⟨x.display, y.display⟩ : PairKey) ∈ underWay → toGo height l r < toGo height x y

/-- A question with less to go is ahead when the pair is under way that asks it. -/
theorem Ahead.ask (ahead : Ahead c height underWay l r) (legible : c.Legible)
    (isLeft : c.get left = .ok l) (isRight : c.get right = .ok r)
    (less : toGo height l' r' < toGo height l r) :
    Ahead c height (⟨l.display, r.display⟩ :: underWay) l' r' := by
  intro left' right' x y foundLeft foundRight inside
  rcases List.mem_cons.mp inside with here | inside
  · obtain ⟨sameLeft, sameRight⟩ := PairKey.mk.inj here
    rw [toGo_congr legible isLeft isRight foundLeft foundRight sameLeft sameRight]
    exact less
  · exact less.trans (ahead left' right' x y foundLeft foundRight inside)

/-- Matching straight sorts breaks no cycle, as long as they have less to go than the pairs under
way. -/
theorem unbroken_relate (rested : c.Rested) (legible : c.Legible) (graded : c.Graded height)
    (config : Configuration) (underWay : List PairKey) (left right : SortId) (t : Matchings)
    (straight : c.Straight left) (straight' : c.Straight right)
    (ahead : ∀ l r, c.get left = .ok l → c.get right = .ok r → Ahead c height underWay l r) :
    Ends (relate c config underWay left right) t (fun _ t' ↦ Unbroken t t') (Unbroken t) := by
  cases foundLeft : c.get left with
  | error reason =>
    rw [relate, foundLeft]
    exact Ends.throw (.refl t)
  | ok l =>
  cases foundRight : c.get right with
  | error reason =>
    rw [relate, foundLeft, foundRight]
    exact Ends.throw (.refl t)
  | ok r =>
  obtain rfl := rested.placed foundLeft
  obtain rfl := rested.placed foundRight
  have here := ahead l r foundLeft foundRight
  rw [relate_of_found foundLeft foundRight]
  split_ifs with same idle
  · exact unbroken_identity l
  · exact absurd (here l.id r.id l r foundLeft foundRight idle) (Nat.lt_irrefl _)
  refine unbroken_consult fun t ↦ unbroken_forVariants foundLeft foundRight
    (fun left right t inside ↦ ?_) fun t turns ↦ ?_
  · refine unbroken_relate rested legible graded config _ left right t
      (straight.of_reaches inside.reaches.1) (straight'.of_reaches inside.reaches.2)
      fun l' r' found found' ↦ here.ask legible foundLeft foundRight (toGo_lt_of_lower ?_)
    exact graded.add_lt_of_inside rested straight straight' foundLeft foundRight found found' inside
  · refine unbroken_relate rested legible graded config _ r.id l.id t straight' straight
      fun l' r' found found' ↦ here.ask legible foundLeft foundRight ?_
    rw [foundRight] at found
    rw [foundLeft] at found'
    cases found
    cases found'
    exact toGo_swap_lt turns
termination_by (unvisited c.pairKeys underWay).length
decreasing_by
  all_goals exact length_unvisited_cons_lt (Catalog.pairKey_mem_pairKeys ‹_› ‹_›) ‹_›

end CompositeSorts
