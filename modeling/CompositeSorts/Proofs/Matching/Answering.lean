import CompositeSorts.Proofs.Matching.Labels
import CompositeSorts.Proofs.Matching.Routines

/-!
What is remembered of two different sorts. Matching never remembers, for the displays of two sorts,
a match of a sort with itself or one that stands for a match under way, and it never calls different
sorts identical (`genuine_relate`): what a rule makes is of its own two sorts and is none of these,
and reversing a match keeps its level.
-/

set_option autoImplicit false
set_option relaxedAutoImplicit false

namespace CompositeSorts

open Matchings Matching Rule

variable {c : Catalog} {config : Configuration} {t t' : Matchings} {id : MatchId} {l r : SortRecord}
  {left right : SortId} {gone : List SortId}

namespace Matchings

/-- The match is there and not called identical. -/
def Unlike (t : Matchings) (id : MatchId) : Prop :=
  ∃ node, t.get? id = some node ∧ node.level ≠ .identical

/-- The match is there, of these two sorts, and it is neither called identical nor under way. -/
def Sealed (left right : SortId) (t : Matchings) (id : MatchId) : Prop :=
  ∃ node, t.get? id = some node ∧ node.left = left ∧ node.right = right ∧ node.sentinel = false ∧
    node.level ≠ .identical

theorem Unlike.extend (h : t.Unlike id) (later : Extends t t') : t'.Unlike id := by
  obtain ⟨node, found, unlike⟩ := h
  obtain ⟨node', found', same⟩ := later id node found
  have level := congrArg MatchNode.level same
  exact ⟨node', found', fun identical ↦ unlike (level.symm.trans identical)⟩

theorem Sealed.unlike (h : t.Sealed left right id) : t.Unlike id := by
  obtain ⟨node, found, -, -, -, unlike⟩ := h
  exact ⟨node, found, unlike⟩

theorem Sealed.extend (h : t.Sealed left right id) (later : Extends t t') :
    t'.Sealed left right id := by
  obtain ⟨node, found, here, there, settled, unlike⟩ := h
  obtain ⟨node', found', same⟩ := later id node found
  obtain ⟨sameLeft, sameRight⟩ := MatchNode.sides_of_untied same
  have sentinel := congrArg MatchNode.sentinel same
  have level := congrArg MatchNode.level same
  exact ⟨node', found', sameLeft.trans here, sameRight.trans there, sentinel.trans settled,
    fun identical ↦ unlike (level.symm.trans identical)⟩

/-- What is remembered for two displays is settled, of two different sorts, and what stands for a
pair under way is not called identical. -/
structure Genuine (t : Matchings) : Prop where
  memo : ∀ {key : PairKey} {id : MatchId}, t.memo[key]? = some id →
    ∃ left right, left ≠ right ∧ t.Sealed left right id
  sentinels : ∀ {key : PairKey} {id : MatchId}, t.sentinels[key]? = some id → t.Unlike id

theorem genuine_empty : Genuine empty where
  memo entry := by simp [empty] at entry
  sentinels entry := by simp [empty] at entry

theorem Genuine.quiet (h : t.Genuine) (quiet : Quiet t t') : t'.Genuine where
  memo entry := by
    obtain ⟨left, right, differ, isSealed⟩ := h.memo (quiet.memo ▸ entry)
    exact ⟨left, right, differ, isSealed.extend quiet.nodes⟩
  sentinels entry := (h.sentinels (quiet.sentinels ▸ entry)).extend quiet.nodes

theorem Genuine.forget (h : t.Genuine) (gone : List SortId) : (t.forget gone).2.Genuine where
  memo entry := by
    change (t.memo.filter _)[_]? = some _ at entry
    rw [Std.ExtTreeMap.getElem?_filter', Option.filter_eq_some_iff] at entry
    exact h.memo entry.1
  sentinels entry := by
    change (t.sentinels.filter _)[_]? = some _ at entry
    rw [Std.ExtTreeMap.getElem?_filter', Option.filter_eq_some_iff] at entry
    exact h.sentinels entry.1

/-- A settled match of different sorts can be remembered. -/
theorem Genuine.insert (h : t.Genuine) {key : PairKey} (differ : left ≠ right)
    (isSealed : t.Sealed left right id) (metrics : Metrics) :
    Genuine { t with memo := t.memo.insert key id, metrics := metrics } where
  memo {other known} entry := by
    rw [Std.ExtTreeMap.getElem?_insert] at entry
    split at entry
    · cases entry
      exact ⟨left, right, differ, isSealed⟩
    · exact h.memo entry
  sentinels := h.sentinels

end Matchings

/-- The table stays genuine, and what there is in it stays. -/
abbrev Refined : Matchings → Matchings → Prop := Routine.Upheld Genuine Extends

theorem Refined.of_quiet (h : t.Genuine) (quiet : Quiet t t') : Refined t t' :=
  ⟨h.quiet quiet, quiet.nodes⟩

/-- The steps of a rule keep the table genuine, and make settled matches of its sorts. -/
theorem upholds_genuine (config : Configuration) (l r : SortRecord) :
    Routine.Upholds config l r Genuine Extends (fun _ _ ↦ True) (Sealed l.id r.id) where
  refl := Extends.refl
  trans := Extends.trans
  told _ known := known
  made later isSealed := isSealed.extend later
  alternative known _ := known
  push {_ node} here composed _ := ⟨here.quiet (quiet_push node), extends_push node, node,
    get?_push_size node, composed.left, composed.right, composed.settled, composed.distinct⟩
  tie {_ _ alternative last} here _ _ _ metrics journal _ :=
    Refined.of_quiet here (still_tie last alternative metrics journal).toQuiet

/-- Matching keeps the table genuine, and different sorts are not called identical. -/
abbrev Refines (relate : Relate) : Prop := ∀ left right t, t.Genuine → Ends (relate left right) t
  (fun id t' ↦ Refined t t' ∧ (left ≠ right → t'.Unlike id)) (Refined t)

/-- The reversal of a match of the exchanged pair is settled. -/
theorem refined_exchanged {relate : Relate} (inside : Refines relate) (differ : l.id ≠ r.id)
    (here : t.Genuine) : Ends (exchanged relate l r) t
      (fun id t' ↦ Refined t t' ∧ Sealed l.id r.id t' id) (Refined t) := by
  refine Ends.bind ((inside r.id l.id t here).mono (fun forward t' made ↦ ?_) fun _ failed ↦ failed)
  obtain ⟨⟨now, since⟩, unlike⟩ := made
  have appended (nodes : Array MatchNode) : Refined t (t'.append nodes) :=
    ⟨now.quiet (quiet_append nodes), since.trans (extends_append nodes)⟩
  refine ends_reverse (fun nodes ↦ appended nodes) fun node parts tiedWith nodes found ↦ ?_
  obtain ⟨node', found', unlike⟩ := unlike differ.symm
  rw [found] at found'
  cases found'
  exact ⟨appended _, _, get?_append_push_size _ _, rfl, rfl, rfl, unlike⟩

theorem refined_identity (sort : SortRecord) (here : t.Genuine) :
    Ends (identity sort) t (fun _ t' ↦ Refined t t') (Refined t) := by
  refine Ends.bind (Ends.get ?_)
  split
  · exact Ends.pure ⟨here, Extends.refl t⟩
  · refine Ends.bind (ends_push (Ends.bind (Ends.modify (Ends.pure ⟨?_, extends_push _⟩))))
    exact ⟨(here.quiet (quiet_push _)).memo, (here.quiet (quiet_push _)).sentinels⟩

theorem refined_breakCycle (key : PairKey) (l r : SortRecord) (here : t.Genuine) :
    Ends (breakCycle key l r) t (fun id t' ↦ Refined t t' ∧ t'.Unlike id) (Refined t) := by
  refine Ends.bind (Ends.modify (Ends.bind (Ends.get ?_)))
  dsimp only
  split
  · rename_i known entry
    exact Ends.pure ⟨⟨⟨here.memo, here.sentinels⟩, Extends.refl t⟩,
      here.sentinels (Option.filter_eq_some_iff.mp entry).1⟩
  · refine Ends.bind (ends_push (Ends.bind (Ends.modify (Ends.pure ?_))))
    have pushed : Genuine (t.push _) := here.quiet (quiet_push
      { node l r .incongruous .concordant .none [] with sentinel := true })
    have unlike : (t.push { node l r .incongruous .concordant .none
      [] with sentinel := true }).Unlike
        ⟨t.nodes.size⟩ := ⟨_, get?_push_size _, by simp [node]⟩
    refine ⟨⟨⟨pushed.memo, fun {other known} entry ↦ ?_⟩, extends_push _⟩, unlike⟩
    rw [Std.ExtTreeMap.getElem?_insert] at entry
    split at entry
    · cases entry
      exact unlike
    · exact pushed.sentinels entry

/-- Matching keeps the table genuine. -/
theorem genuine_relate (sound : c.Rooted) (config : Configuration) (underWay : List PairKey) :
    Refines (relate c config underWay) := by
  intro left right t here
  cases foundLeft : c.get left with
  | error reason =>
    rw [relate, foundLeft]
    exact Ends.throw ⟨here, Extends.refl t⟩
  | ok l =>
  cases foundRight : c.get right with
  | error reason =>
    rw [relate, foundLeft, foundRight]
    exact Ends.throw ⟨here, Extends.refl t⟩
  | ok r =>
  obtain rfl := sound.placed foundLeft
  obtain rfl := sound.placed foundRight
  rw [relate_of_found foundLeft foundRight]
  split_ifs with same idle
  · exact (refined_identity l here).mono (fun _ _ reached ↦
      ⟨reached, fun differ ↦ absurd same differ⟩)
      fun _ failed ↦ failed
  · exact (refined_breakCycle _ l r here).mono (fun _ _ made ↦ ⟨made.1, fun _ ↦ made.2⟩)
      fun _ failed ↦ failed
  have inside : Refines (relate c config (⟨l.display, r.display⟩ :: underWay)) :=
    genuine_relate sound config _
  refine ends_consult (fun id entry metrics journal ↦ ?_) fun _ ↦ ?_
  · have kept : Genuine { t with metrics, journal } := ⟨here.memo, here.sentinels⟩
    obtain ⟨_, _, _, isSealed⟩ := kept.memo entry
    exact ⟨⟨kept, Extends.refl t⟩, fun _ ↦ isSealed.unlike⟩
  have begun : Genuine ({ t with metrics := t.metrics.recordMiss }.begin ⟨l.display, r.display⟩) :=
    ⟨here.memo, here.sentinels⟩
  have finished {t' : Matchings} (reached : Refined t t') :
      Refined t (t'.finish ⟨l.display, r.display⟩) :=
    ⟨⟨reached.1.memo, reached.1.sentinels⟩, reached.2⟩
  refine (Routine.ends (upholds_genuine config l r)
    (fun left right t _ here ↦ (inside left right t here).mono (fun _ _ made ↦ ⟨made.1, trivial⟩)
      fun _ failed ↦ failed) (fun t _ here ↦ refined_exchanged inside same here)
    (routine_forVariants foundLeft foundRight) begun
    (fun _ inside ↦ absurd inside List.not_mem_nil)
    (fun _ inside ↦ absurd inside List.not_mem_nil)).mono (fun id t' made ↦ ?_)
      fun _ failed ↦ finished failed
  obtain ⟨reached, told, made, free, own, each⟩ := made
  obtain ⟨now, since⟩ := finished reached
  refine ends_remember (fun known entry t'' still ↦ ?_) fun _ ↦ ?_
  · have kept : Genuine t'' := now.quiet still.toQuiet
    obtain ⟨_, _, _, isSealed⟩ := kept.memo (still.memo ▸ entry)
    exact ⟨⟨kept, since.trans still.nodes⟩, fun _ ↦ isSealed.unlike⟩
  · exact ⟨⟨now.insert same (each id own) _, since⟩, fun _ ↦ (each id own).unlike⟩
termination_by (unvisited c.pairKeys underWay).length
decreasing_by
  exact length_unvisited_cons_lt (Catalog.pairKey_mem_pairKeys ‹_› ‹_›) ‹_›

end CompositeSorts
