import CompositeSorts.Proofs.Matching.Answering
import CompositeSorts.Proofs.Matching.Keeping
import CompositeSorts.Proofs.Matching.ReversalCopies

/-!
What is called identical. A table is *honest* when it calls identical just the matches of a sort
with itself, and keeps each of these for its sort, so that there is one for each sort at most,
unless its sort is gone. Everything else that is appended is of two different sorts and not called
identical: rules lift the levels of what they copy, and what is copied by a reversal was of
different sorts before. So matching keeps a table honest (`honest_relate`).
-/

set_option autoImplicit false
set_option relaxedAutoImplicit false

namespace CompositeSorts

open Matchings Matching Rule

variable {c : Catalog} {config : Configuration} {t t' : Matchings} {id : MatchId} {l r : SortRecord}
  {gone more : List SortId} {node : MatchNode} {s : Copies}

/-- The match is of two different sorts, and not called identical. -/
def MatchNode.Distinct (node : MatchNode) : Prop :=
  node.left ≠ node.right ∧ node.level ≠ .identical

theorem MatchNode.Distinct.of_untied {node node' : MatchNode} (h : node.Distinct)
    (same : node'.untied = node.untied) : node'.Distinct := by
  obtain ⟨left, right⟩ := sides_of_untied same
  have level := congrArg MatchNode.level same
  exact ⟨fun equal ↦ h.1 (left.symm.trans (equal.trans right)), fun identical ↦
    h.2 (level.symm.trans identical)⟩

theorem Composed.isDistinct (h : Composed l r node) (differ : l.id ≠ r.id) : node.Distinct := by
  refine ⟨?_, h.distinct⟩
  rw [h.left, h.right]
  exact differ

namespace Matchings

/-- A match is of two different sorts and not called identical, or it is of a sort with itself,
called identical and kept for its sort, unless that is gone. What is kept for a sort is of it. -/
structure Honest (gone : List SortId) (t : Matchings) : Prop where
  each : ∀ {id : MatchId} {node : MatchNode}, t.get? id = some node → node.Distinct ∨
    node.left = node.right ∧ node.level = .identical ∧
      (t.identities[node.left]? = some id ∨ node.left ∈ gone)
  entry : ∀ {sort : SortId} {id : MatchId}, t.identities[sort]? = some id →
    ∃ node, t.get? id = some node ∧ node.left = sort ∧ node.right = sort

theorem honest_of_empty (nodes : t.nodes = #[]) (identities : t.identities = ∅) :
    t.Honest gone where
  each found := by simp [get?, nodes] at found
  entry entry := by simp [identities] at entry

namespace Honest

theorem level_iff (h : t.Honest gone) (found : t.get? id = some node) :
    node.level = .identical ↔ node.left = node.right := by
  rcases h.each found with ⟨differ, unlike⟩ | ⟨same, identical, -⟩
  · exact iff_of_false unlike differ
  · exact iff_of_true identical same

/-- Two matches of one sort with itself are one match, unless the sort is gone. -/
theorem unique (h : t.Honest gone) {id' : MatchId} {node' : MatchNode}
    (found : t.get? id = some node) (found' : t.get? id' = some node')
    (identical : node.level = .identical) (identical' : node'.level = .identical)
    (same : node'.left = node.left) (kept : node.left ∉ gone) : id' = id := by
  have entry {id : MatchId} {node : MatchNode} (found : t.get? id = some node)
      (identical : node.level = .identical) (kept : node.left ∉ gone) :
      t.identities[node.left]? = some id := by
    rcases h.each found with distinct | ⟨-, -, entry⟩
    · exact absurd identical distinct.2
    · exact entry.resolve_right kept
  have first := entry found identical kept
  have second := entry found' identical' (same ▸ kept)
  rw [same, first] at second
  exact (Option.some.inj second).symm

theorem mono (h : t.Honest gone) (sub : gone ⊆ more) : t.Honest more where
  each found := (h.each found).imp_right fun ⟨same, identical, entry⟩ ↦
    ⟨same, identical, entry.imp_right fun inside ↦ sub inside⟩
  entry := h.entry

/-- A table stays honest if nodes are tied, and what is new is of different sorts and not called
identical. -/
theorem grow (h : t.Honest gone) (identities : t'.identities = t.identities) (later : Extends t t')
    (old : ∀ {id : MatchId} {node : MatchNode}, t'.get? id = some node → node.Distinct ∨
      ∃ before, t.get? id = some before ∧ node.untied = before.untied) : t'.Honest gone where
  each found := by
    rcases old found with distinct | ⟨before, there, untied⟩
    · exact .inl distinct
    rcases h.each there with distinct | ⟨same, identical, entry⟩
    · exact .inl (distinct.of_untied untied)
    · obtain ⟨left, right⟩ := MatchNode.sides_of_untied untied
      have level := congrArg MatchNode.level untied
      rw [identities, left, right]
      exact .inr ⟨same, level.trans identical, entry⟩
  entry entry := by
    obtain ⟨before, there, left, right⟩ := h.entry (identities ▸ entry)
    obtain ⟨node, found, untied⟩ := later _ _ there
    obtain ⟨left', right'⟩ := MatchNode.sides_of_untied untied
    exact ⟨node, found, left'.trans left, right'.trans right⟩

theorem of_same (h : t.Honest gone) (nodes : t'.nodes = t.nodes)
    (identities : t'.identities = t.identities) : t'.Honest gone := by
  have same (id : MatchId) : t'.get? id = t.get? id := by
    unfold get?
    rw [nodes]
  exact h.grow identities (fun id node found ↦ ⟨node, (same id).trans found, rfl⟩)
    fun {id node} found ↦ .inr ⟨node, (same id) ▸ found, rfl⟩

theorem append (h : t.Honest gone) {nodes : Array MatchNode}
    (distinct : ∀ node ∈ nodes, node.Distinct) : (t.append nodes).Honest gone := by
  refine h.grow rfl (extends_append nodes) fun {id node} found ↦ ?_
  rw [get?_append] at found
  split_ifs at found
  · exact .inr ⟨node, found, rfl⟩
  · exact .inl (distinct node (Array.mem_of_getElem? found))

theorem push (h : t.Honest gone) (distinct : node.Distinct) : (t.push node).Honest gone := by
  refine h.grow rfl (extends_push node) fun {id other} found ↦ ?_
  rw [get?_push] at found
  split_ifs at found
  · cases found
    exact .inl distinct
  · exact .inr ⟨other, found, rfl⟩

theorem tie (h : t.Honest gone) (last alternative : MatchId) (metrics : Metrics)
    (journal : List Event) : Honest gone { t with
      nodes := t.nodes.modify last.index fun node ↦ { node with tiedWith := some alternative }
      metrics, journal } := by
  refine h.grow rfl (extends_tie last alternative) fun {id node} found ↦ .inr ?_
  unfold get? at found ⊢
  rw [Array.getElem?_modify] at found
  split_ifs at found
  · obtain ⟨before, there, rfl⟩ := Option.map_eq_some_iff.mp found
    exact ⟨before, there, rfl⟩
  · exact ⟨node, found, rfl⟩

/-- The match of a sort with itself is appended and kept for it, if there was none. -/
theorem identity (h : t.Honest gone) {sort : SortId} (itself : node.left = sort ∧ node.right = sort)
    (identical : node.level = .identical) (new : t.identities[sort]? = none) :
    Honest gone { t.push node with identities := t.identities.insert sort ⟨t.nodes.size⟩ } where
  each {id other} found := by
    change (t.push node).get? id = some other at found
    rw [get?_push] at found
    split_ifs at found with last
    · cases found
      subst last
      rw [itself.1, itself.2]
      exact .inr ⟨rfl, identical, .inl Std.ExtTreeMap.getElem?_insert_self⟩
    · refine (h.each found).imp_right fun ⟨same, level, entry⟩ ↦ ⟨same, level, ?_⟩
      exact entry.imp_left (getElem?_insert_of_none new)
  entry {other id} entry := by
    rw [Std.ExtTreeMap.getElem?_insert] at entry
    split_ifs at entry with same
    · cases entry
      obtain rfl := Std.LawfulEqCmp.eq_of_compare same
      exact ⟨node, get?_push_size node, itself⟩
    · obtain ⟨before, there, left, right⟩ := h.entry entry
      refine ⟨before, ?_, left, right⟩
      change (t.push node).get? id = some before
      rw [get?_push, if_neg (ne_size_of_get there)]
      exact there

/-- When sorts are gone, so is what is kept for them. -/
theorem forget (h : t.Honest gone) (more : List SortId) :
    (t.forget more).2.Honest (gone ++ more) where
  each {id node} found := by
    refine (h.each found).imp_right fun ⟨same, identical, entry⟩ ↦ ⟨same, identical, ?_⟩
    by_cases left : node.left ∈ more
    · exact .inr (List.mem_append_right _ left)
    refine entry.imp (fun entry ↦ ?_) (List.mem_append_left _)
    change (t.identities.filter _)[_]? = some _
    rw [Std.ExtTreeMap.getElem?_filter', Option.filter_eq_some_iff]
    exact ⟨entry, by simpa using left⟩
  entry {sort id} entry := by
    change (t.identities.filter _)[sort]? = some id at entry
    rw [Std.ExtTreeMap.getElem?_filter', Option.filter_eq_some_iff] at entry
    exact h.entry entry.1

end Honest

end Matchings

/-! ### Reversals -/

/-- Everything copied so far is of two different sorts and not called identical. -/
def Copies.Distinct (s : Copies) : Prop := ∀ node ∈ s.nodes, node.Distinct

theorem Copies.Distinct.push (h : s.Distinct) (distinct : node.Distinct)
    (done : Std.ExtTreeMap Nat MatchId) :
    Copies.Distinct { s with nodes := s.nodes.push node, done } := by
  intro other inside
  rcases Array.mem_push.mp inside with before | rfl
  · exact h other before
  · exact distinct

/-- What is kept while single links are copied is kept while all links of a match are. -/
theorem ends_links_kept {γ : Type} {inv : Copies → Prop} {post : γ → Copies → Prop}
    {work : MatchId → Copying MatchId} {rest : List MatchId → Option MatchId → Copying γ}
    (here : inv s) (each : ∀ link s, inv s → Ends (work link) s (fun _ s' ↦ inv s') inv)
    (done : ∀ parts tie s, inv s → Ends (rest parts tie) s post inv) :
    Ends (do
      let parts ← node.parts.mapM work
      let tie ← node.tiedWith.mapM work
      rest parts tie) s post inv := by
  refine Ends.bind ((Ends.mapM (fun _ _ ↦ inv) node.parts here fun part _ _ _ s kept ↦
    each part s kept).mono (fun parts s' kept ↦ ?_) fun _ failed ↦ failed)
  cases node.tiedWith with
  | none => exact Ends.bind (Ends.pure (done parts none s' kept))
  | some next =>
    exact Ends.bind (Ends.bind ((each next s' kept).mono
      (fun next' s'' kept ↦ Ends.pure (done parts (some next') s'' kept)) fun _ failed ↦ failed))

namespace Matchings

/-- The matches that a reversal copies on the way are of two different sorts. -/
theorem Honest.ends_copy (h : t.Honest gone) (underWay : List Nat) (id : MatchId) (s : Copies)
    (distinct : s.Distinct) :
    Ends (t.copy underWay id) s (fun _ s' ↦ s'.Distinct) Copies.Distinct := by
  rw [copy]
  refine Ends.bind (Ends.get ?_)
  split
  · exact Ends.pure distinct
  by_cases inside : id.index < t.nodes.size
  · rw [dif_pos inside]
    dsimp only
    have found : t.get? id = some t.nodes[id.index] := Array.getElem?_eq_getElem inside
    split_ifs with same busy
    · exact Ends.pure distinct
    · exact Ends.pure distinct
    refine ends_links_kept distinct (fun link s kept ↦ h.ends_copy _ link s kept)
      fun parts tie s' kept ↦ ?_
    have unlike : (t.nodes[id.index]).level ≠ .identical :=
      fun identical ↦ same ((h.level_iff found).mp identical)
    refine Ends.bind (ends_addCopy (Ends.bind (Ends.modify (Ends.pure ?_))))
    refine kept.push ?_ _
    exact ⟨fun equal ↦ same equal.symm, unlike⟩
  · rw [dif_neg inside]
    exact Ends.throw distinct
termination_by (unvisited (List.range t.nodes.size) underWay).length
decreasing_by exact length_unvisited_cons_lt (List.mem_range.2 inside) ‹_›

/-- Reversing, for two different sorts, a match that is not called identical keeps the table
honest. -/
theorem Honest.ends_reverse (h : t.Honest gone) (unlike : t.Unlike id) {left right : SortId}
    (differ : left ≠ right) :
    Ends (reverse id left right) t (fun _ t' ↦ t'.Honest gone) (Honest gone) := by
  have copied : Ends (t.copies id left right) ⟨#[], ∅⟩ (fun _ s ↦ s.Distinct) Copies.Distinct := by
    obtain ⟨node, found, level⟩ := unlike
    obtain ⟨inside, here⟩ := Array.getElem?_eq_some_iff.mp found
    rw [copies, dif_pos inside]
    dsimp only
    rw [here]
    refine ends_links_kept (fun node inside ↦ absurd inside (Array.not_mem_empty node))
      (fun link s kept ↦ h.ends_copy _ link s kept) fun parts tie s kept ↦ ?_
    refine ends_addCopy (kept.push ?_ _)
    exact ⟨differ, level⟩
  unfold Ends at copied ⊢
  unfold reverse
  cases run : t.copies id left right ⟨#[], ∅⟩ with
  | ok reversal made =>
    rw [run] at copied
    exact h.append copied
  | error reason made =>
    rw [run] at copied
    exact h.append copied

end Matchings

/-! ### Matching -/

/-- The table is as it has to be. -/
abbrev Matchings.Candid (gone : List SortId) (t : Matchings) : Prop := t.Genuine ∧ t.Honest gone

/-- Matching keeps a table honest. -/
abbrev Discerns (gone : List SortId) (relate : Relate) : Prop := ∀ left right t, t.Candid gone →
  Ends (relate left right) t (fun _ t' ↦ t'.Honest gone) (Honest gone)

/-- The steps of a rule for two different sorts keep the table honest. -/
theorem upholds_honest (config : Configuration) (gone : List SortId) (differ : l.id ≠ r.id) :
    Routine.Upholds config l r (Candid gone) Extends (fun _ _ ↦ True) (Sealed l.id r.id) := by
  have genuine := upholds_genuine config l r
  exact { genuine with
    push := fun here composed known ↦ by
      obtain ⟨now, later, own⟩ := genuine.push here.1 composed known
      exact ⟨⟨now, here.2.push (composed.isDistinct differ)⟩, later, own⟩
    tie := fun here first second found metrics journal same ↦ by
      obtain ⟨now, later⟩ := genuine.tie here.1 first second found metrics journal same
      exact ⟨⟨now, here.2.tie _ _ metrics journal⟩, later⟩ }

theorem honest_exchanged {relate : Relate} (refines : Refines relate)
    (inside : Discerns gone relate) (differ : l.id ≠ r.id) (here : t.Candid gone) :
    Ends (exchanged relate l r) t (fun _ t' ↦ t'.Honest gone) (Honest gone) := by
  refine Ends.bind (((refines r.id l.id t here.1).and (inside r.id l.id t here)).mono
    (fun forward t' made ↦ ?_) fun _ failed ↦ failed.2)
  exact made.2.ends_reverse (made.1.2 differ.symm) differ

theorem honest_identity (sort : SortRecord) (h : t.Honest gone) :
    Ends (identity sort) t (fun _ t' ↦ t'.Honest gone) (Honest gone) := by
  refine Ends.bind (Ends.get ?_)
  split
  · exact Ends.pure h
  · exact Ends.bind (ends_push (Ends.bind (Ends.modify (Ends.pure
      (h.identity ⟨rfl, rfl⟩ rfl ‹_›)))))

theorem honest_breakCycle (key : PairKey) (differ : l.id ≠ r.id) (h : t.Honest gone) :
    Ends (breakCycle key l r) t (fun _ t' ↦ t'.Honest gone) (Honest gone) := by
  refine Ends.bind (Ends.modify (Ends.bind (Ends.get ?_)))
  dsimp only
  split
  · exact Ends.pure (h.of_same rfl rfl)
  · have distinct : MatchNode.Distinct { node l r .incongruous .concordant .none [] with
        sentinel := true } := ⟨differ, by simp [node]⟩
    have pushed := h.push distinct
    exact Ends.bind (ends_push (Ends.bind (Ends.modify (Ends.pure (pushed.of_same rfl rfl)))))

/-- Matching keeps a table honest, whichever way it ends. -/
theorem honest_relate (rooted : c.Rooted) (config : Configuration) (underWay : List PairKey) :
    Discerns gone (relate c config underWay) := by
  intro left right t here
  cases foundLeft : c.get left with
  | error reason =>
    rw [relate, foundLeft]
    exact Ends.throw here.2
  | ok l =>
  cases foundRight : c.get right with
  | error reason =>
    rw [relate, foundLeft, foundRight]
    exact Ends.throw here.2
  | ok r =>
  obtain rfl := rooted.placed foundLeft
  obtain rfl := rooted.placed foundRight
  rw [relate_of_found foundLeft foundRight]
  split_ifs with same idle
  · exact honest_identity l here.2
  · exact honest_breakCycle _ same here.2
  let key : PairKey := ⟨l.display, r.display⟩
  have refines := genuine_relate rooted config (key :: underWay)
  have inside : Discerns gone (relate c config (key :: underWay)) := honest_relate rooted config _
  have guarded : Respects (Guarded (key :: underWay)) (forVariants c config _ l r) :=
    respects_forVariants (tolerant_guarded _) (guarded_relate c config _) l r
  refine ends_consult_new guarded (fun _ _ _ _ ↦ here.2.of_same rfl rfl) fun _ ↦ ?_
  have begun : Candid gone ({ t with metrics := t.metrics.recordMiss }.begin key) :=
    ⟨⟨here.1.memo, here.1.sentinels⟩, here.2.of_same rfl rfl⟩
  refine (Routine.ends (upholds_honest config gone same) (fun left right t _ here ↦ ?_)
    (fun t _ here ↦ ?_) (routine_forVariants foundLeft foundRight) begun
    (fun _ inside ↦ absurd inside List.not_mem_nil)
    (fun _ inside ↦ absurd inside List.not_mem_nil)).mono
    (fun id t' made _ ↦ made.1.1.2.of_same rfl rfl) fun _ failed ↦ failed.1.2.of_same rfl rfl
  · exact ((refines left right t here.1).and (inside left right t here)).mono
      (fun _ _ made ↦ ⟨⟨⟨made.1.1.1, made.2⟩, made.1.1.2⟩, trivial⟩)
      fun _ failed ↦ ⟨⟨failed.1.1, failed.2⟩, failed.1.2⟩
  · exact ((refined_exchanged refines same here.1).and
      (honest_exchanged refines inside same here)).mono
      (fun _ _ made ↦ ⟨⟨⟨made.1.1.1, made.2⟩, made.1.1.2⟩, made.1.2⟩)
      fun _ failed ↦ ⟨⟨failed.1.1, failed.2⟩, failed.1.2⟩
termination_by (unvisited c.pairKeys underWay).length
decreasing_by
  exact length_unvisited_cons_lt (Catalog.pairKey_mem_pairKeys ‹_› ‹_›) ‹_›

end CompositeSorts
