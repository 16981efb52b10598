import CompositeSorts.Proofs.Matching.Honest
import CompositeSorts.Proofs.Registry.Answers
import CompositeSorts.Proofs.Registry.Chains
import CompositeSorts.Proofs.Registry.Stale

/-!
Identical matches. Whatever was called, a match is called identical just when it is of a sort with
itself, and then it says nothing more. There is one such match for each live sort: asking for any
match gives no other as long as the sort is not removed, and no other is in the table, be it a part
or a tie of a match, as long as no slot was freed `2 ^ 32` times (`identical_exact`).
-/

set_option autoImplicit false
set_option relaxedAutoImplicit false

namespace CompositeSorts

open Catalog Matchings Matching

namespace Registry

variable {r : Registry} {call : Call} {calls : List Call} {gone : List SortId}
  {sort left right left' right' : SortId} {id id' : MatchId}

/-! ### Calls -/

/-- A call that does not clear the registry keeps its matches honest, but for the sorts that it
removes. -/
theorem honest_perform (reached : Reachable AnyCall r) (h : r.matchings.Honest gone)
    (goesOn : call ≠ .clear) : (r.perform call).matchings.Honest (gone ++ r.removals call) := by
  have more {t : Matchings} (h : t.Honest gone) : t.Honest (gone ++ r.removals call) :=
    h.mono (List.subset_append_left _ _)
  by_cases leaves : call.LeavesMatches
  · rw [(left_perform reached.proper leaves).1]
    exact more h
  cases call with
  | clear => exact absurd rfl goesOn
  | matchSorts left right =>
    have rooted := reached.proper.steady.toRooted
    exact more (kept_matchSorts
      (honest_relate rooted r.config [] left right r.matchings ⟨reached.genuine, h⟩))
  | undo => exact h.forget r.catalog.fresh
  | takeLog => exact more (h.of_same rfl rfl)
  | _ => exact absurd trivial leaves

theorem honest_performAll (reached : Reachable AnyCall r) (h : r.matchings.Honest gone)
    (goesOn : .clear ∉ calls) :
    (r.performAll calls).matchings.Honest (gone ++ r.removalsOf calls) := by
  induction calls generalizing r gone with
  | nil => rwa [removalsOf, List.append_nil]
  | cons call calls ih =>
    obtain ⟨here, others⟩ := List.ne_and_not_mem_of_not_mem_cons goesOn
    rw [removalsOf, ← List.append_assoc]
    exact ih (reached.step call trivial) (honest_perform reached h here.symm) others

/-- The matches of every registry that calls lead to are honest. -/
theorem Reachable.honest (reached : Reachable AnyCall r) : ∃ gone, r.matchings.Honest gone := by
  induction reached with
  | empty id categories config => exact ⟨[], honest_of_empty rfl rfl⟩
  | step before call _ here =>
    obtain ⟨gone, honest⟩ := here
    by_cases clears : call = .clear
    · subst clears
      exact ⟨[], honest_of_empty rfl rfl⟩
    · exact ⟨_, honest_perform before honest clears⟩

/-- What is kept for a sort is kept for it until it is removed. -/
theorem kept_perform (proper : r.Proper) (call : Call) (goesOn : call ≠ .clear)
    (stays : sort ∉ r.removals call) (entry : r.matchings.identities[sort]? = some id) :
    (r.perform call).matchings.identities[sort]? = some id := by
  by_cases undoes : call = .undo
  · subst undoes
    change (r.matchings.identities.filter _)[sort]? = some id
    rw [Std.ExtTreeMap.getElem?_filter', Option.filter_eq_some_iff]
    exact ⟨entry, decide_eq_true stays⟩
  · exact (keeps_perform proper call goesOn undoes).identities entry

theorem kept_performAll (reached : Reachable AnyCall r) (goesOn : .clear ∉ calls)
    (stays : sort ∉ r.removalsOf calls) (entry : r.matchings.identities[sort]? = some id) :
    (r.performAll calls).matchings.identities[sort]? = some id := by
  induction calls generalizing r with
  | nil => exact entry
  | cons call calls ih =>
    obtain ⟨here, others⟩ := List.ne_and_not_mem_of_not_mem_cons goesOn
    obtain ⟨now, later⟩ := not_or.mp (mt List.mem_append.mpr stays)
    exact ih (reached.step call trivial) others later
      (kept_perform reached.proper call here.symm now entry)

/-! ### Answers -/

/-- Asked for the match of two sorts, the registry answers one of the sort that is called
identical. -/
structure AnswersItself (r : Registry) (left right sort : SortId) (id : MatchId) : Prop where
  answered : (r.matchSorts left right).1 = .ok id
  identical : ∃ node, (r.matchSorts left right).2.matchings.get? id = some node ∧
    node.level = .identical ∧ node.left = sort

/-- Only a sort itself is matched with the sort like that, and the match is kept for it. -/
theorem AnswersItself.kept (h : r.AnswersItself left right sort id)
    (reached : Reachable AnyCall r) :
    left = sort ∧ right = sort ∧
      (r.matchSorts left right).2.matchings.identities[sort]? = some id := by
  obtain ⟨answered, node, found, identical, rfl⟩ := h
  have later : Reachable AnyCall (r.matchSorts left right).2 :=
    reached.step (.matchSorts left right) trivial
  obtain ⟨gone, honest⟩ := later.honest
  have rooted := reached.proper.steady.toRooted
  obtain ⟨id', t, answer, made, l, s, foundLeft, foundRight, entry⟩ | ⟨reason, t, answer, -⟩ :=
    ends_matchSorts ((genuine_relate rooted r.config [] left right _ reached.genuine).and
      (remembered_relate r.catalog r.config left right r.matchings))
  · rw [answer] at answered found honest ⊢
    cases answered
    have same : left = right := by
      by_contra differ
      obtain ⟨other, there, unlike⟩ := made.2 differ
      rw [found] at there
      cases there
      exact unlike identical
    unfold remembered at entry
    rw [if_pos same, rooted.placed foundLeft] at entry
    obtain ⟨other, there, isLeft, -⟩ := honest.entry entry
    rw [found] at there
    cases there
    exact ⟨isLeft.symm, same ▸ isLeft.symm, isLeft ▸ entry⟩
  · rw [answer] at answered
    cases answered

/-- Every live sort is matched with itself, by a match that is called identical. -/
theorem exists_answersItself (reached : Reachable AnyCall r) (live : r.catalog.Live sort) :
    ∃ id, r.AnswersItself sort sort sort id := by
  obtain ⟨record, found⟩ := live
  obtain rfl := reached.proper.steady.toRooted.placed found
  have answers : Ends (relate r.catalog r.config [] record.id record.id) r.matchings
      (fun id t ↦ t.identities[record.id]? = some id) fun _ ↦ False := by
    rw [relate_of_found found found, if_pos rfl]
    refine Ends.bind (Ends.get ?_)
    split
    · exact Ends.pure ‹_›
    · exact Ends.bind (ends_push (Ends.bind (Ends.modify (Ends.pure
        Std.ExtTreeMap.getElem?_insert_self))))
  have later : Reachable AnyCall (r.matchSorts record.id record.id).2 :=
    reached.step (.matchSorts record.id record.id) trivial
  obtain ⟨gone, honest⟩ := later.honest
  obtain ⟨id, t, answer, entry⟩ | ⟨-, -, -, ⟨⟩⟩ := ends_matchSorts answers
  rw [answer] at honest
  obtain ⟨node, there, left, right⟩ := honest.entry entry
  refine ⟨id, by rw [answer], node, by rw [answer]; exact there, ?_, left⟩
  exact (honest.level_iff there).mpr (left.trans right.symm)

/-- As long as a sort is not removed, one match of it is answered that is called identical. -/
theorem AnswersItself.unique (h : r.AnswersItself left right sort id)
    (reached : Reachable AnyCall r) (goesOn : .clear ∉ calls)
    (stays : sort ∉ (r.matchSorts left right).2.removalsOf calls)
    (again : ((r.matchSorts left right).2.performAll calls).AnswersItself left' right' sort id') :
    id' = id := by
  have next : Reachable AnyCall (r.matchSorts left right).2 :=
    reached.step (.matchSorts left right) trivial
  have later := next.performAll calls fun _ _ _ ↦ trivial
  obtain ⟨-, -, entry⟩ := h.kept reached
  obtain ⟨-, -, entry'⟩ := again.kept later
  have kept := kept_perform later.proper (.matchSorts left' right') Call.noConfusion
    List.not_mem_nil (kept_performAll next goesOn stays entry)
  exact Option.some.inj (entry'.symm.trans kept)

/-! ### The table -/

/-- Without nodes, nothing is kept for any sort. -/
theorem Reachable.honest_of_nodes (reached : Reachable AnyCall r) (bare : r.matchings.nodes = #[]) :
    r.matchings.Honest [] := by
  obtain ⟨gone, honest⟩ := reached.honest
  exact ⟨fun found ↦ by simp [get?, bare] at found, honest.entry⟩

/-- In a registry that had no slots and no matches, two matches of a live sort with itself are
one. -/
theorem unique_performAll (reached : Reachable AnyCall r) (unused : r.catalog.store = .empty)
    (bare : r.matchings.nodes = #[]) (goesOn : .clear ∉ calls)
    (few : ∀ slot, SlotMap.ofSlot ((r.removalsOf calls).map SortId.key) slot < 2 ^ 32)
    {node node' : MatchNode} (found : (r.performAll calls).matchings.get? id = some node)
    (found' : (r.performAll calls).matchings.get? id' = some node')
    (identical : node.level = .identical) (identical' : node'.level = .identical)
    (same : node'.left = node.left) (live : (r.performAll calls).catalog.Live node.left) :
    id' = id := by
  have honest := honest_performAll reached (reached.honest_of_nodes bare) goesOn
  refine honest.unique found found' identical identical' same fun removed ↦ ?_
  obtain ⟨record, there⟩ := live
  rw [dead_of_removed reached unused calls goesOn few _ removed] at there
  cases there

/-- Only a sort related to itself is identical. Whatever was called, a match is called identical
just when it is of a sort with itself; it is concordant then, counts nothing, and has no parts and
no tie. Every live sort is answered such a match, when it is matched with itself and only then, and
the same one as long as it is not removed. Since the registry had no slots and no matches, as it is
when it is new or was cleared, and as long as no slot was freed `2 ^ 32` times, there is one such
match of each live sort at most in the whole table. -/
theorem identical_exact (reached : Reachable AnyCall r) :
    (∀ id node, r.matchings.get? id = some node →
      (node.level = .identical ↔ node.left = node.right) ∧
        (node.level = .identical → node.Blank)) ∧
    (∀ sort, r.catalog.Live sort → ∃ id, r.AnswersItself sort sort sort id) ∧
    (∀ left right sort id, r.AnswersItself left right sort id →
      left = sort ∧ right = sort ∧
        ∀ calls, .clear ∉ calls → sort ∉ (r.matchSorts left right).2.removalsOf calls →
          ∀ left' right' id', ((r.matchSorts left right).2.performAll calls).AnswersItself
            left' right' sort id' → id' = id) ∧
    (r.catalog.store = .empty → r.matchings.nodes = #[] → ∀ calls, .clear ∉ calls →
      (∀ slot, SlotMap.ofSlot ((r.removalsOf calls).map SortId.key) slot < 2 ^ 32) →
        let last := r.performAll calls
        ∀ id node id' node', last.matchings.get? id = some node →
          last.matchings.get? id' = some node' → node.level = .identical →
            node'.level = .identical → node'.left = node.left → last.catalog.Live node.left →
              id' = id) := by
  obtain ⟨gone, honest⟩ := reached.honest
  refine ⟨fun id node found ↦ ⟨honest.level_iff found, fun identical ↦ ?_⟩,
    fun sort live ↦ exists_answersItself reached live,
    fun left right sort id answers ↦ ?_,
    fun unused bare calls goesOn few id node id' node' found found' ↦
      unique_performAll reached unused bare goesOn few found found'⟩
  · exact reached.knit.blank found ((honest.level_iff found).mp identical)
  · obtain ⟨isLeft, isRight, -⟩ := answers.kept reached
    exact ⟨isLeft, isRight, fun calls goesOn stays left' right' id' again ↦
      answers.unique reached goesOn stays again⟩

/-- A component of a disjunction is matched with itself inside another match, and again after
another sort was undone. -/
theorem identical_exact_sample :
    let x : SortId := ⟨⟨0⟩, ⟨0, 0⟩⟩
    let d : SortId := ⟨⟨0⟩, ⟨3, 0⟩⟩
    let calls : List Call := [.defineAll "d: [Label] x + [Label] y", .matchSorts d x,
      .define "[Label] z", .undo]
    let r := sample.performAll calls
    (r.matchings.nodes.toList.map fun node ↦ decide (node.level = .identical)) =
        [true, false, false, false] ∧
      (∀ id node, r.matchings.get? id = some node →
        (node.level = .identical ↔ node.left = node.right)) ∧
      (∃ id, r.AnswersItself x x x id ∧ ∀ left' right' id',
        ((r.matchSorts x x).2.performAll [.matchSorts x d]).AnswersItself left' right' x id' →
          id' = id) ∧
      ∀ id node id' node', r.matchings.get? id = some node → r.matchings.get? id' = some node' →
        node.level = .identical → node'.level = .identical → node'.left = node.left →
          r.catalog.Live node.left → id' = id := by
  intro x d calls r
  have reached : Reachable AnyCall r := (reachable_sample _).performAll calls fun _ _ _ ↦ trivial
  obtain ⟨each, answers, unique, -⟩ := identical_exact reached
  obtain ⟨-, -, -, table⟩ := identical_exact (reachable_sample AnyCall)
  have shown : (r.catalog.get x).toOption.map SortRecord.display = some "[Label] x" := by
    decide +kernel
  obtain ⟨record, found, -⟩ := exists_of_seen shown
  obtain ⟨id, answered⟩ := answers x ⟨record, found⟩
  refine ⟨by decide +kernel, fun id node found ↦ (each id node found).1,
    ⟨id, answered, (unique x x x id answered).2.2 [.matchSorts x d] (by simp) List.not_mem_nil⟩,
    table rfl rfl calls (by simp [calls]) fun slot ↦ ?_⟩
  exact Nat.lt_of_le_of_lt List.countP_le_length (by decide +kernel)

end Registry

end CompositeSorts
