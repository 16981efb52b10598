import CompositeSorts.Proofs.Matching.BoundedChains
import CompositeSorts.Proofs.Matching.Routines

/-!
Knit tables stay knit. Between the steps of a rule, the matches that it has not chosen from yet are
loose and of its two sorts, and what it was told of is none of them (`Drafting`); so choosing ties
fresh matches only, into one chain. Every rule goes through such steps, and what matching answers is
held by the table from then on. So matching keeps a table knit (`knit_relate`).
-/

set_option autoImplicit false
set_option relaxedAutoImplicit false

namespace CompositeSorts

open Catalog Matchings Matching Rule

variable {c : Catalog} {config : Configuration} {t t' u : Matchings} {id : MatchId}
  {l r sort : SortRecord} {told made free : List MatchId} {relate : Relate} {key : PairKey}

/-- The table stays knit, and grows. -/
abbrev Matchings.Knitted (config : Configuration) (t t' : Matchings) : Prop :=
  Knit config t' ∧ Grows t t'

/-- Matching keeps the table knit, and what it answers is held. -/
abbrev Knits (config : Configuration) (relate : Relate) : Prop := ∀ left right t, Knit config t →
  Ends (relate left right) t (fun id t' ↦ Knitted config t t' ∧ t'.Held id) (Knitted config t)

/-- A match of the rule: it is there, and was not before. -/
abbrev Matchings.Added (config : Configuration) (t : Matchings) (id : MatchId) (t' : Matchings) :
    Prop := Knitted config t t' ∧ (∃ node, t'.get? id = some node) ∧ t.get? id = none

/-! ### Between the steps of a rule -/

/-- Between the steps of a rule: the table is knit and has grown since `u`. The rule was told of
matches that were not loose before and that it has not to choose from; those that it has made are
new, and those that it has not chosen from yet are still loose. -/
structure Drafting (config : Configuration) (l r : SortRecord) (u : Matchings)
    (told made free : List MatchId) (t : Matchings) : Prop where
  knitted : Knitted config u t
  told : ∀ id ∈ told, (∃ node, t.get? id = some node) ∧ ¬ u.Loose id ∧ id ∉ free
  made : ∀ id ∈ made, (∃ node, t.get? id = some node) ∧ u.get? id = none
  free : Drafts t (commonScale l r) free

namespace Drafting

theorem start (h : Knit config t) : Drafting config l r t [] [] [] t where
  knitted := ⟨h, .refl t⟩
  told _ inside := absurd inside List.not_mem_nil
  made _ inside := absurd inside List.not_mem_nil
  free := ⟨fun _ inside ↦ absurd inside List.not_mem_nil, List.nodup_nil,
    fun inside ↦ absurd inside List.not_mem_nil⟩

theorem there_later (later : Extends t t') (there : ∃ node, t.get? id = some node) :
    ∃ node, t'.get? id = some node := by
  obtain ⟨node, found⟩ := there
  obtain ⟨node', found', -⟩ := later id node found
  exact ⟨node', found'⟩

/-- Candidates are loose and alike in a table that has grown. -/
theorem drafts_later {scale : Counter} {ids : List MatchId} (h : Drafts t scale ids)
    (grows : Grows t t') : Drafts t' scale ids where
  loose id inside := grows.loose id (h.loose id inside)
  distinct := h.distinct
  alike {id node'} inside found' := by
    obtain ⟨⟨node, found, -⟩, -⟩ := h.loose id inside
    obtain ⟨other, here, same⟩ := grows.nodes id node found
    rw [found'] at here
    cases here
    obtain ⟨left, right⟩ := MatchNode.sides_of_untied same
    have scale := congrArg MatchNode.scale same
    rw [left, right]
    exact ⟨(h.alike inside found).1, scale.trans (h.alike inside found).2⟩

/-- What is so between the steps is so in a table that has grown. -/
theorem later (h : Drafting config l r u told made free t) (next : Knitted config t t') :
    Drafting config l r u told made free t' where
  knitted := ⟨next.1, h.knitted.2.trans next.2⟩
  told id inside := by
    obtain ⟨there, rest⟩ := h.told id inside
    exact ⟨there_later next.2.nodes there, rest⟩
  made id inside := by
    obtain ⟨there, new⟩ := h.made id inside
    exact ⟨there_later next.2.nodes there, new⟩
  free := drafts_later h.free next.2

/-- What something leads to is none of the rule's own that are still free. -/
theorem of_held (h : Drafting config l r u told made free t) (held : t.Held id) :
    (∃ node, t.get? id = some node) ∧ ¬ u.Loose id ∧ id ∉ free :=
  ⟨h.knitted.1.held held, h.knitted.2.not_loose held, fun among ↦ (h.free.loose id among).2 held⟩

/-- A match that is held is told. -/
theorem tell (h : Drafting config l r u told made free t) (held : t.Held id) :
    Drafting config l r u (id :: told) made free t where
  knitted := h.knitted
  told := List.forall_mem_cons.mpr ⟨h.of_held held, h.told⟩
  made := h.made
  free := h.free

/-- A match that is new is one of the rule's own. -/
theorem own (h : Drafting config l r u told made free t) (there : ∃ node, t.get? id = some node)
    (new : u.get? id = none) : Drafting config l r u told (id :: made) free t where
  knitted := h.knitted
  told := h.told
  made := List.forall_mem_cons.mpr ⟨⟨there, new⟩, h.made⟩
  free := h.free

theorem alternatives {head : MatchId} (h : Drafting config l r u told made free t)
    (known : head ∈ told) : Drafting config l r u (t.alternatives head ++ told) made free t where
  knitted := h.knitted
  told := by
    refine List.forall_mem_append.mpr ⟨fun id among ↦ ?_, h.told⟩
    obtain ⟨⟨node, found⟩, -⟩ := h.told head known
    obtain ⟨ties, chain⟩ := h.knitted.1.orderly.exists_chain found
    rw [chain.alternatives_eq h.knitted.1.orderly] at among
    exact h.of_held (Or.inr (Or.inr (Or.inr (chain.linked_of_mem among))))
  made := h.made
  free := h.free

/-- A match is appended, which is then free. -/
theorem push {node : MatchNode} (differ : l.id ≠ r.id)
    (h : Drafting config l r u told made free t) (composed : Composed l r node)
    (known : node.parts ⊆ told) : Drafting config l r u told (⟨t.nodes.size⟩ :: made)
      (free ++ [⟨t.nodes.size⟩]) (t.push node) := by
  obtain ⟨knit, grows⟩ := h.knitted
  have there : ∀ part ∈ node.parts, ∃ other, t.get? part = some other := fun part among ↦
    (h.told part (known among)).1
  have apart : node.left ≠ node.right := by rwa [composed.left, composed.right]
  have absent : t.get? ⟨t.nodes.size⟩ = none := Array.getElem?_eq_none (Nat.le_refl _)
  have size_not_mem {ids : List MatchId} (inside : ∀ id ∈ ids, ∃ other, t.get? id = some other) :
      (⟨t.nodes.size⟩ : MatchId) ∉ ids := by
    intro among
    obtain ⟨other, found⟩ := inside _ among
    rw [absent] at found
    cases found
  have pushed := knit.push composed.untied there fun same ↦ absurd same apart
  refine ⟨⟨pushed, grows.push composed.untied fun part among ↦ (h.told part (known among)).2.1⟩,
    fun id among ↦ ?_, List.forall_mem_cons.mpr ⟨⟨⟨node, get?_push_size node⟩, ?_⟩,
      fun id among ↦ ?_⟩, ?_, ?_, ?_⟩
  · obtain ⟨here, notLoose, notFree⟩ := h.told id among
    refine ⟨there_later (extends_push node) here, notLoose, fun among' ↦ ?_⟩
    rcases List.mem_append.mp among' with before | last
    · exact notFree before
    · obtain rfl := List.mem_singleton.mp last
      exact size_not_mem (fun id among ↦ (h.told id among).1) among
  · exact grows.nodes.get?_eq_none absent
  · obtain ⟨here, new⟩ := h.made id among
    exact ⟨there_later (extends_push node) here, new⟩
  · intro id among
    rcases List.mem_append.mp among with before | last
    · exact (h.free.loose id before).push composed.untied fun part ↦
        (h.told id (known part)).2.2 before
    · obtain rfl := List.mem_singleton.mp last
      exact Matchings.loose_push knit.held composed.untied there
  · refine List.nodup_append.mpr ⟨h.free.distinct, List.nodup_cons.mpr ⟨List.not_mem_nil,
      List.nodup_nil⟩, fun id before other last ↦ ?_⟩
    rintro rfl
    obtain rfl := List.mem_singleton.mp last
    exact size_not_mem (fun id among ↦ (h.free.loose id among).1.imp fun _ found ↦ found.1) before
  · intro id other among found
    rw [get?_push] at found
    split_ifs at found with last
    · cases found
      exact ⟨apart, composed.scale⟩
    · refine h.free.alike ((List.mem_append.mp among).resolve_right fun same ↦ ?_) found
      exact last (List.mem_singleton.mp same)

/-- Choosing ties free matches only. -/
theorem choose (h : Drafting config l r u told made free t) (among : free ⊆ made) :
    Ends (Matching.choose config free) t (fun best t' ↦
      Drafting config l r u told made [] t' ∧ best.toList ⊆ free) (Knitted config u) := by
  have done {t' : Matchings} (knit : Knit config t') (grows : Grows u t') (later : Extends t t') :
      Drafting config l r u told made [] t' := by
    refine ⟨⟨knit, grows⟩, fun id inside ↦ ?_, fun id inside ↦ ?_, (start knit).free⟩
    · obtain ⟨there, notLoose, -⟩ := h.told id inside
      exact ⟨there_later later there, notLoose, List.not_mem_nil⟩
    · obtain ⟨there, new⟩ := h.made id inside
      exact ⟨there_later later there, new⟩
  refine (ends_choose_tied h.knitted.1.orderly h.free).mono (fun best t' chosen ↦ ?_)
    fun _ failed ↦ failed.elim
  obtain ⟨candidates, reads, chosen⟩ := chosen
  rcases chosen with ⟨-, rfl, rfl⟩ | ⟨first, others, rfl, rfl, tied⟩
  · exact ⟨done h.knitted.1 h.knitted.2 (.refl _), List.nil_subset _⟩
  have inside : (others.foldl better first).1 ∈ free := by
    obtain ⟨_, among, rfl, -⟩ := exists_of_forall₂ reads (foldl_better_mem first others)
    exact among
  refine ⟨?_, by simpa using inside⟩
  rcases tied with rfl | ⟨congruous, ties, tying⟩
  · exact done h.knitted.1 h.knitted.2 (.refl _)
  · refine done (tying.knit h.knitted.1 h.free congruous) ⟨h.knitted.2.nodes.trans tying.quiet.nodes,
      fun id loose ↦ tying.others id (h.knitted.2.loose id loose) fun candidate ↦ ?_⟩
      tying.quiet.nodes
    obtain ⟨⟨node, found, -⟩, -⟩ := loose
    rw [(h.made id (among candidate)).2] at found
    cases found

theorem carries (config : Configuration) (differ : l.id ≠ r.id) (u : Matchings) :
    Routine.Carries config l r (Drafting config l r u) (Knitted config u) where
  failed h := h.knitted
  alternatives h known := h.alternatives known
  push h composed known := h.push differ composed known
  choose h among := h.choose among

end Drafting

/-! ### Rules -/

/-- The match of the exchanged pair is reversed into new matches. -/
theorem knit_exchanged (inside : Knits config relate) (differ : l.id ≠ r.id)
    (h : Knit config t) : Ends (exchanged relate l r) t (Added config t) (Knitted config t) := by
  refine Ends.bind ((inside r.id l.id t h).mono (fun forward t₁ made ↦ ?_) fun _ failed ↦ failed)
  obtain ⟨⟨knit, grows⟩, held⟩ := made
  obtain ⟨node, found⟩ := knit.held held
  refine (ends_reverse_copied knit.orderly found l.id r.id).mono (fun reversal t₂ made ↦ ?_)
    fun _ failed ↦ failed.elim
  obtain ⟨s, parts, tie, copied, turnedParts, turnedTie, rfl, rfl⟩ := made
  refine ⟨⟨knit.reverse copied found turnedParts turnedTie differ,
    grows.trans (copied.push knit.orderly found turnedParts turnedTie l.id r.id).grows⟩,
    ⟨_, get?_append_push_size _ _⟩, ?_⟩
  exact grows.nodes.get?_eq_none (Array.getElem?_eq_none (Nat.le_add_right _ _))

/-- Every rule keeps the table knit, and answers a new match. -/
theorem knit_forVariants (isLeft : c.get l.id = .ok l) (isRight : c.get r.id = .ok r)
    (differ : l.id ≠ r.id) (inside : Knits config relate) (h : Knit config t) :
    Ends (forVariants c config relate l r) t (Added config t) (Knitted config t) := by
  refine (Routine.run (Drafting.carries config differ t) (fun left right told made free t' _ here ↦ ?_)
    (fun told made free t' _ here ↦ ?_) (routine_forVariants isLeft isRight)
    (Drafting.start h)).mono (fun id t' ended ↦ ?_) fun _ failed ↦ failed
  · exact (inside left right t' here.knitted.1).mono
      (fun id _ asked ↦ (here.later asked.1).tell asked.2) fun _ failed ↦ (here.later failed).knitted
  · refine (knit_exchanged inside differ here.knitted.1).mono (fun id _ turned ↦ ?_)
      fun _ failed ↦ (here.later failed).knitted
    exact (here.later turned.1).own turned.2.1
      (here.knitted.2.nodes.get?_eq_none turned.2.2)
  · obtain ⟨told, made, free, own, here⟩ := ended
    exact ⟨here.knitted, here.made id own⟩

/-! ### Matching -/

/-- A table with the same nodes that remembers the same is as good. -/
theorem Matchings.Knitted.same (h : Knitted config u t) (nodes : t'.nodes = t.nodes)
    (memo : t'.memo = t.memo) (identities : t'.identities = t.identities)
    (sentinels : t'.sentinels = t.sentinels) : Knitted config u t' := by
  have enters : Enters t t' [] := ⟨nodes, fun entry ↦ Or.inl (memo ▸ entry),
    fun entry ↦ Or.inl (identities ▸ entry), fun entry ↦ Or.inl (sentinels ▸ entry)⟩
  exact ⟨h.1.of_same nodes memo identities sentinels,
    enters.grows h.2 fun _ inside ↦ absurd inside List.not_mem_nil⟩

/-- A new match is entered. -/
theorem Matchings.Added.enter (h : Added config t id t') {u : Matchings} (enters : Enters t' u [id])
    (held : u.Held id) : Knitted config t u ∧ u.Held id := by
  obtain ⟨⟨knit, grows⟩, there, new⟩ := h
  refine ⟨⟨enters.knit knit ?_, enters.grows grows ?_⟩, held⟩
  · exact fun other inside ↦ List.mem_singleton.mp inside ▸ there
  · exact fun other inside ↦ List.mem_singleton.mp inside ▸ not_loose_of_new new

/-- A match without parts and tie is appended. -/
theorem added_push (node : MatchNode) (h : Knit config t) (untied : node.tiedWith = none)
    (parts : node.parts = []) (blank : node.left = node.right → node.Blank) :
    Added config t ⟨t.nodes.size⟩ (t.push node) := by
  have nothing {other : MatchId} (part : other ∈ node.parts) : False :=
    List.not_mem_nil (parts ▸ part)
  exact ⟨⟨h.push untied (fun _ part ↦ (nothing part).elim) blank,
    (Grows.refl t).push untied fun _ part ↦ (nothing part).elim⟩, ⟨node, get?_push_size node⟩,
    Array.getElem?_eq_none (Nat.le_refl _)⟩

theorem knit_identity (h : Knit config t) : Ends (identity sort) t
    (fun id t' ↦ Knitted config t t' ∧ t'.Held id) (Knitted config t) := by
  refine Ends.bind (Ends.get ?_)
  split
  · rename_i id entry
    exact Ends.pure ⟨⟨h, .refl t⟩, Or.inr (Or.inl ⟨_, entry⟩)⟩
  · have made := added_push (node sort sort .identical .concordant .none []) h rfl rfl
      fun _ ↦ ⟨rfl, rfl, rfl, rfl⟩
    refine Ends.bind (ends_push (Ends.bind (Ends.modify (Ends.pure (made.enter
      ⟨rfl, Or.inl, entry_insert, Or.inl⟩ (Or.inr (Or.inl ⟨sort.id, ?_⟩)))))))
    exact Std.ExtTreeMap.getElem?_insert_self

theorem knit_breakCycle (differ : l.id ≠ r.id) (h : Knit config t) :
    Ends (breakCycle key l r) t (fun id t' ↦ Knitted config t t' ∧ t'.Held id)
      (Knitted config t) := by
  have noted : Knitted config t ({ t with metrics := t.metrics.recordCycle }.note
      (.cycleBroken l.id r.id)) := Knitted.same ⟨h, .refl t⟩ rfl rfl rfl rfl
  refine Ends.bind (Ends.modify (Ends.bind (Ends.get ?_)))
  dsimp only
  generalize ({ t with metrics := t.metrics.recordCycle }.note (.cycleBroken l.id r.id)) =
    t₁ at noted
  split
  · rename_i id known
    obtain ⟨entry, -⟩ := Option.filter_eq_some_iff.mp known
    exact Ends.pure ⟨noted, Or.inr (Or.inr (Or.inl ⟨key, entry⟩))⟩
  · obtain ⟨pushed, there, new⟩ := added_push
      { node l r .incongruous .concordant .none [] with sentinel := true } noted.1 rfl rfl
      fun same ↦ absurd same differ
    have made : Added config t _ _ := ⟨⟨pushed.1, noted.2.trans pushed.2⟩, there,
      noted.2.nodes.get?_eq_none new⟩
    refine Ends.bind (ends_push (Ends.bind (Ends.modify (Ends.pure (made.enter
      ⟨rfl, Or.inl, Or.inl, entry_insert⟩ (Or.inr (Or.inr (Or.inl ⟨key, ?_⟩))))))))
    exact Std.ExtTreeMap.getElem?_insert_self

/-- Matching keeps the table knit. -/
theorem knit_relate (rooted : c.Rooted) (config : Configuration) (underWay : List PairKey) :
    Knits config (Matching.relate c config underWay) := by
  intro left right t h
  cases foundLeft : c.get left with
  | error reason =>
    rw [Matching.relate, foundLeft]
    exact Ends.throw ⟨h, .refl t⟩
  | ok l =>
  cases foundRight : c.get right with
  | error reason =>
    rw [Matching.relate, foundLeft, foundRight]
    exact Ends.throw ⟨h, .refl t⟩
  | ok r =>
  obtain rfl := rooted.placed foundLeft
  obtain rfl := rooted.placed foundRight
  rw [relate_of_found foundLeft foundRight]
  split_ifs with same idle
  · exact knit_identity h
  · exact knit_breakCycle same h
  have inside := knit_relate rooted config (⟨l.display, r.display⟩ :: underWay)
  have guarded : Respects (Guarded (⟨l.display, r.display⟩ :: underWay)) (forVariants c config _ l r) :=
    respects_forVariants (tolerant_guarded _) (guarded_relate c config _) l r
  refine ends_consult_new guarded (fun id entry metrics journal ↦ ?_) fun _ ↦ ?_
  · exact ⟨Knitted.same ⟨h, .refl t⟩ rfl rfl rfl rfl, Or.inl ⟨_, entry⟩⟩
  have begun : Knitted config t ({ t with metrics := t.metrics.recordMiss }.begin
      ⟨l.display, r.display⟩) := Knitted.same ⟨h, .refl t⟩ rfl rfl rfl rfl
  refine (knit_forVariants foundLeft foundRight same inside begun.1).mono (fun id t' made _ ↦ ?_)
    fun t' failed ↦ Knitted.same ⟨failed.1, begun.2.trans failed.2⟩ rfl rfl rfl rfl
  obtain ⟨⟨knit, grows⟩, there, new⟩ := made
  have made : Added config t id (t'.finish ⟨l.display, r.display⟩) :=
    ⟨Knitted.same ⟨knit, begun.2.trans grows⟩ rfl rfl rfl rfl, there, new⟩
  exact made.enter ⟨rfl, entry_insert, Or.inl, Or.inl⟩
    (Or.inl ⟨_, Std.ExtTreeMap.getElem?_insert_self⟩)
termination_by (unvisited c.pairKeys underWay).length
decreasing_by
  exact length_unvisited_cons_lt (Catalog.pairKey_mem_pairKeys ‹_› ‹_›) ‹_›

end CompositeSorts
