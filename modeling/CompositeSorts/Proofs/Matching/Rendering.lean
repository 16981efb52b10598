import CompositeSorts.Proofs.Follows
import CompositeSorts.Proofs.Matching.Choosing
import CompositeSorts.Proofs.Matching.ReversalCopies

/-!
Steps in a table. This module runs the steps of which rules are made in a table beside the steps
that make findings. A step that appends a match shows the finding that the other step makes; it is
handed matches that are held, and what it appends is new and loose, until something leads to it.
-/

set_option autoImplicit false
set_option relaxedAutoImplicit false

namespace CompositeSorts

open Matchings Matching

variable {c : Catalog} {t t' u : Matchings} {id : MatchId} {memory memory' : Memory}
  {node : MatchNode} {config : Configuration} {ids parts : List MatchId}
  {finding : Finding} {findings shown : List Finding} {scale : Counter} {l r : SortRecord}

namespace Matchings

/-- The table renders the memory and has grown since `u`. -/
structure Reached (c : Catalog) (u t : Matchings) (memory : Memory) : Prop where
  renders : t.Renders c memory
  grows : Grows u t

/-- A match that shows the finding and that something leads to. -/
structure Answer (c : Catalog) (u : Matchings) (id : MatchId) (finding : Finding) (t : Matchings)
    (memory : Memory) : Prop extends Reached c u t memory where
  shows : t.Shows id finding
  held : t.Held id

/-- A new match that shows the finding. -/
structure Made (c : Catalog) (u : Matchings) (id : MatchId) (finding : Finding) (t : Matchings)
    (memory : Memory) : Prop extends Reached c u t memory where
  shows : t.Shows id finding
  new : u.get? id = none

/-- A new match that shows the finding and that can be chosen. -/
structure Offer (c : Catalog) (u : Matchings) (scale : Counter) (id : MatchId) (finding : Finding)
    (t : Matchings) (memory : Memory) : Prop extends Made c u id finding t memory where
  loose : t.Loose id
  alike : finding.node.left ≠ finding.node.right ∧ finding.node.scale = scale

theorem Reached.refl (h : t.Renders c memory) : Reached c t t memory := ⟨h, Grows.refl t⟩

theorem Reached.since {v : Matchings} (h : Reached c u t memory) (before : Grows v u) :
    Reached c v t memory := ⟨h.renders, before.trans h.grows⟩

theorem Extends.get?_eq_none (h : Extends u t) (new : t.get? id = none) : u.get? id = none := by
  cases found : u.get? id with
  | none => rfl
  | some node =>
    obtain ⟨node', found', -⟩ := h id node found
    rw [new] at found'
    cases found'

theorem Made.since {v : Matchings} (h : Made c u id finding t memory) (before : Grows v u) :
    Made c v id finding t memory :=
  ⟨h.toReached.since before, h.shows, before.nodes.get?_eq_none h.new⟩

/-- A shown finding is that of a node. -/
theorem Shows.exists_node (h : t.Shows id finding) : ∃ node parts, t.get? id = some node ∧
    finding = ⟨node.alone, parts⟩ ∧ List.Forall₂ t.Shows node.parts parts := by
  obtain ⟨node, found, alone, shown⟩ := shows_iff.mp h
  refine ⟨node, finding.parts, found, ?_, shown⟩
  cases finding
  rw [alone]
  rfl

/-! ### Candidates -/

theorem candidates_nil (u t : Matchings) (scale : Counter) : Candidates u t scale [] [] where
  shown := .nil
  loose := by simp
  new := by simp
  distinct := List.nodup_nil
  alike := by simp

theorem Candidates.later (h : Candidates u t scale ids findings) (later : Grows t t') :
    Candidates u t' scale ids findings where
  shown := ShowsAll.extend h.shown later.nodes
  loose id inside := later.loose id (h.loose id inside)
  new := h.new
  distinct := h.distinct
  alike := h.alike

/-- Newer candidates join the older ones. -/
theorem Candidates.append {ids' : List MatchId} {findings' : List Finding}
    (h : Candidates u t scale ids findings) (before : Grows u t) (later : Grows t t')
    (h' : Candidates t t' scale ids' findings') :
    Candidates u t' scale (ids ++ ids') (findings ++ findings') where
  shown := List.rel_append (h.later later).shown h'.shown
  loose id inside := (List.mem_append.mp inside).elim ((h.later later).loose id) (h'.loose id)
  new id inside := (List.mem_append.mp inside).elim (h.new id)
    fun inside ↦ before.nodes.get?_eq_none (h'.new id inside)
  distinct := by
    refine List.nodup_append.mpr ⟨h.distinct, h'.distinct, ?_⟩
    rintro id inside _ inside' rfl
    obtain ⟨⟨node, found, -⟩, -⟩ := h.loose id inside
    rw [h'.new id inside'] at found
    cases found
  alike finding inside := (List.mem_append.mp inside).elim (h.alike finding) (h'.alike finding)

/-- What is offered is a candidate. -/
theorem Offer.candidates (h : Offer c u scale id finding t memory) :
    Candidates u t scale [id] [finding] where
  shown := .cons h.shows .nil
  loose _ inside := List.mem_singleton.mp inside ▸ h.loose
  new _ inside := List.mem_singleton.mp inside ▸ h.new
  distinct := List.pairwise_singleton _ id
  alike _ inside := List.mem_singleton.mp inside ▸ h.alike

end Matchings

/-! ### Steps -/

namespace Matching

theorem follows_ask {α : Type} {answer : Except Refusal α}
    {post : α → α → Matchings → Memory → Prop} {fault : Matchings → Memory → Prop}
    (answered : ∀ value, answer = .ok value → post value value t memory)
    (refused : fault t memory) :
    Follows (ask answer) (Appraisal.ask answer) t memory post fault := by
  unfold Follows ask Appraisal.ask
  cases answer with
  | ok value => exact ⟨value, t, rfl, answered value rfl⟩
  | error reason => exact ⟨t, rfl, refused⟩

/-- The matches that say something show the findings that do. -/
theorem forall₂_telling (h : List.Forall₂ (Usable u t) ids findings) :
    List.Forall₂ (Usable u t) (nontrivial t ids) (Finding.telling findings) := by
  refine List.rel_filter ?_ h
  intro id finding usable
  obtain ⟨node, parts, found, rfl, -⟩ := usable.shows.exists_node
  dsimp only
  rw [found]
  rfl

/-- Appending a match with usable parts. -/
theorem ends_push_made (h : Reached c u t memory) (untied : node.tiedWith = none)
    (usable : List.Forall₂ (Usable u t) node.parts findings) :
    Ends (push node) t (fun id t' ↦ Made c u id ⟨node.alone, findings⟩ t' memory ∧ t'.Loose id)
      fun _ ↦ False := by
  have each : ∀ part ∈ node.parts, (∃ other, t.get? part = some other) ∧ ¬ u.Loose part := by
    intro part inside
    obtain ⟨finding, -, here⟩ := exists_of_forall₂ usable.flip inside
    exact ⟨Shows.exists_get here.shows, here.free⟩
  refine ends_push ⟨⟨⟨h.renders.push untied fun part inside ↦ (each part inside).1,
    h.grows.push untied fun part inside ↦ (each part inside).2⟩,
    shows_push (usable.imp fun _ _ here ↦ here.shows), ?_⟩,
    h.renders.loose_push untied fun part inside ↦ (each part inside).1⟩
  exact h.grows.nodes.get?_eq_none (Array.getElem?_eq_none (Nat.le_refl _))

/-- Appending a match of two different sorts, with usable parts. -/
theorem ends_push_offer (h : Reached c u t memory) (untied : node.tiedWith = none)
    (usable : List.Forall₂ (Usable u t) node.parts findings) (apart : node.left ≠ node.right) :
    Ends (push node) t
      (fun id t' ↦ Offer c u node.scale id ⟨node.alone, findings⟩ t' memory) fun _ ↦ False :=
  (ends_push_made h untied usable).mono (fun _ _ made ↦ ⟨made.1, made.2, apart, rfl⟩)
    fun _ failed ↦ failed

/-- An adjustment of level, grade and tally. -/
structure Adjusts (adjust : MatchNode → MatchNode) : Prop where
  alone : ∀ node, (adjust node).alone = adjust node.alone
  links : ∀ node, (adjust node).parts = node.parts ∧ (adjust node).tiedWith = node.tiedWith
  sides : ∀ node, (adjust node).left = node.left ∧ (adjust node).right = node.right
  scale : ∀ node, (adjust node).scale = node.scale

/-- Appending a match that is like a usable one. -/
theorem ends_pushLike_offer {adjust : MatchNode → MatchNode} (h : Reached c u t memory)
    (usable : Usable u t id finding) (adjusts : Adjusts adjust) (apart : l.id ≠ r.id) :
    Ends (pushLike l r id adjust) t (fun id' t' ↦
      Offer c u (commonScale l r) id' (.like l r finding adjust) t' memory) fun _ ↦ False := by
  have telling : List.Forall₂ (Usable u t) (nontrivial t [id]) (Finding.telling [finding]) :=
    forall₂_telling (.cons usable .nil)
  obtain ⟨source, parts, found, rfl, -⟩ := usable.shows.exists_node
  refine Ends.bind (ends_found found (Ends.bind (Ends.get ?_)))
  let made := adjust (Matching.node l r source.level.lifted source.grade source.tally
    (nontrivial t [id]))
  have untied : made.tiedWith = none := (adjusts.links _).2
  have linked : made.parts = nontrivial t [id] := (adjusts.links _).1
  have sides : made.left ≠ made.right := by
    rw [(adjusts.sides _).1, (adjusts.sides _).2]
    exact apart
  have offer := ends_push_offer h untied (linked ▸ telling) sides
  rw [adjusts.scale, adjusts.alone] at offer
  exact offer

/-- The best candidate is chosen; if there is none, the sorts are incongruous. -/
theorem ends_chooseOrIncongruous_made (h : Reached c u t memory)
    (candidates : Candidates u t scale ids findings)
    (usable : List.Forall₂ (Usable u t) parts shown) :
    Ends (chooseOrIncongruous config l r ids parts) t (fun id t' ↦
      Made c u id (.chooseOrIncongruous l r findings shown) t' memory) fun _ ↦ False := by
  refine Ends.bind ((ends_choose_finding h.renders h.grows candidates).mono (fun best t' made ↦ ?_)
    fun _ failed ↦ failed)
  obtain ⟨renders, grows, later, chosen, new⟩ := made
  unfold Finding.chooseOrIncongruous
  generalize Finding.choose findings = answer at chosen
  cases chosen with
  | some shows => exact Ends.pure ⟨⟨renders, grows⟩, shows, new _ rfl⟩
  | none =>
    exact (ends_push_made ⟨renders, grows⟩ rfl (forall₂_usable_later usable later)).mono
      (fun _ _ made ↦ made.1) fun _ failed ↦ failed

end Matching

end CompositeSorts
