import CompositeSorts.Proofs.Matching.Labels
import CompositeSorts.Proofs.Matching.Routines
import CompositeSorts.Proofs.Matching.ReversalCopies

/-!
Where a match leads. A match is *sheltered* when its sorts are live, and wherever it leads, by its
parts and by its ties, there are sheltered matches: its parts are of sorts that display as sorts
which its own sorts lead to, and its ties are of sorts of the same displays.

What is sheltered stays so when matches are appended that lead to sheltered ones (`shelters_push`),
when a match is tied behind one of sorts of its displays (`shelters_tie`), and when a match is
reversed (`shelters_reverse`): copies lead where the matches led that they are copies of.
-/

set_option autoImplicit false
set_option relaxedAutoImplicit false

namespace CompositeSorts

open Catalog Matchings Matching Rule

variable {c d : Catalog} {categories : CategoryTable} {config : Configuration} {t t' u : Matchings}
  {id id' head : MatchId} {l r sort : SortRecord} {left right part other : SortId}
  {node node' next : MatchNode} {within within' : MatchId → Prop}

/-! ### Displays -/

namespace Catalog

theorem SameDisplay.refl (live : c.Live left) : c.SameDisplay left left := by
  obtain ⟨sort, found⟩ := live
  exact ⟨sort, sort, found, found, rfl⟩

theorem SameDisplay.symm (h : c.SameDisplay left right) : c.SameDisplay right left := by
  obtain ⟨l, r, foundLeft, foundRight, same⟩ := h
  exact ⟨r, l, foundRight, foundLeft, same.symm⟩

theorem SameDisplay.trans (h : c.SameDisplay left right) (h' : c.SameDisplay right other) :
    c.SameDisplay left other := by
  obtain ⟨l, r, foundLeft, foundRight, same⟩ := h
  obtain ⟨r', s, foundRight', foundOther, same'⟩ := h'
  rw [foundRight] at foundRight'
  cases foundRight'
  exact ⟨l, s, foundLeft, foundOther, same.trans same'⟩

theorem SameDisplay.live (h : c.SameDisplay left right) : c.Live right := by
  obtain ⟨l, r, foundLeft, foundRight, same⟩ := h
  exact ⟨r, foundRight⟩

/-- One of the two sorts leads to a sort that displays as this one does. -/
def Involves (c : Catalog) (left right other : SortId) : Prop :=
  ∃ part, (c.Reaches left part ∨ c.Reaches right part) ∧ c.SameDisplay part other

/-- The matches are of sorts of the same displays, or of the exchanged ones. -/
def Cognate (c : Catalog) (node other : MatchNode) : Prop :=
  (c.SameDisplay node.left other.left ∧ c.SameDisplay node.right other.right) ∨
    (c.SameDisplay node.left other.right ∧ c.SameDisplay node.right other.left)

theorem Cognate.symm (h : c.Cognate node node') : c.Cognate node' node := by
  rcases h with ⟨left, right⟩ | ⟨left, right⟩
  · exact Or.inl ⟨left.symm, right.symm⟩
  · exact Or.inr ⟨right.symm, left.symm⟩

theorem Cognate.trans (h : c.Cognate node node') (h' : c.Cognate node' next) :
    c.Cognate node next := by
  rcases h with ⟨left, right⟩ | ⟨left, right⟩ <;> rcases h' with ⟨left', right'⟩ | ⟨left', right'⟩
  · exact Or.inl ⟨left.trans left', right.trans right'⟩
  · exact Or.inr ⟨left.trans left', right.trans right'⟩
  · exact Or.inr ⟨left.trans right', right.trans left'⟩
  · exact Or.inl ⟨left.trans right', right.trans left'⟩

/-- What a sort involves is involved by sorts of its display. -/
theorem Involves.transport (rested : c.Rested) (suited : Suited categories c)
    (h : c.Involves node.left node.right other) (cognate : c.Cognate node node') :
    c.Involves node'.left node'.right other := by
  obtain ⟨part, reaches, shown⟩ := h
  have across {from' to' : SortId} (same : c.SameDisplay from' to')
    (reaches : c.Reaches from' part) :
      ∃ part', c.Reaches to' part' ∧ c.SameDisplay part' other := by
    obtain ⟨sort, sort', found, found', same⟩ := same
    obtain ⟨part', record, record', reaches', there, there', same⟩ :=
      exists_reaches_of_display rested suited found found' same reaches
    exact ⟨part', reaches', .trans ⟨record', record, there', there, same.symm⟩ shown⟩
  rcases cognate with ⟨left, right⟩ | ⟨left, right⟩ <;> rcases reaches with reaches | reaches
  · obtain ⟨part', reaches, shown⟩ := across left reaches
    exact ⟨part', Or.inl reaches, shown⟩
  · obtain ⟨part', reaches, shown⟩ := across right reaches
    exact ⟨part', Or.inr reaches, shown⟩
  · obtain ⟨part', reaches, shown⟩ := across left reaches
    exact ⟨part', Or.inr reaches, shown⟩
  · obtain ⟨part', reaches, shown⟩ := across right reaches
    exact ⟨part', Or.inl reaches, shown⟩

end Catalog

/-! ### Sheltered matches -/

namespace Matchings

/-- The sorts of the node are live, and it leads to matches `within`: its parts are of sorts that it
involves, and its tie is cognate with it. -/
structure Housed (c : Catalog) (t : Matchings) (within : MatchId → Prop) (node : MatchNode) :
    Prop where
  left : c.Live node.left
  right : c.Live node.right
  parts : ∀ part ∈ node.parts, within part ∧ ∃ other, t.get? part = some other ∧
    c.Involves node.left node.right other.left ∧ c.Involves node.left node.right other.right
  tied : ∀ tie ∈ node.tiedWith, within tie ∧ ∃ other, t.get? tie = some other ∧ c.Cognate node other

/-- Matches of the set are there, and lead to matches of the set. -/
def Closed (c : Catalog) (t : Matchings) (within : MatchId → Prop) : Prop :=
  ∀ id, within id → ∃ node, t.get? id = some node ∧ Housed c t within node

/-- The match is in some set of matches that lead nowhere else. -/
def Sheltered (c : Catalog) (t : Matchings) (id : MatchId) : Prop :=
  ∃ within, Closed c t within ∧ within id

theorem Housed.cognate (h : Housed c t within node) : c.Cognate node node :=
  Or.inl ⟨.refl h.left, .refl h.right⟩

theorem Housed.mono (h : Housed c t within node) (later : Extends t t')
    (more : ∀ id, within id → within' id) : Housed c t' within' node where
  left := h.left
  right := h.right
  parts part inside := by
    obtain ⟨kept, other, found, involved, involved'⟩ := h.parts part inside
    obtain ⟨other', found', same⟩ := later part other found
    obtain ⟨left, right⟩ := MatchNode.sides_of_untied same
    exact ⟨more part kept, other', found', left ▸ involved, right ▸ involved'⟩
  tied tie inside := by
    obtain ⟨kept, other, found, cognate⟩ := h.tied tie inside
    obtain ⟨other', found', same⟩ := later tie other found
    obtain ⟨left, right⟩ := MatchNode.sides_of_untied same
    unfold Catalog.Cognate at cognate
    rw [← left, ← right] at cognate
    exact ⟨more tie kept, other', found', cognate⟩

/-- Sheltered matches lead to sheltered matches. -/
theorem closed_sheltered (c : Catalog) (t : Matchings) : Closed c t (Sheltered c t) := by
  rintro id ⟨within, closed, inside⟩
  obtain ⟨node, found, housed⟩ := closed id inside
  exact ⟨node, found, housed.mono (Extends.refl t) fun other kept ↦ ⟨within, closed, kept⟩⟩

/-- Nothing is lost from the table, and what is sheltered stays so. -/
def Shelters (c : Catalog) (t t' : Matchings) : Prop :=
  Extends t t' ∧ ∀ id, Sheltered c t id → Sheltered c t' id

theorem Shelters.refl (t : Matchings) : Shelters c t t := ⟨Extends.refl t, fun _ h ↦ h⟩

theorem Shelters.trans (h : Shelters c t t') (h' : Shelters c t' u) : Shelters c t u :=
  ⟨h.1.trans h'.1, fun id sheltered ↦ h'.2 id (h.2 id sheltered)⟩

/-- What is remembered does not matter. -/
theorem Shelters.of_nodes (same : t'.nodes = t.nodes) : Shelters c t t' := by
  have found (id : MatchId) : t'.get? id = t.get? id := by rw [get?, same, get?]
  have later : Extends t t' := fun id node here ↦ ⟨node, (found id).trans here, rfl⟩
  refine ⟨later, fun id sheltered ↦ ⟨Sheltered c t, fun other inside ↦ ?_, sheltered⟩⟩
  obtain ⟨node, here, housed⟩ := closed_sheltered c t other inside
  exact ⟨node, (found other).trans here, housed.mono later fun _ h ↦ h⟩

/-! ### Appending -/

/-- The match is sheltered, or one of those that are appended. -/
def Beside (c : Catalog) (t : Matchings) (nodes : Array MatchNode) (id : MatchId) : Prop :=
  Sheltered c t id ∨ t.nodes.size ≤ id.index ∧ id.index < t.nodes.size + nodes.size

/-- Matches can be appended that lead to sheltered matches and to each other. -/
theorem closed_append {nodes : Array MatchNode} (each : ∀ (k : Nat) (node : MatchNode),
    nodes[k]? = some node → Housed c (t.append nodes) (Beside c t nodes) node) :
    Closed c (t.append nodes) (Beside c t nodes) := by
  rintro id (old | ⟨behind, before⟩)
  · obtain ⟨node, found, housed⟩ := closed_sheltered c t id old
    refine ⟨node, ?_, housed.mono (extends_append nodes) fun _ ↦ Or.inl⟩
    rw [get?_append, if_pos (index_lt_of_get found)]
    exact found
  · have inside : id.index - t.nodes.size < nodes.size := by omega
    have here : nodes[id.index - t.nodes.size]? = some nodes[id.index - t.nodes.size] :=
      Array.getElem?_eq_getElem inside
    refine ⟨_, ?_, each _ _ here⟩
    rw [get?_append, if_neg (Nat.not_lt.mpr behind)]
    exact here

theorem shelters_append {nodes : Array MatchNode}
    (closed : Closed c (t.append nodes) (Beside c t nodes)) : Shelters c t (t.append nodes) :=
  ⟨extends_append nodes, fun _ sheltered ↦ ⟨_, closed, Or.inl sheltered⟩⟩

/-- A match can be appended that leads to sheltered matches. -/
theorem shelters_push (housed : Housed c t (Sheltered c t) node) :
    Shelters c t (t.push node) ∧ Sheltered c (t.push node) ⟨t.nodes.size⟩ := by
  have same : t.push node = t.append #[node] := by
    unfold Matchings.push append
    rw [Array.push_eq_append]
  have closed : Closed c (t.append #[node]) (Beside c t #[node]) := by
    refine closed_append fun k other found ↦ ?_
    obtain ⟨inside, rfl⟩ := Array.getElem?_eq_some_iff.mp found
    have first : k = 0 := by simpa using inside
    subst first
    exact housed.mono (extends_append _) fun _ ↦ Or.inl
  rw [same]
  exact ⟨shelters_append closed, _, closed, Or.inr ⟨Nat.le_refl _, by simp⟩⟩

/-! ### Ties -/

/-- The chain behind a sheltered match is sheltered, and cognate with it. -/
theorem cognate_of_alternative (sheltered : Sheltered c t head) (found : t.get? head = some node)
    (inside : id ∈ t.alternatives head) :
    Sheltered c t id ∧ ∃ other, t.get? id = some other ∧ c.Cognate node other := by
  have along (bound : Nat) : ∀ (passed : List MatchId) (cursor : Option MatchId),
      (∀ next ∈ cursor, Sheltered c t next ∧ ∃ other, t.get? next = some other ∧
        c.Cognate node other) → id ∈ t.chainFrom head bound passed cursor →
      Sheltered c t id ∧ ∃ other, t.get? id = some other ∧ c.Cognate node other := by
    induction bound with
    | zero =>
      intro passed cursor _ inside
      rw [chainFrom] at inside
      cases inside
    | succ bound ih =>
      intro passed cursor ahead inside
      cases cursor with
      | none =>
        rw [chainFrom] at inside
        cases inside
      | some next =>
        rw [chainFrom] at inside
        split_ifs at inside
        · cases inside
        obtain ⟨sheltered, other, here, cognate⟩ := ahead next rfl
        rcases List.mem_cons.mp inside with rfl | inside
        · exact ⟨sheltered, other, here, cognate⟩
        · refine ih _ _ (fun after isAfter ↦ ?_) inside
          unfold Matchings.next at isAfter
          rw [here] at isAfter
          obtain ⟨other', here', housed⟩ := closed_sheltered c t next sheltered
          rw [here] at here'
          cases here'
          obtain ⟨sheltered', last, there, cognate'⟩ := housed.tied after isAfter
          exact ⟨sheltered', last, there, cognate.trans cognate'⟩
  refine along _ _ _ (fun next isNext ↦ ?_) inside
  unfold Matchings.next at isNext
  rw [found] at isNext
  obtain ⟨node', found', housed⟩ := closed_sheltered c t head sheltered
  rw [found] at found'
  cases found'
  exact housed.tied next isNext

/-- So is the end of the chain. -/
theorem cognate_of_chainEnd {alternative last : MatchId} {room : Nat}
    (sheltered : Sheltered c t head) (found : t.get? head = some node)
    (ends : t.chainEnd alternative room head = some last) :
    ∃ other, t.get? last = some other ∧ c.Cognate node other := by
  induction room generalizing head node with
  | zero => cases ends
  | succ room ih =>
    obtain ⟨node', found', housed⟩ := closed_sheltered c t head sheltered
    rw [found] at found'
    cases found'
    rw [chainEnd, found] at ends
    split_ifs at ends
    dsimp only at ends
    split at ends
    · obtain rfl := Option.some.inj ends
      exact ⟨node, found, housed.cognate⟩
    · rename_i next tied
      obtain ⟨sheltered', other, there, cognate⟩ := housed.tied next tied
      obtain ⟨other', there', cognate'⟩ := ih sheltered' there ends
      exact ⟨other', there', cognate.trans cognate'⟩

/-- A sheltered match can be tied behind one that it is cognate with. -/
theorem shelters_tie {alternative last : MatchId} (metrics : Metrics) (journal : List Event)
    (sheltered : Sheltered c t alternative) (found : t.get? alternative = some node)
    (there : t.get? last = some node') (cognate : c.Cognate node' node) :
    Shelters c t { t with
      nodes := t.nodes.modify last.index fun node ↦ { node with tiedWith := some alternative }
      metrics, journal } := by
  have later := (still_tie last alternative metrics journal).nodes (t := t)
  refine ⟨later, fun id inside ↦ ⟨Sheltered c t, fun other kept ↦ ?_, inside⟩⟩
  obtain ⟨source, here, housed⟩ := closed_sheltered c t other kept
  have moved := housed.mono later fun _ h ↦ h
  by_cases same : last = other
  · subst same
    rw [here] at there
    cases there
    refine ⟨{ node' with tiedWith := some alternative }, ?_, moved.left, moved.right, moved.parts,
      fun tie isTie ↦ ?_⟩
    · unfold get? at here ⊢
      simp [Array.getElem?_modify, here]
    · obtain rfl := Option.mem_some_iff.mp isTie
      obtain ⟨next, found', same⟩ := later alternative node found
      obtain ⟨left, right⟩ := MatchNode.sides_of_untied same
      unfold Catalog.Cognate at cognate
      rw [← left, ← right] at cognate
      exact ⟨sheltered, next, found', cognate⟩
  · refine ⟨source, ?_, moved⟩
    have apart : last.index ≠ other.index := fun equal ↦ same (congrArg MatchId.mk equal)
    unfold get? at here ⊢
    simp [Array.getElem?_modify, apart, here]

/-! ### Copies -/

/-- The sides of the nodes are the same, or exchanged. -/
def Facing (node node' : MatchNode) : Prop :=
  (node'.left = node.left ∧ node'.right = node.right) ∨
    (node'.left = node.right ∧ node'.right = node.left)

/-- The other match is of the same sorts, and it is sheltered or a copy. -/
def Turned (c : Catalog) (t : Matchings) (s : Copies) (id id' : MatchId) : Prop :=
  Beside c t s.nodes id' ∧ ∃ node node', t.get? id = some node ∧
    (t.append s.nodes).get? id' = some node' ∧ Facing node node'

/-- The copies lead to sheltered matches and to each other, and each is of the sorts of the match
that it is a copy of. -/
structure Tidy (c : Catalog) (t : Matchings) (s : Copies) : Prop where
  nodes : ∀ {k : Nat} {node : MatchNode}, s.nodes[k]? = some node →
    Housed c (t.append s.nodes) (Beside c t s.nodes) node
  done : ∀ {i : Nat} {id' : MatchId}, s.done[i]? = some id' → Turned c t s ⟨i⟩ id'

variable {s s' s'' : Copies}

theorem Beside.push {nodes : Array MatchNode} (h : Beside c t nodes id) (new : MatchNode) :
    Beside c t (nodes.push new) id := by
  rcases h with old | ⟨behind, before⟩
  · exact Or.inl old
  · exact Or.inr ⟨behind, by rw [Array.size_push]; omega⟩

/-- More copies were added. -/
inductive More : Copies → Copies → Prop where
  | refl (s : Copies) : More s s
  | push {s s' : Copies} (h : More s s') (new : MatchNode) (done : Std.ExtTreeMap Nat MatchId) :
    More s ⟨s'.nodes.push new, done⟩

theorem More.trans (h : More s s') (h' : More s' s'') : More s s'' := by
  induction h' with
  | refl => exact h
  | push _ new done ih => exact .push ih new done

theorem Turned.later (h : Turned c t s id id') (more : More s s') : Turned c t s' id id' := by
  induction more with
  | refl => exact h
  | push _ new done ih =>
    obtain ⟨beside, node, node', found, found', facing⟩ := ih
    exact ⟨beside.push new, node, node', found, get?_append_push found' new, facing⟩

/-- A node that is cognate with a sheltered one, and whose links are turned, can be a copy. -/
theorem Housed.turned (rested : c.Rested) (suited : Suited categories c)
    (h : Housed c t (Sheltered c t) node) (cognate : c.Cognate node node')
    (parts : List.Forall₂ (Turned c t s) node.parts node'.parts)
    (tie : Option.Rel (Turned c t s) node.tiedWith node'.tiedWith) :
    Housed c (t.append s.nodes) (Beside c t s.nodes) node' := by
  refine ⟨?_, ?_, fun part inside ↦ ?_, fun next isTie ↦ ?_⟩
  · rcases cognate with ⟨left, -⟩ | ⟨-, right⟩
    · exact left.live
    · exact right.live
  · rcases cognate with ⟨-, right⟩ | ⟨left, -⟩
    · exact right.live
    · exact left.live
  · obtain ⟨before, among, beside, source, copy, found, found', facing⟩ :=
      exists_of_forall₂ parts inside
    obtain ⟨-, source', found'', left, right⟩ := h.parts before among
    rw [found] at found''
    cases found''
    refine ⟨beside, copy, found', ?_⟩
    rcases facing with ⟨sameLeft, sameRight⟩ | ⟨sameLeft, sameRight⟩ <;> rw [sameLeft, sameRight]
    · exact ⟨left.transport rested suited cognate, right.transport rested suited cognate⟩
    · exact ⟨right.transport rested suited cognate, left.transport rested suited cognate⟩
  · generalize same : node.tiedWith = old at tie
    rw [Option.mem_def.mp isTie] at tie
    cases tie with
    | some turned =>
      obtain ⟨beside, source, copy, found, found', facing⟩ := turned
      obtain ⟨-, source', found'', cognate'⟩ := h.tied _ same
      rw [found] at found''
      cases found''
      refine ⟨beside, copy, found', (cognate.symm.trans cognate').trans ?_⟩
      have live : c.Live source.left ∧ c.Live source.right := by
        rcases cognate' with ⟨left, right⟩ | ⟨left, right⟩
        · exact ⟨left.live, right.live⟩
        · exact ⟨right.live, left.live⟩
      unfold Catalog.Cognate
      rcases facing with ⟨sameLeft, sameRight⟩ | ⟨sameLeft, sameRight⟩ <;> rw [sameLeft, sameRight]
      · exact Or.inl ⟨.refl live.1, .refl live.2⟩
      · exact Or.inr ⟨.refl live.1, .refl live.2⟩

/-- A copy is added. -/
theorem Tidy.push (h : Tidy c t s) (housed : Housed c (t.append s.nodes)
    (Beside c t s.nodes) node) :
    Tidy c t { s with nodes := s.nodes.push node } := by
  have later : Extends (t.append s.nodes) (t.append (s.nodes.push node)) :=
    fun _ other found ↦ ⟨other, get?_append_push found node, rfl⟩
  refine ⟨fun {k other} found ↦ ?_, fun entry ↦ (h.done entry).later (.push (.refl s) node s.done)⟩
  rw [Array.getElem?_push] at found
  split_ifs at found
  · cases found
    exact housed.mono later fun _ beside ↦ beside.push _
  · exact (h.nodes found).mono later fun _ beside ↦ beside.push _

/-- The copy of a match is entered. -/
theorem Tidy.enter (h : Tidy c t s) {reversal : MatchId} (turned : Turned c t s id reversal) :
    Tidy c t { s with done := s.done.insert id.index reversal } := by
  refine ⟨h.nodes, fun {i id'} entry ↦ ?_⟩
  change (s.done.insert id.index reversal)[i]? = some id' at entry
  rw [Std.ExtTreeMap.getElem?_insert] at entry
  split_ifs at entry with same
  · rw [Std.LawfulEqCmp.compare_eq_iff_eq] at same
    subst same
    cases entry
    exact turned
  · exact h.done entry

/-- What a sheltered match leads to is turned. -/
theorem ends_links_turned {γ : Type} {work : MatchId → Copying MatchId}
    {rest : List MatchId → Option MatchId → Copying γ} {post : γ → Copies → Prop}
    (tidy : Tidy c t s) (each : ∀ link ∈ node.links, ∀ s, Tidy c t s → Ends (work link) s
      (fun link' s' ↦ Tidy c t s' ∧ More s s' ∧ Turned c t s' link link') fun _ ↦ False)
    (done : ∀ parts tie s', Tidy c t s' → More s s' →
      List.Forall₂ (Turned c t s') node.parts parts → Option.Rel (Turned c t s') node.tiedWith tie →
        Ends (rest parts tie) s' post fun _ ↦ False) :
    Ends (do
      let parts ← node.parts.mapM work
      let tie ← node.tiedWith.mapM work
      rest parts tie) s post fun _ ↦ False := by
  refine Ends.bind ((Ends.mapM (fun before answers s' ↦ Tidy c t s' ∧ More s s' ∧
    List.Forall₂ (Turned c t s') before answers) node.parts ⟨tidy, .refl s, .nil⟩ ?_).mono
    (fun parts s₁ made ↦ ?_) fun _ failed ↦ failed)
  · rintro part among before answers s' ⟨tidy', more, turned⟩
    refine (each part (List.mem_append_left _ among) s' tidy').mono
      (fun id' s'' made ↦ ⟨made.1, more.trans made.2.1, ?_⟩) fun _ failed ↦ failed
    exact List.rel_append (turned.imp fun _ _ turned ↦ turned.later made.2.1) (.cons made.2.2 .nil)
  · obtain ⟨tidy₁, more₁, turned⟩ := made
    cases tied : node.tiedWith with
    | none =>
      refine Ends.bind (Ends.pure (done parts none s₁ tidy₁ more₁ turned ?_))
      rw [tied]
      exact .none
    | some next =>
      refine Ends.bind (Ends.bind ((each next (MatchNode.mem_links_of_tied tied) s₁ tidy₁).mono
        (fun next' s₂ made ↦ ?_) fun _ failed ↦ failed))
      obtain ⟨tidy₂, more₂, turns⟩ := made
      refine Ends.pure (done parts (some next') s₂ tidy₂ (more₁.trans more₂)
        (turned.imp fun _ _ turned ↦ turned.later more₂) ?_)
      rw [tied]
      exact .some turns

/-- Links of sheltered matches are sheltered. -/
theorem Housed.link (h : Housed c t within node) {link : MatchId} (linked : link ∈ node.links) :
    within link := by
  rcases List.mem_append.mp linked with part | tie
  · exact (h.parts link part).1
  · exact (h.tied link (Option.mem_toList.mp tie)).1

/-- A sheltered match is copied with all it leads to. -/
theorem ends_copy_turned (rested : c.Rested) (suited : Suited categories c) (t : Matchings)
    (underWay : List Nat) (id : MatchId) (s : Copies) (sheltered : Sheltered c t id)
    (tidy : Tidy c t s) : Ends (t.copy underWay id) s
      (fun id' s' ↦ Tidy c t s' ∧ More s s' ∧ Turned c t s' id id') fun _ ↦ False := by
  obtain ⟨node, found, housed⟩ := closed_sheltered c t id sheltered
  have inside := index_lt_of_get found
  have here : t.nodes[id.index] = node := (Array.getElem?_eq_some_iff.mp found).2
  have itself : Turned c t s id id := by
    refine ⟨Or.inl sheltered, node, node, found, ?_, Or.inl ⟨rfl, rfl⟩⟩
    rw [get?_append, if_pos inside]
    exact found
  rw [copy]
  refine Ends.bind (Ends.get ?_)
  split
  · rename_i known entry
    exact Ends.pure ⟨tidy, .refl s, tidy.done entry⟩
  rw [dif_pos inside]
  dsimp only
  rw [here]
  split_ifs with same busy
  · exact Ends.pure ⟨tidy, .refl s, itself⟩
  · exact Ends.pure ⟨tidy, .refl s, itself⟩
  have links (link : MatchId) (linked : link ∈ node.links) (s : Copies) (tidy : Tidy c t s) :=
    ends_copy_turned rested suited t (id.index :: underWay) link s (housed.link linked) tidy
  refine ends_links_turned tidy links fun parts tie s' tidy' more turnedParts turnedTie ↦ ?_
  have copied : Housed c (t.append s'.nodes) (Beside c t s'.nodes)
      (node.mirrored node.right node.left parts tie) := housed.turned rested suited
    (Or.inr ⟨.refl housed.left, .refl housed.right⟩) turnedParts turnedTie
  have turned : Turned c t
      ⟨s'.nodes.push (node.mirrored node.right node.left parts tie), s'.done⟩ id
      ⟨t.nodes.size + s'.nodes.size⟩ :=
    ⟨Or.inr ⟨Nat.le_add_right _ _, by simp⟩, node, _, found, get?_append_push_size _ _,
      Or.inr ⟨rfl, rfl⟩⟩
  exact Ends.bind (ends_addCopy (Ends.bind (Ends.modify (Ends.pure
    ⟨(tidy'.push copied).enter turned, more.push _ _, turned⟩))))
termination_by (unvisited (List.range t.nodes.size) underWay).length
decreasing_by exact length_unvisited_cons_lt (List.mem_range.2 ‹_›) ‹_›

end Matchings

/-- The reversal of a sheltered match is sheltered, if it goes by sorts that display as those of the
match do. -/
theorem shelters_reverse (rested : c.Rested) (suited : Suited categories c)
    (sheltered : Sheltered c t id) (found : t.get? id = some node)
    (isLeft : c.SameDisplay node.right left) (isRight : c.SameDisplay node.left right) :
    Ends (reverse id left right) t
      (fun reversal t' ↦ Quiet t t' ∧ Shelters c t t' ∧ Sheltered c t' reversal ∧
        Labelled left right t' reversal) fun _ ↦ False := by
  obtain ⟨node', found', housed⟩ := closed_sheltered c t id sheltered
  rw [found] at found'
  cases found'
  have inside := index_lt_of_get found
  have here : t.nodes[id.index] = node := (Array.getElem?_eq_some_iff.mp found).2
  have tidy : Tidy c t ⟨#[], ∅⟩ := ⟨fun entry ↦ by simp at entry, fun entry ↦ by simp at entry⟩
  have copied : Ends (t.copies id left right) ⟨#[], ∅⟩ (fun reversal copies ↦
      Shelters c t (t.append copies.nodes) ∧ Sheltered c (t.append copies.nodes) reversal ∧
        Labelled left right (t.append copies.nodes) reversal) fun _ ↦ False := by
    unfold copies
    rw [dif_pos inside]
    dsimp only
    rw [here]
    refine ends_links_turned tidy (fun link linked s tidy ↦
      ends_copy_turned rested suited t [id.index] link s (housed.link linked) tidy)
      fun parts tie s tidy _ turnedParts turnedTie ↦ ends_addCopy ?_
    have top : Housed c (t.append s.nodes) (Beside c t s.nodes)
        (node.mirrored left right parts tie) := housed.turned rested suited
      (Or.inr ⟨isRight, isLeft⟩) turnedParts turnedTie
    have closed := closed_append fun k other found ↦ (tidy.push top).nodes found
    exact ⟨shelters_append closed, ⟨_, closed, Or.inr ⟨Nat.le_add_right _ _, by simp⟩⟩, _,
      get?_append_push_size _ _, rfl, rfl⟩
  unfold Ends at copied ⊢
  unfold reverse
  cases run : t.copies id left right ⟨#[], ∅⟩ with
  | ok reversal copies =>
    rw [run] at copied
    exact ⟨quiet_append copies.nodes, copied⟩
  | error reason copies =>
    rw [run] at copied
    exact copied

end CompositeSorts
