import CompositeSorts.Matching.Relate
import CompositeSorts.Proofs.Ends

/-!
The steps of matching. A rule reads matches, appends new ones and chains ties, and leaves what is
remembered alone; only the function that relates two sorts remembers anything. So nodes keep what
they say about their sorts for good, and only their ties change.
-/

set_option autoImplicit false
set_option relaxedAutoImplicit false

namespace CompositeSorts

variable {α β : Type} {t t' u : Matchings} {id : MatchId} {config : Configuration}
    {l r : SortRecord}

/-- A node without its tie. -/
def MatchNode.untied (node : MatchNode) : MatchNode := { node with tiedWith := none }

theorem MatchNode.sides_of_untied {node node' : MatchNode} (same : node'.untied = node.untied) :
    node'.left = node.left ∧ node'.right = node.right := by
  have left := congrArg MatchNode.left same
  have right := congrArg MatchNode.right same
  exact ⟨left, right⟩

/-- The copy of a node that is seen from the other side, with its own parts and ties. -/
def MatchNode.mirrored (node : MatchNode) (left right : SortId) (parts : List MatchId)
    (tiedWith : Option MatchId) : MatchNode :=
  { node.reversed with left, right, parts, tiedWith, sentinel := false }

namespace Matchings

/-- Appends several matches. -/
def append (t : Matchings) (nodes : Array MatchNode) : Matchings :=
  { t with nodes := t.nodes ++ nodes }

/-- No node is lost, and none changes but for its tie. -/
def Extends (t t' : Matchings) : Prop :=
  ∀ id node, t.get? id = some node → ∃ node', t'.get? id = some node' ∧ node'.untied = node.untied

/-- Nodes were appended or tied, and what is remembered is the same. -/
structure Quiet (t t' : Matchings) : Prop where
  memo : t'.memo = t.memo
  identities : t'.identities = t.identities
  sentinels : t'.sentinels = t.sentinels
  nodes : Extends t t'

/-- A quiet change that leaves the same pairs under way. -/
structure Still (t t' : Matchings) : Prop extends Quiet t t' where
  underWay : t'.underWay = t.underWay

theorem Extends.refl (t : Matchings) : Extends t t := fun _ node found ↦ ⟨node, found, rfl⟩

theorem Extends.trans (h : Extends t t') (h' : Extends t' u) : Extends t u := by
  intro id node found
  obtain ⟨node', found', same⟩ := h id node found
  obtain ⟨node'', found'', same'⟩ := h' id node' found'
  exact ⟨node'', found'', same'.trans same⟩

theorem Quiet.refl (t : Matchings) : Quiet t t := ⟨rfl, rfl, rfl, Extends.refl t⟩

theorem Quiet.trans (h : Quiet t t') (h' : Quiet t' u) : Quiet t u where
  memo := h'.memo.trans h.memo
  identities := h'.identities.trans h.identities
  sentinels := h'.sentinels.trans h.sentinels
  nodes := h.nodes.trans h'.nodes

theorem Still.refl (t : Matchings) : Still t t := ⟨Quiet.refl t, rfl⟩

/-- What is under way, counted and reported makes no other difference. -/
theorem quiet_aside (t : Matchings) (underWay : List PairKey) (metrics : Metrics)
    (journal : List Event) : Quiet t { t with underWay, metrics, journal } :=
  ⟨rfl, rfl, rfl, Extends.refl t⟩

theorem quiet_finish (t : Matchings) (key : PairKey) : Quiet t (t.finish key) :=
  quiet_aside t _ _ _

theorem extends_append (nodes : Array MatchNode) : Extends t (t.append nodes) := by
  intro id node found
  have inside : id.index < t.nodes.size := (Array.getElem?_eq_some_iff.mp found).1
  refine ⟨node, ?_, rfl⟩
  unfold get? append
  rw [Array.getElem?_append_left inside]
  exact found

theorem quiet_append (nodes : Array MatchNode) : Quiet t (t.append nodes) :=
  ⟨rfl, rfl, rfl, extends_append nodes⟩

theorem still_append (nodes : Array MatchNode) : Still t (t.append nodes) :=
  ⟨quiet_append nodes, rfl⟩

/-- The match appended last is found at the end. -/
theorem get?_append_push_size (nodes : Array MatchNode) (node : MatchNode) :
    (t.append (nodes.push node)).get? ⟨t.nodes.size + nodes.size⟩ = some node := by
  unfold get? append
  rw [Array.getElem?_append_right (Nat.le_add_right _ _), Nat.add_sub_cancel_left,
    Array.getElem?_push_size]

theorem get?_push_size (node : MatchNode) : (t.push node).get? ⟨t.nodes.size⟩ = some node := by
  unfold get? push
  exact Array.getElem?_push_size

theorem extends_push (node : MatchNode) : Extends t (t.push node) := by
  intro id old found
  have inside : id.index < t.nodes.size := (Array.getElem?_eq_some_iff.mp found).1
  refine ⟨old, ?_, rfl⟩
  unfold get? push
  rw [Array.getElem?_push_lt inside]
  exact (Array.getElem?_eq_getElem inside) ▸ found

theorem quiet_push (node : MatchNode) : Quiet t (t.push node) := ⟨rfl, rfl, rfl, extends_push node⟩

theorem still_push (node : MatchNode) : Still t (t.push node) := ⟨quiet_push node, rfl⟩

/-- Chaining one match behind another touches the tie of one node. -/
theorem extends_tie (last : MatchId) (alternative : MatchId) :
    Extends t { t with nodes := t.nodes.modify last.index fun node ↦
      { node with tiedWith := some alternative } } := by
  intro id node found
  unfold get? at found ⊢
  by_cases here : last.index = id.index
  · refine ⟨{ node with tiedWith := some alternative }, ?_, rfl⟩
    simp [Array.getElem?_modify, here, found]
  · refine ⟨node, ?_, rfl⟩
    simp [Array.getElem?_modify, here, found]

end Matchings

open Matchings

namespace Matching

variable {post : α → Matchings → Prop} {made : MatchId → Matchings → Prop}
  {done : Unit → Matchings → Prop} {fault : Matchings → Prop}

theorem ends_ask {answer : Except Refusal α} (refused : fault t)
    (answered : ∀ value, answer = .ok value → post value t) :
    Ends (ask answer) t post fault := by
  unfold Ends ask
  cases answer with
  | error reason => exact refused
  | ok value => exact answered value rfl

theorem ends_nodeOf {post : MatchNode → Matchings → Prop} (missing : fault t)
    (found : ∀ node, t.get? id = some node → post node t) : Ends (nodeOf id) t post fault := by
  refine Ends.bind (Ends.get ?_)
  split
  · exact Ends.pure (found _ ‹_›)
  · exact Ends.throw missing

/-- A match that is there is found. -/
theorem ends_found {node : MatchNode} {post : MatchNode → Matchings → Prop}
    (found : t.get? id = some node) (read : post node t) : Ends (nodeOf id) t post fault := by
  refine Ends.bind (Ends.get ?_)
  rw [found]
  exact Ends.pure read

theorem ends_push {node : MatchNode} (pushed : made ⟨t.nodes.size⟩ (t.push node)) :
    Ends (push node) t made fault := pushed

theorem ends_pushLike {inner : MatchId} {adjust : MatchNode → MatchNode} (missing : fault t)
    (pushed : ∀ source, t.get? inner = some source → made ⟨t.nodes.size⟩
      (t.push (adjust (node l r source.level.lifted source.grade source.tally
        (nontrivial t [inner]))))) :
    Ends (pushLike l r inner adjust) t made fault := by
  refine Ends.bind (ends_nodeOf missing fun source found ↦ ?_)
  refine Ends.bind (Ends.get ?_)
  exact ends_push (pushed source found)

/-- Chaining touches nothing but ties and what is counted, and these only where ties are kept. -/
theorem ends_chain_kept {head alternative : MatchId} (idle : done () t)
    (tied : config.keepAlternatives = true → ∀ last,
      t.chainEnd alternative config.maxAlternatives head = some last → done () ({ t with
        nodes := t.nodes.modify last.index fun node ↦ { node with tiedWith := some alternative }
        metrics := t.metrics.recordAlternative }.note (.tieRecorded head alternative))) :
    Ends (chain config head alternative) t done fault := by
  unfold chain
  split_ifs with keeps
  · refine Ends.modify ?_
    split
    · exact idle
    · exact tied keeps _ ‹_›
  · exact Ends.pure idle

/-- Chaining touches nothing but ties and what is counted. -/
theorem ends_chain {head alternative : MatchId} (idle : done () t)
    (tied : ∀ last, t.chainEnd alternative config.maxAlternatives head = some last →
      done () ({ t with
        nodes := t.nodes.modify last.index fun node ↦ { node with tiedWith := some alternative }
        metrics := t.metrics.recordAlternative }.note (.tieRecorded head alternative))) :
    Ends (chain config head alternative) t done fault :=
  ends_chain_kept idle fun _ ↦ tied

theorem still_tie (last alternative : MatchId) (metrics : Metrics) (journal : List Event) :
    Still t { t with
      nodes := t.nodes.modify last.index fun node ↦ { node with tiedWith := some alternative }
      metrics, journal } := ⟨⟨rfl, rfl, rfl, extends_tie last alternative⟩, rfl⟩

/-- A pair is under way while something is computed, and no longer when that has ended. -/
theorem ends_during {key : PairKey} {m : Matching α}
    (h : Ends m (t.begin key) (fun a t' ↦ post a (t'.finish key)) fun t' ↦ fault (t'.finish key)) :
    Ends (during key m) t post fault := by
  unfold Ends at h ⊢
  unfold during
  cases run : m (t.begin key) with
  | ok a t' =>
    rw [run] at h
    exact h
  | error reason t' =>
    rw [run] at h
    exact h

/-- A match is remembered, or there was one already, behind which it is chained. -/
theorem ends_remember {key : PairKey}
    (held : ∀ known, t.memo[key]? = some known → ∀ t', Still t t' → made known t')
    (new : t.memo[key]? = none → made id
      { t with memo := t.memo.insert key id, metrics := t.metrics.recordComputed }) :
    Ends (remember config key id) t made fault := by
  refine Ends.bind (Ends.get ?_)
  split
  · rename_i known entry
    split_ifs with other
    · refine Ends.bind (ends_chain ?_ fun last _ ↦ ?_)
      · exact Ends.pure (held known entry t (Still.refl t))
      · exact Ends.pure (held known entry _ (still_tie last id _ _))
    · exact Ends.pure (held known entry t (Still.refl t))
  · exact Ends.bind (Ends.modify (Ends.pure (new ‹_›)))

/-- The nodes of several matches are read in order. -/
theorem ends_candidates {ids : List MatchId} {post : List Candidate → Matchings → Prop}
    (missing : fault t)
    (found : ∀ candidates : List Candidate, candidates.map Prod.fst = ids →
      (∀ candidate ∈ candidates, t.get? candidate.1 = some candidate.2) → post candidates t) :
    Ends (ids.mapM fun id ↦ return (id, ← nodeOf id)) t post fault := by
  refine (Ends.mapM (fun before candidates t' ↦ t' = t ∧ candidates.map Prod.fst = before ∧
    ∀ candidate ∈ candidates, t.get? candidate.1 = some candidate.2) ids
    ⟨rfl, List.map_nil, by simp⟩ ?_).mono ?_ fun _ failed ↦ failed
  · rintro id - before candidates _ ⟨rfl, same, known⟩
    refine Ends.bind (ends_nodeOf missing fun node here ↦ ?_)
    refine Ends.pure ⟨rfl, by simp [same], fun candidate inside ↦ ?_⟩
    rcases List.mem_append.mp inside with inside | inside
    · exact known candidate inside
    · obtain rfl := List.mem_singleton.mp inside
      exact here
  · rintro candidates _ ⟨rfl, same, known⟩
    exact found candidates same known

theorem foldl_better_mem (first : Candidate) (others : List Candidate) :
    others.foldl better first ∈ first :: others := by
  induction others generalizing first with
  | nil => exact List.mem_cons_self
  | cons other others ih =>
    rw [List.foldl_cons]
    rcases List.mem_cons.mp (ih (better first other)) with best | later
    · rw [best]
      unfold better
      split_ifs
      · exact List.mem_cons_of_mem _ List.mem_cons_self
      · exact List.mem_cons_self
    · exact List.mem_cons_of_mem _ (List.mem_cons_of_mem _ later)

/-- Choosing answers one of the candidates, and chains ties to it. -/
theorem ends_choose {ids : List MatchId} {made : Option MatchId → Matchings → Prop}
    (inv : List Candidate → Candidate → Matchings → Prop) (missing : fault t)
    (empty : ids = [] → made none t)
    (start : ∀ first others, (first :: others).map Prod.fst = ids →
      (∀ candidate ∈ first :: others, t.get? candidate.1 = some candidate.2) →
      inv (first :: others) (others.foldl better first) t)
    (tie : ∀ candidates best, ∀ candidate ∈ candidates, candidate.1 ≠ best.1 →
      candidate.2.prefer best.2 = .eq → ∀ t', inv candidates best t' →
      Ends (chain config best.1 candidate.1) t' (fun _ t'' ↦ inv candidates best t'') fault)
    (chosen : ∀ first others t', (first :: others).map Prod.fst = ids →
      inv (first :: others) (others.foldl better first) t' →
      made (some (others.foldl better first).1) t') :
    Ends (choose config ids) t made fault := by
  refine Ends.bind (ends_candidates missing fun candidates same known ↦ ?_)
  cases candidates with
  | nil => exact Ends.pure (empty same.symm)
  | cons first others =>
    have begun := start first others same known
    dsimp only
    split_ifs with congruous
    · refine Ends.bind ((Ends.forM _ begun (first :: others) ?_).mono
        (fun _ t' reached ↦ ?_) fun _ failed ↦ failed)
      · intro candidate inside t' reached
        split_ifs with tied
        · exact tie _ _ candidate inside tied.1 tied.2 t' reached
        · exact Ends.pure reached
      · exact Ends.pure (chosen first others t' same reached)
    · exact Ends.pure (chosen first others t same begun)

/-- The last copy that a reversal makes is that of the match itself. -/
theorem ends_copies {left right : SortId} {s : Copies} :
    Ends (t.copies id left right) s (fun reversal copies ↦ ∃ node parts tiedWith,
      ∃ nodes : Array MatchNode, t.get? id = some node ∧
        copies.nodes = nodes.push (node.mirrored left right parts tiedWith) ∧
        reversal = ⟨t.nodes.size + nodes.size⟩) fun _ ↦ True := by
  have anything : ∀ {γ : Type} (m : Copying γ) (s : Copies),
      Ends m s (fun _ _ ↦ True) fun _ ↦ True := by
    intro γ m s
    unfold Ends
    split <;> trivial
  unfold copies
  split_ifs with inside
  · refine Ends.bind ((anything _ s).mono (fun parts s' _ ↦ ?_) fun _ _ ↦ trivial)
    refine Ends.bind ((anything _ s').mono (fun tiedWith s'' _ ↦ ?_) fun _ _ ↦ trivial)
    exact ⟨t.nodes[id.index], parts, tiedWith, s''.nodes,
      Array.getElem?_eq_getElem inside, rfl, rfl⟩
  · exact Ends.throw trivial

/-- Reversing appends copies, and answers the last one. -/
theorem ends_reverse {left right : SortId} (failed : ∀ nodes, fault (t.append nodes))
    (reversed : ∀ node parts tiedWith (nodes : Array MatchNode), t.get? id = some node →
      made ⟨t.nodes.size + nodes.size⟩
        (t.append (nodes.push (node.mirrored left right parts tiedWith)))) :
    Ends (reverse id left right) t made fault := by
  have copied : Ends (t.copies id left right) ⟨#[], ∅⟩ _ _ := ends_copies
  unfold Ends reverse
  cases run : t.copies id left right ⟨#[], ∅⟩ with
  | ok reversal copies =>
    obtain ⟨node, parts, tiedWith, nodes, found, eq, rfl⟩ := copied.of_ok run
    have appended := reversed node parts tiedWith nodes found
    rw [← eq] at appended
    exact appended
  | error reason copies => exact failed copies.nodes

/-- A match that is remembered is counted and answered. Otherwise it is computed while its pair is
under way, and remembered then. -/
theorem ends_consult_counted {key : PairKey} {m : Matching MatchId}
    (known : ∀ id, t.memo[key]? = some id →
      made id ({ t with metrics := t.metrics.recordHit }.note (.memoHit id)))
    (new : t.memo[key]? = none → Ends m ({ t with metrics := t.metrics.recordMiss }.begin key)
      (fun id t' ↦ Ends (remember config key id) (t'.finish key) made fault)
      fun t' ↦ fault (t'.finish key)) : Ends (consult config key m) t made fault := by
  refine Ends.bind (Ends.bind (Ends.get ?_))
  split
  · exact Ends.bind (Ends.modify (Ends.pure (Ends.pure (known _ ‹_›))))
  · exact Ends.bind (Ends.modify (Ends.pure (Ends.bind (ends_during (new ‹_›)))))

/-- Whatever is counted, a match that is remembered is answered, and otherwise it is computed. -/
theorem ends_consult {key : PairKey} {m : Matching MatchId}
    (known : ∀ id, t.memo[key]? = some id → ∀ metrics journal, made id { t with metrics, journal })
    (new : t.memo[key]? = none → Ends m ({ t with metrics := t.metrics.recordMiss }.begin key)
      (fun id t' ↦ Ends (remember config key id) (t'.finish key) made fault)
      fun t' ↦ fault (t'.finish key)) : Ends (consult config key m) t made fault :=
  ends_consult_counted (fun id entry ↦ known id entry _ _) new

/-- Live sorts are related by their displays. -/
theorem relate_of_found {c : Catalog} {underWay : List PairKey} {left right : SortId}
    (foundLeft : c.get left = .ok l) (foundRight : c.get right = .ok r) :
    relate c config underWay left right =
      if left = right then identity l
      else if (⟨l.display, r.display⟩ : PairKey) ∈ underWay then
        breakCycle ⟨l.display, r.display⟩ l r
      else consult config ⟨l.display, r.display⟩ (Rule.forVariants c config
        (relate c config (⟨l.display, r.display⟩ :: underWay)) l r) := by
  rw [relate]
  split
  · rename_i found
    rw [foundLeft] at found
    cases found
  · rename_i found
    rw [foundRight] at found
    cases found
  · rename_i foundLeft' foundRight'
    rw [foundLeft] at foundLeft'
    rw [foundRight] at foundRight'
    cases foundLeft'
    cases foundRight'
    rfl

end Matching

end CompositeSorts
