import CompositeSorts.Proofs.Matching.Chains

/-!
Choices in a table. The candidates of a choice are loose matches of the same scale (`Drafts`).
Choosing ties some of them behind the best one, into one chain that is no longer than it may be;
what they say stays the same, the table stays orderly, and no other match is touched
(`ends_choose_tied`). The match that is chosen shows the best of the findings that the candidates
show (`ends_choose_finding`).
-/

set_option autoImplicit false
set_option relaxedAutoImplicit false

namespace CompositeSorts

open Matchings

variable {c : Catalog} {t u v : Matchings} {id alternative last : MatchId} {memory : Memory}
  {node : MatchNode} {config : Configuration} {standing : Standing} {ids rest : List MatchId}
  {findings : List Finding} {chained ties : List MatchId} {best : MatchId} {scale : Counter}

namespace Matchings

/-- Loose matches of one scale, and of different sorts each. -/
structure Drafts (t : Matchings) (scale : Counter) (ids : List MatchId) : Prop where
  loose : ∀ id ∈ ids, t.Loose id
  distinct : ids.Nodup
  alike : ∀ {id : MatchId} {node : MatchNode}, id ∈ ids → t.get? id = some node →
    node.left ≠ node.right ∧ node.scale = scale

/-- Loose matches of one scale, made since `u`, that show the findings. -/
structure Candidates (u t : Matchings) (scale : Counter) (ids : List MatchId)
    (findings : List Finding) :
    Prop where
  shown : List.Forall₂ t.Shows ids findings
  loose : ∀ id ∈ ids, t.Loose id
  new : ∀ id ∈ ids, u.get? id = none
  distinct : ids.Nodup
  alike : ∀ finding ∈ findings, finding.node.left ≠ finding.node.right ∧ finding.node.scale = scale

theorem Candidates.drafts (h : Candidates u t scale ids findings) : Drafts t scale ids where
  loose := h.loose
  distinct := h.distinct
  alike {id node} inside found := by
    obtain ⟨finding, among, shows⟩ := exists_of_forall₂ h.shown.flip inside
    obtain ⟨node', found', alone, -⟩ := shows_iff.mp shows
    rw [found] at found'
    cases found'
    have alike := h.alike finding among
    rw [← alone] at alike
    exact alike

/-- The table with a tie behind a match. -/
def tie (t : Matchings) (last alternative : MatchId) : Matchings :=
  { t with nodes := t.nodes.modify last.index fun node ↦
    { node with tiedWith := some alternative } }

theorem get?_tie (found : t.get? last = some node) (id : MatchId) :
    (t.tie last alternative).get? id =
    if id = last then some { node with tiedWith := some alternative } else t.get? id := by
  unfold get? tie at *
  rw [Array.getElem?_modify]
  by_cases same : last.index = id.index
  · have equal : id = last := congrArg MatchId.mk same.symm
    subst equal
    rw [if_pos rfl, if_pos rfl, found]
    rfl
  · rw [if_neg same, if_neg fun equal : id = last ↦ same (equal ▸ rfl)]

theorem quiet_tie (last alternative : MatchId) : Quiet t (t.tie last alternative) :=
  ⟨rfl, rfl, rfl, extends_tie last alternative⟩

/-- Links lead where they led, and from the one match to the other. -/
theorem links_tie {link : MatchId} {node' : MatchNode} (found : t.get? last = some node)
    (here : (t.tie last alternative).get? id = some node') (linked : link ∈ node'.links) :
    id = last ∧ link = alternative ∨ ∃ before, t.get? id = some before ∧ link ∈ before.links := by
  rw [get?_tie found] at here
  split_ifs at here with same
  · cases here
    subst same
    rcases List.mem_append.mp linked with part | tied
    · exact Or.inr ⟨node, found, List.mem_append_left _ part⟩
    · exact Or.inl ⟨rfl, List.mem_singleton.mp tied⟩
  · exact Or.inr ⟨node', here, linked⟩

theorem held_tie (found : t.get? last = some node) (held : (t.tie last alternative).Held id) :
    t.Held id ∨ id = alternative := by
  rcases (held_quiet (quiet_tie last alternative)).mp held with memo | identity | sentinel | link
  · exact Or.inl (Or.inl memo)
  · exact Or.inl (Or.inr (Or.inl identity))
  · exact Or.inl (Or.inr (Or.inr (Or.inl sentinel)))
  · obtain ⟨other, node', there, linked⟩ := link
    rcases links_tie found there linked with ⟨-, same⟩ | ⟨before, there', linked'⟩
    · exact Or.inr same
    · exact Or.inl (Or.inr (Or.inr (Or.inr ⟨other, before, there', linked'⟩)))

theorem Loose.tie (h : t.Loose id) (found : t.get? last = some node) (notLast : id ≠ last)
    (notAlternative : id ≠ alternative) : (t.tie last alternative).Loose id := by
  obtain ⟨⟨node', here, untied⟩, unheld⟩ := h
  refine ⟨⟨node', ?_, untied⟩, fun held ↦ ?_⟩
  · rw [get?_tie found, if_neg notLast]
    exact here
  · exact (held_tie found held).elim unheld notAlternative

/-- A tie keeps the table orderly when nothing outside of a set leads into it, the tie leads out of
the set, and the standings are equal: the set is ranked above the match it now leads to. -/
theorem Orderly.tie (h : t.Orderly) {alternativeNode : MatchNode} (found : t.get? last = some node)
    (foundAlternative : t.get? alternative = some alternativeNode)
    (equal : alternativeNode.standing = node.standing)
    (apart : alternativeNode.left ≠ alternativeNode.right)
    (led : ∀ {other link : MatchId} {node : MatchNode}, t.get? other = some node →
      link ∈ node.links → link ∈ chained → other ∈ chained)
    (inside : last ∈ chained) (outside : alternative ∉ chained) :
    (t.tie last alternative).Orderly := by
  have nodes : Extends t (t.tie last alternative) := extends_tie last alternative
  refine ⟨fun {id link node'} here linked ↦ ?_, fun {id next node' other} here tied there ↦ ?_, ?_⟩
  · have before : ∃ other, t.get? link = some other := by
      rcases links_tie found here linked with ⟨-, rfl⟩ | ⟨_, there, linked'⟩
      · exact ⟨_, foundAlternative⟩
      · exact h.inside there linked'
    obtain ⟨other, there⟩ := before
    obtain ⟨other', there', -⟩ := nodes _ _ there
    exact ⟨other', there'⟩
  · have same {before : MatchNode} (found : t.get? next = some before)
        (rest : before.standing = node'.standing ∧ before.left ≠ before.right) :
        other.standing = node'.standing ∧ other.left ≠ other.right := by
      obtain ⟨after, found', untied⟩ := nodes _ _ found
      rw [there] at found'
      cases found'
      obtain ⟨left, right⟩ := MatchNode.sides_of_untied untied
      rw [MatchNode.standing_of_untied untied, left, right]
      exact rest
    rw [get?_tie found] at here
    split_ifs at here with atLast
    · cases here
      obtain rfl := Option.some.inj tied
      exact same foundAlternative ⟨equal, apart⟩
    · obtain ⟨before, found'⟩ := h.inside here (MatchNode.mem_links_of_tied tied)
      exact same found' (h.tied here tied found')
  · obtain ⟨rank, ranked⟩ := h.ranked
    refine ⟨fun id ↦ if id ∈ chained then rank id + rank alternative + 1 else rank id,
      fun {id link node'} here linked ↦ ?_⟩
    dsimp only
    rcases links_tie found here linked with ⟨rfl, rfl⟩ | ⟨_, there, linked'⟩
    · rw [if_pos inside, if_neg outside]
      omega
    · have lower := ranked there linked'
      by_cases into : link ∈ chained
      · rw [if_pos into, if_pos (led there linked' into)]
        omega
      · rw [if_neg into]
        split_ifs <;> omega

/-- A match that nothing is tied behind is tied to the end of a chain. -/
theorem Chain.tie (h : t.Chain id ties) (found : t.get? last = some node)
    (untied : node.tiedWith = none) (inside : last ∈ id :: ties) (outside : alternative ∉ id :: ties)
    {alternativeNode : MatchNode} (foundAlternative : t.get? alternative = some alternativeNode)
    (alone : alternativeNode.tiedWith = none) :
    (t.tie last alternative).Chain id (ties ++ [alternative]) := by
  have kept {member : MatchId} (differ : member ≠ last) :
      (t.tie last alternative).get? member = t.get? member := by
    rw [get?_tie found, if_neg differ]
  induction h with
  | last found' _ =>
    obtain rfl := List.mem_singleton.mp inside
    have differ : alternative ≠ last := fun same ↦ outside (same ▸ List.mem_cons_self)
    refine .more (by rw [get?_tie found, if_pos rfl]) rfl (.last ?_ alone)
    exact (kept differ).trans foundAlternative
  | @more id next node' ties found' tied rest ih =>
    have differ : id ≠ last := by
      rintro rfl
      rw [found] at found'
      cases found'
      rw [untied] at tied
      cases tied
    refine .more ((kept differ).trans found') tied (ih ?_ fun among ↦ ?_)
    · exact (List.mem_cons.mp inside).resolve_left (Ne.symm differ)
    · exact outside (List.mem_cons_of_mem _ among)

/-! ### Ties -/

/-- Between two ties of a choice: `ties` are chained behind the best one and only these lead to each
other; those in `rest` still wait. -/
structure Tying (config : Configuration) (t v : Matchings) (standing : Standing)
    (ids rest : List MatchId) (best : MatchId) (ties : List MatchId) : Prop where
  quiet : Quiet t v
  orderly : v.Orderly
  others : ∀ id, t.Loose id → id ∉ ids → v.Loose id
  same : ∀ id, id ∉ best :: ties → v.get? id = t.get? id
  chain : v.Chain best ties
  short : ties.length ≤ config.maxAlternatives
  keeps : ties ≠ [] → config.keepAlternatives = true
  led : ∀ {other link : MatchId} {node : MatchNode}, v.get? other = some node →
    link ∈ node.links → link ∈ best :: ties → other ∈ best :: ties
  equal : ∀ {id : MatchId}, id ∈ best :: ties → id ∈ ids ∧
    ∀ node, v.get? id = some node → node.standing = standing
  waiting : ∀ id ∈ rest, id ≠ best → v.Loose id ∧ id ∉ best :: ties

theorem Tying.start (orderly : t.Orderly) (loose : ∀ id ∈ ids, t.Loose id) (inside : best ∈ ids)
    (found : t.get? best = some node) : Tying config t t node.standing ids ids best [] where
  quiet := Quiet.refl t
  orderly := orderly
  others _ before _ := before
  same _ _ := rfl
  chain := by
    obtain ⟨⟨node', here, untied⟩, -⟩ := loose _ inside
    exact .last here untied
  short := Nat.zero_le _
  keeps tied := absurd rfl tied
  led {other link node'} there linked among := by
    obtain rfl := List.mem_singleton.mp among
    exact absurd (Or.inr (Or.inr (Or.inr ⟨other, node', there, linked⟩))) (loose _ inside).2
  equal among := by
    obtain rfl := List.mem_singleton.mp among
    refine ⟨inside, fun node' here ↦ ?_⟩
    rw [found] at here
    cases here
    rfl
  waiting id waits differ := ⟨loose id waits, fun among ↦ differ (List.mem_singleton.mp among)⟩

theorem Tying.skip (h : Tying config t v standing ids (alternative :: rest) best ties) :
    Tying config t v standing ids rest best ties :=
  { h with waiting := fun id waits ↦ h.waiting id (List.mem_cons_of_mem _ waits) }

/-- A match of the same standing is tied to the end of the chain. -/
theorem Tying.tie (h : Tying config t v standing ids (alternative :: rest) best ties)
    (differ : alternative ≠ best) (distinct : alternative ∉ rest) (inside : alternative ∈ ids)
    {alternativeNode : MatchNode} (foundAlternative : v.get? alternative = some alternativeNode)
    (equal : alternativeNode.standing = standing)
    (apart : alternativeNode.left ≠ alternativeNode.right) (keeps : config.keepAlternatives = true)
    (ends : v.chainEnd alternative config.maxAlternatives best = some last) :
    Tying config t (v.tie last alternative) standing ids rest best (ties ++ [alternative]) := by
  obtain ⟨room, outside, lastChained, node, found, free⟩ := h.chain.end_spec ends
  obtain ⟨⟨⟨other, here, untied⟩, unheld⟩, -⟩ := h.waiting _ List.mem_cons_self differ
  rw [foundAlternative] at here
  cases here
  have quiet := quiet_tie (t := v) last alternative
  have among (id : MatchId) :
      id ∈ best :: (ties ++ [alternative]) ↔ id ∈ best :: ties ∨ id = alternative := by
    rw [← List.cons_append, List.mem_append, List.mem_singleton]
  refine ⟨h.quiet.trans quiet, ?_, ?_, ?_, ?_, ?_, fun _ ↦ keeps, ?_, ?_, ?_⟩
  · exact h.orderly.tie found foundAlternative
      (equal.trans ((h.equal lastChained).2 _ found).symm) apart h.led lastChained outside
  · intro id before notCandidate
    refine (h.others id before notCandidate).tie found ?_ fun same ↦ notCandidate (same ▸ inside)
    rintro rfl
    exact notCandidate (h.equal lastChained).1
  · intro id notChained
    rw [among, not_or] at notChained
    have notLast : id ≠ last := fun same ↦ notChained.1 (same ▸ lastChained)
    rw [get?_tie found, if_neg notLast]
    exact h.same id notChained.1
  · exact h.chain.tie found free lastChained outside foundAlternative untied
  · rw [List.length_append, List.length_singleton]
    exact room
  · intro other link node' there linked into
    rw [among] at into ⊢
    rcases links_tie found there linked with ⟨rfl, -⟩ | ⟨before, there', linked'⟩
    · exact Or.inl lastChained
    · rcases into with into | rfl
      · exact Or.inl (h.led there' linked' into)
      · exact absurd (Or.inr (Or.inr (Or.inr ⟨other, before, there', linked'⟩))) unheld
  · intro id into
    rw [among] at into
    have before : id ∈ ids ∧ ∀ node, v.get? id = some node → node.standing = standing := by
      rcases into with into | rfl
      · exact h.equal into
      · refine ⟨inside, fun node' here ↦ ?_⟩
        rw [foundAlternative] at here
        cases here
        exact equal
    refine ⟨before.1, fun node' here ↦ ?_⟩
    rw [get?_tie found] at here
    split_ifs at here with atLast
    · cases here
      exact before.2 node (atLast ▸ found)
    · exact before.2 node' here
  · intro id waits notBest
    obtain ⟨before, out⟩ := h.waiting id (List.mem_cons_of_mem _ waits) notBest
    have notAlternative : id ≠ alternative := fun same ↦ distinct (same ▸ waits)
    rw [among]
    refine ⟨before.tie found (fun same ↦ out (same ▸ lastChained)) notAlternative, ?_⟩
    rintro (into | same)
    · exact out into
    · exact notAlternative same

/-- What is counted and noted does not matter. -/
theorem Tying.count (h : Tying config t v standing ids rest best ties) (metrics : Metrics)
    (journal : List Event) :
    Tying config t { v with metrics := metrics, journal := journal } standing ids rest best ties where
  quiet := ⟨h.quiet.memo, h.quiet.identities, h.quiet.sentinels, h.quiet.nodes⟩
  orderly := ⟨h.orderly.inside, h.orderly.tied, h.orderly.ranked⟩
  others := h.others
  same := h.same
  chain := h.chain.kept fun _ _ ↦ rfl
  short := h.short
  keeps := h.keeps
  led := h.led
  equal := h.equal
  waiting := h.waiting

/-- The candidate is the match with its node. -/
def Reads (t : Matchings) (id : MatchId) (candidate : Matching.Candidate) : Prop :=
  candidate.1 = id ∧ t.get? id = some candidate.2

/-- The candidate is a match that shows the finding. -/
def Offers (t : Matchings) (candidate : Matching.Candidate) (finding : Finding) : Prop :=
  t.Shows candidate.1 finding ∧ t.get? candidate.1 = some candidate.2 ∧
    candidate.2.alone = finding.node

/-- The better candidate shows the better finding. -/
theorem Offers.better {a b : Matching.Candidate} {f g : Finding} (h : t.Offers a f)
    (h' : t.Offers b g) : t.Offers (Matching.better a b) (f.better g) := by
  have same : b.2.prefer a.2 = g.node.prefer f.node := by
    rw [← h.2.2, ← h'.2.2]
    exact MatchNode.prefer_congr (MatchNode.standing_alone _).symm (MatchNode.standing_alone _).symm
  unfold Matching.better Finding.better
  rw [same]
  split_ifs
  · exact h'
  · exact h

end Matchings

namespace Matching

/-- The candidates that are as good as the best are tied, one after the other. -/
theorem ends_ties (best : Candidate) (candidates : List Candidate) :
    ∀ v ties, Tying config t v best.2.standing ids (candidates.map Prod.fst) best.1 ties →
      (candidates.map Prod.fst).Nodup →
      (∀ candidate ∈ candidates, candidate.1 ∈ ids ∧ t.get? candidate.1 = some candidate.2 ∧
        candidate.2.left ≠ candidate.2.right ∧ candidate.2.scale = best.2.scale) →
      Ends (candidates.forM fun candidate ↦
        if candidate.1 ≠ best.1 ∧ candidate.2.prefer best.2 = .eq then
          chain config best.1 candidate.1
        else pure ()) v
      (fun _ v' ↦ ∃ ties', Tying config t v' best.2.standing ids [] best.1 ties') fun _ ↦ False := by
  induction candidates with
  | nil => exact fun v ties tying _ _ ↦ Ends.pure ⟨ties, tying⟩
  | cons candidate candidates ih =>
    intro v ties tying distinct each
    obtain ⟨new, distinct⟩ := List.nodup_cons.mp distinct
    obtain ⟨inside, found, apart, scale⟩ := each candidate List.mem_cons_self
    have rest (v : Matchings) (ties : List MatchId)
        (tying : Tying config t v best.2.standing ids (candidates.map Prod.fst) best.1 ties) :=
      ih v ties tying distinct fun other among ↦ each other (List.mem_cons_of_mem _ among)
    refine Ends.bind ?_
    dsimp only
    split_ifs with tied
    · refine ends_chain_kept (rest v ties tying.skip) fun keeps last ends ↦ ?_
      obtain ⟨node', here, same⟩ := tying.quiet.nodes _ _ found
      obtain ⟨left, right⟩ := MatchNode.sides_of_untied same
      have equal := MatchNode.standing_eq_of_prefer tied.2 scale
      have next := tying.tie tied.1 new inside here
        ((MatchNode.standing_of_untied same).trans equal)
        (left ▸ right ▸ apart) keeps ends
      exact rest _ _ (next.count _ _)
    · exact Ends.pure (rest v ties tying.skip)

/-- The nodes of matches that are there are read. -/
theorem ends_read (there : ∀ id ∈ ids, ∃ node, t.get? id = some node) :
    Ends (ids.mapM fun id ↦ return (id, ← nodeOf id)) t
      (fun candidates t' ↦ t' = t ∧ List.Forall₂ t.Reads ids candidates) fun _ ↦ False := by
  refine Ends.mapM (fun before candidates t' ↦ t' = t ∧ List.Forall₂ t.Reads before candidates) ids
    ⟨rfl, .nil⟩ ?_
  rintro id inside before candidates _ ⟨rfl, read⟩
  obtain ⟨node, found⟩ := there id inside
  refine Ends.bind (ends_found found (Ends.pure ⟨rfl, ?_⟩))
  exact List.rel_append read (.cons ⟨rfl, found⟩ .nil)

/-- Choosing from loose candidates answers the best one. Unless it is incongruous, those that are as
good are tied behind it. -/
theorem ends_choose_tied (orderly : t.Orderly) (drafts : Drafts t scale ids) :
    Ends (choose config ids) t (fun best t' ↦ ∃ candidates, List.Forall₂ t.Reads ids candidates ∧
      (candidates = [] ∧ best = none ∧ t' = t ∨ ∃ first others, candidates = first :: others ∧
        best = some (others.foldl better first).1 ∧ (t' = t ∨
          (others.foldl better first).2.incongruous = false ∧ ∃ ties, Tying config t t'
            (others.foldl better first).2.standing ids [] (others.foldl better first).1 ties)))
      fun _ ↦ False := by
  have there : ∀ id ∈ ids, ∃ node, t.get? id = some node := fun id inside ↦
    (drafts.loose id inside).1.imp fun _ found ↦ found.1
  refine Ends.bind ((ends_read there).mono (fun read t₁ made ↦ ?_) fun _ failed ↦ failed)
  obtain ⟨equal, reads⟩ := made
  subst t₁
  have same : read.map Prod.fst = ids := by
    have all : List.Forall₂ Eq ids (read.map Prod.fst) :=
      List.forall₂_map_right_iff.mpr (reads.imp fun _ _ here ↦ here.1.symm)
    rw [List.forall₂_eq_eq_eq] at all
    exact all.symm
  have alike : ∀ candidate ∈ read, candidate.1 ∈ ids ∧ t.get? candidate.1 = some candidate.2 ∧
      candidate.2.left ≠ candidate.2.right ∧ candidate.2.scale = scale := by
    intro candidate among
    obtain ⟨_, inside, rfl, found⟩ := exists_of_forall₂ reads among
    exact ⟨inside, found, drafts.alike inside found⟩
  cases read with
  | nil => exact Ends.pure ⟨[], reads, Or.inl ⟨rfl, rfl, rfl⟩⟩
  | cons first others =>
    obtain ⟨inside, found, -, scaled⟩ := alike _ (foldl_better_mem first others)
    dsimp only
    split_ifs with congruous
    · have start : Tying config t t _ ids ids _ [] :=
        Tying.start orderly drafts.loose inside found
      rw [← same] at start
      refine Ends.bind ((ends_ties (others.foldl better first) (first :: others) t [] start
        (same ▸ drafts.distinct) fun candidate among ↦ ?_).mono (fun _ v tied ↦ ?_)
          fun _ failed ↦ failed)
      · obtain ⟨among', found, apart, scale'⟩ := alike candidate among
        exact ⟨same ▸ among', found, apart, scale'.trans scaled.symm⟩
      · rw [same] at tied
        exact Ends.pure ⟨_, reads, Or.inr ⟨first, others, rfl, rfl,
          Or.inr ⟨by simpa using congruous, tied⟩⟩⟩
    · exact Ends.pure ⟨_, reads, Or.inr ⟨first, others, rfl, rfl, Or.inl rfl⟩⟩

/-- Choosing from loose candidates answers one that shows the best finding. -/
theorem ends_choose_finding (h : t.Renders c memory) (grows : Grows u t)
    (candidates : Candidates u t scale ids findings) :
    Ends (choose config ids) t (fun best t' ↦ t'.Renders c memory ∧ Grows u t' ∧ Extends t t' ∧
      Option.Rel t'.Shows best (Finding.choose findings) ∧ ∀ id, best = some id → u.get? id = none)
      fun _ ↦ False := by
  refine (ends_choose_tied h.orderly candidates.drafts).mono (fun best t' made ↦ ?_)
    fun _ failed ↦ failed
  obtain ⟨read, reads, made⟩ := made
  have shown : List.Forall₂ t.Offers read findings := by
    refine forall₂_join reads candidates.shown fun finding _ id candidate here shows ↦ ?_
    obtain ⟨rfl, found⟩ := here
    obtain ⟨node, found', alone, -⟩ := shows_iff.mp shows
    rw [found] at found'
    cases found'
    exact ⟨shows, found, alone⟩
  rcases made with ⟨rfl, rfl, rfl⟩ | ⟨first, others, rfl, rfl, tied⟩
  · cases shown
    exact ⟨h, grows, Extends.refl _, .none, by simp⟩
  cases shown with
  | @cons _ finding _ findings offers rest =>
  have offered : t.Offers (others.foldl better first) (findings.foldl Finding.better finding) :=
    List.rel_foldl (fun _ _ h _ _ h' ↦ h.better h') offers rest
  have inside : (others.foldl better first).1 ∈ ids := by
    obtain ⟨_, among, rfl, -⟩ := exists_of_forall₂ reads (foldl_better_mem first others)
    exact among
  have new : ∀ id, some (others.foldl better first).1 = some id → u.get? id = none := fun id eq ↦
    Option.some.inj eq ▸ candidates.new _ inside
  rcases tied with rfl | ⟨-, ties, tying⟩
  · exact ⟨h, grows, Extends.refl _, .some offered.1, new⟩
  · refine ⟨h.quiet tying.quiet tying.orderly, ⟨grows.nodes.trans tying.quiet.nodes,
      fun id loose ↦ tying.others id (grows.loose id loose) fun among ↦ ?_⟩,
      tying.quiet.nodes, .some (offered.1.extend tying.quiet.nodes), new⟩
    obtain ⟨⟨node, found, -⟩, -⟩ := loose
    rw [candidates.new id among] at found
    cases found

end Matching

end CompositeSorts
