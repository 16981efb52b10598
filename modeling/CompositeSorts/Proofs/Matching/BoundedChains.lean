import CompositeSorts.Proofs.Matching.Choosing
import CompositeSorts.Proofs.Matching.Relating
import CompositeSorts.Proofs.Matching.ReversalCopies

/-!
Knit tables. A table is *knit* when it is orderly, what it remembers is there, chains are no longer
than they may be and hold nothing incongruous, and a match of a sort with itself says nothing more.
Whatever is done to a table keeps it knit: a match is appended (`Knit.push`), matches are tied by a
choice (`Tying.knit`), copies are appended by a reversal (`Knit.reverse`), and matches are entered
that are there (`Enters.knit`).
-/

set_option autoImplicit false
set_option relaxedAutoImplicit false

namespace CompositeSorts

variable {config : Configuration} {t t' v : Matchings} {s : Copies} {id id' : MatchId}
  {ids ties : List MatchId} {node source : MatchNode}

/-- A match of a sort with itself says nothing more. -/
structure MatchNode.Blank (node : MatchNode) : Prop where
  grade : node.grade = .concordant
  tally : node.tally = .none
  parts : node.parts = []
  untied : node.tiedWith = none

namespace Matchings

/-- The chain behind a match is as long as it may be at most, and empty where ties are not kept or
the match is incongruous. -/
structure Fits (config : Configuration) (node : MatchNode) (ties : List MatchId) : Prop where
  short : ties.length ≤ config.maxAlternatives
  keeps : ties ≠ [] → config.keepAlternatives = true
  congruous : ties ≠ [] → node.incongruous = false

theorem fits_nil (config : Configuration) (node : MatchNode) : Fits config node [] :=
  ⟨Nat.zero_le _, fun tied ↦ absurd rfl tied, fun tied ↦ absurd rfl tied⟩

/-- A chain of the same length fits a match of the same level. -/
theorem Fits.congr (h : Fits config source ties) {ties' : List MatchId}
    (length : ties'.length = ties.length) (level : node.level = source.level) :
    Fits config node ties' where
  short := length ▸ h.short
  keeps tied := h.keeps fun none ↦ tied (List.length_eq_zero_iff.mp (by rw [length, none]; rfl))
  congruous tied := by
    unfold MatchNode.incongruous
    rw [level]
    exact h.congruous fun none ↦ tied (List.length_eq_zero_iff.mp (by rw [length, none]; rfl))

/-- The table is orderly, what it remembers is there, and chains and matches of a sort with itself
are as they have to be. -/
structure Knit (config : Configuration) (t : Matchings) : Prop where
  orderly : t.Orderly
  held : ∀ {id : MatchId}, t.Held id → ∃ node, t.get? id = some node
  chains : ∀ {id : MatchId} {node : MatchNode} {ties : List MatchId}, t.get? id = some node →
    t.Chain id ties → Fits config node ties
  blank : ∀ {id : MatchId} {node : MatchNode}, t.get? id = some node → node.left = node.right →
    node.Blank

theorem knit_empty (config : Configuration) : Knit config empty where
  orderly := (renders_empty (Catalog.empty ⟨0⟩)).orderly
  held h := (renders_empty (Catalog.empty ⟨0⟩)).exists_of_held h
  chains found := by simp [get?, empty] at found
  blank found := by simp [get?, empty] at found

/-- A chain stays what it is where all matches do. -/
theorem Chain.onwards (h : t.Chain id ties)
    (kept : ∀ {id : MatchId} {node : MatchNode}, t.get? id = some node → t'.get? id = some node) :
    t'.Chain id ties := by
  refine h.kept fun member inside ↦ ?_
  obtain ⟨node, there⟩ : ∃ node, t.get? member = some node := by
    rcases List.mem_cons.mp inside with rfl | inside
    · exact h.exists_get
    · exact h.exists_of_mem inside
  rw [there, kept there]

/-- The chain of a match that was there is what it was, if all matches are. -/
theorem Chain.before (h : t'.Chain id ties) (orderly : t.Orderly) (found : t.get? id = some node)
    (kept : ∀ {id : MatchId} {node : MatchNode}, t.get? id = some node → t'.get? id = some node) :
    t.Chain id ties := by
  obtain ⟨ties', before⟩ := orderly.exists_chain found
  rwa [h.unique (before.onwards kept)]

/-- What is remembered stays there when nothing more is remembered. -/
theorem Knit.held_quiet (h : Knit config t) (quiet : Quiet t t') (orderly : t'.Orderly)
    (held : t'.Held id) : ∃ node, t'.get? id = some node := by
  have later (before : t.Held id) : ∃ node, t'.get? id = some node := by
    obtain ⟨node, found⟩ := h.held before
    obtain ⟨node', found', -⟩ := quiet.nodes id node found
    exact ⟨node', found'⟩
  rcases (Matchings.held_quiet quiet).mp held with memo | identity | sentinel | ⟨other, node, found,
    linked⟩
  · exact later (Or.inl memo)
  · exact later (Or.inr (Or.inl identity))
  · exact later (Or.inr (Or.inr (Or.inl sentinel)))
  · exact orderly.inside found linked

/-! ### Appending and entering -/

/-- A match can be appended whose parts are there. -/
theorem Knit.push (h : Knit config t) (untied : node.tiedWith = none)
    (inside : ∀ part ∈ node.parts, ∃ other, t.get? part = some other)
    (blank : node.left = node.right → node.Blank) : Knit config (t.push node) := by
  have orderly := h.orderly.push untied inside
  have kept {id : MatchId} {old : MatchNode} (found : t.get? id = some old) :
      (t.push node).get? id = some old := by
    rw [get?_push, if_neg (ne_size_of_get found)]
    exact found
  refine ⟨orderly, h.held_quiet (quiet_push node) orderly, fun {id other ties} found chain ↦ ?_,
    fun {id other} found same ↦ ?_⟩
  · rw [get?_push] at found
    split_ifs at found with last
    · cases found
      subst last
      rw [chain.unique (.last (get?_push_size node) untied)]
      exact fits_nil config node
    · exact h.chains found (chain.before h.orderly found kept)
  · rw [get?_push] at found
    split_ifs at found
    · cases found
      exact blank same
    · exact h.blank found same

/-- Matches can be entered that are there. -/
theorem Enters.knit (h : Enters t t' ids) (knit : Knit config t)
    (there : ∀ id ∈ ids, ∃ node, t.get? id = some node) : Knit config t' where
  orderly := h.orderly knit.orderly
  held held := by
    rw [h.get?]
    exact (h.held held).elim knit.held (there _)
  chains found chain := by
    rw [h.get?] at found
    exact knit.chains found (chain.kept fun member _ ↦ (h.get? member).symm)
  blank found same := by
    rw [h.get?] at found
    exact knit.blank found same

/-- A table with the same nodes that remembers the same is as good. -/
theorem Knit.of_same (h : Knit config t) (nodes : t'.nodes = t.nodes) (memo : t'.memo = t.memo)
    (identities : t'.identities = t.identities) (sentinels : t'.sentinels = t.sentinels) :
    Knit config t' := by
  have enters : Enters t t' [] := ⟨nodes, fun entry ↦ Or.inl (memo ▸ entry),
    fun entry ↦ Or.inl (identities ▸ entry), fun entry ↦ Or.inl (sentinels ▸ entry)⟩
  exact enters.knit h fun _ inside ↦ absurd inside List.not_mem_nil

/-! ### Choices -/

/-- A choice keeps the table knit: the one chain that it makes is short, and no other match leads
into it. -/
theorem Tying.knit {scale : Counter} {best : MatchId} {bestNode : MatchNode}
    (h : Tying config t v bestNode.standing ids [] best ties) (knit : Knit config t)
    (drafts : Drafts t scale ids) (congruous : bestNode.incongruous = false) : Knit config v := by
  have outside {id : MatchId} {behind : List MatchId} (chain : v.Chain id behind)
      (out : id ∉ best :: ties) : ∀ member ∈ id :: behind, member ∉ best :: ties := by
    induction chain with
    | last _ _ => exact fun member here ↦ List.mem_singleton.mp here ▸ out
    | more found tied _ ih =>
      intro member here
      rcases List.mem_cons.mp here with rfl | here
      · exact out
      · exact ih (fun into ↦ out (h.led found (MatchNode.mem_links_of_tied tied) into)) member here
  refine ⟨h.orderly, knit.held_quiet h.quiet h.orderly, fun {id node behind} found chain ↦ ?_,
    fun {id node} found same ↦ ?_⟩
  · by_cases among : id ∈ best :: ties
    · have shorter : behind.length ≤ ties.length := by
        rcases List.mem_cons.mp among with rfl | among
        · rw [chain.unique h.chain]
        · obtain ⟨rest, chain', -, less⟩ := h.chain.of_mem among
          rw [chain.unique chain']
          exact Nat.le_of_lt less
      have tied (some : behind ≠ []) : ties ≠ [] := by
        rintro rfl
        exact some (List.length_eq_zero_iff.mp (Nat.le_zero.mp shorter))
      refine ⟨shorter.trans h.short, fun some ↦ h.keeps (tied some), fun _ ↦ ?_⟩
      rw [MatchNode.incongruous_congr ((h.equal among).2 node found)]
      exact congruous
    · have before := chain.kept fun member here ↦
        (h.same member (outside chain among member here)).symm
      rw [h.same id among] at found
      exact knit.chains found before
  · by_cases among : id ∈ best :: ties
    · obtain ⟨inside, -⟩ := h.equal among
      obtain ⟨⟨old, there, -⟩, -⟩ := drafts.loose id inside
      obtain ⟨node', found', untied⟩ := h.quiet.nodes id old there
      rw [found] at found'
      cases found'
      obtain ⟨left, right⟩ := MatchNode.sides_of_untied untied
      rw [left, right] at same
      exact absurd same (drafts.alike inside there).1
    · rw [h.same id among] at found
      exact knit.blank found same

/-! ### Reversals -/

/-- Behind the copy of a match are as many as behind the match. -/
theorem Copied.exists_chain (h : Copied t s) (chain : t.Chain id ties) (turns : t.Turns s id id') :
    ∃ ties', (t.append s.nodes).Chain id' ties' ∧ ties'.length = ties.length := by
  induction chain generalizing id' with
  | last found untied =>
    rcases turns with ⟨-, -, -, rfl⟩ | entry
    · exact ⟨[], .last (get?_append_old found _) untied, rfl⟩
    · obtain ⟨node, parts, tie, found', -, copied, -, -, tied⟩ := h.done entry
      rw [found] at found'
      cases found'
      rw [untied] at tied
      cases tied
      exact ⟨[], .last copied rfl, rfl⟩
  | more found tied rest ih =>
    rcases turns with ⟨-, -, -, rfl⟩ | entry
    · exact ⟨_, (Chain.more found tied rest).onwards fun there ↦ get?_append_old there _, rfl⟩
    · obtain ⟨node, parts, tie, found', -, copied, -, -, turned⟩ := h.done entry
      rw [found] at found'
      cases found'
      rw [tied] at turned
      cases turned with
      | some turns =>
        obtain ⟨ties', behind, length⟩ := ih turns
        exact ⟨_, .more copied rfl behind, by rw [List.length_cons, List.length_cons, length]⟩

/-- A copy of a match of different sorts is one. -/
theorem Entered.exists_source (h : Entered t s) (found : (t.append s.nodes).get? id = some node)
    (new : ¬ id.index < t.nodes.size) : ∃ before source parts tie, t.get? before = some source ∧
      source.left ≠ source.right ∧ node = source.mirrored source.right source.left parts tie ∧
        t.Turns s before id := by
  have copied := found
  rw [get?_append, if_neg new] at copied
  have inside := (Array.getElem?_eq_some_iff.mp copied).1
  obtain ⟨i, entry⟩ := h.entered inside
  have same : (⟨t.nodes.size + (id.index - t.nodes.size)⟩ : MatchId) = id :=
    congrArg MatchId.mk (Nat.add_sub_cancel' (Nat.not_lt.mp new))
  rw [same] at entry
  obtain ⟨source, parts, tie, there, apart, here, -⟩ := h.done entry
  rw [found] at here
  cases here
  exact ⟨⟨i⟩, source, parts, tie, there, apart, rfl, Or.inr entry⟩

/-- Reversing a match for different sorts keeps the table knit. -/
theorem Knit.reverse (h : Knit config t) (copied : Entered t s) (found : t.get? id = some source)
    {parts : List MatchId} {tie : Option MatchId}
    (turnedParts : List.Forall₂ (t.Turns s) source.parts parts)
    (turnedTie : Option.Rel (t.Turns s) source.tiedWith tie) {left right : SortId}
    (apart : left ≠ right) :
    Knit config (t.append (s.nodes.push (source.mirrored left right parts tie))) := by
  let root := source.mirrored left right parts tie
  have orderly := (copied.push h.orderly found turnedParts turnedTie left right).orderly h.orderly
  have later {id : MatchId} {node : MatchNode} (found : (t.append s.nodes).get? id = some node) :
      (t.append (s.nodes.push root)).get? id = some node := get?_append_push found root
  have kept {id : MatchId} {node : MatchNode} (found : t.get? id = some node) :
      (t.append (s.nodes.push root)).get? id = some node := get?_append_old found _
  have behind {id : MatchId} {ties : List MatchId} (chain : (t.append s.nodes).Chain id ties) :
      (t.append (s.nodes.push root)).Chain id ties := chain.onwards later
  -- a match is an old one, the copy of one, or the reversal itself
  have origin {id : MatchId} {node : MatchNode}
      (there : (t.append (s.nodes.push root)).get? id = some node) :
      t.get? id = some node ∨ ¬ id.index < t.nodes.size ∧ (t.append s.nodes).get? id = some node ∨
        id = ⟨t.nodes.size + s.nodes.size⟩ ∧ node = root := by
    rw [get?_append] at there
    split_ifs at there with old
    · exact Or.inl there
    · rw [Array.getElem?_push] at there
      split_ifs at there with last
      · cases there
        exact Or.inr (Or.inr ⟨congrArg MatchId.mk (by omega), rfl⟩)
      · refine Or.inr (Or.inl ⟨old, ?_⟩)
        rw [get?_append, if_neg old]
        exact there
  refine ⟨orderly, h.held_quiet (quiet_append _) orderly, fun {id' node ties} there chain ↦ ?_,
    fun {id' node} there same ↦ ?_⟩
  · rcases origin there with old | ⟨new, copy⟩ | ⟨rfl, rfl⟩
    · exact h.chains old (chain.before h.orderly old kept)
    · obtain ⟨before, first, parts', tie', found', -, rfl, turns⟩ := copied.exists_source copy new
      obtain ⟨ties', chain'⟩ := h.orderly.exists_chain found'
      obtain ⟨ties'', chain'', length⟩ := copied.exists_chain chain' turns
      rw [chain.unique (behind chain'')]
      exact (h.chains found' chain').congr length rfl
    · obtain ⟨ties', chain'⟩ := h.orderly.exists_chain found
      suffices length : ties.length = ties'.length from (h.chains found chain').congr length rfl
      cases chain' with
      | last found' untied =>
        rw [found] at found'
        cases found'
        rw [untied] at turnedTie
        cases turnedTie
        rw [chain.unique (.last there rfl)]
      | more found' tied rest =>
        rw [found] at found'
        cases found'
        rw [tied] at turnedTie
        cases turnedTie with
        | some turns =>
          obtain ⟨ties'', chain'', length⟩ := copied.exists_chain rest turns
          rw [chain.unique (.more there rfl (behind chain'')), List.length_cons, List.length_cons,
            length]
  · rcases origin there with old | ⟨new, copy⟩ | ⟨rfl, rfl⟩
    · exact h.blank old same
    · obtain ⟨_, first, _, _, -, apart', mirrored, -⟩ := copied.exists_source copy new
      rw [mirrored] at same
      exact absurd same.symm apart'
    · exact absurd same apart

end Matchings

end CompositeSorts
