import CompositeSorts.Proofs.Matching.Findings
import CompositeSorts.Proofs.Matching.Preference
import Mathlib.Algebra.Order.BigOperators.Group.List
import Mathlib.Algebra.Order.Ring.Nat

/-!
Tables of matches. A table shows a finding at a match when the match and its parts, and theirs in
turn, say what the finding says. A table is *orderly* when the links of matches, that is their parts
and ties, stay inside of it and lead in no circle, and matches are tied only to matches of equal
standing. An orderly table *renders* a memory when it remembers the same pairs and shows their
findings.

Matches that nothing leads to yet are *loose*; they are candidates that are still to be chosen from.
Tables grow in such a way that loose matches stay loose, until their own rule chooses.
-/

set_option autoImplicit false
set_option relaxedAutoImplicit false

namespace CompositeSorts

variable {c d : Catalog} {t t' u : Matchings} {id : MatchId} {memory : Memory} {node : MatchNode}
  {finding finding' : Finding}

/-- The matches that a match leads to. -/
def MatchNode.links (node : MatchNode) : List MatchId := node.parts ++ node.tiedWith.toList

theorem MatchNode.links_of_untied (untied : node.tiedWith = none) : node.links = node.parts := by
  unfold links
  rw [untied, Option.toList_none, List.append_nil]

theorem MatchNode.mem_links_of_tied {next : MatchId} (tie : node.tiedWith = some next) :
    next ∈ node.links := by
  unfold links
  rw [tie]
  exact List.mem_append_right _ (List.mem_singleton.mpr rfl)

theorem MatchNode.alone_and_parts_of_untied {node' : MatchNode}
    (same : node'.untied = node.untied) :
    node'.alone = node.alone ∧ node'.parts = node.parts := by
  have alone := congrArg MatchNode.alone same
  have parts := congrArg MatchNode.parts same
  exact ⟨alone, parts⟩

theorem MatchNode.standing_of_untied {node' : MatchNode} (same : node'.untied = node.untied) :
    node'.standing = node.standing := by
  have standing := congrArg MatchNode.standing same
  exact standing

theorem MatchNode.standing_alone (node : MatchNode) : node.alone.standing = node.standing := rfl

/-- Elements that correspond still do so when that is shown for the elements of the second list. -/
theorem forall₂_of_mem {α β : Type} {related related' : α → β → Prop} {xs : List α}
    {ys : List β} (h : List.Forall₂ related xs ys)
    (more : ∀ y ∈ ys, ∀ x, related x y → related' x y) : List.Forall₂ related' xs ys := by
  induction h with
  | nil => exact .nil
  | cons first _ ih =>
    exact .cons (more _ List.mem_cons_self _ first)
      (ih fun y inside ↦ more y (List.mem_cons_of_mem _ inside))

/-- An element of the second list corresponds to one of the first. -/
theorem exists_of_forall₂ {α β : Type} {related : α → β → Prop} {xs : List α} {ys : List β} {y : β}
    (h : List.Forall₂ related xs ys) (inside : y ∈ ys) : ∃ x ∈ xs, related x y := by
  induction h with
  | nil => cases inside
  | cons first _ ih =>
    rcases List.mem_cons.mp inside with rfl | inside
    · exact ⟨_, List.mem_cons_self, first⟩
    · obtain ⟨x, there, same⟩ := ih inside
      exact ⟨x, List.mem_cons_of_mem _ there, same⟩

/-- Where each element corresponds to something, the list corresponds to a list of such. -/
theorem exists_forall₂ {α β : Type} {related : α → β → Prop} {xs : List α}
    (each : ∀ x ∈ xs, ∃ y, related x y) : ∃ ys, List.Forall₂ related xs ys := by
  induction xs with
  | nil => exact ⟨[], .nil⟩
  | cons x xs ih =>
    obtain ⟨y, first⟩ := each x List.mem_cons_self
    obtain ⟨ys, rest⟩ := ih fun other inside ↦ each other (List.mem_cons_of_mem _ inside)
    exact ⟨y :: ys, .cons first rest⟩

/-- Two lists that correspond to a third correspond to each other. -/
theorem forall₂_join {α β γ : Type} {related : α → β → Prop} {related' : α → γ → Prop}
    {joined : β → γ → Prop} {xs : List α} {ys : List β} {zs : List γ}
    (h : List.Forall₂ related xs ys) (h' : List.Forall₂ related' xs zs)
    (each : ∀ z ∈ zs, ∀ x y, related x y → related' x z → joined y z) :
    List.Forall₂ joined ys zs := by
  induction h generalizing zs with
  | nil =>
    cases h'
    exact .nil
  | cons first _ ih =>
    cases h' with
    | cons first' rest' =>
      exact .cons (each _ List.mem_cons_self _ _ first first')
        (ih rest' fun z inside ↦ each z (List.mem_cons_of_mem _ inside))

/-- A list that corresponds to another is determined by it when its elements are. -/
theorem eq_of_forall₂ {α β : Type} {related : α → β → Prop} {xs : List α} {ys ys' : List β}
    (h : List.Forall₂ related xs ys) (h' : List.Forall₂ related xs ys')
    (one : ∀ y ∈ ys, ∀ x y', related x y → related x y' → y = y') : ys = ys' := by
  induction h generalizing ys' with
  | nil =>
    cases h'
    rfl
  | cons first _ ih =>
    cases h' with
    | cons first' rest' =>
      rw [one _ List.mem_cons_self _ _ first first',
        ih rest' fun y inside ↦ one y (List.mem_cons_of_mem _ inside)]

namespace Matchings

mutual

/-- The match says what the finding says, and so do its parts. -/
def Shows (t : Matchings) (id : MatchId) : Finding → Prop
  | ⟨node, parts⟩ => ∃ found, t.get? id = some found ∧ found.alone = node ∧
    t.ShowsAll found.parts parts

/-- The matches say what the findings say, one by one. -/
def ShowsAll (t : Matchings) : List MatchId → List Finding → Prop
  | [], [] => True
  | id :: ids, finding :: findings => t.Shows id finding ∧ t.ShowsAll ids findings
  | _, _ => False

end

theorem showsAll_iff {ids : List MatchId} {findings : List Finding} :
    t.ShowsAll ids findings ↔ List.Forall₂ t.Shows ids findings := by
  induction ids generalizing findings with
  | nil =>
    cases findings with
    | nil => simp [ShowsAll]
    | cons => simp [ShowsAll]
  | cons id ids ih =>
    cases findings with
    | nil => simp [ShowsAll]
    | cons finding findings => rw [ShowsAll, List.forall₂_cons, ih]

theorem shows_iff : t.Shows id finding ↔ ∃ found, t.get? id = some found ∧
    found.alone = finding.node ∧ List.Forall₂ t.Shows found.parts finding.parts := by
  cases finding
  simp only [Shows, showsAll_iff]
  rfl

/-- A match says one thing. -/
theorem Shows.unique (h : t.Shows id finding) (h' : t.Shows id finding') : finding = finding' := by
  induction finding using Finding.induction generalizing id finding' with
  | step finding inner =>
    obtain ⟨found, here, alone, parts⟩ := shows_iff.mp h
    obtain ⟨found', here', alone', parts'⟩ := shows_iff.mp h'
    rw [here] at here'
    cases here'
    have same : finding.parts = finding'.parts :=
      eq_of_forall₂ parts parts' fun part inside _ _ first other ↦ inner part inside first other
    cases finding
    cases finding'
    cases alone.symm.trans alone'
    cases same
    rfl

/-- A node that says the same, with the same parts, shows the same. -/
theorem Shows.extend (h : t.Shows id finding) (later : Extends t t') : t'.Shows id finding := by
  induction finding using Finding.induction generalizing id with
  | step finding inner =>
    obtain ⟨found, here, alone, parts⟩ := shows_iff.mp h
    obtain ⟨found', here', same⟩ := later id found here
    obtain ⟨alone', parts'⟩ := MatchNode.alone_and_parts_of_untied same
    refine shows_iff.mpr ⟨found', here', alone'.trans alone, ?_⟩
    rw [parts']
    exact forall₂_of_mem parts fun part inside _ shown ↦ inner part inside shown

theorem ShowsAll.extend {ids : List MatchId} {findings : List Finding}
    (h : List.Forall₂ t.Shows ids findings) (later : Extends t t') :
    List.Forall₂ t'.Shows ids findings := h.imp fun _ _ shows ↦ shows.extend later

/-! ### Order -/

/-- Links stay inside, lead in no circle, and tie matches of equal standing. -/
structure Orderly (t : Matchings) : Prop where
  inside : ∀ {id link : MatchId} {node : MatchNode}, t.get? id = some node → link ∈ node.links →
    ∃ other, t.get? link = some other
  tied : ∀ {id next : MatchId} {node other : MatchNode}, t.get? id = some node →
    node.tiedWith = some next → t.get? next = some other →
      other.standing = node.standing ∧ other.left ≠ other.right
  ranked : ∃ rank : MatchId → Nat, ∀ {id link : MatchId} {node : MatchNode},
    t.get? id = some node → link ∈ node.links → rank link < rank id

/-- Something leads to the match: it is remembered, or a match links it. -/
def Held (t : Matchings) (id : MatchId) : Prop :=
  (∃ key : PairKey, t.memo[key]? = some id) ∨ (∃ sort : SortId, t.identities[sort]? = some id) ∨
    (∃ key : PairKey, t.sentinels[key]? = some id) ∨
    ∃ (other : MatchId) (node : MatchNode), t.get? other = some node ∧ id ∈ node.links

/-- Nothing leads to the match, and it leads to no tie. -/
def Loose (t : Matchings) (id : MatchId) : Prop :=
  (∃ node, t.get? id = some node ∧ node.tiedWith = none) ∧ ¬ t.Held id

/-- Nodes stay what they are, but for their ties, and loose matches stay loose. -/
structure Grows (t t' : Matchings) : Prop where
  nodes : Extends t t'
  loose : ∀ id, t.Loose id → t'.Loose id

theorem Grows.refl (t : Matchings) : Grows t t := ⟨Extends.refl t, fun _ h ↦ h⟩

theorem Grows.trans (h : Grows t t') (h' : Grows t' u) : Grows t u :=
  ⟨h.nodes.trans h'.nodes, fun id loose ↦ h'.loose id (h.loose id loose)⟩

/-- What is held in the end was not loose in the beginning. -/
theorem Grows.not_loose (h : Grows t t') (held : t'.Held id) : ¬ t.Loose id :=
  fun loose ↦ (h.loose id loose).2 held

/-- The match shows the finding, and it was not loose at `u`. -/
structure Usable (u t : Matchings) (id : MatchId) (finding : Finding) : Prop where
  shows : t.Shows id finding
  free : ¬ u.Loose id

theorem Usable.later (h : Usable u t id finding) (later : Extends t t') : Usable u t' id finding :=
  ⟨h.shows.extend later, h.free⟩

theorem forall₂_usable_later {ids : List MatchId} {findings : List Finding}
    (h : List.Forall₂ (Usable u t) ids findings) (later : Extends t t') :
    List.Forall₂ (Usable u t') ids findings := h.imp fun _ _ usable ↦ usable.later later

/-- The table remembers what the memory does. What it keeps of identities and of pairs under way is
about live sorts, and when a pair was met while under way, it keeps some such match. -/
structure Renders (c : Catalog) (t : Matchings) (memory : Memory) : Prop where
  orderly : t.Orderly
  memo : ∀ key : PairKey, Option.Rel t.Shows t.memo[key]? (memory.known key)
  identities : ∀ {sort : SortId} {id : MatchId}, t.identities[sort]? = some id →
    ∃ s, c.get sort = .ok s ∧ t.Shows id (.identity s)
  sentinels : ∀ {key : PairKey} {id : MatchId}, t.sentinels[key]? = some id →
    ∃ l r, c.get l.id = .ok l ∧ c.get r.id = .ok r ∧ t.Shows id (.pending l r)
  broken : memory.broken = true → ∃ (key : PairKey) (id : MatchId), t.sentinels[key]? = some id

theorem Shows.exists_get (h : t.Shows id finding) : ∃ node, t.get? id = some node := by
  obtain ⟨found, here, -⟩ := shows_iff.mp h
  exact ⟨found, here⟩

/-- Whatever something leads to is there. -/
theorem Renders.exists_of_held (h : t.Renders c memory) (held : t.Held id) :
    ∃ node, t.get? id = some node := by
  rcases held with ⟨key, entry⟩ | ⟨sort, entry⟩ | ⟨key, entry⟩ | ⟨other, node, found, link⟩
  · have shown := h.memo key
    rw [entry] at shown
    generalize memory.known key = known at shown
    cases shown with
    | some shows => exact shows.exists_get
  · obtain ⟨s, -, shows⟩ := h.identities entry
    exact shows.exists_get
  · obtain ⟨l, r, -, -, shows⟩ := h.sentinels entry
    exact shows.exists_get
  · exact h.orderly.inside found link

theorem renders_empty (c : Catalog) : Renders c empty .empty where
  orderly := by
    refine ⟨?_, ?_, fun _ ↦ 0, ?_⟩
    · intro id link node found
      simp [get?, empty] at found
    · intro id next node other found
      simp [get?, empty] at found
    · intro id link node found
      simp [get?, empty] at found
  memo key := by
    have nothing : empty.memo[key]? = none := by simp [empty]
    rw [nothing]
    exact .none
  identities entry := by simp [empty] at entry
  sentinels entry := by simp [empty] at entry
  broken was := by cases was

/-- What shows a finding, if anything does, does so in a later table. -/
theorem Extends.rel_shows (later : Extends t t') {entry : Option MatchId} {known : Option Finding}
    (h : Option.Rel t.Shows entry known) : Option.Rel t'.Shows entry known := by
  cases h with
  | some shows => exact .some (shows.extend later)
  | none => exact .none

theorem Extends.memo (later : Extends t t') (same : t'.memo = t.memo)
    (memo : ∀ key : PairKey, Option.Rel t.Shows t.memo[key]? (memory.known key)) (key : PairKey) :
    Option.Rel t'.Shows t'.memo[key]? (memory.known key) := by
  rw [same]
  exact later.rel_shows (memo key)

/-- What is entered as identity stays so in a later table. -/
theorem Renders.identity_later (h : t.Renders c memory) (later : Extends t t') {sort : SortId}
    (entry : t.identities[sort]? = some id) :
    ∃ s, c.get sort = .ok s ∧ t'.Shows id (.identity s) := by
  obtain ⟨s, found, shows⟩ := h.identities entry
  exact ⟨s, found, shows.extend later⟩

/-- What is entered as under way stays so in a later table. -/
theorem Renders.pending_later (h : t.Renders c memory) (later : Extends t t') {key : PairKey}
    (entry : t.sentinels[key]? = some id) :
    ∃ l r, c.get l.id = .ok l ∧ c.get r.id = .ok r ∧ t'.Shows id (.pending l r) := by
  obtain ⟨l, r, left, right, shows⟩ := h.sentinels entry
  exact ⟨l, r, left, right, shows.extend later⟩

/-- A quiet change that keeps the table orderly keeps what it renders. -/
theorem Renders.quiet (h : t.Renders c memory) (quiet : Quiet t t') (orderly : t'.Orderly) :
    t'.Renders c memory where
  orderly := orderly
  memo := quiet.nodes.memo quiet.memo h.memo
  identities entry := h.identity_later quiet.nodes (quiet.identities ▸ entry)
  sentinels entry := h.pending_later quiet.nodes (quiet.sentinels ▸ entry)
  broken was := by
    rw [quiet.sentinels]
    exact h.broken was

theorem held_quiet (quiet : Quiet t t') : t'.Held id ↔
    (∃ key : PairKey, t.memo[key]? = some id) ∨ (∃ sort : SortId, t.identities[sort]? = some id) ∨
      (∃ key : PairKey, t.sentinels[key]? = some id) ∨
      ∃ (other : MatchId) (node : MatchNode), t'.get? other = some node ∧ id ∈ node.links := by
  unfold Held
  rw [quiet.memo, quiet.identities, quiet.sentinels]

/-! ### Appending -/

theorem exists_bound (rank : MatchId → Nat) (ids : List MatchId) :
    ∃ bound, ∀ id ∈ ids, rank id < bound :=
  ⟨(ids.map rank).sum + 1, fun _ inside ↦
    Nat.lt_succ_of_le (List.le_sum_of_mem (List.mem_map_of_mem inside))⟩

theorem index_lt_of_get {id : MatchId} (found : t.get? id = some node) : id.index < t.nodes.size :=
  (Array.getElem?_eq_some_iff.mp found).1

theorem get?_push (node : MatchNode) (id : MatchId) :
    (t.push node).get? id = if id = ⟨t.nodes.size⟩ then some node else t.get? id := by
  unfold get? push
  rw [Array.getElem?_push]
  by_cases last : id = ⟨t.nodes.size⟩
  · subst last
    simp
  · have differ : id.index ≠ t.nodes.size := fun same ↦ last (congrArg MatchId.mk same)
    rw [if_neg differ, if_neg last]

theorem ne_size_of_get {id : MatchId} (found : t.get? id = some node) : id ≠ ⟨t.nodes.size⟩ := by
  rintro rfl
  exact Nat.lt_irrefl _ (index_lt_of_get found)

/-- Appending a match whose parts are there keeps the table orderly. -/
theorem Orderly.push (h : t.Orderly) (untied : node.tiedWith = none)
    (inside : ∀ part ∈ node.parts, ∃ other, t.get? part = some other) : (t.push node).Orderly := by
  have later : Extends t (t.push node) := extends_push node
  have links : ∀ {id link : MatchId} {found : MatchNode}, (t.push node).get? id = some found →
      link ∈ found.links → ∃ other, t.get? link = some other := by
    intro id link found here linked
    rw [get?_push] at here
    split_ifs at here with last
    · cases here
      rw [MatchNode.links_of_untied untied] at linked
      exact inside link linked
    · exact h.inside here linked
  refine ⟨fun here linked ↦ ?_, fun {id next found other} here tie there ↦ ?_, ?_⟩
  · obtain ⟨other, there⟩ := links here linked
    obtain ⟨other', there', -⟩ := later _ _ there
    exact ⟨other', there'⟩
  · rw [get?_push] at here
    split_ifs at here with last
    · cases here
      rw [untied] at tie
      cases tie
    · obtain ⟨old, before⟩ := h.inside here (MatchNode.mem_links_of_tied tie)
      obtain ⟨new, after, same⟩ := later _ _ before
      rw [there] at after
      cases after
      obtain ⟨left, right⟩ := MatchNode.sides_of_untied same
      rw [MatchNode.standing_of_untied same, left, right]
      exact h.tied here tie before
  · obtain ⟨rank, ranked⟩ := h.ranked
    obtain ⟨bound, bounded⟩ := exists_bound rank node.parts
    refine ⟨fun id ↦ if id = ⟨t.nodes.size⟩ then bound else rank id,
      fun {id link found} here linked ↦ ?_⟩
    obtain ⟨other, there⟩ := links here linked
    dsimp only
    rw [if_neg (ne_size_of_get there)]
    rw [get?_push] at here
    split_ifs at here ⊢ with last
    · cases here
      rw [MatchNode.links_of_untied untied] at linked
      exact bounded link linked
    · exact ranked here linked

theorem Renders.push (h : t.Renders c memory) (untied : node.tiedWith = none)
    (inside : ∀ part ∈ node.parts, ∃ other, t.get? part = some other) :
    (t.push node).Renders c memory :=
  h.quiet (quiet_push node) (h.orderly.push untied inside)

theorem held_push (untied : node.tiedWith = none) (held : (t.push node).Held id) :
    t.Held id ∨ id ∈ node.parts := by
  rcases (held_quiet (quiet_push node)).mp held with memo | identity | sentinel | link
  · exact Or.inl (Or.inl memo)
  · exact Or.inl (Or.inr (Or.inl identity))
  · exact Or.inl (Or.inr (Or.inr (Or.inl sentinel)))
  · obtain ⟨other, found, there, linked⟩ := link
    rw [get?_push] at there
    split_ifs at there
    · cases there
      rw [MatchNode.links_of_untied untied] at linked
      exact Or.inr linked
    · exact Or.inl (Or.inr (Or.inr (Or.inr ⟨other, found, there, linked⟩)))

/-- A loose match stays so when a match is appended that it is no part of. -/
theorem Loose.push (h : t.Loose id) (untied : node.tiedWith = none) (notPart : id ∉ node.parts) :
    (t.push node).Loose id := by
  obtain ⟨⟨found, here, alone⟩, unheld⟩ := h
  refine ⟨⟨found, ?_, alone⟩, fun held ↦ (held_push untied held).elim unheld notPart⟩
  rw [get?_push, if_neg (ne_size_of_get here)]
  exact here

/-- A match can be appended whose parts are not loose. -/
theorem Grows.push (h : Grows u t) (untied : node.tiedWith = none)
    (free : ∀ part ∈ node.parts, ¬ u.Loose part) : Grows u (t.push node) :=
  ⟨h.nodes.trans (extends_push node), fun id before ↦
    (h.loose id before).push untied fun part ↦ free id part before⟩

/-- What was appended last is loose, if all is there that something leads to. -/
theorem loose_push (there : ∀ {id : MatchId}, t.Held id → ∃ node, t.get? id = some node)
    (untied : node.tiedWith = none)
    (inside : ∀ part ∈ node.parts, ∃ other, t.get? part = some other) :
    (t.push node).Loose ⟨t.nodes.size⟩ := by
  have absent : ∀ {other}, t.get? ⟨t.nodes.size⟩ ≠ some other :=
    fun found ↦ ne_size_of_get found rfl
  refine ⟨⟨node, get?_push_size node, untied⟩, fun held ↦ ?_⟩
  rcases held_push untied held with held | part
  · obtain ⟨other, found⟩ := there held
    exact absent found
  · obtain ⟨other, found⟩ := inside _ part
    exact absent found

theorem Renders.loose_push (h : t.Renders c memory) (untied : node.tiedWith = none)
    (inside : ∀ part ∈ node.parts, ∃ other, t.get? part = some other) :
    (t.push node).Loose ⟨t.nodes.size⟩ := Matchings.loose_push h.exists_of_held untied inside

/-- What was appended last says what its node says. -/
theorem shows_push {parts : List Finding} (shown : List.Forall₂ t.Shows node.parts parts) :
    (t.push node).Shows ⟨t.nodes.size⟩ ⟨node.alone, parts⟩ :=
  shows_iff.mpr ⟨node, get?_push_size node, rfl, ShowsAll.extend shown (extends_push node)⟩

end Matchings

end CompositeSorts
