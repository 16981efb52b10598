import CompositeSorts.Proofs.Matching.Tables

/-!
Reversals in a table. The reversal of a match is appended to the table as a copy, behind copies of
what the match leads to; matches of a sort with itself are led to as they are. In an orderly table
this always succeeds. The table stays orderly, loose matches stay loose, and the reversal shows the
finding of the match from the other side (`ends_reverse_turned`).
-/

set_option autoImplicit false
set_option relaxedAutoImplicit false

namespace CompositeSorts

variable {c : Catalog} {t : Matchings} {s s' s'' : Copies} {id id' : MatchId} {memory : Memory}
  {rank : MatchId → Nat} {bound bound' : Nat} {source node : MatchNode} {finding : Finding}

namespace Matchings

theorem get?_append (nodes : Array MatchNode) (id : MatchId) : (t.append nodes).get? id =
    if id.index < t.nodes.size then t.get? id else nodes[id.index - t.nodes.size]? := by
  unfold get? append
  exact Array.getElem?_append

/-- What was there is still there when matches are appended. -/
theorem get?_append_old (found : t.get? id = some node) (nodes : Array MatchNode) :
    (t.append nodes).get? id = some node := by
  rw [get?_append, if_pos (Array.getElem?_eq_some_iff.mp found).1]
  exact found

/-- A match leads there. -/
def Linked (t : Matchings) (id : MatchId) : Prop :=
  ∃ (other : MatchId) (node : MatchNode), t.get? other = some node ∧ id ∈ node.links

/-- The match is that of a sort with itself, or the other one is its copy. -/
def Turns (t : Matchings) (s : Copies) (id id' : MatchId) : Prop :=
  (∃ node, t.get? id = some node ∧ node.left = node.right ∧ id' = id) ∨
    s.done[id.index]? = some id'

/-- What was copied so far: copies are mirrored nodes with turned links, they lead to earlier copies
or to where other matches lead, and they are tied to copies of the same standing. -/
structure Copied (t : Matchings) (s : Copies) : Prop where
  done : ∀ {i : Nat} {id' : MatchId}, s.done[i]? = some id' → ∃ node parts tie,
    t.get? ⟨i⟩ = some node ∧ node.left ≠ node.right ∧
      (t.append s.nodes).get? id' = some (node.mirrored node.right node.left parts tie) ∧
      t.nodes.size ≤ id'.index ∧ List.Forall₂ (t.Turns s) node.parts parts ∧
      Option.Rel (t.Turns s) node.tiedWith tie
  links : ∀ {k : Nat} {node : MatchNode} {link : MatchId}, s.nodes[k]? = some node →
    link ∈ node.links → t.nodes.size ≤ link.index ∧ link.index < t.nodes.size + k ∨ t.Linked link
  tied : ∀ {k : Nat} {node : MatchNode} {next : MatchId}, s.nodes[k]? = some node →
    node.tiedWith = some next → ∃ other, (t.append s.nodes).get? next = some other ∧
      other.standing = node.standing ∧ other.left ≠ other.right

/-- Every copy is the reversal of a match. -/
structure Entered (t : Matchings) (s : Copies) : Prop extends Copied t s where
  entered : ∀ {k : Nat}, k < s.nodes.size → ∃ i : Nat, s.done[i]? = some ⟨t.nodes.size + k⟩

/-- Copies were added, of matches below a rank. -/
structure Later (rank : MatchId → Nat) (bound : Nat) (s s' : Copies) : Prop where
  nodes : ∀ {k : Nat} {node : MatchNode}, s.nodes[k]? = some node → s'.nodes[k]? = some node
  done : ∀ {i : Nat} {id' : MatchId}, s.done[i]? = some id' → s'.done[i]? = some id'
  low : ∀ {i : Nat} {id' : MatchId}, s'.done[i]? = some id' →
    s.done[i]? = some id' ∨ rank ⟨i⟩ < bound

theorem Later.refl (rank : MatchId → Nat) (bound : Nat) (s : Copies) : Later rank bound s s :=
  ⟨fun h ↦ h, fun h ↦ h, Or.inl⟩

theorem Later.trans (h : Later rank bound s s') (h' : Later rank bound s' s'') :
    Later rank bound s s'' := by
  refine ⟨fun found ↦ h'.nodes (h.nodes found), fun entry ↦ h'.done (h.done entry), fun entry ↦ ?_⟩
  rcases h'.low entry with entry | low
  · exact h.low entry
  · exact Or.inr low

theorem Later.mono (h : Later rank bound s s') (le : bound ≤ bound') : Later rank bound' s s' :=
  ⟨h.nodes, h.done, fun entry ↦ (h.low entry).imp_right fun low ↦ Nat.lt_of_lt_of_le low le⟩

theorem Turns.mono (h : t.Turns s id id')
    (more : ∀ {i : Nat} {id' : MatchId}, s.done[i]? = some id' → s'.done[i]? = some id') :
    t.Turns s' id id' := h.imp_right more

theorem forall₂_turns_mono {ids ids' : List MatchId} (h : List.Forall₂ (t.Turns s) ids ids')
    (more : ∀ {i : Nat} {id' : MatchId}, s.done[i]? = some id' → s'.done[i]? = some id') :
    List.Forall₂ (t.Turns s') ids ids' := h.imp fun _ _ turns ↦ turns.mono more

theorem rel_turns_mono {tie tie' : Option MatchId} (h : Option.Rel (t.Turns s) tie tie')
    (more : ∀ {i : Nat} {id' : MatchId}, s.done[i]? = some id' → s'.done[i]? = some id') :
    Option.Rel (t.Turns s') tie tie' := by
  cases h with
  | none => exact .none
  | some turns => exact .some (turns.mono more)

theorem get?_append_push {nodes : Array MatchNode} (found : (t.append nodes).get? id = some node)
    (new : MatchNode) : (t.append (nodes.push new)).get? id = some node := by
  rw [get?_append] at found ⊢
  split_ifs at found ⊢ with old
  · exact found
  · obtain ⟨inside, same⟩ := Array.getElem?_eq_some_iff.mp found
    rw [Array.getElem?_push_lt inside, same]

theorem entered_nil (t : Matchings) : Entered t ⟨#[], ∅⟩ where
  done entry := by simp at entry
  links found := by simp at found
  tied found := by simp at found
  entered inside := absurd inside (Nat.not_lt_zero _)

/-- Where a turned link leads. -/
theorem Copied.turned (h : Copied t s) (turns : t.Turns s id id') (linked : t.Linked id) :
    t.nodes.size ≤ id'.index ∧ id'.index < t.nodes.size + s.nodes.size ∨ t.Linked id' := by
  rcases turns with ⟨node, -, -, rfl⟩ | entry
  · exact Or.inr linked
  · obtain ⟨node, parts, tie, -, -, found, behind, -, -⟩ := h.done entry
    rw [get?_append, if_neg (Nat.not_lt.mpr behind)] at found
    have inside := (Array.getElem?_eq_some_iff.mp found).1
    exact Or.inl ⟨behind, by omega⟩

/-- A copy whose links are turned is added. -/
theorem Copied.push (h : Copied t s) (orderly : t.Orderly) (found : t.get? id = some source)
    {parts : List MatchId} {tie : Option MatchId}
    (turnedParts : List.Forall₂ (t.Turns s) source.parts parts)
    (turnedTie : Option.Rel (t.Turns s) source.tiedWith tie) (left right : SortId) :
    Copied t { s with nodes := s.nodes.push (source.mirrored left right parts tie) } where
  done entry := by
    obtain ⟨node, parts, tie, here, apart, there, rest⟩ := h.done entry
    exact ⟨node, parts, tie, here, apart, get?_append_push there _, rest⟩
  links {k node link} here linked := by
    rw [Array.getElem?_push] at here
    split_ifs at here with last
    · cases here
      subst last
      have turned : ∃ before ∈ source.links, t.Turns s before link := by
        rcases List.mem_append.mp linked with part | tied
        · obtain ⟨before, inside, turns⟩ := exists_of_forall₂ turnedParts part
          exact ⟨before, List.mem_append_left _ inside, turns⟩
        · obtain rfl : tie = some link := Option.mem_toList.mp tied
          generalize same : source.tiedWith = old at turnedTie
          cases turnedTie with
          | some turns => exact ⟨_, MatchNode.mem_links_of_tied same, turns⟩
      obtain ⟨before, inside, turns⟩ := turned
      exact h.turned turns ⟨id, source, found, inside⟩
    · exact h.links here linked
  tied {k node next} here tied := by
    rw [Array.getElem?_push] at here
    split_ifs at here with last
    · cases here
      obtain rfl : tie = some next := tied
      generalize same : source.tiedWith = old at turnedTie
      cases turnedTie with
      | @some before _ turns =>
        obtain ⟨other, there⟩ := orderly.inside found (MatchNode.mem_links_of_tied same)
        obtain ⟨standing, apart⟩ := orderly.tied found same there
        rcases turns with ⟨other', there', equal, -⟩ | entry
        · rw [there] at there'
          cases there'
          exact absurd equal apart
        · obtain ⟨other', parts', tie', there', -, copied, -⟩ := h.done entry
          rw [show t.get? ⟨before.index⟩ = t.get? before from rfl, there] at there'
          cases there'
          exact ⟨_, get?_append_push copied _, MatchNode.standing_mirrored standing ..,
            Ne.symm apart⟩
    · obtain ⟨other, there, rest⟩ := h.tied here tied
      exact ⟨other, get?_append_push there _, rest⟩

/-- The copy of a match that was not copied before is entered. -/
theorem Entered.enter (h : Entered t s) (orderly : t.Orderly) (found : t.get? id = some source)
    (apart : source.left ≠ source.right) {parts : List MatchId} {tie : Option MatchId}
    (turnedParts : List.Forall₂ (t.Turns s) source.parts parts)
    (turnedTie : Option.Rel (t.Turns s) source.tiedWith tie) (new : s.done[id.index]? = none)
    (low : rank id < bound) (reversal : MatchId)
    (here : reversal = ⟨t.nodes.size + s.nodes.size⟩) {s' : Copies}
    (made : s' = ⟨s.nodes.push (source.mirrored source.right source.left parts tie),
      s.done.insert id.index reversal⟩) :
    Entered t s' ∧ Later rank bound s s' ∧ t.Turns s' id reversal := by
  subst made here
  have entry_iff : ∀ {i : Nat} {id' : MatchId},
      (s.done.insert id.index ⟨t.nodes.size + s.nodes.size⟩)[i]? = some id' ↔
        i = id.index ∧ id' = ⟨t.nodes.size + s.nodes.size⟩ ∨ s.done[i]? = some id' := by
    intro i id'
    rw [Std.ExtTreeMap.getElem?_insert]
    split_ifs with same
    · rw [Std.LawfulEqCmp.compare_eq_iff_eq] at same
      subst same
      rw [new]
      simp [eq_comm]
    · rw [Std.LawfulEqCmp.compare_eq_iff_eq] at same
      simp [Ne.symm same]
  have later : Later rank bound s ⟨s.nodes.push
    (source.mirrored source.right source.left parts tie),
      s.done.insert id.index ⟨t.nodes.size + s.nodes.size⟩⟩ := by
    refine ⟨fun {k node} before ↦ ?_, fun entry ↦ entry_iff.mpr (Or.inr entry), fun entry ↦ ?_⟩
    · obtain ⟨inside, same⟩ := Array.getElem?_eq_some_iff.mp before
      rw [Array.getElem?_push_lt inside, same]
    · rcases entry_iff.mp entry with ⟨rfl, -⟩ | entry
      · exact Or.inr low
      · exact Or.inl entry
  have pushed := h.push orderly found turnedParts turnedTie source.right source.left
  refine ⟨⟨⟨fun entry ↦ ?_, pushed.links, pushed.tied⟩, fun {k} inside ↦ ?_⟩, later,
    Or.inr (entry_iff.mpr (Or.inl ⟨rfl, rfl⟩))⟩
  · rcases entry_iff.mp entry with ⟨rfl, rfl⟩ | entry
    · exact ⟨source, parts, tie, found, apart, get?_append_push_size _ _, Nat.le_add_right _ _,
        forall₂_turns_mono turnedParts later.done, rel_turns_mono turnedTie later.done⟩
    · obtain ⟨node, parts', tie', there, differ, copied, behind, turned, tied⟩ := pushed.done entry
      exact ⟨node, parts', tie', there, differ, copied, behind,
        forall₂_turns_mono turned later.done, rel_turns_mono tied later.done⟩
  · rw [Array.size_push] at inside
    rcases Nat.lt_succ_iff_lt_or_eq.mp inside with before | rfl
    · obtain ⟨i, entry⟩ := h.entered before
      exact ⟨i, later.done entry⟩
    · exact ⟨id.index, entry_iff.mpr (Or.inl ⟨rfl, rfl⟩)⟩

/-! ### Copying -/

theorem ends_addCopy {post : MatchId → Copies → Prop} {fault : Copies → Prop}
    (added : post ⟨t.nodes.size + s.nodes.size⟩ { s with nodes := s.nodes.push node }) :
    Ends (t.addCopy node) s post fault := added

/-- What a match leads to is copied before the match is. -/
theorem ends_links {γ : Type} (rank : MatchId → Nat) (bound : Nat)
    {work : MatchId → Copying MatchId} {rest : List MatchId → Option MatchId → Copying γ}
    {post : γ → Copies → Prop}
    (copied : Entered t s) (each : ∀ link ∈ node.links, ∀ s, Entered t s → Ends (work link) s
      (fun link' s' ↦ Entered t s' ∧ Later rank bound s s' ∧ t.Turns s' link link') fun _ ↦ False)
    (done : ∀ parts tie s', Entered t s' → Later rank bound s s' →
      List.Forall₂ (t.Turns s') node.parts parts → Option.Rel (t.Turns s') node.tiedWith tie →
        Ends (rest parts tie) s' post fun _ ↦ False) :
    Ends (do
      let parts ← node.parts.mapM work
      let tie ← node.tiedWith.mapM work
      rest parts tie) s post fun _ ↦ False := by
  refine Ends.bind ((Ends.mapM (fun before answers s' ↦ Entered t s' ∧ Later rank bound s s' ∧
    List.Forall₂ (t.Turns s') before answers) node.parts
    ⟨copied, Later.refl rank bound s, .nil⟩ ?_).mono (fun parts s₁ made ↦ ?_) fun _ failed ↦ failed)
  · rintro part among before answers s' ⟨copied', later, turned⟩
    refine (each part (List.mem_append_left _ among) s' copied').mono
      (fun id' s'' made ↦ ⟨made.1, later.trans made.2.1, ?_⟩) fun _ failed ↦ failed
    exact List.rel_append (forall₂_turns_mono turned made.2.1.done) (.cons made.2.2 .nil)
  · obtain ⟨copied₁, later₁, turned⟩ := made
    cases tied : node.tiedWith with
    | none =>
      refine Ends.bind (Ends.pure (done parts none s₁ copied₁ later₁ turned ?_))
      rw [tied]
      exact .none
    | some next =>
      refine Ends.bind (Ends.bind ((each next (MatchNode.mem_links_of_tied tied) s₁ copied₁).mono
        (fun next' s₂ made ↦ ?_) fun _ failed ↦ failed))
      obtain ⟨copied₂, later₂, turns⟩ := made
      refine Ends.pure (done parts (some next') s₂ copied₂ (later₁.trans later₂)
        (forall₂_turns_mono turned later₂.done) ?_)
      rw [tied]
      exact .some turns

/-- Links of rank below those of the matches under way are turned. The induction is on a bound of
the rank, for what a match leads to is of lower rank. -/
theorem ends_copy (orderly : t.Orderly) (ranked : ∀ {id link : MatchId} {node : MatchNode},
    t.get? id = some node → link ∈ node.links → rank link < rank id) (bound : Nat) :
    ∀ (underWay : List Nat) (id : MatchId) (s : Copies), rank id < bound →
      (∃ node, t.get? id = some node) → (∀ i ∈ underWay, rank id < rank ⟨i⟩) → Entered t s →
        Ends (t.copy underWay id) s
          (fun id' s' ↦ Entered t s' ∧ Later rank (rank id + 1) s s' ∧ t.Turns s' id id')
          fun _ ↦ False := by
  induction bound with
  | zero => exact fun _ _ _ below ↦ absurd below (Nat.not_lt_zero _)
  | succ bound ih =>
    rintro underWay id s below ⟨node, found⟩ above copied
    have inside := index_lt_of_get found
    have here : t.nodes[id.index] = node := (Array.getElem?_eq_some_iff.mp found).2
    rw [copy]
    refine Ends.bind (Ends.get ?_)
    split
    · exact Ends.pure ⟨copied, Later.refl rank _ s, Or.inr ‹_›⟩
    rename_i new
    rw [dif_pos inside]
    dsimp only
    rw [here]
    split_ifs with same busy
    · exact Ends.pure ⟨copied, Later.refl rank _ s, Or.inl ⟨node, found, same, rfl⟩⟩
    · exact absurd (above _ busy) (Nat.lt_irrefl _)
    refine ends_links rank (rank id) copied (fun link linked s copied ↦ ?_)
      fun parts tie s' copied' later turnedParts turnedTie ↦ ?_
    · have lower : rank link < rank id := ranked found linked
      refine (ih (id.index :: underWay) link s (by omega) (orderly.inside found linked) ?_
        copied).mono (fun _ _ made ↦ ⟨made.1, made.2.1.mono lower, made.2.2⟩) fun _ failed ↦ failed
      intro i inside
      rcases List.mem_cons.mp inside with rfl | inside
      · exact lower
      · exact Nat.lt_trans lower (above i inside)
    · have new' : s'.done[id.index]? = none := by
        refine Option.eq_none_iff_forall_ne_some.mpr fun id' entry ↦ ?_
        rcases later.low entry with entry | low
        · rw [new] at entry
          cases entry
        · exact Nat.lt_irrefl _ low
      obtain ⟨copied'', later', turns⟩ :=
        copied'.enter orderly found same turnedParts turnedTie new'
        (Nat.lt_succ_self (rank id)) _ rfl rfl
      have all := (later.mono (Nat.le_succ _)).trans later'
      exact Ends.bind (ends_addCopy (Ends.bind (Ends.modify (Ends.pure ⟨copied'', all, turns⟩))))

/-! ### The table with the copies -/

theorem Copied.exists_of_link (h : Copied t s) (orderly : t.Orderly) {k : Nat} {link : MatchId}
    (found : s.nodes[k]? = some node) (linked : link ∈ node.links) :
    ∃ other, (t.append s.nodes).get? link = some other := by
  rcases h.links found linked with ⟨behind, before⟩ | ⟨id, source, there, linked'⟩
  · rw [get?_append, if_neg (Nat.not_lt.mpr behind)]
    have inside := (Array.getElem?_eq_some_iff.mp found).1
    exact ⟨_, Array.getElem?_eq_getElem (by omega)⟩
  · obtain ⟨other, here⟩ := orderly.inside there linked'
    obtain ⟨other', here', -⟩ := extends_append s.nodes link other here
    exact ⟨other', here'⟩

/-- The table with the copies is orderly. A copy ranks above all matches that were there, and above
the copies that were made before it. -/
theorem Copied.orderly (h : Copied t s) (orderly : t.Orderly) : (t.append s.nodes).Orderly := by
  have old : ∀ {id node}, (t.append s.nodes).get? id = some node → id.index < t.nodes.size →
      t.get? id = some node := by
    intro id node found inside
    rwa [get?_append, if_pos inside] at found
  have new : ∀ {id node}, (t.append s.nodes).get? id = some node → ¬ id.index < t.nodes.size →
      s.nodes[id.index - t.nodes.size]? = some node := by
    intro id node found outside
    rwa [get?_append, if_neg outside] at found
  refine ⟨fun {id link node} found linked ↦ ?_, fun {id next node other} found tied there ↦ ?_, ?_⟩
  · by_cases inside : id.index < t.nodes.size
    · obtain ⟨other, there⟩ := orderly.inside (old found inside) linked
      obtain ⟨other', there', -⟩ := extends_append s.nodes link other there
      exact ⟨other', there'⟩
    · exact h.exists_of_link orderly (new found inside) linked
  · by_cases inside : id.index < t.nodes.size
    · obtain ⟨before, there'⟩ :=
        orderly.inside (old found inside) (MatchNode.mem_links_of_tied tied)
      have same : before = other := by
        have after := there
        rw [get?_append, if_pos (index_lt_of_get there'), there'] at after
        exact Option.some.inj after
      exact same ▸ orderly.tied (old found inside) tied there'
    · obtain ⟨other', there', rest⟩ := h.tied (new found inside) tied
      rw [there] at there'
      cases there'
      exact rest
  · obtain ⟨rank, ranked⟩ := orderly.ranked
    obtain ⟨bound, bounded⟩ := exists_bound rank ((List.range t.nodes.size).map MatchId.mk)
    have below : ∀ {id : MatchId}, id.index < t.nodes.size → rank id < bound := fun {id} inside ↦
      bounded id (List.mem_map.mpr ⟨id.index, List.mem_range.mpr inside, rfl⟩)
    refine ⟨fun id ↦ if id.index < t.nodes.size then rank id else bound + id.index,
      fun {id link node} found linked ↦ ?_⟩
    dsimp only
    by_cases inside : id.index < t.nodes.size
    · obtain ⟨other, there⟩ := orderly.inside (old found inside) linked
      rw [if_pos inside, if_pos (index_lt_of_get there)]
      exact ranked (old found inside) linked
    · rw [if_neg inside]
      rcases h.links (new found inside) linked with ⟨behind, before⟩ | ⟨id', source, there, linked'⟩
      · rw [if_neg (Nat.not_lt.mpr behind)]
        omega
      · obtain ⟨other, here⟩ := orderly.inside there linked'
        rw [if_pos (index_lt_of_get here)]
        have := below (index_lt_of_get here)
        omega

theorem Copied.grows (h : Copied t s) : Grows t (t.append s.nodes) := by
  refine ⟨extends_append s.nodes, fun id ⟨⟨node, found, untied⟩, unheld⟩ ↦ ?_⟩
  have inside := index_lt_of_get found
  refine ⟨⟨node, ?_, untied⟩, fun held ↦ unheld ?_⟩
  · rw [get?_append, if_pos inside]
    exact found
  · rcases (held_quiet (quiet_append s.nodes)).mp held with memo | identity | sentinel | link
    · exact Or.inl memo
    · exact Or.inr (Or.inl identity)
    · exact Or.inr (Or.inr (Or.inl sentinel))
    · obtain ⟨other, source, there, linked⟩ := link
      rw [get?_append] at there
      split_ifs at there
      · exact Or.inr (Or.inr (Or.inr ⟨other, source, there, linked⟩))
      · rcases h.links there linked with ⟨behind, -⟩ | linked
        · exact absurd inside (Nat.not_lt.mpr behind)
        · exact Or.inr (Or.inr (Or.inr linked))

/-- The copy of a match shows its finding from the other side. -/
theorem Copied.shows (h : Copied t s) (turns : t.Turns s id id') (shows : t.Shows id finding) :
    (t.append s.nodes).Shows id' finding.mirror := by
  induction finding using Finding.induction generalizing id id' with
  | step finding inner =>
    obtain ⟨found, here, alone, parts⟩ := shows_iff.mp shows
    rw [Finding.mirror_eq]
    rcases turns with ⟨node, here', same, rfl⟩ | entry
    · rw [here] at here'
      cases here'
      rw [if_pos (by rw [← alone]; exact same)]
      exact shows.extend (extends_append s.nodes)
    · obtain ⟨node, parts', tie, here', apart, copied, -, turned, -⟩ := h.done entry
      rw [show t.get? ⟨id.index⟩ = t.get? id from rfl, here] at here'
      cases here'
      rw [if_neg (by rw [← alone]; exact apart), ← alone]
      refine shows_iff.mpr ⟨_, copied, rfl, List.forall₂_map_right_iff.mpr ?_⟩
      exact forall₂_join turned parts fun part inside _ _ turns shows ↦
        inner part inside turns shows

end Matchings

open Matchings

/-- In an orderly table the reversal of a match is the last of copies whose links are turned. -/
theorem Matching.ends_reverse_copied (orderly : t.Orderly) (found : t.get? id = some node)
    (left right : SortId) : Ends (reverse id left right) t
      (fun reversal t' ↦ ∃ s parts tie, Entered t s ∧ List.Forall₂ (t.Turns s) node.parts parts ∧
        Option.Rel (t.Turns s) node.tiedWith tie ∧
        t' = t.append (s.nodes.push (node.mirrored left right parts tie)) ∧
        reversal = ⟨t.nodes.size + s.nodes.size⟩) fun _ ↦ False := by
  obtain ⟨rank, ranked⟩ := orderly.ranked
  have inside := index_lt_of_get found
  have here : t.nodes[id.index] = node := (Array.getElem?_eq_some_iff.mp found).2
  have copied : Ends (t.copies id left right) ⟨#[], ∅⟩ (fun reversal copies ↦ ∃ s parts tie,
      Entered t s ∧ List.Forall₂ (t.Turns s) node.parts parts ∧
        Option.Rel (t.Turns s) node.tiedWith tie ∧
        t.append copies.nodes = t.append (s.nodes.push (node.mirrored left right parts tie)) ∧
        reversal = ⟨t.nodes.size + s.nodes.size⟩) fun _ ↦ False := by
    unfold copies
    rw [dif_pos inside]
    dsimp only
    rw [here]
    refine ends_links rank (rank id) (entered_nil t) (fun link linked s copied ↦ ?_)
      fun parts tie s copied _ turnedParts turnedTie ↦ ends_addCopy
        ⟨s, parts, tie, copied, turnedParts, turnedTie, rfl, rfl⟩
    have lower : rank link < rank id := ranked found linked
    refine (ends_copy orderly ranked _ [id.index] link s (Nat.lt_succ_self _)
      (orderly.inside found linked) (fun i busy ↦ ?_) copied).mono
        (fun _ _ made ↦ ⟨made.1, made.2.1.mono lower, made.2.2⟩) fun _ failed ↦ failed
    obtain rfl := List.mem_singleton.mp busy
    exact lower
  unfold Ends at copied ⊢
  unfold reverse
  cases run : t.copies id left right ⟨#[], ∅⟩ with
  | ok reversal copies =>
    rw [run] at copied
    exact copied
  | error reason copies =>
    rw [run] at copied
    exact copied

/-- The reversal of a match that is held shows its finding from the other side. -/
theorem Matching.ends_reverse_turned (h : t.Renders c memory) (shows : t.Shows id finding)
    (left right : SortId) : Ends (reverse id left right) t
      (fun reversal t' ↦ t'.Renders c memory ∧ Grows t t' ∧
        t'.Shows reversal (finding.turned left right) ∧ t.get? reversal = none) fun _ ↦ False := by
  obtain ⟨node, found, alone, parts⟩ := shows_iff.mp shows
  refine (ends_reverse_copied h.orderly found left right).mono (fun reversal t' made ↦ ?_)
    fun _ failed ↦ failed
  obtain ⟨s, parts', tie, copied, turnedParts, turnedTie, rfl, rfl⟩ := made
  have pushed := copied.push h.orderly found turnedParts turnedTie left right
  refine ⟨h.quiet (quiet_append _) (pushed.orderly h.orderly), pushed.grows, ?_,
    Array.getElem?_eq_none (Nat.le_add_right _ _)⟩
  refine shows_iff.mpr ⟨_, get?_append_push_size _ _, ?_, ?_⟩
  · rw [Finding.turned, ← alone]
    rfl
  · have shown := List.forall₂_map_right_iff.mpr
      (forall₂_join turnedParts parts fun _ _ _ _ turns ↦ copied.shows turns)
    exact ShowsAll.extend shown fun _ node found ↦ ⟨node, get?_append_push found _, rfl⟩

end CompositeSorts
