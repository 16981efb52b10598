import CompositeSorts.Proofs.Catalog.Sound
import CompositeSorts.Proofs.Matching.Guarding
import CompositeSorts.Proofs.Matching.RuleRendering

/-!
What a table remembers. Only the function that relates two sorts enters anything into a table: the
match of a sort with itself, the match of a pair that is under way, and what it has just computed.
Whatever it answers is held by the table from then on. So matching in a table answers a match that
shows the finding which matching in terms of findings answers, and the table remembers afterwards
what the memory does (`rendering_relate`); how the registry is configured makes no difference to
either.
-/

set_option autoImplicit false
set_option relaxedAutoImplicit false

namespace CompositeSorts

open Matchings Matching

variable {c : Catalog} {config : Configuration} {t t' u : Matchings} {id : MatchId}
  {memory : Memory} {relate : Relate} {plain : Appraiser} {l r : SortRecord} {finding : Finding}
  {key : PairKey}

theorem follows_forVariants (inside : Rendering c relate plain) (differ : l.id ≠ r.id)
    (h : t.Renders c memory) :
    Follows (Rule.forVariants c config relate l r) (Appraisal.forVariants c plain l r) t memory
      (Made c t) (Reached c t) := by
  have here : Reached c t t memory := .refl h
  unfold Rule.forVariants Appraisal.forVariants
  cases left : l.body <;> cases right : r.body <;> dsimp only
  case aspects.aspects => exact follows_tuples here
  case aspects.primitive | aspects.aspect | aspects.weighted | aspects.disjunctive |
      aspects.recursive | primitive.aspects | aspect.aspects | weighted.aspects |
      disjunctive.aspects | recursive.aspects => exact Follows.throw here
  case recursive.recursive =>
    split_ifs
    · exact follows_exchanged inside h
    · exact follows_recursive inside h _
  case recursive.primitive | recursive.aspect | recursive.weighted | recursive.disjunctive =>
    exact follows_recursive inside h _
  case disjunctive.disjunctive =>
    split_ifs
    · exact follows_exchanged inside h
    · exact follows_composition inside h _ _
  case disjunctive.primitive | disjunctive.aspect | disjunctive.weighted =>
    exact follows_disjunction differ inside h _
  case weighted.weighted =>
    split_ifs
    · exact follows_exchanged inside h
    · exact follows_weighted differ inside h _ _ _ _
  case weighted.primitive | weighted.aspect =>
    exact follows_weightedBesideSimple differ inside h _ _
  case primitive.recursive | aspect.recursive | weighted.recursive | disjunctive.recursive |
      primitive.disjunctive | aspect.disjunctive | weighted.disjunctive | primitive.weighted |
      aspect.weighted => exact follows_exchanged inside h
  case primitive.primitive => exact follows_primitives here _ _
  case aspect.aspect =>
    split_ifs
    · exact follows_exchanged inside h
    · exact follows_aspects differ inside h _ _ _ _
  case primitive.aspect | aspect.primitive => exact follows_incongruous here .nil

/-! ### Entering a match -/

namespace Matchings

/-- The tables have the same nodes, and what the second remembers the first did, or it is one of
these matches. -/
structure Enters (t t' : Matchings) (ids : List MatchId) : Prop where
  nodes : t'.nodes = t.nodes
  memo : ∀ {key : PairKey} {id : MatchId}, t'.memo[key]? = some id →
    t.memo[key]? = some id ∨ id ∈ ids
  identities : ∀ {sort : SortId} {id : MatchId}, t'.identities[sort]? = some id →
    t.identities[sort]? = some id ∨ id ∈ ids
  sentinels : ∀ {key : PairKey} {id : MatchId}, t'.sentinels[key]? = some id →
    t.sentinels[key]? = some id ∨ id ∈ ids

namespace Enters

variable {ids : List MatchId}

theorem get? (h : Enters t t' ids) (id : MatchId) : t'.get? id = t.get? id := by
  unfold Matchings.get?
  rw [h.nodes]

theorem nodes_kept (h : Enters t t' ids) : Extends t t' :=
  fun id node found ↦ ⟨node, (h.get? id).trans found, rfl⟩

theorem orderly (h : Enters t t' ids) (before : t.Orderly) : t'.Orderly := by
  obtain ⟨rank, ranked⟩ := before.ranked
  refine ⟨fun found link ↦ ?_, fun found tie found' ↦ ?_, rank, fun found link ↦ ?_⟩
  · rw [h.get?] at found ⊢
    exact before.inside found link
  · rw [h.get?] at found found'
    exact before.tied found tie found'
  · rw [h.get?] at found
    exact ranked found link

theorem held (h : Enters t t' ids) (held : t'.Held id) : t.Held id ∨ id ∈ ids := by
  rcases held with ⟨key, entry⟩ | ⟨sort, entry⟩ | ⟨key, entry⟩ | ⟨other, node, found, link⟩
  · exact (h.memo entry).imp_left fun before ↦ Or.inl ⟨key, before⟩
  · exact (h.identities entry).imp_left fun before ↦ Or.inr (Or.inl ⟨sort, before⟩)
  · exact (h.sentinels entry).imp_left fun before ↦ Or.inr (Or.inr (Or.inl ⟨key, before⟩))
  · rw [h.get?] at found
    exact Or.inl (Or.inr (Or.inr (Or.inr ⟨other, node, found, link⟩)))

/-- Matches can be entered that are not loose. -/
theorem grows (h : Enters t t' ids) (before : Grows u t) (free : ∀ id ∈ ids, ¬ u.Loose id) :
    Grows u t' := by
  refine ⟨before.nodes.trans h.nodes_kept, fun id loose ↦ ?_⟩
  obtain ⟨⟨node, found, untied⟩, unheld⟩ := before.loose id loose
  refine ⟨⟨node, (h.get? id).trans found, untied⟩, fun held ↦ ?_⟩
  rcases h.held held with held | entered
  · exact unheld held
  · exact free id entered loose

end Enters

/-- A table with the same nodes that remembers the same is as good. -/
theorem Reached.of_same (h : Reached c u t memory) (nodes : t'.nodes = t.nodes)
    (memo : t'.memo = t.memo) (identities : t'.identities = t.identities)
    (sentinels : t'.sentinels = t.sentinels) : Reached c u t' memory := by
  have enters : Enters t t' [] := ⟨nodes, fun entry ↦ Or.inl (memo ▸ entry),
    fun entry ↦ Or.inl (identities ▸ entry), fun entry ↦ Or.inl (sentinels ▸ entry)⟩
  exact ⟨h.renders.quiet ⟨memo, identities, sentinels, enters.nodes_kept⟩
    (enters.orderly h.renders.orderly), enters.grows h.grows fun _ inside ↦ by cases inside⟩

/-- Counting and noting something changes nothing that is remembered. -/
theorem Reached.counted (h : Reached c u t memory) (metrics : Metrics) (journal : List Event) :
    Reached c u { t with metrics, journal } memory := h.of_same rfl rfl rfl rfl

/-- A match that is new is not loose before. -/
theorem not_loose_of_new (new : t.get? id = none) : ¬ t.Loose id := by
  rintro ⟨⟨node, found, -⟩, -⟩
  rw [new] at found
  cases found

/-- What is entered under a key is found under it, and the rest is as it was. -/
theorem entry_insert {κ : Type} {order : κ → κ → Ordering} [Std.TransCmp order]
    {entries : Std.ExtTreeMap κ MatchId order} {key other : κ} {id known : MatchId}
    (entry : (entries.insert key id)[other]? = some known) :
    entries[other]? = some known ∨ known ∈ [id] := by
  rw [Std.ExtTreeMap.getElem?_insert] at entry
  split_ifs at entry
  · cases entry
    exact Or.inr List.mem_cons_self
  · exact Or.inl entry

end Matchings

/-! ### Relating -/

theorem follows_identity (found : c.get l.id = .ok l) (h : t.Renders c memory) :
    Follows (identity l) (pure (.identity l) : Appraisal Finding) t memory (Answer c t)
      (Reached c t) := by
  refine Follows.last (Ends.bind (Ends.get ?_))
  split
  · rename_i id entry
    obtain ⟨s, found', shows⟩ := h.identities entry
    obtain rfl : l = s := Except.ok.inj (found.symm.trans found')
    exact Ends.pure ⟨.refl h, shows, Or.inr (Or.inl ⟨_, entry⟩)⟩
  · refine Ends.bind ((ends_push_made (.refl h) rfl .nil).mono (fun id t₁ pushed ↦ ?_)
      fun _ failed ↦ failed)
    obtain ⟨made, -⟩ := pushed
    refine Ends.bind (Ends.modify (Ends.pure ?_))
    have enters : Enters t₁ { t₁ with identities := t₁.identities.insert l.id id } [id] :=
      ⟨rfl, Or.inl, entry_insert, Or.inl⟩
    have shows := made.shows.extend enters.nodes_kept
    refine ⟨⟨?_, enters.grows made.grows fun _ inside ↦ ?_⟩, shows, Or.inr (Or.inl ⟨l.id, ?_⟩)⟩
    · refine ⟨enters.orderly made.renders.orderly, enters.nodes_kept.memo rfl made.renders.memo,
        fun {sort other} entry ↦ ?_, fun entry ↦ ?_, made.renders.broken⟩
      · dsimp only at entry
        rw [Std.ExtTreeMap.getElem?_insert] at entry
        split_ifs at entry with same
        · rw [Std.LawfulEqCmp.compare_eq_iff_eq] at same
          cases entry
          exact ⟨l, same ▸ found, shows⟩
        · exact made.renders.identity_later enters.nodes_kept entry
      · exact made.renders.pending_later enters.nodes_kept entry
    · exact List.mem_singleton.mp inside ▸ not_loose_of_new made.new
    · exact Std.ExtTreeMap.getElem?_insert_self

/-- The table keeps what was said of a pair under way. -/
theorem Matchings.Answer.broken (h : Answer c u id finding t memory)
    (entry : t.sentinels[key]? = some id) :
    Answer c u id finding t { memory with broken := true } :=
  ⟨⟨⟨h.renders.orderly, h.renders.memo, h.renders.identities, h.renders.sentinels,
    fun _ ↦ ⟨key, id, entry⟩⟩, h.grows⟩, h.shows, h.held⟩

theorem follows_breakCycle (left : c.get l.id = .ok l) (right : c.get r.id = .ok r)
    (h : t.Renders c memory) :
    Follows (Matching.breakCycle key l r) (Appraisal.breakCycle l r) t memory (Answer c t)
      (Reached c t) := by
  have noted : Reached c t ({ t with metrics := t.metrics.recordCycle }.note
      (.cycleBroken l.id r.id)) memory := (Reached.refl h).counted _ _
  refine Follows.answer rfl (Ends.bind (Ends.modify (Ends.bind (Ends.get ?_))))
  dsimp only
  generalize ({ t with metrics := t.metrics.recordCycle }.note (.cycleBroken l.id r.id)) =
    t₁ at noted
  split
  · rename_i id known
    obtain ⟨entry, sides⟩ := Option.filter_eq_some_iff.mp known
    obtain ⟨l', r', left', right', shows⟩ := noted.renders.sentinels entry
    obtain ⟨node, parts, found, finds, -⟩ := shows.exists_node
    rw [found] at sides
    have alone : node.alone = _ := (congrArg Finding.node finds).symm
    have isLeft : node.left = l'.id := congrArg MatchNode.left alone
    have isRight : node.right = r'.id := congrArg MatchNode.right alone
    dsimp only at sides
    rw [isLeft, isRight, Bool.and_eq_true, decide_eq_true_eq, decide_eq_true_eq] at sides
    rw [sides.1, left] at left'
    rw [sides.2, right] at right'
    cases left'
    cases right'
    have answer : Answer c t id _ t₁ memory :=
      ⟨noted, shows, Or.inr (Or.inr (Or.inl ⟨key, entry⟩))⟩
    exact Ends.pure (answer.broken entry)
  · refine Ends.bind ((ends_push_made noted rfl .nil).mono (fun id t₂ pushed ↦ ?_)
      fun _ failed ↦ failed)
    obtain ⟨made, -⟩ := pushed
    refine Ends.bind (Ends.modify (Ends.pure ?_))
    have enters : Enters t₂ { t₂ with sentinels := t₂.sentinels.insert key id } [id] :=
      ⟨rfl, Or.inl, Or.inl, entry_insert⟩
    have shows := made.shows.extend enters.nodes_kept
    have entry : (t₂.sentinels.insert key id)[key]? = some id := Std.ExtTreeMap.getElem?_insert_self
    refine Answer.broken ⟨⟨?_, enters.grows made.grows fun _ inside ↦ ?_⟩, shows,
      Or.inr (Or.inr (Or.inl ⟨key, entry⟩))⟩ entry
    · refine ⟨enters.orderly made.renders.orderly, enters.nodes_kept.memo rfl made.renders.memo,
        made.renders.identity_later enters.nodes_kept, fun {key' other} entry' ↦ ?_,
        fun _ ↦ ⟨key, id, entry⟩⟩
      dsimp only at entry'
      rw [Std.ExtTreeMap.getElem?_insert] at entry'
      split_ifs at entry'
      · cases entry'
        exact ⟨l, r, left, right, shows⟩
      · exact made.renders.pending_later enters.nodes_kept entry'
    · exact List.mem_singleton.mp inside ▸ not_loose_of_new made.new

theorem ends_lookUp_reached (h : t.Renders c memory) :
    Ends (lookUp key) t (fun known t' ↦ Reached c t t' memory ∧ t'.memo[key]? = known)
      fun _ ↦ False := by
  refine Ends.bind (Ends.get ?_)
  split
  · exact Ends.bind (Ends.modify (Ends.pure ⟨(Reached.refl h).counted _ _, ‹_›⟩))
  · exact Ends.bind (Ends.modify (Ends.pure ⟨(Reached.refl h).counted _ _, ‹_›⟩))

/-- A computation is carried out while a pair is under way. -/
theorem follows_during {α β : Type} {m : Matching α} {p : Appraisal β}
    {post : α → β → Matchings → Memory → Prop} {fault : Matchings → Memory → Prop}
    (h : Follows m p (t.begin key) memory (fun a b t' memory' ↦ post a b (t'.finish key) memory')
      fun t' memory' ↦ fault (t'.finish key) memory') :
    Follows (during key m) p t memory post fault := by
  unfold Follows at h ⊢
  unfold during
  cases told : p memory with
  | ok b memory' =>
    rw [told] at h
    obtain ⟨a, t', run, reached⟩ := h
    rw [run]
    exact ⟨a, t'.finish key, rfl, reached⟩
  | error reason memory' =>
    rw [told] at h
    obtain ⟨t', run, reached⟩ := h
    rw [run]
    exact ⟨t'.finish key, rfl, reached⟩

theorem follows_remember (made : Made c u id finding t memory) (free : t.memo[key]? = none) :
    Follows (Matching.remember config key id) (Appraisal.remember key finding) t memory (Answer c u)
      (Reached c u) := by
  have same := made.renders.memo key
  refine Follows.step (Ends.get (Follows.read ?_))
  rw [free] at same ⊢
  generalize memory.known key = known at same
  cases same with
  | none =>
    have enters : Enters t
        { t with memo := t.memo.insert key id, metrics := t.metrics.recordComputed } [id] :=
      ⟨rfl, entry_insert, Or.inl, Or.inl⟩
    have shows := made.shows.extend enters.nodes_kept
    refine Follows.answer rfl (Ends.bind (Ends.modify (Ends.pure
      ⟨⟨⟨enters.orderly made.renders.orderly, fun key' ↦ ?_,
        made.renders.identity_later enters.nodes_kept, made.renders.pending_later enters.nodes_kept,
        made.renders.broken⟩, enters.grows made.grows fun _ inside ↦ ?_⟩, shows,
        Or.inl ⟨key, Std.ExtTreeMap.getElem?_insert_self⟩⟩)))
    · unfold Memory.learn
      dsimp only
      rw [Std.ExtTreeMap.getElem?_insert]
      by_cases same : key = key'
      · subst same
        rw [if_pos Std.ReflCmp.compare_self, Function.update_self]
        exact .some shows
      · rw [if_neg (same ∘ Std.LawfulEqCmp.eq_of_compare), Function.update_of_ne (Ne.symm same)]
        exact enters.nodes_kept.rel_shows (made.renders.memo key')
    · exact List.mem_singleton.mp inside ▸ not_loose_of_new made.new

/-- Matching in a table is matching in terms of findings. -/
theorem rendering_relate (rooted : c.Rooted) (config : Configuration) (underWay : List PairKey) :
    Rendering c (Matching.relate c config underWay) (Appraisal.relate c underWay) := by
  intro left right t memory h
  rw [Matching.relate]
  split
  · rename_i reason missing
    rw [Appraisal.relate_of_missing_left missing]
    exact Follows.throw (.refl h)
  · rename_i reason found missing
    rw [Appraisal.relate_of_missing_right found missing]
    exact Follows.throw (.refl h)
  rename_i l r foundLeft foundRight
  rw [Appraisal.relate_of_found foundLeft foundRight]
  have atLeft : l.id = left := rooted.placed foundLeft
  have atRight : r.id = right := rooted.placed foundRight
  have isLeft : c.get l.id = .ok l := atLeft ▸ foundLeft
  have isRight : c.get r.id = .ok r := atRight ▸ foundRight
  by_cases same : left = right
  · rw [if_pos same, if_pos same]
    exact follows_identity isLeft h
  rw [if_neg same, if_neg same]
  dsimp only
  by_cases idle : (⟨l.display, r.display⟩ : PairKey) ∈ underWay
  · rw [dif_pos idle, if_pos idle]
    exact follows_breakCycle isLeft isRight h
  rw [dif_neg idle, if_neg idle]
  refine Follows.step ((ends_lookUp_reached h).mono (fun known t₁ looked ↦ ?_)
    fun _ failed ↦ failed)
  obtain ⟨reached, rfl⟩ := looked
  have remembered := reached.renders.memo ⟨l.display, r.display⟩
  refine Follows.read ?_
  generalize entry : t₁.memo[(⟨l.display, r.display⟩ : PairKey)]? = held at remembered
  generalize memory.known ⟨l.display, r.display⟩ = known at remembered
  cases remembered with
  | some shows => exact Follows.pure ⟨reached, shows, Or.inl ⟨_, entry⟩⟩
  | none =>
    let key : PairKey := ⟨l.display, r.display⟩
    have inside := rendering_relate rooted config (key :: underWay)
    have differ : l.id ≠ r.id := by rwa [atLeft, atRight]
    have guarded : Respects (Guarded (key :: underWay)) (Rule.forVariants c config
        (Matching.relate c config (key :: underWay)) l r) :=
      respects_forVariants (tolerant_guarded _) (guarded_relate c config _) l r
    have begun : Reached c t (t₁.begin key) memory := reached.of_same rfl rfl rfl rfl
    refine Follows.bind (follows_during (((follows_forVariants inside differ begun.renders).and
      (guarded _)).mono (fun id finding t₂ memory₂ made ↦ ?_) fun t₂ memory₂ failed ↦ ?_))
    · obtain ⟨made, kept⟩ := made
      have ended : Reached c (t₁.begin key) (t₂.finish key) memory₂ :=
        made.toReached.of_same rfl rfl rfl rfl
      have later : Extends t₂ (t₂.finish key) := (quiet_finish t₂ key).nodes
      exact follows_remember ⟨ended.since begun.grows, made.shows.extend later,
        begun.grows.nodes.get?_eq_none made.new⟩
        (kept.new entry)
    · exact (failed.1.since begun.grows).of_same rfl rfl rfl rfl
termination_by (unvisited c.pairKeys underWay).length
decreasing_by
  exact length_unvisited_cons_lt (Catalog.pairKey_mem_pairKeys ‹_› ‹_›) ‹_›

end CompositeSorts
