import CompositeSorts.Proofs.Matching.Guarding
import CompositeSorts.Proofs.Matching.Rendered
import CompositeSorts.Proofs.Matching.MatchLinks

/-!
What is remembered is sheltered. Matching remembers sheltered matches for the displays of their
sorts, and answers with such matches (`sheltering_relate`): the sorts a rule asks about are among
those its sorts lead to, and what it is told of them is of sorts that display as they do.

This lasts when sorts are removed, unless there is a match of a removed sort that displays as a sort
which stays (`Secure.forget`).
-/

set_option autoImplicit false
set_option relaxedAutoImplicit false

namespace CompositeSorts

open Catalog Matchings Matching Rule

variable {c d : Catalog} {categories : CategoryTable} {config : Configuration} {t t' : Matchings}
  {id : MatchId} {l r sort : SortRecord} {left right : SortId} {node : MatchNode}

/-! ### What is remembered -/

namespace Matchings

/-- The match is sheltered, and of sorts that display as these do. -/
def Answering (c : Catalog) (left right : SortId) (t : Matchings) (id : MatchId) : Prop :=
  Sheltered c t id ∧ ∃ node, t.get? id = some node ∧ c.SameDisplay left node.left ∧
    c.SameDisplay right node.right

/-- What is remembered is sheltered, and of sorts of the displays for which it is remembered. -/
structure Secure (c : Catalog) (t : Matchings) : Prop where
  memo : ∀ {key : PairKey} {id : MatchId}, t.memo[key]? = some id → ∃ left right l r,
    c.get left = .ok l ∧ c.get right = .ok r ∧ key = ⟨l.display, r.display⟩ ∧
      Answering c left right t id
  identities : ∀ {sort : SortId} {id : MatchId}, t.identities[sort]? = some id →
    Answering c sort sort t id
  sentinels : ∀ {key : PairKey} {id : MatchId}, t.sentinels[key]? = some id → Sheltered c t id

theorem Answering.later (h : Answering c left right t id) (later : Shelters c t t') :
    Answering c left right t' id := by
  obtain ⟨sheltered, node, found, isLeft, isRight⟩ := h
  obtain ⟨node', found', same⟩ := later.1 id node found
  obtain ⟨sameLeft, sameRight⟩ := MatchNode.sides_of_untied same
  exact ⟨later.2 id sheltered, node', found', sameLeft ▸ isLeft, sameRight ▸ isRight⟩

theorem Answering.of_labelled (sheltered : Sheltered c t id) (labelled : Labelled left right t id)
    (isLeft : c.Live left) (isRight : c.Live right) : Answering c left right t id := by
  obtain ⟨node, found, rfl, rfl⟩ := labelled
  exact ⟨sheltered, node, found, .refl isLeft, .refl isRight⟩

/-- What is remembered for the displays of two sorts is an answer for them. -/
theorem Secure.answering (h : Secure c t) (foundLeft : c.get left = .ok l)
    (foundRight : c.get right = .ok r)
    (entry : t.memo[(⟨l.display, r.display⟩ : PairKey)]? = some id) :
    Answering c left right t id := by
  obtain ⟨left', right', l', r', foundLeft', foundRight', shown, sheltered, node, found, isLeft,
    isRight⟩ := h.memo entry
  obtain ⟨sameLeft, sameRight⟩ := PairKey.mk.inj shown
  exact ⟨sheltered, node, found, .trans ⟨l, l', foundLeft, foundLeft', sameLeft⟩ isLeft,
    .trans ⟨r, r', foundRight, foundRight', sameRight⟩ isRight⟩

theorem secure_empty (c : Catalog) : Secure c empty where
  memo entry := by simp [empty] at entry
  identities entry := by simp [empty] at entry
  sentinels entry := by simp [empty] at entry

theorem Secure.quiet (h : Secure c t) (quiet : Quiet t t') (later : Shelters c t t') :
    Secure c t' where
  memo entry := by
    obtain ⟨left, right, l, r, foundLeft, foundRight, shown, answering⟩ :=
      h.memo (quiet.memo ▸ entry)
    exact ⟨left, right, l, r, foundLeft, foundRight, shown, answering.later later⟩
  identities entry := (h.identities (quiet.identities ▸ entry)).later later
  sentinels entry := later.2 _ (h.sentinels (quiet.sentinels ▸ entry))

theorem Secure.insert (h : Secure c t) (foundLeft : c.get left = .ok l)
    (foundRight : c.get right = .ok r) (answering : Answering c left right t id)
    (metrics : Metrics) :
    Secure c { t with memo := t.memo.insert ⟨l.display, r.display⟩ id, metrics := metrics } := by
  have same : Shelters c t { t with
      memo := t.memo.insert ⟨l.display, r.display⟩ id, metrics := metrics } := .of_nodes rfl
  refine ⟨fun {key known} entry ↦ ?_, fun entry ↦ (h.identities entry).later same,
    fun entry ↦ same.2 _ (h.sentinels entry)⟩
  change (t.memo.insert _ id)[key]? = some known at entry
  rw [Std.ExtTreeMap.getElem?_insert] at entry
  split at entry
  · rename_i equal
    rw [Std.LawfulEqCmp.compare_eq_iff_eq] at equal
    subst equal
    cases entry
    exact ⟨left, right, l, r, foundLeft, foundRight, rfl, answering.later same⟩
  · obtain ⟨left, right, l, r, foundLeft, foundRight, shown, answering⟩ := h.memo entry
    exact ⟨left, right, l, r, foundLeft, foundRight, shown, answering.later same⟩

end Matchings

/-- The table stays secure, and what is sheltered in it stays so. -/
abbrev Secured (c : Catalog) : Matchings → Matchings → Prop :=
  Routine.Upheld (Secure c) (Shelters c)

theorem Secured.of_quiet (h : Secure c t) (quiet : Quiet t t') (later : Shelters c t t') :
    Secured c t t' := ⟨h.quiet quiet later, later⟩

/-- The match is sheltered, and of sorts that the two sorts involve. -/
def Matchings.Told (c : Catalog) (left right : SortId) (t : Matchings) (id : MatchId) : Prop :=
  Sheltered c t id ∧ ∃ node, t.get? id = some node ∧ c.Involves left right node.left ∧
    c.Involves left right node.right

/-- The match is sheltered, and of these two sorts. -/
def Matchings.Ours (c : Catalog) (left right : SortId) (t : Matchings) (id : MatchId) : Prop :=
  Sheltered c t id ∧ Labelled left right t id

/-- The steps of a rule keep the table secure. -/
theorem upholds_secure (config : Configuration) (isLeft : c.Live l.id)
    (isRight : c.Live r.id) :
    Routine.Upholds config l r (Secure c) (Shelters c) (Told c l.id r.id) (Ours c l.id r.id) where
  refl := Shelters.refl
  trans := Shelters.trans
  told later known := by
    obtain ⟨sheltered, node, found, involved, involved'⟩ := known
    obtain ⟨node', found', same⟩ := later.1 _ node found
    obtain ⟨sameLeft, sameRight⟩ := MatchNode.sides_of_untied same
    exact ⟨later.2 _ sheltered, node', found', sameLeft ▸ involved, sameRight ▸ involved'⟩
  made later own := ⟨later.2 _ own.1, own.2.extend later.1⟩
  alternative known inside := by
    obtain ⟨sheltered, node, found, involved, involved'⟩ := known
    obtain ⟨sheltered', other, there, cognate⟩ := cognate_of_alternative sheltered found inside
    have across {sort : SortId} {side : SortId} (involved : c.Involves l.id r.id side)
        (same : c.SameDisplay side sort) : c.Involves l.id r.id sort := by
      obtain ⟨part, reaches, shown⟩ := involved
      exact ⟨part, reaches, shown.trans same⟩
    rcases cognate with ⟨left, right⟩ | ⟨left, right⟩
    · exact ⟨sheltered', other, there, across involved left, across involved' right⟩
    · exact ⟨sheltered', other, there, across involved' right, across involved left⟩
  push {t node} here composed known := by
    have housed : Housed c t (Sheltered c t) node := by
      refine ⟨composed.left ▸ isLeft, composed.right ▸ isRight, fun part inside ↦ ?_,
        fun tie isTie ↦ ?_⟩
      · rw [composed.left, composed.right]
        exact known part inside
      · rw [composed.untied] at isTie
        cases isTie
    obtain ⟨later, sheltered⟩ := shelters_push housed
    exact ⟨here.quiet (quiet_push node) later, later, sheltered,
      labelled_push composed.left composed.right⟩
  tie {t head alternative last} here own own' ends metrics journal _ := by
    obtain ⟨sheltered, node, found, left, right⟩ := own
    obtain ⟨sheltered', node', found', left', right'⟩ := own'
    obtain ⟨other, there, cognate⟩ := cognate_of_chainEnd sheltered found ends
    have later := shelters_tie metrics journal sheltered' found' there
      (cognate.symm.trans (by
        unfold Catalog.Cognate
        rw [left, right, left', right']
        exact Or.inl ⟨.refl isLeft, .refl isRight⟩))
    exact Secured.of_quiet here (still_tie last alternative metrics journal).toQuiet later

/-- Matching keeps the table secure, and answers for the sorts that it matches. -/
abbrev Sheltering (c : Catalog) (relate : Relate) : Prop := ∀ left right t, Secure c t →
  Ends (relate left right) t (fun id t' ↦ Secured c t t' ∧ Answering c left right t' id)
  (Secured c t)

/-- The reversal of the match of the exchanged pair is sheltered. -/
theorem secured_exchanged (rested : c.Rested) (suited : Suited categories c) {relate : Relate}
    (inside : Sheltering c relate) (here : Secure c t) : Ends (exchanged relate l r) t
      (fun id t' ↦ Secured c t t' ∧ Ours c l.id r.id t' id) (Secured c t) := by
  refine Ends.bind ((inside r.id l.id t here).mono (fun forward t' made ↦ ?_) fun _ failed ↦ failed)
  obtain ⟨⟨now, since⟩, sheltered, node, found, isRight, isLeft⟩ := made
  refine (shelters_reverse rested suited sheltered found isLeft.symm isRight.symm).mono
    (fun id t'' reversed ↦ ?_) fun _ failed ↦ failed.elim
  obtain ⟨quiet, later, own⟩ := reversed
  exact ⟨⟨now.quiet quiet later, since.trans later⟩, own⟩

theorem housed_node (isLeft : c.Live l.id) (isRight : c.Live r.id) (level : Level) (grade : Grade)
    (tally : Tally) (within : MatchId → Prop) :
    Housed c t within (Matching.node l r level grade tally []) where
  left := isLeft
  right := isRight
  parts part inside := absurd inside List.not_mem_nil
  tied tie inside := by cases inside

theorem secured_identity (live : c.Live sort.id) (here : Secure c t) : Ends (identity sort) t
    (fun id t' ↦ Secured c t t' ∧ Answering c sort.id sort.id t' id) (Secured c t) := by
  refine Ends.bind (Ends.get ?_)
  split
  · rename_i known entry
    exact Ends.pure ⟨⟨here, .refl t⟩, here.identities entry⟩
  · refine Ends.bind (ends_push (Ends.bind (Ends.modify (Ends.pure ?_))))
    obtain ⟨later, sheltered⟩ :=
      shelters_push (housed_node (t := t) live live .identical .concordant
      .none (Sheltered c t))
    have answering := Answering.of_labelled sheltered (labelled_push rfl rfl) live live
    have pushed := here.quiet (quiet_push _) later
    have same : Shelters c (t.push (node sort sort .identical .concordant .none []))
        { t.push (node sort sort .identical .concordant .none []) with
          identities := t.identities.insert sort.id ⟨t.nodes.size⟩ } := .of_nodes rfl
    refine ⟨⟨⟨fun entry ↦ ?_, fun {other known} entry ↦ ?_, fun entry ↦ ?_⟩, later.trans same⟩,
      answering.later same⟩
    · obtain ⟨left, right, l, r, foundLeft, foundRight, shown, answering⟩ := pushed.memo entry
      exact ⟨left, right, l, r, foundLeft, foundRight, shown, answering.later same⟩
    · change (t.identities.insert _ _)[other]? = some known at entry
      rw [Std.ExtTreeMap.getElem?_insert] at entry
      split at entry
      · rename_i equal
        rw [Std.LawfulEqCmp.compare_eq_iff_eq] at equal
        subst equal
        cases entry
        exact answering.later same
      · exact (pushed.identities entry).later same
    · exact same.2 _ (pushed.sentinels entry)

/-- A sentinel can be entered. -/
theorem secured_sentinel (key : PairKey) (isLeft : c.Live l.id) (isRight : c.Live r.id)
    (here : Secure c t) :
    let sentinel := { Matching.node l r .incongruous .concordant .none [] with sentinel := true }
    let entered := { t.push sentinel with sentinels := t.sentinels.insert key ⟨t.nodes.size⟩ }
    Secured c t entered ∧ Answering c l.id r.id entered ⟨t.nodes.size⟩ := by
  intro sentinel entered
  have housed := housed_node (t := t) isLeft isRight .incongruous .concordant .none (Sheltered c t)
  have alike : Housed c t (Sheltered c t) sentinel :=
    ⟨housed.left, housed.right, housed.parts, housed.tied⟩
  obtain ⟨later, sheltered⟩ := shelters_push alike
  have answering := Answering.of_labelled sheltered (labelled_push rfl rfl) isLeft isRight
  have pushed := here.quiet (quiet_push sentinel) later
  have same : Shelters c (t.push sentinel) entered := .of_nodes rfl
  refine ⟨⟨⟨fun entry ↦ ?_, fun entry ↦ (pushed.identities entry).later same,
    fun {other known} entry ↦ ?_⟩, later.trans same⟩, answering.later same⟩
  · obtain ⟨left, right, l, r, foundLeft, foundRight, shown, answering⟩ := pushed.memo entry
    exact ⟨left, right, l, r, foundLeft, foundRight, shown, answering.later same⟩
  · change (t.sentinels.insert _ _)[other]? = some known at entry
    rw [Std.ExtTreeMap.getElem?_insert] at entry
    split at entry
    · cases entry
      exact same.2 _ sheltered
    · exact same.2 _ (pushed.sentinels entry)

theorem secured_breakCycle (key : PairKey) (isLeft : c.Live l.id) (isRight : c.Live r.id)
    (here : Secure c t) : Ends (breakCycle key l r) t
      (fun id t' ↦ Secured c t t' ∧ Answering c l.id r.id t' id) (Secured c t) := by
  refine Ends.bind (Ends.modify (Ends.bind (Ends.get ?_)))
  dsimp only
  have noted : Secured c t ({ t with metrics := t.metrics.recordCycle }.note
      (.cycleBroken l.id r.id)) := .of_quiet here (quiet_aside t _ _ _) (.of_nodes rfl)
  split
  · rename_i known entry
    obtain ⟨entry, sides⟩ := Option.filter_eq_some_iff.mp entry
    refine Ends.pure ⟨noted, Answering.of_labelled (noted.1.sentinels entry) ?_ isLeft isRight⟩
    split at sides
    · rename_i node found
      rw [Bool.and_eq_true, decide_eq_true_eq, decide_eq_true_eq] at sides
      exact ⟨node, found, sides⟩
    · cases sides
  · refine Ends.bind (ends_push (Ends.bind (Ends.modify (Ends.pure ?_))))
    obtain ⟨entered, answering⟩ := secured_sentinel key isLeft isRight noted.1
    exact ⟨⟨entered.1, noted.2.trans entered.2⟩, answering⟩

/-- Matching keeps the table secure. -/
theorem sheltering_relate (rested : c.Rested) (suited : Suited categories c)
    (config : Configuration)
    (underWay : List PairKey) : Sheltering c (relate c config underWay) := by
  intro left right t here
  cases foundLeft : c.get left with
  | error reason =>
    rw [relate, foundLeft]
    exact Ends.throw ⟨here, .refl t⟩
  | ok l =>
  cases foundRight : c.get right with
  | error reason =>
    rw [relate, foundLeft, foundRight]
    exact Ends.throw ⟨here, .refl t⟩
  | ok r =>
  obtain rfl := rested.placed foundLeft
  obtain rfl := rested.placed foundRight
  have isLeft : c.Live l.id := ⟨l, foundLeft⟩
  have isRight : c.Live r.id := ⟨r, foundRight⟩
  rw [relate_of_found foundLeft foundRight]
  split_ifs with same idle
  · rw [← same]
    exact secured_identity isLeft here
  · exact secured_breakCycle _ isLeft isRight here
  have inside := sheltering_relate rested suited config (⟨l.display, r.display⟩ :: underWay)
  have guarded : Respects (Guarded (⟨l.display, r.display⟩ :: underWay))
      (forVariants c config _ l r) :=
    respects_forVariants (tolerant_guarded _) (guarded_relate c config _) l r
  refine ends_consult_new guarded (fun id entry metrics journal ↦ ?_) fun _ ↦ ?_
  · have counted : Shelters c t { t with metrics, journal } := .of_nodes rfl
    exact ⟨.of_quiet here (quiet_aside t _ _ _) counted,
      (here.answering foundLeft foundRight entry).later counted⟩
  have begun : Secured c t ({ t with metrics := t.metrics.recordMiss }.begin
      ⟨l.display, r.display⟩) :=
    .of_quiet here (quiet_aside t _ _ _) (.of_nodes rfl)
  have finished {t' : Matchings} (reached : Secured c
      ({ t with metrics := t.metrics.recordMiss }.begin ⟨l.display, r.display⟩) t') :
      Secured c t (t'.finish ⟨l.display, r.display⟩) := by
    have finish : Shelters c t' (t'.finish ⟨l.display, r.display⟩) := .of_nodes rfl
    exact ⟨reached.1.quiet (quiet_finish _ _) finish, begun.2.trans (reached.2.trans finish)⟩
  refine (Routine.ends (upholds_secure config isLeft isRight)
    (fun left right t near here ↦ (inside left right t here).mono
      (fun id t' made ↦ ?_) fun _ failed ↦ failed)
    (fun t _ here ↦ secured_exchanged rested suited inside here)
    (routine_forVariants foundLeft foundRight) begun.1
    (fun _ inside ↦ absurd inside List.not_mem_nil)
    (fun _ inside ↦ absurd inside List.not_mem_nil)).mono (fun id t' made new ↦ ?_)
      fun _ failed ↦ finished failed
  · obtain ⟨secured, sheltered, node, found, shownLeft, shownRight⟩ := made
    exact ⟨secured, sheltered, node, found, ⟨left, Or.inl near.reaches.1, shownLeft⟩,
      ⟨right, Or.inr near.reaches.2, shownRight⟩⟩
  obtain ⟨reached, told, made, free, own, each⟩ := made
  obtain ⟨now, since⟩ := finished reached
  obtain ⟨sheltered, labelled⟩ := each id own
  have answering : Answering c l.id r.id (t'.finish ⟨l.display, r.display⟩) id :=
    (Answering.of_labelled sheltered labelled isLeft isRight).later (.of_nodes rfl)
  exact ⟨⟨now.insert foundLeft foundRight answering _, since.trans (.of_nodes rfl)⟩,
    answering.later (.of_nodes rfl)⟩
termination_by (unvisited c.pairKeys underWay).length
decreasing_by
  exact length_unvisited_cons_lt (Catalog.pairKey_mem_pairKeys ‹_› ‹_›) ‹_›

/-! ### Other catalogs -/

namespace Matchings

/-- The matches of removed sorts are of no sort that displays as one that stays. -/
def Severed (c : Catalog) (gone : List SortId) (t : Matchings) : Prop :=
  ∀ (id : MatchId) (node : MatchNode), t.get? id = some node → ∀ side ∈ [node.left, node.right],
    side ∈ gone → ∀ other, other ∉ gone → ¬ c.SameDisplay side other

section

variable {keep : SortId → Prop}
  (stays : ∀ {id : SortId} {sort : SortRecord}, keep id → c.get id = .ok sort → d.get id = .ok sort)
  (closed : ∀ {id : SortId} {sort : SortRecord}, keep id → c.get id = .ok sort →
    ∀ other ∈ sort.body.handles, keep other)
  (parted : ∀ {id : MatchId} {node : MatchNode}, t.get? id = some node →
    ∀ side ∈ [node.left, node.right], ∀ other, keep other → c.SameDisplay side other → keep side)

include stays

theorem SameDisplay.transport (h : c.SameDisplay left right) (kept : keep left)
    (kept' : keep right) :
    d.SameDisplay left right := by
  obtain ⟨l, r, foundLeft, foundRight, same⟩ := h
  exact ⟨l, r, stays kept foundLeft, stays kept' foundRight, same⟩

include closed parted

/-- Sheltered matches of sorts that are kept stay sheltered, if no match is of a sort that is not
kept but displays as one that is. -/
theorem Sheltered.transport (h : Sheltered c t id) (found : t.get? id = some node)
    (left : keep node.left) (right : keep node.right) : Sheltered d t id := by
  refine ⟨fun id ↦ Sheltered c t id ∧ ∃ node, t.get? id = some node ∧ keep node.left ∧
    keep node.right, ?_, h, node, found, left, right⟩
  rintro id ⟨sheltered, node, found, left, right⟩
  obtain ⟨node', found', housed⟩ := closed_sheltered c t id sheltered
  rw [found] at found'
  cases found'
  -- what a kept sort leads to is kept, and so is a side that displays as it does
  have involved {link : MatchId} {other : MatchNode} (there : t.get? link = some other)
    {side : SortId}
      (isSide : side ∈ [other.left, other.right]) (h : c.Involves node.left node.right side) :
      keep side ∧ d.Involves node.left node.right side := by
    obtain ⟨part, reaches, shown⟩ := h
    have inside : keep part ∧ (d.Reaches node.left part ∨ d.Reaches node.right part) := by
      rcases reaches with reaches | reaches
      · obtain ⟨kept, reaches⟩ := Reaches.transport stays closed reaches left
        exact ⟨kept, Or.inl reaches⟩
      · obtain ⟨kept, reaches⟩ := Reaches.transport stays closed reaches right
        exact ⟨kept, Or.inr reaches⟩
    have kept := parted there side isSide part inside.1 shown.symm
    exact ⟨kept, part, inside.2, SameDisplay.transport stays shown inside.1 kept⟩
  refine ⟨node, found, ?_, ?_, fun part inside ↦ ?_, fun tie isTie ↦ ?_⟩
  · obtain ⟨sort, live⟩ := housed.left
    exact ⟨sort, stays left live⟩
  · obtain ⟨sort, live⟩ := housed.right
    exact ⟨sort, stays right live⟩
  · obtain ⟨sheltered', other, there, isLeft, isRight⟩ := housed.parts part inside
    obtain ⟨keptLeft, isLeft⟩ := involved there (by simp) isLeft
    obtain ⟨keptRight, isRight⟩ := involved there (by simp) isRight
    exact ⟨⟨sheltered', other, there, keptLeft, keptRight⟩, other, there, isLeft, isRight⟩
  · obtain ⟨sheltered', other, there, cognate⟩ := housed.tied tie isTie
    have across {side kept : SortId} (isSide : side ∈ [other.left, other.right]) (here : keep kept)
        (shown : c.SameDisplay kept side) : keep side ∧ d.SameDisplay kept side := by
      have kept := parted there side isSide _ here shown.symm
      exact ⟨kept, SameDisplay.transport stays shown here kept⟩
    rcases cognate with ⟨isLeft, isRight⟩ | ⟨isLeft, isRight⟩
    · obtain ⟨keptLeft, isLeft⟩ := across (by simp) left isLeft
      obtain ⟨keptRight, isRight⟩ := across (by simp) right isRight
      exact ⟨⟨sheltered', other, there, keptLeft, keptRight⟩, other, there,
        Or.inl ⟨isLeft, isRight⟩⟩
    · obtain ⟨keptRight, isLeft⟩ := across (by simp) left isLeft
      obtain ⟨keptLeft, isRight⟩ := across (by simp) right isRight
      exact ⟨⟨sheltered', other, there, keptLeft, keptRight⟩, other, there,
        Or.inr ⟨isLeft, isRight⟩⟩

variable (keep) in
/-- What is remembered stays secure when only what is remembered of kept sorts is left. -/
theorem Secure.transport (h : Secure c t)
    (memo : ∀ {key : PairKey} {id : MatchId}, t'.memo[key]? = some id → t.memo[key]? = some id ∧
      ∀ node, t.get? id = some node → keep node.left ∧ keep node.right)
    (identities : ∀ {sort : SortId} {id : MatchId}, t'.identities[sort]? = some id →
      t.identities[sort]? = some id ∧ keep sort)
    (sentinels : ∀ {key : PairKey} {id : MatchId}, t'.sentinels[key]? = some id →
      t.sentinels[key]? = some id ∧ ∀ node, t.get? id = some node →
      keep node.left ∧ keep node.right)
    (nodes : t'.nodes = t.nodes) : Secure d t' := by
  have same : Shelters d t t' := .of_nodes nodes
  refine ⟨fun entry ↦ ?_, fun {sort id} entry ↦ ?_, fun {key id} entry ↦ ?_⟩
  · obtain ⟨entry, kept⟩ := memo entry
    obtain ⟨left, right, l, r, foundLeft, foundRight, rfl, sheltered, node, found,
        isLeft, isRight⟩ :=
      h.memo entry
    obtain ⟨keptLeft, keptRight⟩ := kept node found
    obtain ⟨l', a, there, hereLeft, sameLeft⟩ := isLeft
    obtain ⟨r', b, there', hereRight, sameRight⟩ := isRight
    rw [foundLeft] at there
    cases there
    rw [foundRight] at there'
    cases there'
    have answering : Answering d node.left node.right t _ :=
      ⟨Sheltered.transport stays closed parted sheltered found keptLeft keptRight, node, found,
        .refl ⟨a, stays keptLeft hereLeft⟩, .refl ⟨b, stays keptRight hereRight⟩⟩
    exact ⟨node.left, node.right, a, b, stays keptLeft hereLeft, stays keptRight hereRight,
      by rw [sameLeft, sameRight], answering.later same⟩
  · obtain ⟨entry, kept⟩ := identities entry
    obtain ⟨sheltered, node, found, isLeft, isRight⟩ := h.identities entry
    have keptLeft := parted found node.left (by simp) sort kept isLeft.symm
    have keptRight := parted found node.right (by simp) sort kept isRight.symm
    have answering : Answering d sort sort t id :=
      ⟨Sheltered.transport stays closed parted sheltered found keptLeft keptRight, node, found,
        SameDisplay.transport stays isLeft kept keptLeft,
        SameDisplay.transport stays isRight kept keptRight⟩
    exact answering.later same
  · obtain ⟨entry, kept⟩ := sentinels entry
    obtain ⟨node, found, -⟩ := closed_sheltered c t id (h.sentinels entry)
    obtain ⟨keptLeft, keptRight⟩ := kept node found
    exact same.2 _ (Sheltered.transport stays closed parted
      (h.sentinels entry) found keptLeft keptRight)

end

/-- What is remembered stays secure as long as live sorts stay what they are. -/
theorem Secure.mono (h : Secure c t) (stays : ∀ {id : SortId} {sort : SortRecord},
    c.get id = .ok sort → d.get id = .ok sort) : Secure d t :=
  h.transport (fun _ ↦ True) (fun _ ↦ stays) (fun _ _ _ _ ↦ trivial)
    (fun _ _ _ _ _ _ ↦ trivial) (fun entry ↦ ⟨entry, fun _ _ ↦ ⟨trivial, trivial⟩⟩)
    (fun entry ↦ ⟨entry, trivial⟩) (fun entry ↦ ⟨entry, fun _ _ ↦ ⟨trivial, trivial⟩⟩) rfl

/-- What is remembered stays secure when sorts are removed whose matches are severed from the other
sorts. -/
theorem Secure.forget (h : Secure c t) {gone : List SortId} (severed : Severed c gone t)
    (stays : ∀ {id : SortId} {sort : SortRecord}, id ∉ gone → c.get id = .ok sort →
      d.get id = .ok sort)
    (closed : ∀ {id : SortId} {sort : SortRecord}, id ∉ gone → c.get id = .ok sort →
      ∀ other ∈ sort.body.handles, other ∉ gone) : Secure d (t.forget gone).2 := by
  have unmentioned {id : MatchId} (kept : (!t.mentions gone id) = true) (node : MatchNode)
      (found : t.get? id = some node) : node.left ∉ gone ∧ node.right ∉ gone := by
    rw [Bool.not_eq_true', mentions_eq_false_iff] at kept
    obtain ⟨node', found', sides⟩ := kept
    rw [found] at found'
    cases found'
    exact sides
  refine h.transport (· ∉ gone) stays closed (fun found side isSide other kept shown ↦ ?_)
    (fun {key id} entry ↦ ?_) (fun {sort id} entry ↦ ?_) (fun {key id} entry ↦ ?_) rfl
  · exact fun removed ↦ severed _ _ found side isSide removed other kept shown
  · rw [getElem?_memo_forget, Option.filter_eq_some_iff] at entry
    exact ⟨entry.1, unmentioned entry.2⟩
  · change (t.identities.filter _)[sort]? = some id at entry
    rw [Std.ExtTreeMap.getElem?_filter', Option.filter_eq_some_iff] at entry
    exact ⟨entry.1, by simpa using entry.2⟩
  · change (t.sentinels.filter _)[key]? = some id at entry
    rw [Std.ExtTreeMap.getElem?_filter', Option.filter_eq_some_iff] at entry
    exact ⟨entry.1, unmentioned entry.2⟩

end Matchings

end CompositeSorts
