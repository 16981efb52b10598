import CompositeSorts.Proofs.Catalog.Sound
import CompositeSorts.Proofs.Matching.RuleChoice

/-!
Matches and their mirrors. What is remembered of a pair of sorts agrees with what is remembered of
the exchanged pair (`Matchings.Balanced`): where the course of the match is settled it is the
settled verdict, and where the match was made from the other side it is the reversal of the match
there, or that of a sentinel. Matching keeps this up, given that sorts with the same display are as
good as each other (`Catalog.Legible`); and it remembers whatever it answers.
-/

set_option autoImplicit false
set_option relaxedAutoImplicit false

namespace CompositeSorts

open Matchings Matching Rule

variable {c d : Catalog} {config : Configuration} {t t' : Matchings} {id : MatchId}
  {underWay : List PairKey} {left right : SortId} {l r : SortRecord} {key : PairKey}

/-- Sorts with the same display are twins, and they are primitive sorts or disjunctions unless they
are the same sort. -/
structure Catalog.Legible (c : Catalog) : Prop where
  twins : ∀ {id id' sort sort'}, c.get id = .ok sort → c.get id' = .ok sort' →
    sort.display = sort'.display → sort.Twin sort'
  apart : ∀ {id id' sort sort'}, c.get id = .ok sort → c.get id' = .ok sort' →
    sort.display = sort'.display → id ≠ id' →
      sort.variant = .primitive ∨ sort.variant = .disjunctive

/-- The exchanged pair. -/
def PairKey.swap (key : PairKey) : PairKey := ⟨key.right, key.left⟩

namespace Matchings

/-- What is remembered of a pair of these sorts, given what is remembered of the exchanged pair. -/
def Agrees (t : Matchings) (key : PairKey) (id : MatchId) (l r : SortRecord) : Prop :=
  match course l r with
  | .settled v => t.Gives id v
  | .forward => True
  | .backward => t.Gives id .bare ∨
    ∃ mirror v, t.memo[key.swap]? = some mirror ∧ t.Gives mirror v ∧ t.Gives id v.reversed
  | .refused => False

/-- The match is of two different live sorts that show the key, and agrees with its mirror. -/
def Entry (c : Catalog) (t : Matchings) (key : PairKey) (id : MatchId) : Prop :=
  ∃ node l r, t.get? id = some node ∧ c.get node.left = .ok l ∧ c.get node.right = .ok r ∧
    key = ⟨l.display, r.display⟩ ∧ node.left ≠ node.right ∧ t.Agrees key id l r

/-- What is remembered agrees with its mirrors. -/
structure Balanced (c : Catalog) (t : Matchings) : Prop where
  memo : ∀ {key : PairKey} {id : MatchId}, t.memo[key]? = some id → t.Entry c key id
  identities : ∀ {sort : SortId} {id : MatchId}, t.identities[sort]? = some id → t.Gives id .same
  sentinels : ∀ {key : PairKey} {id : MatchId}, t.sentinels[key]? = some id → t.Gives id .bare

/-- Nothing that is remembered of a pair is lost or replaced. -/
def Recalls (t t' : Matchings) : Prop :=
  ∀ (key : PairKey) (id : MatchId), t.memo[key]? = some id → t'.memo[key]? = some id

theorem Agrees.extend (h : t.Agrees key id l r) (nodes : Extends t t') (recalls : Recalls t t') :
    t'.Agrees key id l r := by
  unfold Agrees at h ⊢
  split at h
  · exact h.extend nodes
  · trivial
  · rcases h with bare | ⟨mirror, v, entry, gives, reversed⟩
    · exact Or.inl (bare.extend nodes)
    · exact Or.inr ⟨mirror, v, recalls _ _ entry, gives.extend nodes, reversed.extend nodes⟩
  · exact h

theorem Entry.extend (h : t.Entry c key id) (nodes : Extends t t') (recalls : Recalls t t') :
    t'.Entry c key id := by
  obtain ⟨node, l, r, found, foundLeft, foundRight, shown, apart, agrees⟩ := h
  obtain ⟨node', found', same⟩ := nodes id node found
  obtain ⟨left, right⟩ := MatchNode.sides_of_untied same
  rw [← left] at foundLeft apart
  rw [← right] at foundRight apart
  exact ⟨node', l, r, found', foundLeft, foundRight, shown, apart, agrees.extend nodes recalls⟩

theorem balanced_empty (c : Catalog) : Balanced c empty where
  memo entry := by simp [empty] at entry
  identities entry := by simp [empty] at entry
  sentinels entry := by simp [empty] at entry

/-- Keeping the balance, and what is remembered. -/
structure Poised (c : Catalog) (t t' : Matchings) : Prop where
  nodes : Extends t t'
  recalls : Recalls t t'
  balanced : Balanced c t → Balanced c t'

theorem Poised.of_quiet (quiet : Quiet t t') : Poised c t t' := by
  have recalls : Recalls t t' := fun key id entry ↦ by rw [quiet.memo]; exact entry
  refine ⟨quiet.nodes, recalls, fun h ↦ ⟨fun entry ↦ ?_, fun entry ↦ ?_, fun entry ↦ ?_⟩⟩
  · rw [quiet.memo] at entry
    exact (h.memo entry).extend quiet.nodes recalls
  · rw [quiet.identities] at entry
    exact (h.identities entry).extend quiet.nodes
  · rw [quiet.sentinels] at entry
    exact (h.sentinels entry).extend quiet.nodes

theorem tolerant_poised (c : Catalog) : Tolerant (Poised c) where
  still still := .of_quiet still.toQuiet
  trans first next := ⟨first.nodes.trans next.nodes,
    fun key id entry ↦ next.recalls key id (first.recalls key id entry),
    fun h ↦ next.balanced (first.balanced h)⟩

theorem Poised.refl (t : Matchings) : Poised c t t := .of_quiet (Quiet.refl t)

/-- A match that agrees can be remembered. -/
theorem Poised.remember {u : Matchings} (h : Poised c t u) (free : u.memo[key]? = none)
    (memo : t'.memo = u.memo.insert key id) (nodes : t'.nodes = u.nodes)
    (identities : t'.identities = u.identities) (sentinels : t'.sentinels = u.sentinels)
    (entry : Balanced c t → u.Entry c key id) : Poised c t t' := by
  have same : ∀ id, t'.get? id = u.get? id := fun id ↦ by unfold get?; rw [nodes]
  have extends_ : Extends u t' := fun id node found ↦ ⟨node, (same id).trans found, rfl⟩
  have recalls : Recalls u t' := fun other known here ↦ by
    rw [memo, Std.ExtTreeMap.getElem?_insert]
    split_ifs with eq
    · rw [Std.LawfulEqCmp.compare_eq_iff_eq] at eq
      rw [← eq, free] at here
      cases here
    · exact here
  refine ⟨h.nodes.trans extends_, fun other known before ↦ recalls other known
    (h.recalls _ _ before),
    fun balanced ↦ ⟨fun {other known} here ↦ ?_, fun here ↦ ?_, fun here ↦ ?_⟩⟩
  · rw [memo, Std.ExtTreeMap.getElem?_insert] at here
    split_ifs at here with eq
    · rw [Std.LawfulEqCmp.compare_eq_iff_eq] at eq
      cases here
      exact eq ▸ (entry balanced).extend extends_ recalls
    · exact ((h.balanced balanced).memo here).extend extends_ recalls
  · rw [identities] at here
    exact ((h.balanced balanced).identities here).extend extends_
  · rw [sentinels] at here
    exact ((h.balanced balanced).sentinels here).extend extends_

end Matchings

/-! ### Matching -/

/-- What matching answers: the match of a sort with itself, a sentinel for a pair that is under way,
and what is remembered for any other pair. -/
def Matchings.Answers (t : Matchings) (underWay : List PairKey) (left right : SortId)
    (l r : SortRecord) (id : MatchId) : Prop :=
  if left = right then t.Gives id .same
  else if (⟨l.display, r.display⟩ : PairKey) ∈ underWay then t.Gives id .bare
  else t.memo[(⟨l.display, r.display⟩ : PairKey)]? = some id

theorem ends_identity (sort : SortRecord) :
    Ends (identity sort) t (fun id t' ↦ Poised c t t' ∧ (Balanced c t → t'.Gives id .same))
      fun _ ↦ False := by
  refine Ends.bind (Ends.get ?_)
  split
  · exact Ends.pure ⟨Poised.refl t, fun h ↦ h.identities ‹_›⟩
  · refine Ends.bind (ends_push (Ends.bind (Ends.modify (Ends.pure ?_))))
    have gives : (t.push (node sort sort .identical .concordant .none [])).Gives
        ⟨t.nodes.size⟩ .same := Gives.push _
    have pushed : Poised c t (t.push (node sort sort .identical .concordant .none [])) :=
      .of_quiet (quiet_push _)
    refine ⟨⟨pushed.nodes, pushed.recalls, fun h ↦ ?_⟩, fun _ ↦ gives⟩
    have kept := pushed.balanced h
    refine ⟨kept.memo, fun {other known} entry ↦ ?_, kept.sentinels⟩
    dsimp only at entry
    rw [Std.ExtTreeMap.getElem?_insert] at entry
    split_ifs at entry
    · cases entry
      exact gives
    · exact kept.identities entry

theorem ends_breakCycle (key : PairKey) (l r : SortRecord) :
    Ends (breakCycle key l r) t (fun id t' ↦ Poised c t t' ∧ (Balanced c t → t'.Gives id .bare))
      fun _ ↦ False := by
  have noted : Poised c t ({ t with metrics := t.metrics.recordCycle }.note
      (.cycleBroken l.id r.id)) := .of_quiet (quiet_aside t _ _ _)
  refine Ends.bind (Ends.modify (Ends.bind (Ends.get ?_)))
  dsimp only
  split
  · rename_i known
    refine Ends.pure ⟨noted, fun h ↦ ?_⟩
    exact (noted.balanced h).sentinels (Option.filter_eq_some_iff.mp known).1
  · refine Ends.bind (ends_push (Ends.bind (Ends.modify (Ends.pure ?_))))
    have gives := Gives.push (t := { t with metrics := t.metrics.recordCycle }.note
      (.cycleBroken l.id r.id)) { node l r .incongruous .concordant .none [] with sentinel := true }
    have pushed := (tolerant_poised c).trans noted (Poised.of_quiet (quiet_push
      { node l r .incongruous .concordant .none [] with sentinel := true }))
    refine ⟨⟨pushed.nodes, pushed.recalls, fun h ↦ ?_⟩, fun _ ↦ gives⟩
    have kept := pushed.balanced h
    refine ⟨kept.memo, kept.identities, fun {other known} entry ↦ ?_⟩
    dsimp only at entry
    rw [Std.ExtTreeMap.getElem?_insert] at entry
    split_ifs at entry
    · cases entry
      exact gives
    · exact kept.sentinels entry

/-- What matching does with two sorts, given what it does with the sorts inside. -/
abbrev Mirroring (c : Catalog) (underWay : List PairKey) (relate : Relate) : Prop :=
  ∀ left right t, Ends (relate left right) t
    (fun id t' ↦ Poised c t t' ∧ ∀ l r, c.get left = .ok l → c.get right = .ok r →
      Balanced c t → t'.Answers underWay left right l r id) (Poised c t)

/-- The reversal of a match agrees with it. -/
theorem ends_exchanged {relate : Relate} (inside : Mirroring c
    (⟨l.display, r.display⟩ :: underWay) relate)
    (foundLeft : c.get l.id = .ok l) (foundRight : c.get r.id = .ok r) (differ : l.id ≠ r.id)
    (turns : course l r = .backward) :
    Ends (exchanged relate l r) t
      (fun id t' ↦ Balanced c t → t'.Agrees ⟨l.display, r.display⟩ id l r) fun _ ↦ True := by
  refine Ends.bind ((inside r.id l.id t).mono (fun forward t₁ answered ↦ ?_) fun _ _ ↦ trivial)
  refine ends_reverse (fun _ ↦ trivial) fun node parts tiedWith nodes found balanced ↦ ?_
  have answers := answered.2 r l foundRight foundLeft balanced
  have gives : t₁.Gives forward node.verdict := ⟨node, found, rfl⟩
  have reversed : (t₁.append (nodes.push (node.mirrored l.id r.id parts tiedWith))).Gives
      ⟨t₁.nodes.size + nodes.size⟩ node.verdict.reversed :=
    ⟨_, get?_append_push_size _ _, MatchNode.verdict_mirrored node l.id r.id parts tiedWith⟩
  unfold Answers at answers
  rw [if_neg (Ne.symm differ)] at answers
  unfold Agrees
  rw [turns]
  dsimp only
  split_ifs at answers with busy
  · refine Or.inl ?_
    rw [gives.unique answers, Verdict.reversed_bare] at reversed
    exact reversed
  · exact Or.inr ⟨forward, node.verdict, answers, gives.extend (extends_append _), reversed⟩

/-- The match that a rule makes agrees with its mirror. -/
theorem ends_agrees {relate : Relate} (legible : c.Legible)
    (inside : Mirroring c (⟨l.display, r.display⟩ :: underWay) relate)
    (foundLeft : c.get l.id = .ok l) (foundRight : c.get r.id = .ok r) (differ : l.id ≠ r.id) :
    Ends (forVariants c config relate l r) t
      (fun id t' ↦ Balanced c t → t'.Agrees ⟨l.display, r.display⟩ id l r) fun _ ↦ True := by
  cases turns : course l r with
  | settled v =>
    refine (ends_forVariants_of_settled turns
      fun same ↦ (legible.twins foundLeft foundRight same).canonical).mono
      (fun id t' gives _ ↦ ?_) fun _ _ ↦ trivial
    unfold Agrees
    rw [turns]
    exact gives
  | forward =>
    refine Ends.of_forall fun _ _ _ ↦ ?_
    unfold Agrees
    rw [turns]
    trivial
  | backward =>
    rw [forVariants_of_backward turns]
    exact ends_exchanged inside foundLeft foundRight differ turns
  | refused =>
    obtain ⟨reason, refuses⟩ := forVariants_of_refused c config relate turns
    rw [refuses]
    exact Ends.throw trivial

/-- Matching keeps the balance, and remembers what it answers. -/
theorem mirroring_relate (legible : c.Legible) (rooted : c.Rooted) (config : Configuration)
    (underWay : List PairKey) : Mirroring c underWay (relate c config underWay) := by
  intro left right t
  have tolerant := tolerant_poised c
  have here : Poised c t t := Poised.refl t
  rw [relate]
  split
  · exact Ends.throw here
  · exact Ends.throw here
  rename_i l r foundLeft foundRight
  have atLeft : l.id = left := rooted.placed foundLeft
  have atRight : r.id = right := rooted.placed foundRight
  have only {id : MatchId} {t' : Matchings} (poised : Poised c t t')
      (answers : Balanced c t → t'.Answers underWay left right l r id) : Poised c t t' ∧ ∀ l r,
        c.get left = .ok l → c.get right = .ok r → Balanced c t →
          t'.Answers underWay left right l r id := by
    refine ⟨poised, fun l' r' foundLeft' foundRight' ↦ ?_⟩
    rw [foundLeft] at foundLeft'
    rw [foundRight] at foundRight'
    cases foundLeft'
    cases foundRight'
    exact answers
  split
  · rename_i same
    refine (ends_identity (c := c) l).mono (fun id t' made ↦ only made.1 fun balanced ↦ ?_)
      fun _ ↦ False.elim
    unfold Answers
    rw [if_pos same]
    exact made.2 balanced
  rename_i differ
  dsimp only
  split
  · rename_i busy
    refine (ends_breakCycle (c := c) _ l r).mono (fun id t' made ↦ only made.1 fun balanced ↦ ?_)
      fun _ ↦ False.elim
    unfold Answers
    rw [if_neg differ, if_pos busy]
    exact made.2 balanced
  rename_i idle
  have remembers {id : MatchId} {t' : Matchings}
      (entry : t'.memo[(⟨l.display, r.display⟩ : PairKey)]? = some id) :
      t'.Answers underWay left right l r id := by
    unfold Answers
    rw [if_neg differ, if_neg idle]
    exact entry
  refine ends_consult (fun known entry metrics journal ↦ ?_) fun _ ↦ ?_
  · exact only (.of_quiet (quiet_aside t _ _ _)) fun _ ↦ remembers entry
  let begun := { t with metrics := t.metrics.recordMiss }.begin ⟨l.display, r.display⟩
  have first : Poised c t begun := .of_quiet (quiet_aside t _ _ _)
  have inside := mirroring_relate legible rooted config (⟨l.display, r.display⟩ :: underWay)
  let within := relate c config (⟨l.display, r.display⟩ :: underWay)
  have poised : ∀ left right, Respects (Poised c) (within left right) :=
    fun left right t ↦ (inside left right t).mono (fun _ _ h ↦ h.1) fun _ h ↦ h
  have nodes : ∀ left right, Respects Extends (within left right) :=
    fun left right t ↦ (poised left right t).mono (fun _ _ h ↦ h.nodes) fun _ h ↦ h.nodes
  have respects : Respects (Poised c) (forVariants c config within l r) :=
    respects_forVariants tolerant poised l r
  have labels : Labels l.id r.id (forVariants c config within l r) :=
    labels_forVariants nodes l r
  have agrees : Ends (forVariants c config within l r) begun _ _ :=
    ends_agrees legible inside (atLeft ▸ foundLeft) (atRight ▸ foundRight)
      (by rw [atLeft, atRight]; exact differ)
  have ended : ∀ {t'}, Poised c begun t' → Poised c t (t'.finish ⟨l.display, r.display⟩) :=
    fun made ↦ tolerant.trans first (tolerant.trans made (.of_quiet (quiet_finish _ _)))
  refine (((respects begun).and (labels begun)).and agrees).mono (fun id t' made ↦ ?_)
    fun _ failed ↦ ended failed.1.1
  obtain ⟨⟨poised, node, found, isLeft, isRight⟩, agreed⟩ := made
  refine ends_remember (fun known entry t'' still ↦ ?_) fun free ↦ ?_
  · refine only (tolerant.trans (ended poised) (tolerant.still still)) fun _ ↦ remembers ?_
    rw [still.memo]
    exact entry
  · refine only ?_ fun _ ↦ remembers Std.ExtTreeMap.getElem?_insert_self
    refine (ended poised).remember free rfl rfl rfl rfl fun balanced ↦ ?_
    exact ⟨node, l, r, found, by rw [isLeft, atLeft]; exact foundLeft,
      by rw [isRight, atRight]; exact foundRight, rfl,
      by rw [isLeft, isRight, atLeft, atRight]; exact differ, agreed (first.balanced balanced)⟩
termination_by (unvisited c.pairKeys underWay).length
decreasing_by
  exact length_unvisited_cons_lt (Catalog.pairKey_mem_pairKeys ‹_› ‹_›) ‹_›

/-! ### Both sides -/

namespace Verdict

variable {v v' : Verdict}

theorem iff_of_mirror (mirror : v' = v.reversed) : v' = v.reversed ↔ (v = bare ↔ v' = bare) := by
  refine ⟨fun _ ↦ ⟨?_, fun isBare ↦ ?_⟩, fun _ ↦ mirror⟩
  · rintro rfl
    rw [mirror, reversed_bare]
  · rw [← v.reversed_reversed, ← mirror, isBare, reversed_bare]

theorem iff_of_bare (isBare : v = bare ∨ v' = bare) : v' = v.reversed ↔ (v = bare ↔ v' = bare) := by
  refine ⟨fun mirror ↦ (iff_of_mirror mirror).mp mirror, fun both ↦ ?_⟩
  have first : v = bare := isBare.elim (fun known ↦ known) both.mpr
  rw [first, both.mp first, reversed_bare]

end Verdict

namespace Matchings.Balanced

/-- What is remembered of two sorts is there, and agrees with its mirror. -/
theorem agrees (h : Balanced c t) (legible : c.Legible) (foundLeft : c.get left = .ok l)
    (foundRight : c.get right = .ok r)
    (entry : t.memo[(⟨l.display, r.display⟩ : PairKey)]? = some id) :
    ∃ v, t.Gives id v ∧ t.Agrees ⟨l.display, r.display⟩ id l r := by
  obtain ⟨node, l', r', found, foundLeft', foundRight', shown, -, agrees⟩ := h.memo entry
  obtain ⟨sameLeft, sameRight⟩ := PairKey.mk.inj shown
  refine ⟨node.verdict, ⟨node, found, rfl⟩, ?_⟩
  unfold Agrees at agrees ⊢
  rw [course_congr (legible.twins foundLeft foundLeft' sameLeft)
    (legible.twins foundRight foundRight' sameRight)]
  exact agrees

/-- What is remembered of two different sorts from both sides is mirrored, unless one of the matches
and not the other is like that of a sentinel. -/
theorem mirrored_iff {v v' : Verdict} {id' : MatchId} (h : Balanced c t) (legible : c.Legible)
    (foundLeft : c.get left = .ok l) (foundRight : c.get right = .ok r) (differ : left ≠ right)
    (entry : t.memo[(⟨l.display, r.display⟩ : PairKey)]? = some id) (gives : t.Gives id v)
    (entry' : t.memo[(⟨r.display, l.display⟩ : PairKey)]? = some id') (gives' : t.Gives id' v') :
    v' = v.reversed ↔ (v = .bare ↔ v' = .bare) := by
  obtain ⟨-, -, agrees⟩ := h.agrees legible foundLeft foundRight entry
  obtain ⟨-, -, agrees'⟩ := h.agrees legible foundRight foundLeft entry'
  have turned : course r l = (course l r).turned := course_swap fun shown ↦
    ⟨(legible.twins foundLeft foundRight shown).variant,
      legible.apart foundLeft foundRight shown differ⟩
  unfold Agrees at agrees agrees'
  rw [turned] at agrees'
  cases turns : course l r with
  | settled settled =>
    rw [turns] at agrees agrees'
    apply Verdict.iff_of_mirror
    rw [gives.unique agrees, gives'.unique agrees', reversed_of_settled turns]
  | forward =>
    rw [turns] at agrees'
    rcases agrees' with bare | ⟨mirror, w, remembered, givesMirror, reversed⟩
    · exact Verdict.iff_of_bare (Or.inr (gives'.unique bare))
    · obtain rfl : id = mirror := Option.some.inj (entry.symm.trans remembered)
      apply Verdict.iff_of_mirror
      rw [gives'.unique reversed, gives.unique givesMirror]
  | backward =>
    rw [turns] at agrees
    rcases agrees with bare | ⟨mirror, w, remembered, givesMirror, reversed⟩
    · exact Verdict.iff_of_bare (Or.inl (gives.unique bare))
    · obtain rfl : id' = mirror := Option.some.inj (entry'.symm.trans remembered)
      apply Verdict.iff_of_mirror
      rw [gives'.unique givesMirror, gives.unique reversed, Verdict.reversed_reversed]
  | refused =>
    rw [turns] at agrees
    exact agrees.elim

end Matchings.Balanced

/-- Only live sorts are related. -/
theorem live_of_relate (run : relate c config underWay left right t = .ok id t') :
    ∃ l r, c.get left = .ok l ∧ c.get right = .ok r := by
  have ends : Ends (relate c config underWay left right) t
      (fun _ _ ↦ ∃ l r, c.get left = .ok l ∧ c.get right = .ok r) fun _ ↦ True := by
    rw [relate]
    split
    · exact Ends.throw trivial
    · exact Ends.throw trivial
    · exact Ends.of_forall fun _ _ ↦ ⟨_, _, ‹_›, ‹_›⟩
  exact ends.of_ok run

/-- The matches of a pair and then of the exchanged pair are mirrors of each other, unless one of
them and not the other is like that of a sentinel. -/
theorem mirrored_iff_of_relate {t₁ t₂ : Matchings} {id' : MatchId} (h : Balanced c t)
    (legible : c.Legible) (rooted : c.Rooted) (foundLeft : c.get left = .ok l)
    (foundRight : c.get right = .ok r) (first : relate c config [] left right t = .ok id t₁)
    (second : relate c config [] right left t₁ = .ok id' t₂) :
    ∃ v v', t₁.Gives id v ∧ t₂.Gives id' v' ∧ (v' = v.reversed ↔ (v = .bare ↔ v' = .bare)) := by
  obtain ⟨poised, answers⟩ := (mirroring_relate legible rooted config [] left right t).of_ok first
  obtain ⟨poised', answers'⟩ :=
    (mirroring_relate legible rooted config [] right left t₁).of_ok second
  have balanced := poised.balanced h
  have balanced' := poised'.balanced balanced
  have here := answers l r foundLeft foundRight h
  have there := answers' r l foundRight foundLeft balanced
  unfold Answers at here there
  by_cases same : left = right
  · rw [if_pos same] at here
    rw [if_pos same.symm] at there
    exact ⟨.same, .same, here, there, by decide⟩
  · rw [if_neg same, if_neg List.not_mem_nil] at here
    rw [if_neg (Ne.symm same), if_neg List.not_mem_nil] at there
    obtain ⟨v, gives, -⟩ := balanced.agrees legible foundLeft foundRight here
    obtain ⟨v', gives', -⟩ := balanced'.agrees legible foundRight foundLeft there
    exact ⟨v, v', gives, gives', balanced'.mirrored_iff legible foundLeft foundRight same
      (poised'.recalls _ _ here) (gives.extend poised'.nodes) there gives'⟩

end CompositeSorts
