import CompositeSorts.Proofs.Matching.Mirrors
import CompositeSorts.Proofs.Registry.Identity

/-!
Matching from both sides. In a registry that texts have built, the match of two sorts and that of
the exchanged pair mirror each other: the levels are the same, the grades are reversed, excess and
omits and augmentations and diminutions are exchanged, and the other counters agree. There are two
ways in which this fails, and no third.

A match that is asked for from the other side while it is under way is answered by a sentinel, whose
reversal is remembered like a match that was computed; then one of the two answers is incongruous
with nothing counted, and the other is not (`matchSorts_mirrored_iff`). And when a session is undone
the matches of a pair can be forgotten without those of the exchanged pair, where they go by sorts
of the same display, so what is computed anew need not fit what is kept (`Matchings.EvenHanded`).
-/

set_option autoImplicit false
set_option relaxedAutoImplicit false

namespace CompositeSorts

open Catalog Matchings Matching

variable {c d : Catalog} {r : Registry} {t : Matchings} {gone : List SortId}

/-- In a catalog at rest, displays tell sorts apart as far as matching goes. -/
theorem Catalog.Rested.legible (h : c.Rested) : c.Legible := by
  constructor
  · intro id id' sort sort' found found' same
    by_cases nameless : sort.name = none
    · obtain ⟨-, variant, canonical⟩ := h.eq_of_nameless found found' same nameless
      refine ⟨same, canonical.symm, variant.symm, ?_⟩
      unfold SortRecord.variant at variant
      unfold SortRecord.tag
      cases made : sort.body <;> cases made' : sort'.body <;> rw [made, made'] at variant <;>
        cases variant
      exact congrArg some (h.category_eq found found' made made' canonical.symm)
    · obtain rfl := h.eq_of_named found found' same nameless
      rw [found] at found'
      cases found'
      exact .refl sort
  · intro id id' sort sort' found found' same differ
    by_cases nameless : sort.name = none
    · rcases (h.fits found).nameless nameless with primitive | weighted | disjunctive
      · exact Or.inl primitive
      · exact absurd (h.eq_of_weighted found found' same weighted) differ
      · exact Or.inr disjunctive
    · exact absurd (h.eq_of_named found found' same nameless) differ

namespace Matchings

/-- The matches of a pair and of the exchanged pair are forgotten together, or not at all. -/
def EvenHanded (t : Matchings) (gone : List SortId) : Prop :=
  ∀ (key : PairKey) (id mirror : MatchId), t.memo[key]? = some id →
    t.memo[key.swap]? = some mirror → t.mentions gone id = t.mentions gone mirror

/-- The balance is kept when live sorts stay what they are. -/
theorem Balanced.mono (h : Balanced c t)
    (stays : ∀ {id sort}, c.get id = .ok sort → d.get id = .ok sort) : Balanced d t where
  memo entry := by
    obtain ⟨node, l, r, found, foundLeft, foundRight, rest⟩ := h.memo entry
    exact ⟨node, l, r, found, stays foundLeft, stays foundRight, rest⟩
  identities := h.identities
  sentinels := h.sentinels

/-- The balance is kept when the matches of sorts that are gone are forgotten from both sides. -/
theorem Balanced.forget (h : Balanced c t) (even : t.EvenHanded gone)
    (stays : ∀ {id sort}, c.get id = .ok sort → id ∉ gone → d.get id = .ok sort) :
    Balanced d (t.forget gone).2 := by
  have memo_iff {key : PairKey} {id : MatchId} : (t.forget gone).2.memo[key]? = some id ↔
      t.memo[key]? = some id ∧ t.mentions gone id = false := by
    change (t.memo.filter _)[key]? = some id ↔ _
    rw [Std.ExtTreeMap.getElem?_filter', Option.filter_eq_some_iff, Bool.not_eq_true']
  refine ⟨fun {key id} entry ↦ ?_, fun {sort id} entry ↦ ?_, fun {key id} entry ↦ ?_⟩
  · obtain ⟨before, kept⟩ := memo_iff.mp entry
    obtain ⟨node, l, r, found, foundLeft, foundRight, shown, differ, agrees⟩ := h.memo before
    obtain ⟨node', found', outLeft, outRight⟩ := mentions_eq_false_iff.mp kept
    rw [found] at found'
    cases found'
    refine ⟨node, l, r, found, stays foundLeft outLeft, stays foundRight outRight,
      shown, differ, ?_⟩
    unfold Agrees at agrees ⊢
    split at agrees
    · exact agrees
    · trivial
    · rcases agrees with bare | ⟨mirror, v, remembered, rest⟩
      · exact Or.inl bare
      · refine Or.inr ⟨mirror, v, memo_iff.mpr ⟨remembered, ?_⟩, rest⟩
        rw [← even key id mirror before remembered]
        exact kept
    · exact agrees
  · change (t.identities.filter _)[sort]? = some id at entry
    rw [Std.ExtTreeMap.getElem?_filter', Option.filter_eq_some_iff] at entry
    exact h.identities entry.1
  · change (t.sentinels.filter _)[key]? = some id at entry
    rw [Std.ExtTreeMap.getElem?_filter', Option.filter_eq_some_iff] at entry
    exact h.sentinels entry.1

end Matchings

/-- Nothing was found in the match but that the sorts do not correspond, as in a sentinel. -/
def MatchNode.Bare (node : MatchNode) : Prop :=
  node.level = .incongruous ∧ node.grade = .concordant ∧ node.tally = .none

/-- The other node shows the same from the other side. -/
structure MatchNode.Mirrors (node other : MatchNode) : Prop where
  level : other.level = node.level
  grade : other.grade = node.grade.reverse
  excess : other.tally.excess = node.tally.omits
  omits : other.tally.omits = node.tally.excess
  augs : other.tally.augs = node.tally.dims
  dims : other.tally.dims = node.tally.augs
  skipped : other.tally.skipped = node.tally.skipped
  swapped : other.tally.swapped = node.tally.swapped
  byName : other.tally.byName = node.tally.byName
  byDefinition : other.tally.byDefinition = node.tally.byDefinition
  byArgument : other.tally.byArgument = node.tally.byArgument

namespace MatchNode

variable {node other : MatchNode}

theorem bare_iff : node.Bare ↔ node.verdict = .bare := by
  unfold Bare verdict Verdict.bare
  rw [Verdict.mk.injEq]

theorem mirrors_iff : node.Mirrors other ↔ other.verdict = node.verdict.reversed := by
  unfold verdict Verdict.reversed Tally.reversed
  rw [Verdict.mk.injEq]
  constructor
  · rintro ⟨level, grade, excess, omits, augs, dims, skipped, swapped, byName, byDefinition,
      byArgument⟩
    refine ⟨level, grade, ?_⟩
    rw [← excess, ← omits, ← augs, ← dims, ← skipped, ← swapped, ← byName, ← byDefinition,
      ← byArgument]
  · rintro ⟨level, grade, tally⟩
    refine ⟨level, grade, ?_, ?_, ?_, ?_, ?_, ?_, ?_, ?_, ?_⟩ <;> rw [tally]

end MatchNode

namespace Registry

/-- The calls by which texts are defined, undone, dropped and matched, where undoing treats the
matches of a pair and of the exchanged pair alike. -/
def Even (r : Registry) (call : Call) : Prop :=
  r.ByText call ∧ (call = .undo → r.matchings.EvenHanded r.catalog.fresh)

theorem balanced_defineAll (proper : r.Proper) (h : Balanced r.catalog r.matchings)
    (text : String) : Balanced (r.defineAll text).2.catalog (r.defineAll text).2.matchings := by
  rw [matchings_defineAll proper]
  exact h.mono fun found ↦ get_defineAll proper text found

theorem balanced_undo (steady : r.catalog.Steady) (h : Balanced r.catalog r.matchings)
    (even : r.matchings.EvenHanded r.catalog.fresh) :
    Balanced r.undo.2.catalog r.undo.2.matchings :=
  h.forget even fun found out ↦ get_undo steady found out

theorem balanced_perform (proper : r.Proper) (rested : r.catalog.Rested)
    (h : Balanced r.catalog r.matchings) (call : Call) (allow : r.Even call) :
    Balanced (r.perform call).catalog (r.perform call).matchings := by
  obtain ⟨allow, even⟩ := allow
  cases call with
  | define text =>
    change Balanced (r.define text).2.catalog (r.define text).2.matchings
    rw [snd_define]
    exact balanced_defineAll proper h text
  | defineAll text => exact balanced_defineAll proper h text
  | undo => exact balanced_undo proper.steady h (even rfl)
  | clear =>
    have nothing := balanced_empty r.clear.catalog
    exact ⟨nothing.memo, nothing.identities, nothing.sentinels⟩
  | matchSorts left right =>
    have ends := mirroring_relate rested.legible rested.toRooted r.config [] left right r.matchings
    change Balanced (r.matchSorts left right).2.catalog (r.matchSorts left right).2.matchings
    unfold matchSorts
    split
    · exact (ends.of_ok ‹_›).1.balanced h
    · exact (ends.of_error ‹_›).balanced h
  | takeLog => exact ⟨h.memo, h.identities, h.sentinels⟩
  | _ => exact absurd allow id

theorem Reachable.balanced (reached : Reachable Even r) : Balanced r.catalog r.matchings := by
  induction reached with
  | empty id _ _ => exact balanced_empty _
  | step before call allow balanced =>
    have rested := (before.mono fun _ _ allowed ↦ allowed.1).rested
    exact balanced_perform before.proper rested balanced call allow

/-- A match is answered by relating the two sorts, and nothing but the matches changes. -/
theorem relate_of_matchSorts {r' : Registry} {a b : SortId} {id : MatchId}
    (answered : r.matchSorts a b = (.ok id, r')) :
    relate r.catalog r.config [] a b r.matchings = .ok id r'.matchings ∧
      r'.catalog = r.catalog ∧ r'.config = r.config := by
  unfold matchSorts at answered
  split at answered
  · rename_i run
    cases answered
    exact ⟨run, rfl, rfl⟩
  · cases answered

/-- The match of two sorts and then that of the exchanged pair mirror each other, if and only if
both are like the match of a sentinel or none of them is. -/
theorem matchSorts_mirrored_iff (reached : Reachable Even r) {a b : SortId} {id id' : MatchId}
    {r₁ r₂ : Registry} (first : r.matchSorts a b = (.ok id, r₁))
    (second : r₁.matchSorts b a = (.ok id', r₂)) :
    ∃ node node', r₁.matchings.get? id = some node ∧ r₂.matchings.get? id' = some node' ∧
      (node.Mirrors node' ↔ (node.Bare ↔ node'.Bare)) := by
  obtain ⟨run, catalog, config⟩ := relate_of_matchSorts first
  obtain ⟨run', -, -⟩ := relate_of_matchSorts second
  rw [catalog, config] at run'
  obtain ⟨l, r', foundLeft, foundRight⟩ := live_of_relate run
  have rested := (reached.mono fun _ _ allowed ↦ allowed.1).rested
  obtain ⟨v, v', ⟨node, found, rfl⟩, ⟨node', found', rfl⟩, mirrored⟩ := mirrored_iff_of_relate
    reached.balanced rested.legible rested.toRooted foundLeft foundRight run run'
  refine ⟨node, node', found, found', ?_⟩
  rw [MatchNode.mirrors_iff, MatchNode.bare_iff, MatchNode.bare_iff]
  exact mirrored

theorem Reachable.nextEven (reached : Reachable Even r) {text : String}
    (finished : (r.defineAll text).1 ≠ .error .abandoned) :
    Reachable Even (r.perform (.defineAll text)) := .step reached _ ⟨finished, by rintro ⟨⟩⟩

/-- Two attributes that are matched from both sides. -/
theorem matchSorts_mirrored_iff_sample :
    let r := sample.perform (.defineAll "a: [Label] p; b: [Count] 3 ^ a; c: a ^ b")
    let second := (r.matchSorts ⟨⟨0⟩, ⟨4, 0⟩⟩ ⟨⟨0⟩, ⟨6, 0⟩⟩).2
    (r.matchSorts ⟨⟨0⟩, ⟨4, 0⟩⟩ ⟨⟨0⟩, ⟨6, 0⟩⟩).1 = .ok ⟨6⟩ ∧
      (second.matchSorts ⟨⟨0⟩, ⟨6, 0⟩⟩ ⟨⟨0⟩, ⟨4, 0⟩⟩).1 = .ok ⟨13⟩ ∧
      ∃ node node', second.matchings.get? ⟨6⟩ = some node ∧
        (second.matchSorts ⟨⟨0⟩, ⟨6, 0⟩⟩ ⟨⟨0⟩, ⟨4, 0⟩⟩).2.matchings.get? ⟨13⟩ = some node' ∧
        (node.Mirrors node' ↔ (node.Bare ↔ node'.Bare)) := by
  intro r second
  have first : (r.matchSorts ⟨⟨0⟩, ⟨4, 0⟩⟩ ⟨⟨0⟩, ⟨6, 0⟩⟩).1 = .ok ⟨6⟩ := by decide +kernel
  have again : (second.matchSorts ⟨⟨0⟩, ⟨6, 0⟩⟩ ⟨⟨0⟩, ⟨4, 0⟩⟩).1 = .ok ⟨13⟩ := by decide +kernel
  have reached : Reachable Even r := (reachable_sample _).nextEven (by decide +kernel)
  exact ⟨first, again, matchSorts_mirrored_iff reached (Prod.ext first rfl) (Prod.ext again rfl)⟩

/-- Two attributes with the same base, each of which is the weight of the other, match from one side
only: from the other side, a sentinel was met and its reversal is remembered. -/
theorem exists_unmirrored_match :
    ¬ ∀ (r r₁ r₂ : Registry) (a b : SortId) (id id' : MatchId), Reachable Even r →
      r.matchSorts a b = (.ok id, r₁) → r₁.matchSorts b a = (.ok id', r₂) →
      ∀ node node', r₁.matchings.get? id = some node → r₂.matchings.get? id' = some node' →
        node.Mirrors node' := by
  intro symmetric
  let r := sample.perform (.defineAll "r: [Label] x ^ (s: [Label] x ^ r)")
  let r₁ := (r.matchSorts ⟨⟨0⟩, ⟨2, 0⟩⟩ ⟨⟨0⟩, ⟨4, 0⟩⟩).2
  let r₂ := (r₁.matchSorts ⟨⟨0⟩, ⟨4, 0⟩⟩ ⟨⟨0⟩, ⟨2, 0⟩⟩).2
  have first : (r.matchSorts ⟨⟨0⟩, ⟨2, 0⟩⟩ ⟨⟨0⟩, ⟨4, 0⟩⟩).1 = .ok ⟨8⟩ := by decide +kernel
  have second : (r₁.matchSorts ⟨⟨0⟩, ⟨4, 0⟩⟩ ⟨⟨0⟩, ⟨2, 0⟩⟩).1 = .ok ⟨2⟩ := by decide +kernel
  have reached : Reachable Even r := (reachable_sample _).nextEven (by decide +kernel)
  have levels : (r₁.matchings.get? ⟨8⟩).map MatchNode.level = some .incomplete ∧
      (r₂.matchings.get? ⟨2⟩).map MatchNode.level = some .incongruous := by decide +kernel
  obtain ⟨⟨node, found, level⟩, ⟨node', found', level'⟩⟩ :=
    levels.imp Option.map_eq_some_iff.mp Option.map_eq_some_iff.mp
  have mirrors := symmetric r r₁ r₂ _ _ ⟨8⟩ ⟨2⟩ reached (Prod.ext first rfl) (Prod.ext second rfl)
    node node' found found'
  rw [mirrors.level, level] at level'
  cases level'

end Registry

end CompositeSorts
