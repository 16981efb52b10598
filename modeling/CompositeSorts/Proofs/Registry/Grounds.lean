import CompositeSorts.Proofs.Matching.Grounding
import CompositeSorts.Proofs.Registry.Recall

/-!
What answers rest on. In a registry that texts have built, everything that is remembered was found
of live sorts that can be matched, and it calls no sorts corresponding that have nothing in common
(`Reachable.recalls_attested`). So a match that is not incongruous always has a ground in the sorts
themselves, however it came about (`grounded_of_matchSorts`), and matching live sorts is refused
only where an aspects tuple stands beside another sort, and then before anything was added
(`matchSorts_refused_iff`).
-/

set_option autoImplicit false
set_option relaxedAutoImplicit false

namespace CompositeSorts

open Catalog Matchings

variable {c d : Catalog} {r r' : Registry} {memory later : Memory} {left right : SortId}
  {l s : SortRecord} {id : MatchId}

/-! ### Memories -/

theorem Memory.attested_empty (c : Catalog) : Memory.empty.Attested c := by
  rintro key finding ⟨⟩

/-- Findings stay attested as long as the sorts are kept that they are about, with all that is in
them. -/
theorem Memory.Attested.transport (h : memory.Attested c) (keep : SortId → Prop)
    (stays : ∀ {id : SortId} {sort : SortRecord}, keep id → c.get id = .ok sort →
      d.get id = .ok sort)
    (closed : ∀ {id : SortId} {sort : SortRecord}, keep id → c.get id = .ok sort →
      ∀ other ∈ sort.body.handles, keep other)
    (among : ∀ (key : PairKey) (finding : Finding), later.known key = some finding →
      memory.known key = some finding ∧ keep finding.node.left ∧ keep finding.node.right) :
    later.Attested d := by
  intro key finding known
  obtain ⟨before, keptLeft, keptRight⟩ := among key finding known
  obtain ⟨l, r, foundLeft, foundRight, shown, kinds, grounds⟩ := h key finding before
  exact ⟨l, r, stays keptLeft foundLeft, stays keptRight foundRight, shown, kinds, fun close ↦
    (grounds close).transport stays closed keptLeft keptRight⟩

/-- A condition on memories that lasts as long as the sorts are kept that they are about, with all
that is in them. -/
structure Memory.Lasting (good : Catalog → Memory → Prop) : Prop where
  empty : ∀ c, good c .empty
  transport : ∀ {c d : Catalog} {memory later : Memory}, good c memory → ∀ keep : SortId → Prop,
    (∀ {id : SortId} {sort : SortRecord}, keep id → c.get id = .ok sort → d.get id = .ok sort) →
    (∀ {id : SortId} {sort : SortRecord}, keep id → c.get id = .ok sort →
      ∀ other ∈ sort.body.handles, keep other) →
    (∀ (key : PairKey) (finding : Finding), later.known key = some finding →
      memory.known key = some finding ∧ keep finding.node.left ∧ keep finding.node.right) →
    good d later

theorem Memory.lasting_attested : Memory.Lasting fun c memory ↦ memory.Attested c where
  empty := attested_empty
  transport h keep stays closed among := h.transport keep stays closed among

/-- It lasts when all sorts are kept. -/
theorem Memory.Lasting.mono {good : Catalog → Memory → Prop} (lasting : Memory.Lasting good)
    (h : good c memory)
    (stays : ∀ {id : SortId} {sort : SortRecord}, c.get id = .ok sort → d.get id = .ok sort) :
    good d memory :=
  lasting.transport h (fun _ ↦ True) (fun _ ↦ stays) (fun _ _ _ _ ↦ trivial)
    fun _ _ known ↦ ⟨known, trivial, trivial⟩

/-- A finding that is not forgotten is about sorts that are not gone. -/
theorem Memory.known_of_without {gone : List SortId} {key : PairKey} {finding : Finding}
    (known : (memory.without gone).known key = some finding) :
    memory.known key = some finding ∧ finding.node.left ∉ gone ∧ finding.node.right ∉ gone := by
  obtain ⟨before, kept⟩ := Option.filter_eq_some_iff.mp known
  rw [Bool.and_eq_true, decide_eq_true_eq, decide_eq_true_eq] at kept
  exact ⟨before, kept⟩

/-- Sorts of one display are both aspects tuples or none of them is, so what is remembered of a pair
of displays is remembered of sorts that can be matched. -/
theorem Memory.Attested.kinds (h : memory.Attested c) (rested : c.Rested)
    (foundLeft : c.get left = .ok l) (foundRight : c.get right = .ok s) {finding : Finding}
    (known : memory.known ⟨l.display, s.display⟩ = some finding) :
    l.variant = .aspects ↔ s.variant = .aspects := by
  obtain ⟨l', s', foundLeft', foundRight', shown, kinds, -⟩ := h _ _ known
  obtain ⟨sameLeft, sameRight⟩ := PairKey.mk.inj shown
  rw [rested.variant_eq foundLeft foundLeft' sameLeft,
    rested.variant_eq foundRight foundRight' sameRight]
  exact kinds

/-! ### Tuples beside other sorts -/

/-- The tables have the same matches and remember the same ones. -/
structure Matchings.SameMatches (t t' : Matchings) : Prop where
  nodes : t'.nodes = t.nodes
  memo : t'.memo = t.memo
  identities : t'.identities = t.identities
  sentinels : t'.sentinels = t.sentinels

/-- Why an aspects tuple and a sort that is none are not matched. -/
def Refusal.tupleBeside (l s : SortRecord) : Refusal :=
  .unrelatable l.display s.display (if l.variant = .aspects then s.variant else l.variant)

section

variable (kinds : ¬ (l.variant = .aspects ↔ s.variant = .aspects))

include kinds

theorem Rule.forVariants_of_tuple (c : Catalog) (config : Configuration) (relate : Relate) :
    forVariants c config relate l s = throw (.tupleBeside l s) := by
  unfold SortRecord.variant at kinds
  unfold forVariants Refusal.tupleBeside SortRecord.variant
  cases left : l.body <;> cases right : s.body <;> rw [left, right] at kinds <;>
    first | rfl | exact absurd (by simp [Body.variant]) kinds

theorem Appraisal.forVariants_of_tuple (c : Catalog) (plain : Appraiser) :
    forVariants c plain l s = throw (.tupleBeside l s) := by
  unfold SortRecord.variant at kinds
  unfold forVariants Refusal.tupleBeside SortRecord.variant
  cases left : l.body <;> cases right : s.body <;> rw [left, right] at kinds <;>
    first | rfl | exact absurd (by simp [Body.variant]) kinds

theorem Appraisal.relate_of_tuple (rested : c.Rested) (attested : memory.Attested c)
    (foundLeft : c.get left = .ok l) (foundRight : c.get right = .ok s) :
    Appraisal.relate c [] left right memory = .error (.tupleBeside l s) memory := by
  have differ : left ≠ right := by
    rintro rfl
    rw [foundLeft] at foundRight
    cases foundRight
    exact kinds Iff.rfl
  have new : memory.known ⟨l.display, s.display⟩ = none := by
    by_contra known
    obtain ⟨finding, known⟩ := Option.ne_none_iff_exists'.mp known
    exact kinds (attested.kinds rested foundLeft foundRight known)
  have read : ∀ rule : Memory → Appraisal Finding, (get >>= rule) memory = rule memory memory :=
    fun _ ↦ rfl
  rw [relate_of_found foundLeft foundRight, if_neg differ, if_neg List.not_mem_nil,
    forVariants_of_tuple kinds, read, new]
  rfl

theorem Matching.relate_of_tuple {t : Matchings} (config : Configuration)
    (foundLeft : c.get left = .ok l) (foundRight : c.get right = .ok s)
    (new : t.memo[(⟨l.display, s.display⟩ : PairKey)]? = none) :
    Matching.relate c config [] left right t = .error (.tupleBeside l s)
      (({ t with metrics := t.metrics.recordMiss }.begin ⟨l.display, s.display⟩).finish
        ⟨l.display, s.display⟩) := by
  have differ : left ≠ right := by
    rintro rfl
    rw [foundLeft] at foundRight
    cases foundRight
    exact kinds Iff.rfl
  have missed : lookUp ⟨l.display, s.display⟩ t =
      .ok none { t with metrics := t.metrics.recordMiss } := by
    have read : ∀ step : Matchings → Matching (Option MatchId), (get >>= step) t = step t t :=
      fun _ ↦ rfl
    rw [lookUp, read, new]
    rfl
  rw [Matching.relate_of_found foundLeft foundRight, if_neg differ, if_neg List.not_mem_nil,
    Rule.forVariants_of_tuple kinds]
  change EStateM.bind (lookUp _) _ t = _
  unfold EStateM.bind
  rw [missed]
  rfl

end

/-- What cannot be matched is refused, and nothing is remembered. -/
theorem Appraisal.relate_of_not_relatable (rested : c.Rested) (attested : memory.Attested c)
    (apart : ¬ c.Relatable left right) :
    ∃ reason, Appraisal.relate c [] left right memory = .error reason memory := by
  cases foundLeft : c.get left with
  | error reason => exact ⟨reason, by rw [relate_of_missing_left foundLeft]; rfl⟩
  | ok l =>
    cases foundRight : c.get right with
    | error reason => exact ⟨reason, by rw [relate_of_missing_right foundLeft foundRight]; rfl⟩
    | ok s =>
      exact ⟨_, relate_of_tuple (fun kinds ↦ apart ⟨l, s, foundLeft, foundRight, kinds⟩) rested
        attested foundLeft foundRight⟩

namespace Registry

theorem ByText.textual {call : Call} (allow : r.ByText call) : call.Textual := by
  cases call <;> trivial

/-- Matching finds nothing that is not attested. -/
theorem attested_matchSorts {categories : CategoryTable} (rested : c.Rested)
    (suited : Suited categories c) (h : memory.Attested c) (left right : SortId) :
    (c.recall memory (.matchSorts left right)).Attested c := by
  unfold Catalog.recall
  dsimp only
  by_cases relatable : c.Relatable left right
  · have grounds := Appraisal.grounding_relate rested suited [] left right memory relatable h
    unfold Ends at grounds
    split at grounds
    · rename_i run
      rw [run]
      exact grounds.1
    · exact grounds.elim
  · obtain ⟨reason, refused⟩ := Appraisal.relate_of_not_relatable rested h relatable
    rw [refused]
    exact h

/-- What lasts and what matching keeps up holds of the memory after any call. -/
theorem perform_of_lasting {good : Catalog → Memory → Prop} (lasting : Memory.Lasting good)
    (proper : r.Proper) (rested : r.catalog.Rested) (h : good r.catalog memory)
    (matching : ∀ left right, good r.catalog (r.catalog.recall memory (.matchSorts left right)))
    (call : Call) (allow : r.ByText call) :
    good (r.perform call).catalog (r.catalog.recall memory call) := by
  cases call with
  | define text =>
    change good (r.define text).2.catalog memory
    rw [snd_define]
    exact lasting.mono h fun found ↦ get_defineAll proper text found
  | defineAll text => exact lasting.mono h fun found ↦ get_defineAll proper text found
  | undo =>
    exact lasting.transport h (· ∉ r.catalog.fresh)
      (fun out found ↦ get_undo proper.steady found out) (fun out found ↦ rested.closed found out)
      fun _ _ known ↦ Memory.known_of_without known
  | clear => exact lasting.empty _
  | matchSorts left right =>
    have same : (r.perform (.matchSorts left right)).catalog = r.catalog :=
      catalog_matchSorts r left right
    rw [same]
    exact matching left right
  | takeLog => exact lasting.mono h fun found ↦ found
  | _ => exact absurd allow id

/-- The memory stays attested, whatever is called. -/
theorem attested_perform (proper : r.Proper) (rested : r.catalog.Rested)
    (suited : Suited r.categories r.catalog) (h : memory.Attested r.catalog) (call : Call)
    (allow : r.ByText call) : (r.catalog.recall memory call).Attested (r.perform call).catalog :=
  perform_of_lasting Memory.lasting_attested proper rested h (attested_matchSorts rested suited h)
    call allow

/-- What is remembered was found of sorts that can be matched, and rests on them. -/
theorem Reachable.recalls_attested (reached : Reachable ByText r) :
    ∃ memory, r.Recalls memory ∧ memory.Attested r.catalog := by
  induction reached with
  | empty id categories config => exact ⟨.empty, recalls_empty _ _ _, Memory.attested_empty _⟩
  | @step r before call allow ih =>
    obtain ⟨memory, recalls, attested⟩ := ih
    exact ⟨_, recalls_perform before.proper recalls (ByText.textual allow),
      attested_perform before.proper before.rested before.suited attested call allow⟩

/-- Sorts that match have a ground in common: unless the match is incongruous, they lead to sorts of
one canonical text, or to primitive sorts of one category. -/
theorem grounded_of_matchSorts (reached : Reachable ByText r)
    (answered : r.matchSorts left right = (.ok id, r')) {node : MatchNode}
    (found : r'.matchings.get? id = some node) (close : node.level ≠ .incongruous) :
    r.catalog.Grounded left right := by
  obtain ⟨memory, recalls, attested⟩ := reached.recalls_attested
  have answer := follows_matchSorts reached.proper recalls left right
  have relatable : r.catalog.Relatable left right := by
    by_contra apart
    obtain ⟨reason, refused⟩ := Appraisal.relate_of_not_relatable reached.rested attested apart
    rw [refused] at answer
    obtain ⟨r'', failed, -⟩ := answer
    rw [failed] at answered
    cases answered
  have grounds := Appraisal.grounding_relate reached.rested reached.suited [] left right memory
    relatable attested
  unfold Ends at grounds
  split at grounds
  · rename_i finding later run
    rw [run] at answer
    obtain ⟨id', r'', answered', -, shows, -⟩ := answer
    rw [answered] at answered'
    cases answered'
    obtain ⟨node', found', alone, -⟩ := shows_iff.mp shows
    rw [found] at found'
    cases found'
    refine grounds.2 ?_
    rw [← alone]
    exact close
  · exact grounds.elim

/-- Two attributes, each of which is the weight of the other: they correspond since they have the
same base. -/
theorem grounded_of_matchSorts_sample :
    let r := sample.perform (.defineAll "r: [Label] x ^ (s: [Label] x ^ r)")
    (r.matchSorts ⟨⟨0⟩, ⟨2, 0⟩⟩ ⟨⟨0⟩, ⟨4, 0⟩⟩).1 = .ok ⟨8⟩ ∧
      r.catalog.Grounded ⟨⟨0⟩, ⟨2, 0⟩⟩ ⟨⟨0⟩, ⟨4, 0⟩⟩ := by
  intro r
  have answered : (r.matchSorts ⟨⟨0⟩, ⟨2, 0⟩⟩ ⟨⟨0⟩, ⟨4, 0⟩⟩).1 = .ok ⟨8⟩ := by decide +kernel
  have level : ((r.matchSorts ⟨⟨0⟩, ⟨2, 0⟩⟩ ⟨⟨0⟩, ⟨4, 0⟩⟩).2.matchings.get? ⟨8⟩).map
      MatchNode.level = some .incomplete := by decide +kernel
  obtain ⟨node, found, level⟩ := Option.map_eq_some_iff.mp level
  exact ⟨answered, grounded_of_matchSorts ((reachable_sample _).next (by decide +kernel))
    (Prod.ext answered rfl) found (by rw [level]; decide)⟩

/-- Matching two live sorts is refused if and only if exactly one of them is an aspects tuple. Then
this is the reason, no match is added and none is remembered; in all other cases, the answer is a
match that is there. -/
theorem matchSorts_refused_iff (reached : Reachable ByText r) (foundLeft : r.catalog.get left = .ok l)
    (foundRight : r.catalog.get right = .ok s) :
    ((∃ reason, (r.matchSorts left right).1 = .error reason) ↔
        Xor (l.variant = .aspects) (s.variant = .aspects)) ∧
      (∀ reason, (r.matchSorts left right).1 = .error reason →
        reason = .tupleBeside l s ∧ reason.kind = .illegalArgument ∧
          (r.matchSorts left right).2.catalog = r.catalog ∧
          SameMatches r.matchings (r.matchSorts left right).2.matchings) ∧
      ∀ id, (r.matchSorts left right).1 = .ok id →
        ∃ node, (r.matchSorts left right).2.matchings.get? id = some node := by
  obtain ⟨memory, recalls, attested⟩ := reached.recalls_attested
  rw [xor_iff_not_iff]
  by_cases kinds : l.variant = .aspects ↔ s.variant = .aspects
  · have answer := follows_matchSorts reached.proper recalls left right
    have grounds := Appraisal.grounding_relate reached.rested reached.suited [] left right memory
      ⟨l, s, foundLeft, foundRight, kinds⟩ attested
    unfold Ends at grounds
    split at grounds
    · rename_i finding later run
      rw [run] at answer
      obtain ⟨id, r', answered, -, shows, -⟩ := answer
      obtain ⟨node, found, -⟩ := shows_iff.mp shows
      rw [answered]
      refine ⟨iff_of_false (by rintro ⟨reason, ⟨⟩⟩) (not_not_intro kinds), by rintro reason ⟨⟩, ?_⟩
      rintro id' ⟨⟩
      exact ⟨node, found⟩
    · exact grounds.elim
  · have new : r.matchings.memo[(⟨l.display, s.display⟩ : PairKey)]? = none := by
      have remembered := recalls.memo ⟨l.display, s.display⟩
      generalize known : memory.known ⟨l.display, s.display⟩ = found at remembered
      generalize r.matchings.memo[(⟨l.display, s.display⟩ : PairKey)]? = entry at remembered ⊢
      cases remembered with
      | none => rfl
      | some shows => exact absurd (attested.kinds reached.rested foundLeft foundRight known) kinds
    unfold matchSorts
    rw [Matching.relate_of_tuple kinds r.config foundLeft foundRight new]
    refine ⟨iff_of_true ⟨_, rfl⟩ kinds, ?_, by rintro id ⟨⟩⟩
    rintro reason ⟨⟩
    exact ⟨rfl, rfl, rfl, rfl, rfl, rfl, rfl⟩

/-- A tuple beside one of its aspects, and two aspects of one tuple. -/
theorem matchSorts_refused_iff_sample :
    let r := sample.perform (.defineAll "a: [Label] p; (m, n): [Relation] (a, [Flag])")
    ∃ tuple first second, r.catalog.get ⟨⟨0⟩, ⟨3, 0⟩⟩ = .ok tuple ∧
      r.catalog.get ⟨⟨0⟩, ⟨4, 0⟩⟩ = .ok first ∧ r.catalog.get ⟨⟨0⟩, ⟨5, 0⟩⟩ = .ok second ∧
      (∃ reason, (r.matchSorts ⟨⟨0⟩, ⟨3, 0⟩⟩ ⟨⟨0⟩, ⟨4, 0⟩⟩).1 = .error reason) ∧
      ¬ ∃ reason, (r.matchSorts ⟨⟨0⟩, ⟨4, 0⟩⟩ ⟨⟨0⟩, ⟨5, 0⟩⟩).1 = .error reason := by
  intro r
  have reached : Reachable ByText r := (reachable_sample _).next (by decide +kernel)
  have shows (id : SortId) (variant : Variant)
      (seen : (r.catalog.get id).toOption.map SortRecord.variant = some variant) :
      ∃ sort, r.catalog.get id = .ok sort ∧ sort.variant = variant := exists_of_seen seen
  obtain ⟨tuple, isTuple, tuples⟩ := shows ⟨⟨0⟩, ⟨3, 0⟩⟩ .aspects (by decide +kernel)
  obtain ⟨first, isFirst, aspect⟩ := shows ⟨⟨0⟩, ⟨4, 0⟩⟩ .aspect (by decide +kernel)
  obtain ⟨second, isSecond, aspect'⟩ := shows ⟨⟨0⟩, ⟨5, 0⟩⟩ .aspect (by decide +kernel)
  have plain : first.variant ≠ .aspects := by rw [aspect]; decide
  have plain' : second.variant ≠ .aspects := by rw [aspect']; decide
  refine ⟨tuple, first, second, isTuple, isFirst, isSecond,
    (matchSorts_refused_iff reached isTuple isFirst).1.mpr (Or.inl ⟨tuples, plain⟩),
    fun refused ↦ ?_⟩
  rcases (matchSorts_refused_iff reached isFirst isSecond).1.mp refused with ⟨tuple, -⟩ | ⟨tuple, -⟩
  · exact plain tuple
  · exact plain' tuple

end Registry

end CompositeSorts
