import CompositeSorts.Proofs.Matching.Asking
import CompositeSorts.Proofs.Matching.RuleChoice
import Mathlib.Data.List.ReduceOption

/-!
What rules do. A rule asks for the matches of sorts inside, reads matches, and appends matches of
its own two sorts, whose parts are matches that it was told of. It chooses among all the matches
that it has appended since it chose last, and it may turn the match of the exchanged pair around. So
it is a tree of such steps (`Routine`), and what each step carries on is carried on by all rules at
once (`Routine.run`, `routine_forVariants`). This is how a property of the table is carried through
matching: by one lemma for each kind of step, and none for any rule.
-/

set_option autoImplicit false
set_option relaxedAutoImplicit false

namespace CompositeSorts

open Catalog Matchings Matching Rule

variable {α β ι : Type} {c : Catalog} {config : Configuration} {near : SortId → SortId → Prop}
  {l r : SortRecord} {t t' : Matchings} {id : MatchId}
  {told told' made made' free free' : List MatchId}

/-- A match as rules append them: of these two sorts and of their scale, not tied yet, and neither
an identity nor one that is under way. -/
structure Composed (l r : SortRecord) (node : MatchNode) : Prop where
  left : node.left = l.id
  right : node.right = r.id
  scale : node.scale = commonScale l r
  untied : node.tiedWith = none
  settled : node.sentinel = false
  distinct : node.level ≠ .identical

theorem composed_node {level : Level} (grade : Grade) (tally : Tally) (parts : List MatchId)
    (distinct : level ≠ .identical) : Composed l r (node l r level grade tally parts) :=
  ⟨rfl, rfl, rfl, rfl, rfl, distinct⟩

/-- The steps of a rule. It may ask for matches of near sorts; `told` are those it was told of, with
their alternatives, `made` are those it has made itself, and `free` are those of them that it has
not chosen from yet. When it answers, `good` holds of these and of the answer. -/
inductive Routine (config : Configuration) (near : SortId → SortId → Prop) (l r : SortRecord)
    (good : List MatchId → List MatchId → List MatchId → α → Prop) :
    List MatchId → List MatchId → List MatchId → (Relate → Matching α) → Prop where
  | pure {told made free : List MatchId} {answer : α} (done : good told made free answer) :
    Routine config near l r good told made free fun _ ↦ Pure.pure answer
  | throw {told made free : List MatchId} (reason : Refusal) :
    Routine config near l r good told made free fun _ ↦ MonadExcept.throw reason
  | ask {told made free : List MatchId} {left right : SortId}
    {next : MatchId → Relate → Matching α} (isNear : near left right)
    (goes : ∀ id, Routine config near l r good (id :: told) made free (next id)) :
    Routine config near l r good told made free fun relate ↦
      relate left right >>= fun id ↦ next id relate
  | nodeOf {told made free : List MatchId} {id : MatchId} {next : MatchNode → Relate → Matching α}
    (goes : ∀ node, Routine config near l r good told made free (next node)) :
    Routine config near l r good told made free fun relate ↦
      Matching.nodeOf id >>= fun node ↦ next node relate
  | get {told made free : List MatchId} {next : Matchings → Relate → Matching α}
    (goes : ∀ t, Routine config near l r good told made free (next t)) :
    Routine config near l r good told made free fun relate ↦
      MonadState.get >>= fun t ↦ next t relate
  | alternatives {told made free : List MatchId} {head : MatchId}
    {next : List MatchId → Relate → Matching α} (known : head ∈ told)
    (goes : ∀ ids, Routine config near l r good (ids ++ told) made free (next ids)) :
    Routine config near l r good told made free fun relate ↦
      MonadState.get >>= fun t ↦ next (t.alternatives head) relate
  | push {told made free : List MatchId} {node : MatchNode} {next : MatchId → Relate → Matching α}
    (composed : Composed l r node) (known : node.parts ⊆ told)
    (goes : ∀ id, Routine config near l r good told (id :: made) (free ++ [id]) (next id)) :
    Routine config near l r good told made free fun relate ↦
      Matching.push node >>= fun id ↦ next id relate
  | choose {told made free : List MatchId} {next : Option MatchId → Relate → Matching α}
    (own : free ⊆ made)
    (goes : ∀ best : Option MatchId, best.toList ⊆ made →
      Routine config near l r good told made [] (next best)) :
    Routine config near l r good told made free fun relate ↦
      Matching.choose config free >>= fun best ↦ next best relate
  | turn {told made free : List MatchId} {next : MatchId → Relate → Matching α}
    (turns : course l r = .backward)
    (goes : ∀ id, Routine config near l r good told (id :: made) free (next id)) :
    Routine config near l r good told made free fun relate ↦
      exchanged relate l r >>= fun id ↦ next id relate

namespace Routine

variable {good : List MatchId → List MatchId → List MatchId → α → Prop}
    {good' : List MatchId → List MatchId → List MatchId → β → Prop}

theorem bind {rule : Relate → Matching α} {next : α → Relate → Matching β}
    (h : Routine config near l r good told made free rule)
    (more : ∀ told' made' free' answer, told ⊆ told' → made ⊆ made' →
      good told' made' free' answer →
      Routine config near l r good' told' made' free' (next answer)) :
    Routine config near l r good' told made free fun relate ↦
      rule relate >>= fun answer ↦ next answer relate := by
  have assoc {γ : Type} (first : Relate → Matching γ) (second : γ → Relate → Matching α) :
      (fun relate : Relate ↦ (first relate >>= fun answer ↦ second answer relate) >>= fun answer ↦
        next answer relate) = fun relate ↦ first relate >>= fun answer ↦ second answer relate >>=
          fun answer ↦ next answer relate :=
    funext fun _ ↦ bind_assoc _ _ _
  induction h with
  | pure done => exact more _ _ _ _ (List.Subset.refl _) (List.Subset.refl _) done
  | throw reason => exact .throw reason
  | @ask told made free left right next' isNear _ ih =>
    rw [assoc (fun relate ↦ relate left right) next']
    exact .ask isNear fun id ↦ ih id fun _ _ _ answer later ↦
      more _ _ _ answer (List.Subset.trans (List.subset_cons_self id told) later)
  | @nodeOf told made free id next' _ ih =>
    rw [assoc (fun _ ↦ Matching.nodeOf id) next']
    exact .nodeOf fun node ↦ ih node more
  | @get told made free next' _ ih =>
    rw [assoc (fun _ ↦ MonadState.get) next']
    exact .get fun t ↦ ih t more
  | @alternatives told made free head next' known _ ih =>
    rw [assoc (fun _ ↦ MonadState.get) fun t ↦ next' (t.alternatives head)]
    exact .alternatives known fun ids ↦ ih ids fun _ _ _ answer later ↦
      more _ _ _ answer (List.Subset.trans (List.subset_append_right ids told) later)
  | @push told made free node next' composed known _ ih =>
    rw [assoc (fun _ ↦ Matching.push node) next']
    exact .push composed known fun id ↦ ih id fun _ _ _ answer later later' ↦
      more _ _ _ answer later (List.Subset.trans (List.subset_cons_self id made) later')
  | @choose told made free next' own _ ih =>
    rw [assoc (fun _ ↦ Matching.choose config free) next']
    exact .choose own fun best among ↦ ih best among more
  | @turn told made free next' turns _ ih =>
    rw [assoc (fun relate ↦ exchanged relate l r) next']
    exact .turn turns fun id ↦ ih id fun _ _ _ answer later later' ↦
      more _ _ _ answer later (List.Subset.trans (List.subset_cons_self id made) later')

theorem mono {good' : List MatchId → List MatchId → List MatchId → α → Prop}
    {rule : Relate → Matching α} (h : Routine config near l r good told made free rule)
    (more : ∀ told made free answer, good told made free answer → good' told made free answer) :
    Routine config near l r good' told made free rule := by
  have goes : Routine config near l r good' told made free fun relate ↦
      rule relate >>= fun answer ↦ Pure.pure answer :=
    h.bind fun told' made' free' answer _ _ done ↦ .pure (more told' made' free' answer done)
  simpa only [bind_pure] using goes

/-- The catalog answers at once. -/
theorem reply {answer : Except Refusal β} {next : β → Relate → Matching α}
    (more : ∀ value, answer = .ok value →
      Routine config near l r good told made free (next value)) :
    Routine config near l r good told made free fun relate ↦
      Matching.ask answer >>= fun value ↦ next value relate := by
  cases answer with
  | ok value => exact more value rfl
  | error reason => exact .throw reason

theorem ite {condition : Prop} [Decidable condition] {rule rule' : Relate → Matching α}
    (h : condition → Routine config near l r good told made free rule)
    (h' : ¬ condition → Routine config near l r good told made free rule') :
    Routine config near l r good told made free fun relate ↦
      if condition then rule relate else rule' relate := by
  by_cases holds : condition
  · simp only [if_pos holds]
    exact h holds
  · simp only [if_neg holds]
    exact h' holds

/-- What is good of an answer stays so. -/
def Lasting (good : List MatchId → List MatchId → List MatchId → α → Prop) : Prop :=
  ∀ {told told' made made' free free' : List MatchId} {answer : α}, told ⊆ told' → made ⊆ made' →
    good told made free answer → good told' made' free' answer

theorem mapM (good : List MatchId → List MatchId → List MatchId → α → Prop) {items : List ι}
    {work : ι → Relate → Matching α} (lasting : Lasting good)
    (each : ∀ item ∈ items, ∀ told' made' free', told ⊆ told' →
      Routine config near l r good told' made' free' (work item)) :
    Routine config near l r
      (fun told made free answers ↦ ∀ answer ∈ answers, good told made free answer)
      told made free fun relate ↦ items.mapM fun item ↦ work item relate := by
  induction items generalizing told made free with
  | nil => exact .pure (by simp)
  | cons item items ih =>
    simp only [List.mapM_cons]
    refine (each item List.mem_cons_self told made free (List.Subset.refl _)).bind
      fun told₁ made₁ free₁ answer more _ first ↦ ?_
    refine (ih fun other inside told' made' free' after ↦ each other
      (List.mem_cons_of_mem _ inside) told' made' free' (List.Subset.trans more after)).bind
      fun told₂ made₂ free₂ answers later later' others ↦ ?_
    refine .pure fun answer' inside ↦ ?_
    rcases List.mem_cons.mp inside with rfl | inside
    · exact lasting later later' first
    · exact others answer' inside

/-- The answer offers matches of the rule to be chosen from, beside those that were free before. -/
structure Offers (before : List MatchId) (offered : α → List MatchId)
    (_ : List MatchId) (made free : List MatchId) (answer : α) : Prop where
  free : free = before ++ offered answer
  own : offered answer ⊆ made

/-- What the answers to a list offer is offered in the order of the list. -/
theorem mapM_offers (offered : α → List MatchId) {items : List ι} {work : ι → Relate → Matching α}
    (each : ∀ item ∈ items, ∀ told' made' free', told ⊆ told' →
      Routine config near l r (Offers free' offered) told' made' free' (work item)) :
    Routine config near l r (Offers free fun answers ↦ answers.flatMap offered) told made free
      fun relate ↦ items.mapM fun item ↦ work item relate := by
  induction items generalizing told made free with
  | nil => exact .pure ⟨(List.append_nil free).symm, List.nil_subset _⟩
  | cons item items ih =>
    simp only [List.mapM_cons]
    refine (each item List.mem_cons_self told made free (List.Subset.refl _)).bind
      fun told₁ made₁ free₁ answer more _ first ↦ ?_
    refine (ih fun other inside told' made' free' after ↦ each other
      (List.mem_cons_of_mem _ inside) told' made' free' (List.Subset.trans more after)).bind
      fun told₂ made₂ free₂ answers _ later others ↦ .pure ⟨?_, ?_⟩
    · rw [others.free, first.free, List.flatMap_cons, List.append_assoc]
    · rw [List.flatMap_cons]
      exact List.append_subset.mpr ⟨List.Subset.trans first.own later, others.own⟩

/-! ### What routines carry on -/

/-- What the steps of a rule carry on: a state of the table that may speak of the matches that the
rule was told of, of those it has made, and of those that are still free. `fault` holds of the table
when the rule is refused. -/
structure Carries (config : Configuration) (l r : SortRecord)
    (state : List MatchId → List MatchId → List MatchId → Matchings → Prop)
    (fault : Matchings → Prop) : Prop where
  failed : ∀ {told made free t}, state told made free t → fault t
  alternatives : ∀ {told made free t head}, state told made free t → head ∈ told →
    state (t.alternatives head ++ told) made free t
  push : ∀ {told made free t node}, state told made free t → Composed l r node →
    node.parts ⊆ told →
      state told (⟨t.nodes.size⟩ :: made) (free ++ [⟨t.nodes.size⟩]) (t.push node)
  choose : ∀ {told made free t}, state told made free t → free ⊆ made →
    Ends (Matching.choose config free) t
      (fun best t' ↦ state told made [] t' ∧ best.toList ⊆ free) fault

section

variable {state : List MatchId → List MatchId → List MatchId → Matchings → Prop}
  {fault : Matchings → Prop}

/-- A routine carries on what its steps do, as long as the matching of near sorts does, and that of
the exchanged pair. The induction is on the steps. -/
theorem run {rule : Relate → Matching α} {relate : Relate} (h : Carries config l r state fault)
    (inside : ∀ left right told made free t, near left right → state told made free t →
      Ends (relate left right) t (fun id t' ↦ state (id :: told) made free t') fault)
    (turned : ∀ told made free t, course l r = .backward → state told made free t →
      Ends (exchanged relate l r) t (fun id t' ↦ state told (id :: made) free t') fault)
    (routine : Routine config near l r good told made free rule) (here : state told made free t) :
    Ends (rule relate) t (fun answer t' ↦ ∃ told made free,
      good told made free answer ∧ state told made free t') fault := by
  induction routine generalizing t with
  | pure done => exact Ends.pure ⟨_, _, _, done, here⟩
  | throw reason => exact Ends.throw (h.failed here)
  | ask isNear _ ih =>
    exact Ends.bind ((inside _ _ _ _ _ t isNear here).mono (fun id _ now ↦ ih id now)
      fun _ failed ↦ failed)
  | nodeOf _ ih => exact Ends.bind (ends_nodeOf (h.failed here) fun node _ ↦ ih node here)
  | get _ ih => exact Ends.bind (Ends.get (ih t here))
  | alternatives known _ ih => exact Ends.bind (Ends.get (ih _ (h.alternatives here known)))
  | push composed known _ ih => exact Ends.bind (ends_push (ih _ (h.push here composed known)))
  | choose own _ ih =>
    exact Ends.bind ((h.choose here own).mono
      (fun best _ now ↦ ih best (List.Subset.trans now.2 own) now.1) fun _ failed ↦ failed)
  | turn turns _ ih =>
    exact Ends.bind ((turned _ _ _ t turns here).mono (fun id _ now ↦ ih id now)
      fun _ failed ↦ failed)

end

/-- What the steps of a rule uphold: a property `state` of the table, a relation `later` of each
table to those that come of it, and what is known of the matches that a rule was told of and of
those it has made. -/
structure Upholds (config : Configuration) (l r : SortRecord) (state : Matchings → Prop)
    (later : Matchings → Matchings → Prop) (isTold isMade : Matchings → MatchId → Prop) : Prop where
  refl : ∀ t, later t t
  trans : ∀ {t t' u}, later t t' → later t' u → later t u
  told : ∀ {t t' id}, later t t' → isTold t id → isTold t' id
  made : ∀ {t t' id}, later t t' → isMade t id → isMade t' id
  alternative : ∀ {t head id}, isTold t head → id ∈ t.alternatives head → isTold t id
  push : ∀ {t node}, state t → Composed l r node → (∀ part ∈ node.parts, isTold t part) →
    state (t.push node) ∧ later t (t.push node) ∧ isMade (t.push node) ⟨t.nodes.size⟩
  tie : ∀ {t head alternative last}, state t → isMade t head → isMade t alternative →
    t.chainEnd alternative config.maxAlternatives head = some last →
      ∀ metrics journal, metrics.cyclesBroken = t.metrics.cyclesBroken → let tied := { t with
        nodes := t.nodes.modify last.index fun node ↦ { node with tiedWith := some alternative }
        metrics, journal }
      state tied ∧ later t tied

/-- The table is as it has to be, and later than another one. -/
abbrev Upheld (state : Matchings → Prop) (later : Matchings → Matchings → Prop) (u t : Matchings) :
    Prop := state t ∧ later u t

variable {state : Matchings → Prop} {later : Matchings → Matchings → Prop}
  {isTold isMade : Matchings → MatchId → Prop}

/-- Choosing among matches of one's own ties them only to each other. -/
theorem Upholds.ends_choose (h : Upholds config l r state later isTold isMade) {ids : List MatchId}
    (here : state t) (own : ∀ id ∈ ids, isMade t id) :
    Ends (Matching.choose config ids) t
      (fun best t' ↦ Upheld state later t t' ∧ best.toList ⊆ ids) (Upheld state later t) := by
  have start : Upheld state later t t := ⟨here, h.refl t⟩
  refine Matching.ends_choose (fun candidates best t' ↦ best ∈ candidates ∧
    candidates.map Prod.fst = ids ∧ Upheld state later t t') start (fun _ ↦ ⟨start, by simp⟩)
    ?_ ?_ ?_
  · exact fun first others same _ ↦ ⟨foldl_better_mem first others, same, start⟩
  · rintro candidates best candidate among - - t' ⟨inside, same, now, since⟩
    have bestOwn := h.made since (own best.1 (same ▸ List.mem_map_of_mem inside))
    have otherOwn := h.made since (own candidate.1 (same ▸ List.mem_map_of_mem among))
    refine ends_chain ⟨inside, same, now, since⟩ fun last found ↦ ⟨inside, same, ?_⟩
    obtain ⟨now', since'⟩ := h.tie now bestOwn otherOwn found t'.metrics.recordAlternative
      (.tieRecorded best.1 candidate.1 :: t'.journal) rfl
    exact ⟨now', h.trans since since'⟩
  · rintro first others t' - ⟨inside, same, reached⟩
    refine ⟨reached, fun id one ↦ ?_⟩
    obtain rfl := List.mem_singleton.mp one
    exact same ▸ List.mem_map_of_mem inside

/-- What is upheld since `u`, with what is known of the matches of the rule. -/
structure Holding (state : Matchings → Prop) (later : Matchings → Matchings → Prop)
    (isTold isMade : Matchings → MatchId → Prop) (u : Matchings) (told made _free : List MatchId)
    (t : Matchings) : Prop where
  upheld : Upheld state later u t
  told : ∀ id ∈ told, isTold t id
  made : ∀ id ∈ made, isMade t id

/-- What was known of the matches is known in a later table. -/
theorem Holding.step {u : Matchings} (h : Upholds config l r state later isTold isMade)
    (holds : Holding state later isTold isMade u told made free t)
    (next : Upheld state later t t') :
    Holding state later isTold isMade u told made free' t' where
  upheld := ⟨next.1, h.trans holds.upheld.2 next.2⟩
  told id among := h.told next.2 (holds.told id among)
  made id among := h.made next.2 (holds.made id among)

theorem Upholds.carries (h : Upholds config l r state later isTold isMade) (u : Matchings) :
    Carries config l r (Holding state later isTold isMade u) (Upheld state later u) where
  failed holds := holds.upheld
  alternatives holds known := by
    refine ⟨holds.upheld, fun id among ↦ ?_, holds.made⟩
    rcases List.mem_append.mp among with among | among
    · exact h.alternative (holds.told _ known) among
    · exact holds.told id among
  push holds composed known := by
    obtain ⟨now, first, own⟩ := h.push holds.upheld.1 composed fun part among ↦
      holds.told part (known among)
    have next : Holding state later isTold isMade u _ _ [] _ := holds.step h ⟨now, first⟩
    refine ⟨next.upheld, next.told, fun id among ↦ ?_⟩
    rcases List.mem_cons.mp among with rfl | among
    · exact own
    · exact next.made id among
  choose holds own :=
    (h.ends_choose holds.upheld.1 fun id among ↦ holds.made id (own among)).mono
      (fun _ _ chosen ↦ ⟨holds.step h chosen.1, chosen.2⟩)
      fun _ failed ↦ ⟨failed.1, h.trans holds.upheld.2 failed.2⟩

/-- A routine upholds what its steps do, as long as the matching of near sorts does, and that of the
exchanged pair. -/
theorem ends {rule : Relate → Matching α} {relate : Relate}
    (h : Upholds config l r state later isTold isMade)
    (inside : ∀ left right t, near left right → state t → Ends (relate left right) t
      (fun id t' ↦ Upheld state later t t' ∧ isTold t' id) (Upheld state later t))
    (turned : ∀ t, course l r = .backward → state t → Ends (exchanged relate l r) t
      (fun id t' ↦ Upheld state later t t' ∧ isMade t' id) (Upheld state later t))
    (routine : Routine config near l r good told made free rule) (here : state t)
    (isTold' : ∀ id ∈ told, isTold t id) (isMade' : ∀ id ∈ made, isMade t id) :
    Ends (rule relate) t (fun answer t' ↦ Upheld state later t t' ∧
      ∃ told made free, good told made free answer ∧ ∀ id ∈ made, isMade t' id)
      (Upheld state later t) := by
  refine (routine.run (h.carries t) (fun left right told made free t' isNear holds ↦ ?_)
    (fun told made free t' turns holds ↦ ?_) ⟨⟨here, h.refl t⟩, isTold', isMade'⟩).mono
    (fun answer t' ended ↦ ?_) fun _ failed ↦ failed
  · refine (inside left right t' isNear holds.upheld.1).mono (fun id _ asked ↦ ?_)
      fun _ failed ↦ ⟨failed.1, h.trans holds.upheld.2 failed.2⟩
    have next : Holding state later isTold isMade t _ _ free _ := holds.step h asked.1
    refine ⟨next.upheld, fun other among ↦ ?_, next.made⟩
    rcases List.mem_cons.mp among with rfl | among
    · exact asked.2
    · exact next.told other among
  · refine (turned t' turns holds.upheld.1).mono (fun id _ made ↦ ?_)
      fun _ failed ↦ ⟨failed.1, h.trans holds.upheld.2 failed.2⟩
    have next : Holding state later isTold isMade t _ _ free _ := holds.step h made.1
    refine ⟨next.upheld, next.told, fun other among ↦ ?_⟩
    rcases List.mem_cons.mp among with rfl | among
    · exact made.2
    · exact next.made other among
  · obtain ⟨told, made, free, done, holds⟩ := ended
    exact ⟨holds.upheld, told, made, free, done, holds.made⟩

/-! ### Steps in a row -/

/-- The answer is a match that the rule has made. -/
abbrev Own (_ made _free : List MatchId) (id : MatchId) : Prop := id ∈ made

/-- The answer is offered to be chosen. -/
abbrev OffersOne (before : List MatchId) :
    List MatchId → List MatchId → List MatchId → MatchId → Prop := Offers before fun id ↦ [id]

/-- The answers are offered to be chosen from. -/
abbrev OffersAll (before : List MatchId) :
    List MatchId → List MatchId → List MatchId → List MatchId → Prop := Offers before fun ids ↦ ids

theorem Offers.own_of_one {before : List MatchId} (h : OffersOne before told made free id) :
    Own told made free id := h.own List.mem_cons_self

/-- Nothing is offered. -/
theorem offers_none :
    Routine config near l r (OffersAll free) told made free fun _ ↦ Pure.pure [] :=
  .pure ⟨(List.append_nil free).symm, List.nil_subset _⟩

/-- A match is appended, and offered. -/
theorem push_offer {node : MatchNode} (composed : Composed l r node) (known : node.parts ⊆ told) :
    Routine config near l r (OffersOne free) told made free fun _ ↦ Matching.push node := by
  have goes : Routine config near l r (OffersOne free) told made free fun _ : Relate ↦
      Matching.push node >>= fun id ↦ Pure.pure id :=
    .push composed known fun id ↦ .pure ⟨rfl, by simp⟩
  simpa only [bind_pure] using goes

/-- A match is appended in the end. -/
theorem push_last {node : MatchNode} (composed : Composed l r node) (known : node.parts ⊆ told) :
    Routine config near l r Own told made free fun _ ↦ Matching.push node :=
  (push_offer composed known).mono fun _ _ _ _ ↦ Offers.own_of_one

theorem incongruous {parts : List MatchId} (known : parts ⊆ told) :
    Routine config near l r Own told made free fun _ ↦ Matching.incongruous l r parts :=
  push_last (composed_node _ _ _ (by decide)) known

theorem equivalent (tally : Tally) :
    Routine config near l r Own told made free fun _ ↦ Matching.equivalent l r tally :=
  push_last (composed_node _ _ _ (by decide)) (List.nil_subset _)

theorem nontrivial_subset (t : Matchings) (ids : List MatchId) : nontrivial t ids ⊆ ids :=
  List.filter_subset_self _

/-- An adjustment that keeps what rules see to, and the parts. -/
def Adjusts (l r : SortRecord) (adjust : MatchNode → MatchNode) : Prop :=
  ∀ node, Composed l r node → Composed l r (adjust node) ∧ (adjust node).parts = node.parts

theorem pushLike {inner : MatchId} {adjust : MatchNode → MatchNode} (adjusts : Adjusts l r adjust)
    (known : inner ∈ told) :
    Routine config near l r (OffersOne free) told made free
      fun _ ↦ Matching.pushLike l r inner adjust := by
  refine .nodeOf fun source ↦ .get fun t ↦ ?_
  obtain ⟨composed, same⟩ := adjusts (node l r source.level.lifted source.grade source.tally
    (nontrivial t [inner])) (composed_node _ _ _ (Level.lifted_ne_identical _))
  refine push_offer composed ?_
  rw [same]
  exact List.Subset.trans (nontrivial_subset t [inner]) (by simpa using known)

/-- A match is appended that is the only one to be chosen in the end. -/
theorem pushLike_all {inner : MatchId} {adjust : MatchNode → MatchNode}
    (adjusts : Adjusts l r adjust) (known : inner ∈ told) :
    Routine config near l r (OffersAll free) told made free
      fun _ ↦ Matching.pushLike l r inner adjust >>= fun id ↦ Pure.pure [id] :=
  (pushLike adjusts known).bind fun _ _ _ _ _ _ offers ↦ .pure ⟨offers.free, offers.own⟩

theorem chooseOrIncongruous {parts : List MatchId} (own : free ⊆ made) (known : parts ⊆ told) :
    Routine config near l r Own told made free fun _ ↦
      Matching.chooseOrIncongruous config l r free parts := by
  refine .choose own fun best among ↦ ?_
  cases best with
  | none => exact incongruous known
  | some best => exact .pure (among List.mem_cons_self)

end Routine

/-! ### Rules -/

namespace Level

theorem atLeast_ne_identical {level floor : Level} (above : 0 < floor.rank) :
    level.atLeast floor ≠ identical := by
  unfold atLeast
  split_ifs with below
  · rintro rfl
    exact Nat.lt_irrefl _ above
  · rintro rfl
    exact below above

theorem worst_ne_identical {level other : Level} (h : level ≠ identical) :
    level.worst other ≠ identical := by
  cases level <;> cases other <;> first | exact h | decide

end Level

namespace Rule

open Routine

/-- What is taken is among what was found. -/
theorem mem_of_mem_takeFree {taken others : List Pairing} {pairing : Pairing}
    (inside : pairing ∈ takeFree taken others) : pairing ∈ taken ∨ pairing ∈ others := by
  induction others generalizing taken with
  | nil => exact Or.inl inside
  | cons first others ih =>
    rw [takeFree] at inside
    split_ifs at inside
    · exact (ih inside).imp_right (List.mem_cons_of_mem _)
    · rcases ih inside with before | after
      · rcases List.mem_append.mp before with before | now
        · exact Or.inl before
        · exact Or.inr (List.mem_singleton.mp now ▸ List.mem_cons_self)
      · exact Or.inr (List.mem_cons_of_mem _ after)

theorem mem_of_mem_accept {found : List Pairing} {pairing : Pairing}
    (inside : pairing ∈ accept found) : pairing ∈ found :=
  List.mem_mergeSort.mp ((mem_of_mem_takeFree inside).resolve_left List.not_mem_nil)

/-- The half that stands beside a match under way is one of the two. -/
theorem eq_of_beside {base weight kept : MatchId × MatchNode}
    (found : beside base weight = some kept) :
    kept = base ∨ kept = weight := by
  unfold beside at found
  split at found
  · split_ifs at found
    exact Or.inl (Option.some.inj found).symm
  · split_ifs at found
    exact Or.inr (Option.some.inj found).symm
  · cases found

theorem similarLevel_ne_identical {base weight level : Level}
    (similar : similarLevel base weight = some level) : level ≠ .identical := by
  unfold similarLevel at similar
  split_ifs at similar <;> cases similar <;> decide

/-- Dropping what is nothing is joining what is there. -/
theorem reduceOption_eq_flatMap (found : List (Option α)) :
    found.reduceOption = found.flatMap Option.toList := by
  induction found with
  | nil => rfl
  | cons first others ih => cases first <;> simp [ih]

section

variable (isLeft : c.get l.id = .ok l) (isRight : c.get r.id = .ok r)

theorem routine_primitives (leftTag rightTag : String) :
    Routine config near l r Own told made free fun _ ↦ primitives l r leftTag rightTag := by
  unfold primitives
  split_ifs
  · exact equivalent _
  · exact push_last (composed_node _ _ _ (by decide)) (List.nil_subset _)
  · exact incongruous (List.nil_subset _)

theorem routine_tuples : Routine config near l r Own told made free fun _ ↦ tuples l r := by
  unfold tuples
  split_ifs
  · exact equivalent _
  · exact incongruous (List.nil_subset _)

theorem adjusts_atLeast {floor : Level} (above : 0 < floor.rank) (grade : MatchNode → Grade)
    (tally : MatchNode → Tally) : Adjusts l r fun node ↦ { node with
      level := node.level.atLeast floor, grade := grade node, tally := tally node } :=
  fun _ composed ↦ ⟨⟨composed.left, composed.right, composed.scale, composed.untied,
    composed.settled, Level.atLeast_ne_identical above⟩, rfl⟩

theorem routine_exchanged (turns : course l r = .backward) :
    Routine config near l r Own told made free fun relate ↦ exchanged relate l r := by
  have goes : Routine config near l r Own told made free fun relate ↦
      exchanged relate l r >>= fun id ↦ Pure.pure id :=
    .turn turns fun id ↦ .pure List.mem_cons_self
  simpa only [bind_pure] using goes

include isLeft

theorem routine_recursive {target : Option SortId} (is : l.body = .recursive target) :
    Routine config (c.Inside l.id r.id) l r Own told made free fun relate ↦
      recursive relate l r target := by
  cases target with
  | none => exact .throw _
  | some target =>
    refine .ite (fun _ ↦ equivalent _) fun _ ↦ .ask (.onLeft (.instance isLeft is) .refl)
      fun inner ↦ .nodeOf fun source ↦ push_last ?_ (by simp [node])
    exact composed_node _ _ _ (Level.lifted_ne_identical _)

theorem routine_disjunction {components : List SortId} (is : l.body = .disjunctive components) :
    Routine config (c.Inside l.id r.id) l r Own told made [] fun relate ↦
      disjunction config relate l r components := by
  refine .bind (mapM_offers (fun id ↦ [id]) fun component inside told' made' free' _ ↦ ?_)
    fun told' made' free' candidates _ _ offers ↦ ?_
  · refine .ask (.onLeft (.component isLeft is inside) .refl) fun inner ↦ ?_
    exact Routine.pushLike (fun _ composed ↦ ⟨⟨composed.left, composed.right, composed.scale,
      composed.untied, composed.settled, composed.distinct⟩, rfl⟩) List.mem_cons_self
  · obtain ⟨all, own⟩ := offers
    rw [List.flatMap_singleton', List.nil_append] at all
    rw [List.flatMap_singleton', ← all] at own
    rw [← all]
    exact chooseOrIncongruous own (List.nil_subset _)

theorem routine_weightedBesideSimple {base weight : SortId} (is : l.body = .weighted base weight) :
    Routine config (c.Inside l.id r.id) l r Own told made [] fun relate ↦
      weightedBesideSimple c config relate l r base weight := by
  refine .reply fun _ _ ↦ .ask (.onLeft (.base isLeft is) .refl) fun inner ↦ ?_
  refine .bind (Routine.pushLike (adjusts_atLeast (by decide) _ _) List.mem_cons_self)
    fun told₁ made₁ free₁ byBase _ _ first ↦ ?_
  refine .ask (.onLeft (.weight isLeft is) .refl) fun inner ↦ ?_
  refine .bind (Routine.pushLike (adjusts_atLeast (by decide) _ _) List.mem_cons_self)
    fun told₂ made₂ free₂ byWeight _ more second ↦ ?_
  have all : free₂ = [byBase, byWeight] := by rw [second.free, first.free]; rfl
  have own : [byBase, byWeight] ⊆ made₂ :=
    List.cons_subset.mpr ⟨more first.own_of_one, second.own⟩
  rw [← all] at own ⊢
  exact chooseOrIncongruous own (List.nil_subset _)

theorem routine_lessened {base weight : SortId} (is : l.body = .weighted base weight) :
    Routine config (c.Inside l.id r.id) l r (OffersAll free) told made free fun relate ↦
      lessened c relate l r base weight := by
  refine .reply fun _ _ ↦ .ask (.onLeft (.weight isLeft is) .refl) fun inner ↦
    .nodeOf fun _ ↦ .ite (fun _ ↦ offers_none) fun _ ↦ ?_
  exact pushLike_all (adjusts_atLeast (by decide) _ _) List.mem_cons_self

include isRight

omit isLeft in
theorem routine_augmented {base weight : SortId} (is : r.body = .weighted base weight) :
    Routine config (c.Inside l.id r.id) l r (OffersAll free) told made free fun relate ↦
      augmented c relate l r base weight := by
  refine .reply fun _ _ ↦ .ask (.onRight .refl (.weight isRight is)) fun inner ↦
    .nodeOf fun _ ↦ .ite (fun _ ↦ offers_none) fun _ ↦ ?_
  exact pushLike_all (adjusts_atLeast (by decide) _ _) List.mem_cons_self

theorem routine_aspects {owner owner' : SortId} {position position' : Nat}
    (is : l.body = .aspect owner position) (is' : r.body = .aspect owner' position') :
    Routine config (c.Inside l.id r.id) l r Own told made free fun relate ↦
      aspects c relate l r owner owner' position position' := by
  refine .ask (.both (.owner isLeft is) (.owner isRight is')) fun owners ↦ ?_
  refine .nodeOf fun _ ↦ .ite (fun _ ↦ incongruous (by simp)) fun _ ↦ .ite (fun _ ↦ ?_) fun _ ↦ ?_
  · refine .get fun t ↦ push_last (composed_node _ _ _ (by decide)) ?_
    exact List.Subset.trans (nontrivial_subset t [owners]) (by simp)
  refine .reply fun argument linked ↦ .reply fun argument' linked' ↦ ?_
  refine .ask (.both (.argument linked) (.argument linked')) fun arguments ↦ ?_
  refine .nodeOf fun _ ↦ .ite (fun _ ↦ incongruous (by simp)) fun _ ↦ ?_
  exact (Routine.pushLike (adjusts_atLeast (by decide) (fun node ↦ node.grade) _)
    List.mem_cons_self).mono fun _ _ _ _ ↦ Offers.own_of_one

/-- What aligned elements add up to has them for its parts, and is no identity. -/
abbrev Aligned (before told _made free : List MatchId) (found : Option Alignment) : Prop :=
  free = before ∧ ∀ alignment ∈ found, alignment.elements ⊆ told ∧ alignment.level ≠ .identical

omit isLeft isRight in
theorem routine_align {pairs : List (SortId × SortId)}
    (each : ∀ pair ∈ pairs, near pair.1 pair.2) (sofar : Alignment)
    (known : sofar.elements ⊆ told) (distinct : sofar.level ≠ .identical) :
    Routine config near l r (Aligned free) told made free fun relate ↦ align relate sofar pairs := by
  induction pairs generalizing sofar told with
  | nil =>
    refine .pure ⟨rfl, fun alignment one ↦ ?_⟩
    obtain rfl := Option.mem_some_iff.mp one
    exact ⟨known, distinct⟩
  | cons pair pairs ih =>
    refine .ask (each pair List.mem_cons_self) fun element ↦ .nodeOf fun _ ↦ ?_
    refine .ite (fun _ ↦ .pure ⟨rfl, by simp⟩) fun _ ↦ ?_
    refine ih (fun other inside ↦ each other (List.mem_cons_of_mem _ inside)) _ ?_
      (Level.worst_ne_identical distinct)
    exact List.append_subset.mpr ⟨List.Subset.trans known (List.subset_cons_self _ _), by simp⟩

omit isLeft isRight in
theorem routine_rotation {left right : List SortId}
    (each : ∀ part ∈ left, ∀ part' ∈ right, near part part') (shift : Nat) :
    Routine config near l r (Offers free Option.toList) told made free
      fun relate ↦ rotation relate l r left right shift := by
  refine .bind (routine_align (fun pair inside ↦ ?_) _ (List.nil_subset _) Level.noConfusion)
    fun told' made' free' found _ _ aligned ↦ ?_
  · obtain ⟨onLeft, onRight⟩ := List.of_mem_zip inside
    exact each _ (Appraisal.mem_rotateLeft_iff.mp onLeft) _ onRight
  · obtain ⟨same, each⟩ := aligned
    cases found with
    | none => exact .pure ⟨by rw [same, Option.toList_none, List.append_nil], by simp⟩
    | some found =>
      obtain ⟨known, distinct⟩ := each found rfl
      refine .get fun t ↦ ?_
      simp only [map_eq_pure_bind]
      refine .push (composed_node _ _ _ distinct)
        (List.Subset.trans (nontrivial_subset t found.elements) known) fun id ↦ .pure ⟨?_, by simp⟩
      rw [same, Option.toList_some]

/-- What was found is a match of the rule, and it was chosen last. -/
abbrev Chosen (_told made free : List MatchId) (best : Option MatchId) : Prop :=
  best.toList ⊆ made ∧ free = []

omit isLeft isRight in
theorem routine_bestRotation :
    Routine config (c.Inside l.id r.id) l r Chosen told made []
      fun relate ↦ bestRotation c config relate l r := by
  refine .reply fun chain walked ↦ .reply fun chain' walked' ↦ ?_
  refine .ite (fun _ ↦ .pure ⟨by simp, rfl⟩) fun long ↦ ?_
  have deeper : ∀ part ∈ chain, Relation.TransGen c.LeadsTo l.id part :=
    (eq_or_inside_of_spine walked).resolve_left fun one ↦ by simp [one] at long
  refine .bind (mapM_offers Option.toList fun shift _ told made free _ ↦ routine_rotation
      (fun part inside part' inside' ↦
        Or.inl ⟨deeper part inside, reaches_of_spine walked' inside'⟩) shift)
    fun told' made' free' candidates _ _ offers ↦ ?_
  obtain ⟨rfl, own⟩ := offers
  rw [List.nil_append, ← reduceOption_eq_flatMap] at *
  have goes : Routine config (c.Inside l.id r.id) l r Chosen told' made' candidates.reduceOption
      fun _ : Relate ↦ Matching.choose config candidates.reduceOption >>= fun best ↦ Pure.pure best :=
    .choose own fun best among ↦ .pure ⟨among, rfl⟩
  simpa only [bind_pure] using goes

omit isLeft isRight in
theorem routine_halves {base weight : MatchId × MatchNode} (known : base.1 ∈ told)
    (known' : weight.1 ∈ told) :
    Routine config near l r (OffersAll free) told made free fun _ ↦ halves l r base weight := by
  have telling (t : Matchings) {ids : List MatchId} (known : ids ⊆ told) :
      nontrivial t ids ⊆ told :=
    List.Subset.trans (nontrivial_subset t ids) known
  unfold halves
  split_ifs
  · exact .get fun t ↦ .push (composed_node _ _ _ (Level.atLeast_ne_identical (by decide)))
      (telling t (by simp [known, known'])) fun id ↦ .pure ⟨rfl, by simp⟩
  · split
    · exact offers_none
    · rename_i kept found
      have among : kept.1 ∈ told := by
        rcases eq_of_beside found with rfl | rfl
        · exact known
        · exact known'
      exact .get fun t ↦ .push (composed_node _ _ _ (Level.atLeast_ne_identical (by decide)))
        (telling t (by simp [among])) fun id ↦ .pure ⟨rfl, by simp⟩

theorem routine_weighted {base weight base' weight' : SortId} (is : l.body = .weighted base weight)
    (is' : r.body = .weighted base' weight') :
    Routine config (c.Inside l.id r.id) l r Own told made [] fun relate ↦
      weighted c config relate l r base weight base' weight' := by
  refine .ite (fun _ ↦ equivalent _) fun _ ↦ ?_
  refine .ask (.both (.base isLeft is) (.base isRight is')) fun baseId ↦ ?_
  refine .ask (.both (.weight isLeft is) (.weight isRight is')) fun weightId ↦ ?_
  refine .nodeOf fun byBase ↦ .nodeOf fun byWeight ↦ ?_
  cases similar : similarLevel byBase.level byWeight.level with
  | some level =>
    refine .get fun t ↦ push_last (composed_node _ _ _ (similarLevel_ne_identical similar)) ?_
    exact List.Subset.trans (nontrivial_subset t _) (by simp)
  | none =>
    refine .bind routine_bestRotation fun told₁ made₁ free₁ found known₁ _ chosen ↦ ?_
    obtain ⟨own₁, rfl⟩ := chosen
    cases found with
    | some found => exact .pure (own₁ (by simp))
    | none =>
      refine .bind (routine_halves (known₁ (by simp)) (known₁ (by simp)))
        fun told₂ made₂ free₂ byHalves known₂ more₂ offers₂ ↦ ?_
      refine .bind (routine_augmented isRight is')
        fun told₃ made₃ free₃ byRight known₃ more₃ offers₃ ↦ ?_
      refine .bind (routine_lessened isLeft is)
        fun told₄ made₄ free₄ byLeft known₄ more₄ offers₄ ↦ ?_
      have all : free₄ = byHalves ++ byRight ++ byLeft := by
        rw [offers₄.free, offers₃.free, offers₂.free, List.nil_append]
      have own : byHalves ++ byRight ++ byLeft ⊆ made₄ :=
        List.append_subset.mpr ⟨List.append_subset.mpr
          ⟨List.Subset.trans offers₂.own (List.Subset.trans more₃ more₄),
            List.Subset.trans offers₃.own more₄⟩, offers₄.own⟩
      rw [← all] at own ⊢
      refine chooseOrIncongruous own (List.Subset.trans ?_ (List.Subset.trans known₁
        (List.Subset.trans known₂ (List.Subset.trans known₃ known₄))))
      simp

/-- The pairings are of matches that the rule was told of. -/
abbrev AllTold (told _made _free : List MatchId) (found : List Pairing) : Prop :=
  ∀ pairing ∈ found, pairing.id ∈ told

omit isLeft isRight in
theorem lasting_allTold : Lasting AllTold :=
  fun more _ known pairing inside ↦ more (known pairing inside)

omit isLeft isRight in
theorem routine_pairings {left right : SortId × Nat} (isNear : near left.1 right.1) :
    Routine config near l r AllTold told made free fun relate ↦ pairings relate left right := by
  let ofChain (head : MatchId) (behind : List MatchId) (_ : Relate) : Matching (List Pairing) :=
    (head :: behind).mapM (fun id ↦ do
      return (⟨left.2, right.2, id, ← Matching.nodeOf id⟩ : Pairing)) >>= fun found ↦
        Pure.pure (found.filter fun pairing ↦ !pairing.node.incongruous)
  refine .ask isNear fun head ↦
    @Routine.alternatives _ _ _ _ _ _ _ _ _ head (ofChain head) List.mem_cons_self fun behind ↦ ?_
  refine .bind (.mapM (fun told _ _ (pairing : Pairing) ↦ pairing.id ∈ told)
    (fun more _ known ↦ more known) fun id inside told' made' free' more ↦ ?_)
    fun told' made' free' found _ _ known ↦ .pure fun pairing inside ↦ known pairing
      (List.mem_filter.mp inside).1
  refine .nodeOf fun node ↦ .pure (more ?_)
  rcases List.mem_cons.mp inside with rfl | inside
  · simp
  · exact List.mem_append_left _ inside

theorem routine_composition {components components' : List SortId}
    (is : l.body = .disjunctive components) (is' : r.body = .disjunctive components') :
    Routine config (c.Inside l.id r.id) l r Own told made free fun relate ↦
      composition relate l r components components' := by
  refine .ite (fun _ ↦ equivalent _) fun _ ↦ ?_
  have all : Routine config (c.Inside l.id r.id) l r AllTold told made free fun relate ↦
      allPairings relate components components' := by
    refine .bind (.mapM AllTold lasting_allTold fun component inside _ _ _ _ ↦ ?_)
      fun _ _ _ rows _ _ known ↦ .pure fun pairing among ↦ ?_
    · refine .bind (.mapM AllTold lasting_allTold fun component' inside' _ _ _ _ ↦ ?_)
        fun _ _ _ row _ _ known ↦ .pure fun pairing among ↦ ?_
      · exact routine_pairings (.both
          (.component isLeft is (List.fst_mem_of_mem_zipIdx inside))
          (.component isRight is' (List.fst_mem_of_mem_zipIdx inside')))
      · obtain ⟨found, here, inside⟩ := List.mem_flatten.mp among
        exact known found here pairing inside
    · obtain ⟨row, here, inside⟩ := List.mem_flatten.mp among
      exact known row here pairing inside
  refine .bind all fun told' made' free' found _ _ known ↦ ?_
  dsimp only
  refine .ite (fun _ ↦ incongruous (List.nil_subset _)) fun _ ↦ .get fun t ↦ ?_
  refine push_last (composed_node _ _ _ (Level.lifted_ne_identical _))
    (List.Subset.trans (nontrivial_subset t _) fun id among ↦ ?_)
  obtain ⟨pairing, taken, rfl⟩ := List.mem_map.mp among
  exact known pairing (mem_of_mem_accept taken)

/-- Whatever the variants of two sorts are, the rule for them is a routine about sorts that they
lead to. -/
theorem routine_forVariants :
    Routine config (c.Inside l.id r.id) l r Own told made [] fun relate ↦
      forVariants c config relate l r := by
  have exchanges (turns : l.variant ≠ .aspects ∧ r.variant ≠ .aspects ∧
      (l.variant.complexity < r.variant.complexity ∨
        l.variant = r.variant ∧ l.variant ≠ .primitive ∧ r.display < l.display)) :
      Routine config (c.Inside l.id r.id) l r Own told made [] fun relate ↦ exchanged relate l r :=
    routine_exchanged (course_eq_backward_iff.mpr turns)
  unfold SortRecord.variant at exchanges
  unfold forVariants
  cases is : l.body <;> cases is' : r.body <;> rw [is, is'] at exchanges <;> dsimp only
  case aspects.aspects => exact routine_tuples
  case primitive.primitive => exact routine_primitives _ _
  case primitive.aspect | aspect.primitive => exact incongruous (List.nil_subset _)
  case aspects.primitive | aspects.aspect | aspects.weighted | aspects.disjunctive |
      aspects.recursive | primitive.aspects | aspect.aspects | weighted.aspects |
      disjunctive.aspects | recursive.aspects => exact .throw _
  case primitive.recursive | aspect.recursive | weighted.recursive | disjunctive.recursive |
      primitive.disjunctive | aspect.disjunctive | weighted.disjunctive | primitive.weighted |
      aspect.weighted => exact exchanges (by simp [Body.variant, Variant.complexity])
  case recursive.recursive =>
    exact .ite (fun descending ↦ exchanges (by simp [Body.variant, descending])) fun _ ↦
      routine_recursive isLeft is
  case recursive.primitive | recursive.aspect | recursive.weighted | recursive.disjunctive =>
    exact routine_recursive isLeft is
  case disjunctive.disjunctive =>
    exact .ite (fun descending ↦ exchanges (by simp [Body.variant, descending])) fun _ ↦
      routine_composition isLeft isRight is is'
  case disjunctive.primitive | disjunctive.aspect | disjunctive.weighted =>
    exact routine_disjunction isLeft is
  case weighted.weighted =>
    exact .ite (fun descending ↦ exchanges (by simp [Body.variant, descending])) fun _ ↦
      routine_weighted isLeft isRight is is'
  case weighted.primitive | weighted.aspect =>
    exact routine_weightedBesideSimple isLeft is
  case aspect.aspect =>
    exact .ite (fun descending ↦ exchanges (by simp [Body.variant, descending])) fun _ ↦
      routine_aspects isLeft isRight is is'

end

end Rule

end CompositeSorts
