import CompositeSorts.Proofs.Catalog.Fitting
import CompositeSorts.Proofs.Catalog.Steps
import CompositeSorts.Proofs.Catalog.Walks

/-!
What sorts are made of. No aspects tuple stands where an operand does. The sorts that a primitive
sort, an attribute or a tuple is made of are there as long as it is (`Body.firm`). A disjunction can
outlive its components and a recursive sort its instance: both can be given a younger sort when they
are older than the session, and that one is rolled back without them. So what is said of components
and instances is said of those that were not removed (`Assembles`). Among them no component is a
disjunction without a name, and no two are shown alike; a component never changes its display, since
what is changed in place is a disjunction without a name or has one.
-/

set_option autoImplicit false
set_option relaxedAutoImplicit false

namespace CompositeSorts

/-- The handles of sorts that are there as long as the sort itself: those linked to a primitive sort
or to a tuple, base and weight. -/
def Body.firm : Body → List SortId
  | .primitive _ (some (.sorts linked)) => linked
  | .weighted base weight => [base, weight]
  | .aspects _ _ arguments => arguments
  | _ => []

/-- A disjunction without a name, which is no component of another but is taken apart. -/
def SortRecord.Loose (sort : SortRecord) : Prop := sort.variant = .disjunctive ∧ sort.name = none

namespace Catalog

open Op (Operand)

variable {plain : String → Prop} {may : Touch → Prop} {c d : Catalog} {id : SortId}
  {sort old : SortRecord} {name : Option String} {canonical : String} {counts : ComponentCounts}
  {body : Body} {gone more components : List SortId}

/-- The handle leads to a sort that can be a component. -/
def Joinable (c : Catalog) (id : SortId) : Prop :=
  ∃ sort, c.get id = .ok sort ∧ sort.variant ≠ .aspects ∧ ¬ sort.Loose

/-- The components can stand beside each other, those aside that were removed. -/
structure Disjoins (gone : List SortId) (c : Catalog) (components : List SortId) : Prop where
  each : ∀ part ∈ components, part ∉ gone → c.Joinable part
  apart : components.Pairwise fun part other ↦ part ∉ gone → other ∉ gone →
    c.display part ≠ c.display other

/-- What the body leads to can stand where it does. -/
structure Assembles (gone : List SortId) (c : Catalog) (body : Body) : Prop where
  firm : ∀ part ∈ body.firm, Operand c part
  instances : ∀ target, body = .recursive (some target) → target ∉ gone → Operand c target
  disjoins : ∀ components, body = .disjunctive components → Disjoins gone c components

/-- All sorts are made of what can stand there, and what they have for good is not of the session if
they are not. Recursive sorts have names. -/
structure Assembled (gone : List SortId) (c : Catalog) : Prop where
  assembles : ∀ {id sort}, c.get id = .ok sort → Assembles gone c sort.body
  session : ∀ {id sort}, c.get id = .ok sort → ∀ part ∈ sort.body.firm, part ∈ c.fresh →
    id ∈ c.fresh
  named : ∀ {id sort}, c.get id = .ok sort → sort.variant = .recursive → sort.name ≠ none

/-! ### What sorts keep -/

/-- Sorts keep their variants and names, and their displays as well if they can be components. -/
def Faithful (c d : Catalog) : Prop :=
  ∀ id sort, c.get id = .ok sort → ∃ later, d.get id = .ok later ∧ later.variant = sort.variant ∧
    later.name = sort.name ∧
    (sort.variant ≠ .aspects → ¬ sort.Loose → later.display = sort.display)

theorem faithful_of_get (same : ∀ id, d.get id = c.get id) : Faithful c d :=
  fun _ _ found ↦ ⟨_, (same _).trans found, rfl, rfl, fun _ _ ↦ rfl⟩

theorem faithful_add (rooted : c.Rooted) : Faithful c (c.add name canonical counts body) :=
  fun _ _ found ↦ ⟨_, get_add_of_live rooted found, rfl, rfl, fun _ _ ↦ rfl⟩

theorem faithful_replace (found : c.get sort.id = .ok old) (variant : sort.variant = old.variant)
    (name : sort.name = old.name)
    (display : old.variant ≠ .aspects → ¬ old.Loose → sort.display = old.display) :
    Faithful c (c.replace sort) := by
  intro id record there
  rcases replaced_cases found there with ⟨rfl, rfl, here⟩ | ⟨-, here⟩
  · exact ⟨sort, here, variant, name, display⟩
  · exact ⟨record, here, rfl, rfl, fun _ _ ↦ rfl⟩

namespace Faithful

variable (faithful : Faithful c d)

include faithful

theorem operand (operand : Operand c id) : Operand d id := by
  obtain ⟨sort, found, plain⟩ := operand
  obtain ⟨later, there, variant, -⟩ := faithful id sort found
  exact ⟨later, there, variant ▸ plain⟩

theorem joinable (joinable : c.Joinable id) : d.Joinable id ∧ d.display id = c.display id := by
  obtain ⟨sort, found, plain, loose⟩ := joinable
  obtain ⟨later, there, variant, name, display⟩ := faithful id sort found
  refine ⟨⟨later, there, variant ▸ plain, ?_⟩, ?_⟩
  · unfold SortRecord.Loose at loose ⊢
    rwa [variant, name]
  · unfold Catalog.display
    rw [found, there]
    exact congrArg Except.ok (display plain loose)

theorem disjoins (h : Disjoins gone c components) : Disjoins gone d components where
  each part inside kept := (faithful.joinable (h.each part inside kept)).1
  apart := by
    refine h.apart.imp_of_mem fun {part other} inside inside' differ kept kept' ↦ ?_
    rw [(faithful.joinable (h.each part inside kept)).2,
      (faithful.joinable (h.each other inside' kept')).2]
    exact differ kept kept'

theorem assembles (h : Assembles gone c body) : Assembles gone d body where
  firm part inside := faithful.operand (h.firm part inside)
  instances target made kept := faithful.operand (h.instances target made kept)
  disjoins components made := faithful.disjoins (h.disjoins components made)

end Faithful

theorem Assembles.mono (h : Assembles gone c body) (subset : gone ⊆ more) : Assembles more c body where
  firm := h.firm
  instances target made kept := h.instances target made fun inside ↦ kept (subset inside)
  disjoins components made :=
    ⟨fun part inside kept ↦ (h.disjoins components made).each part inside fun gone ↦
      kept (subset gone),
    (h.disjoins components made).apart.imp fun differ kept kept' ↦
      differ (fun gone ↦ kept (subset gone)) fun gone ↦ kept' (subset gone)⟩

namespace Assembled

theorem mono (h : Assembled gone c) (subset : gone ⊆ more) : Assembled more c :=
  ⟨fun found ↦ (h.assembles found).mono subset, h.session, h.named⟩

theorem of_same (h : Assembled gone c) (get : ∀ id, d.get id = c.get id)
    (fresh : d.fresh = c.fresh) : Assembled gone d where
  assembles found := (faithful_of_get get).assembles (h.assembles ((get _).symm.trans found))
  session found := fresh ▸ h.session ((get _).symm.trans found)
  named found := h.named ((get _).symm.trans found)

theorem note (h : Assembled gone c) (event : Event) : Assembled gone (c.note event) :=
  h.of_same (fun _ ↦ rfl) rfl

theorem empty (home : RegistryId) : Assembled gone (Catalog.empty home) := by
  have nothing {id : SortId} {sort : SortRecord} : (Catalog.empty home).get id ≠ .ok sort := by
    simp [get_eq_ok_iff, Catalog.empty, SlotMap.get?_empty]
  exact ⟨fun found ↦ absurd found nothing, fun found ↦ absurd found nothing,
    fun found ↦ absurd found nothing⟩

theorem clear (c : Catalog) : Assembled gone c.clear :=
  (empty c.home).of_same (fun _ ↦ rfl) rfl

theorem openSession (h : Assembled gone c) : Assembled gone c.openSession where
  assembles found := by
    have faithful : Faithful c c.openSession := faithful_of_get fun _ ↦ rfl
    exact faithful.assembles (h.assembles found)
  session _ _ _ inside := absurd inside List.not_mem_nil
  named := h.named

/-- What is rolled back is removed. -/
theorem rollBack (h : Assembled gone c) (sound : c.Sound) : Assembled (gone ++ c.fresh) c.rollBack := by
  have kept {id : SortId} (out : id ∉ gone ++ c.fresh) : id ∉ gone ∧ id ∉ c.fresh :=
    not_or.mp fun inside ↦ out (List.mem_append.mpr inside)
  have stays {id : SortId} (out : id ∉ c.fresh) : c.rollBack.get id = c.get id :=
    get_removeAll_of_notMem sound.ours_of_fresh out
  refine ⟨fun {id sort} found ↦ ?_, fun _ _ _ inside ↦ absurd inside List.not_mem_nil,
    fun found ↦ h.named (sound.get_rollBack_eq_ok_iff.mp found).1⟩
  obtain ⟨before, out⟩ := sound.get_rollBack_eq_ok_iff.mp found
  have assembles := h.assembles before
  have operand {id : SortId} (operand : Operand c id) (out : id ∉ c.fresh) :
      Operand c.rollBack id := by
    unfold Operand
    rwa [stays out]
  refine ⟨fun part inside ↦ operand (assembles.firm part inside) fun new ↦
    out (h.session before part inside new), fun target made removed ↦ ?_, fun components made ↦ ?_⟩
  · obtain ⟨out, out'⟩ := kept removed
    exact operand (assembles.instances target made out) out'
  · have disjoins := assembles.disjoins components made
    refine ⟨fun part inside removed ↦ ?_, disjoins.apart.imp fun differ removed removed' ↦ ?_⟩
    · obtain ⟨out, out'⟩ := kept removed
      unfold Joinable
      rw [stays out']
      exact disjoins.each part inside out
    · unfold Catalog.display
      rw [stays (kept removed).2, stays (kept removed').2]
      exact differ (kept removed).1 (kept removed').1

theorem add (h : Assembled gone c) (rooted : c.Rooted) (assembles : Assembles gone c body)
    (named : body.variant = .recursive → name ≠ none) :
    Assembled gone (c.add name canonical counts body) := by
  have faithful : Faithful c (c.add name canonical counts body) := faithful_add rooted
  refine ⟨fun {id sort} found ↦ ?_, fun {id sort} found part inside new ↦ ?_,
    fun {id sort} found ↦ ?_⟩
  all_goals rcases get_add_cases rooted found with ⟨rfl, rfl⟩ | ⟨-, before⟩
  · exact faithful.assembles assembles
  · exact faithful.assembles (h.assembles before)
  · exact List.mem_cons_self
  · obtain ⟨record, there, -⟩ := (h.assembles before).firm part inside
    rcases List.mem_cons.mp new with rfl | new
    · exact absurd ⟨record, there⟩ (not_live_nextId rooted)
    · exact List.mem_cons_of_mem _ (h.session before part inside new)
  · exact named
  · exact h.named before

theorem replace (h : Assembled gone c) (found : c.get sort.id = .ok old)
    (variant : sort.variant = old.variant) (name : sort.name = old.name)
    (display : old.variant ≠ .aspects → ¬ old.Loose → sort.display = old.display)
    (assembles : Assembles gone c sort.body)
    (session : ∀ part ∈ sort.body.firm, part ∈ c.fresh → sort.id ∈ c.fresh) :
    Assembled gone (c.replace sort) := by
  have faithful := faithful_replace found variant name display
  refine ⟨fun {id record} there ↦ ?_, fun {id record} there ↦ ?_, fun {id record} there ↦ ?_⟩
  all_goals rcases get_replace_cases found there with ⟨rfl, rfl⟩ | ⟨-, before⟩
  · exact faithful.assembles assembles
  · exact faithful.assembles (h.assembles before)
  · exact session
  · exact h.session before
  · rw [variant, name]
    exact h.named found
  · exact h.named before

/-! ### Steps -/

/-- The summands of an operand can stand beside each other. -/
theorem disjoins_summands (h : Assembled gone c) (rooted : c.Rooted) (found : c.get id = .ok sort)
    (plain : sort.variant ≠ .aspects) : Disjoins gone c sort.summands := by
  unfold SortRecord.summands
  split
  · rename_i components made _
    exact (h.assembles found).disjoins components made
  · rename_i fixed
    have loose : ¬ sort.Loose := by
      rintro ⟨disjunctive, nameless⟩
      cases made : sort.body with
      | disjunctive components => exact fixed components made nameless
      | _ =>
        rw [SortRecord.variant, made] at disjunctive
        cases disjunctive
    refine ⟨fun part inside _ ↦ ?_, List.pairwise_singleton _ _⟩
    rw [List.mem_singleton.mp inside]
    exact ⟨sort, rooted.get_id found, plain, loose⟩

end Assembled

/-- Components that are appended where they are not shown already can stand beside the others. -/
theorem Disjoins.merged {others result : List SortId} (h : Disjoins gone c components)
    (each : ∀ part ∈ others, part ∉ gone → c.Joinable part)
    (joined : Op.merged c components others = .ok result) : Disjoins gone c result := by
  induction others generalizing components with
  | nil =>
    cases joined
    exact h
  | cons id others ih =>
    obtain ⟨here, each⟩ := List.forall_mem_cons.mp each
    obtain ⟨display, shown, ⟨-, joined⟩ | ⟨apart, joined⟩⟩ := Op.merged_cons joined
    · exact ih h each joined
    · refine ih ⟨fun part inside ↦ ?_, ?_⟩ each joined
      · rcases List.mem_append.mp inside with inside | inside
        · exact h.each part inside
        · exact List.mem_singleton.mp inside ▸ here
      · refine List.pairwise_append.mpr ⟨h.apart, List.pairwise_singleton _ _, ?_⟩
        intro part inside other inside' _ _
        rw [List.mem_singleton.mp inside', shown]
        exact apart part inside

/-- A sum of operands is made of what can stand there. -/
theorem Assembled.assembles_summed {a b : SortId} {left right : SortRecord} {parts : List SortRecord}
    (h : Assembled gone c) (rooted : c.Rooted)
    (summed : Op.Summed c a b left right components parts) :
    Assembles gone c (.disjunctive components) where
  firm part inside := absurd inside List.not_mem_nil
  instances := by rintro _ ⟨⟩
  disjoins := by
    rintro _ ⟨⟩
    exact (h.disjoins_summands rooted summed.foundLeft summed.plainLeft).merged
      (h.disjoins_summands rooted summed.foundRight summed.plainRight).each summed.joined

/-- The display of a sort with a name is the name. -/
theorem display_of_name {sort old : SortRecord} {text : String} (carries : old.name = some text)
    (name : sort.name = old.name) : sort.display = old.display := by
  unfold SortRecord.display
  rw [name, carries]
  rfl

/-- What is firm in a body and nothing else makes it. -/
theorem assembles_of_firm (firm : ∀ part ∈ body.firm, Operand c part)
    (loose : body.variant ≠ .recursive ∧ body.variant ≠ .disjunctive) : Assembles gone c body := by
  refine ⟨firm, ?_, ?_⟩
  · rintro target rfl
    exact absurd rfl loose.1
  · rintro components rfl
    exact absurd rfl loose.2

/-- Every step makes sorts of what can stand there. -/
theorem Step.assembled (step : Step plain may c d) (steady : c.Steady) (h : Assembled gone c) :
    Assembled gone d := by
  have rooted := steady.toRooted
  cases step with
  | log | await | name => exact h.of_same (fun _ ↦ rfl) rfl
  | placeholder =>
    exact h.add rooted ⟨fun _ inside ↦ absurd inside List.not_mem_nil, by rintro _ ⟨⟩,
      by rintro _ ⟨⟩⟩ fun _ ↦ Option.some_ne_none _
  | @primitive tag _ argument _ _ _ operands =>
    refine h.add rooted (assembles_of_firm ?_ ⟨by rintro ⟨⟩, by rintro ⟨⟩⟩) (by rintro ⟨⟩)
    intro part inside
    unfold Body.firm at inside
    split at inside
    · rename_i linked same
      cases same
      exact operands linked rfl part inside
    · rename_i same
      cases same
    · rename_i same
      cases same
    · cases inside
  | copy found =>
    exact h.add rooted (h.assembles found) fun _ ↦ Option.some_ne_none _
  | @attach base weight b w foundBase foundWeight simple operand =>
    have added : Assembled gone (c.add none (weightedText b w) (.composite [b.counts, w.counts])
        (.weighted base weight)) := by
      refine h.add rooted (assembles_of_firm ?_ ⟨by rintro ⟨⟩, by rintro ⟨⟩⟩) (by rintro ⟨⟩)
      intro part inside
      rcases List.mem_cons.mp inside with rfl | inside
      · exact ⟨b, foundBase, SortRecord.variant_ne_aspects_of_simple simple⟩
      · obtain rfl := List.mem_singleton.mp inside
        exact ⟨w, foundWeight, operand⟩
    exact added.of_same (fun _ ↦ rfl) rfl
  | sum summed => exact h.add rooted (h.assembles_summed rooted summed) (by rintro ⟨⟩)
  | @grow a b left right components parts summed disjunctive nameless =>
    have here : c.get left.id = .ok left := rooted.get_id summed.foundLeft
    refine h.replace here disjunctive.symm rfl (fun _ loose ↦ ?_)
      (h.assembles_summed rooted summed) fun _ inside ↦ absurd inside List.not_mem_nil
    exact absurd ⟨disjunctive, nameless⟩ loose
  | @bind recursive target sort goal found foundTarget unbound allowed operand =>
    have here : c.get sort.id = .ok sort := rooted.get_id found
    have open_ : sort.variant = .recursive := congrArg Body.variant unbound
    obtain ⟨text, carries⟩ := Option.ne_none_iff_exists'.mp (h.named here open_)
    refine h.replace here open_.symm rfl (fun _ _ ↦ display_of_name carries rfl) ⟨?_, ?_, ?_⟩
      fun _ inside ↦ absurd inside List.not_mem_nil
    · exact fun _ inside ↦ absurd inside List.not_mem_nil
    · rintro _ ⟨⟩ _
      exact ⟨goal, foundTarget, operand⟩
    · rintro _ ⟨⟩
  | tuple declared =>
    exact h.add rooted (assembles_of_firm declared.plain ⟨by rintro ⟨⟩, by rintro ⟨⟩⟩)
      (by rintro ⟨⟩)
  | aspect =>
    exact h.add rooted (assembles_of_firm (fun _ inside ↦ absurd inside List.not_mem_nil)
      ⟨by rintro ⟨⟩, by rintro ⟨⟩⟩) (by rintro ⟨⟩)
  | @own old tag arguments aspects found made =>
    have tuple : old.variant = .aspects := congrArg Body.variant made
    have assembles := (h.assembles found).firm
    have session := h.session found
    rw [made] at assembles session
    exact h.replace found tuple.symm rfl (fun plain ↦ absurd tuple plain)
      (assembles_of_firm assembles ⟨by rintro ⟨⟩, by rintro ⟨⟩⟩) session

theorem Steps.assembled (steps : Steps plain may c d) (steady : c.Steady) (h : Assembled gone c) :
    Assembled gone d := by
  induction steps with
  | refl => exact h
  | tail before step assembled => exact step.assembled (Steps.steady before steady) assembled

/-- Walking from a live sort along older weights ends at a live sort. -/
theorem Weighed.exists_of_walk (h : c.Weighed)
    {ends : Except Refusal (List SortId)} (walk : c.Walk id ends) (live : c.Live id) :
    ∃ elements, ends = .ok elements := by
  induction walk with
  | missing nowhere =>
    obtain ⟨sort, found⟩ := live
    rw [nowhere] at found
    cases found
  | last => exact ⟨_, rfl⟩
  | link found made _ ih =>
    obtain ⟨w, there, -⟩ := h.weights found made
    obtain ⟨elements, rfl⟩ := ih ⟨w, there⟩
    exact ⟨_, rfl⟩

end Catalog

end CompositeSorts
