import CompositeSorts.Proofs.Catalog.Assembled
import CompositeSorts.Proofs.Registry.Failing
import CompositeSorts.Proofs.Registry.Stale

/-!
What the sorts of a registry are made of. Any calls, with what they remove on the way (`Lost`),
leave attributes with simple bases and older weights, and disjunctions with two components or more,
of which no two are shown alike and none is a disjunction that would be taken apart; an aspects
tuple is never part of another sort (`assembled_of_reachable`). A component or an instance that was
removed leaves its handle behind, which is dead until its slot has been freed `2 ^ 32` times: the
number of times a slot was used wraps then, and a new sort has the old handle.

Main definitions: `Lost`, `MadeUp`.
-/

set_option autoImplicit false
set_option relaxedAutoImplicit false

namespace CompositeSorts.Registry

open Catalog
open Op (Operand)

variable {r : Registry} {gone : List SortId} {call : Call}

/-- A registry that any calls lead to, with the sorts that were removed since it was without slots,
the earlier ones first. -/
inductive Lost : Registry → List SortId → Prop where
  | empty (id : RegistryId) (categories : CategoryTable) (config : Configuration) :
    Lost (.empty id categories config) []
  | clear {r : Registry} {gone : List SortId} (before : Lost r gone) : Lost (r.perform .clear) []
  | step {r : Registry} {gone : List SortId} (before : Lost r gone) {call : Call}
    (goesOn : call ≠ .clear) : Lost (r.perform call) (gone ++ r.removals call)

theorem Lost.reachable (lost : Lost r gone) : Reachable AnyCall r := by
  induction lost with
  | empty id categories config => exact .empty id categories config
  | clear _ reached => exact reached.step .clear trivial
  | step _ _ reached => exact reached.step _ trivial

theorem Reachable.exists_lost {allowed : Registry → Call → Prop} (reached : Reachable allowed r) :
    ∃ gone, Lost r gone := by
  induction reached with
  | empty id categories config => exact ⟨[], .empty id categories config⟩
  | step _ call _ lost =>
    obtain ⟨gone, lost⟩ := lost
    by_cases cleared : call = .clear
    · exact ⟨[], cleared ▸ lost.clear⟩
    · exact ⟨_, lost.step cleared⟩

theorem Lost.performAll (lost : Lost r gone) (calls : List Call) (goesOn : .clear ∉ calls) :
    Lost (r.performAll calls) (gone ++ r.removalsOf calls) := by
  induction calls generalizing r gone with
  | nil =>
    rw [removalsOf, List.append_nil]
    exact lost
  | cons call calls ih =>
    obtain ⟨here, others⟩ := List.ne_and_not_mem_of_not_mem_cons goesOn
    rw [removalsOf, ← List.append_assoc]
    exact ih (lost.step here.symm) others

/-- The slots are numbered by what was removed. -/
theorem Lost.numbered (lost : Lost r gone) :
    r.catalog.store.Numbered (gone.map SortId.key) ∧ ∀ id ∈ gone, id.registry = r.catalog.home := by
  induction lost with
  | empty => exact ⟨SlotMap.numbered_empty, by simp⟩
  | clear => exact ⟨SlotMap.numbered_empty, by simp⟩
  | step before goesOn ih =>
    have outlived := outlived_perform before.reachable goesOn
    refine ⟨List.map_append ▸ outlived.numbered ih.1, fun id inside ↦ ?_⟩
    rw [outlived.home]
    exact (List.mem_append.mp inside).elim (ih.2 id) (outlived.ours id)

/-- The handle of a sort that was removed is dead until its slot was freed `2 ^ 32` times. -/
theorem Lost.dead (lost : Lost r gone) {id : SortId} (inside : id ∈ gone)
    (few : SlotMap.ofSlot (gone.map SortId.key) id.key.index < 2 ^ 32) :
    r.catalog.get id = .error (.dead id) := by
  obtain ⟨numbered, ours⟩ := lost.numbered
  exact get_of_get?_eq_none (ours id inside)
    (numbered.get?_eq_none (List.mem_map_of_mem inside) few)

/-! ### Calls -/

theorem assembled_undo (steady : r.catalog.Steady) (h : Assembled gone r.catalog) :
    Assembled (gone ++ r.catalog.fresh) r.undo.2.catalog := by
  have rolledBack := h.rollBack steady.toSound
  unfold undo
  dsimp only
  split_ifs
  · exact (rolledBack.note _).note _
  · exact rolledBack.note _

theorem assembled_defineAll (proper : r.Proper) (h : Assembled gone r.catalog) (text : String) :
    Assembled (gone ++ r.discarded text) (r.defineAll text).2.catalog := by
  have begun := proper.steady.openSession
  have later := advance_evaluated proper.steady text
  have steps : Steps (fun _ ↦ True) (fun _ ↦ True) r.catalog.openSession (r.evaluated text) :=
    steps_evaluated (fun _ _ ↦ trivial) proper.steady text
  have evaluated := steps.assembled begun h.openSession
  unfold discarded madeBy
  unfold Registry.evaluated at later evaluated ⊢
  unfold defineAll
  split at evaluated
  · rename_i ids c run
    rw [run]
    exact (evaluated.note _).mono (List.subset_append_left _ _)
  · rename_i reason c run
    rw [run] at later ⊢
    cases reason with
    | abandoned => exact evaluated.mono (List.subset_append_left _ _)
    | refused problem =>
      exact (assembled_undo (r := { r with catalog := c }) later.toSteady evaluated).note _

theorem assembled_perform (proper : r.Proper) (h : Assembled gone r.catalog)
    (goesOn : call ≠ .clear) :
    Assembled (gone ++ r.removals call) (r.perform call).catalog := by
  by_cases quiet : call.GoesOn
  · have steps := steps_perform proper.steady quiet (call.plain_of_forall fun _ ↦ trivial)
    exact (steps.assembled proper.steady h).mono (List.subset_append_left _ _)
  cases call with
  | define text =>
    change Assembled (gone ++ r.discarded text) (r.define text).2.catalog
    rw [snd_define]
    exact assembled_defineAll proper h text
  | defineAll text => exact assembled_defineAll proper h text
  | undo => exact assembled_undo proper.steady h
  | clear => exact absurd rfl goesOn
  | _ => exact absurd trivial quiet

theorem Lost.assembled (lost : Lost r gone) : Assembled gone r.catalog := by
  induction lost with
  | empty id => exact .empty id
  | clear => exact .clear _
  | step before goesOn assembled =>
    exact assembled_perform before.reachable.proper assembled goesOn

/-! ### What sorts are made of -/

/-- What the sorts of a registry are made of when the sorts in `gone` were removed. -/
structure MadeUp (r : Registry) (gone : List SortId) : Prop where
  /-- A disjunction has two components or more. -/
  several : ∀ id sort components, r.catalog.get id = .ok sort →
    sort.body = .disjunctive components → 2 ≤ components.length
  /-- The components that were not removed are live, and none of them is a disjunction without a
  name or an aspects tuple. -/
  components : ∀ id sort components, r.catalog.get id = .ok sort →
    sort.body = .disjunctive components → ∀ part ∈ components, part ∉ gone →
      ∃ record, r.catalog.get part = .ok record ∧
        record.variant ≠ .aspects ∧ ¬ (record.variant = .disjunctive ∧ record.name = none)
  /-- No two components that were not removed are shown alike. -/
  apart : ∀ id sort components, r.catalog.get id = .ok sort →
    sort.body = .disjunctive components → components.Pairwise fun part other ↦
      part ∉ gone → other ∉ gone → r.catalog.display part ≠ r.catalog.display other
  /-- The base of an attribute is a live primitive sort or a live aspect. -/
  bases : ∀ id sort base weight, r.catalog.get id = .ok sort →
    sort.body = .weighted base weight →
      ∃ b, r.catalog.get base = .ok b ∧ (b.variant = .primitive ∨ b.variant = .aspect)
  /-- The weight of an attribute is a live sort that is older and no aspects tuple. -/
  weights : ∀ id sort base weight, r.catalog.get id = .ok sort →
    sort.body = .weighted base weight →
      ∃ w, r.catalog.get weight = .ok w ∧ w.created < sort.created ∧ w.variant ≠ .aspects
  /-- The spine of a sort is all of its walk along weights. -/
  spines : ∀ id sort, r.catalog.get id = .ok sort →
    ∃ elements, r.catalog.spine id = .ok elements ∧ r.catalog.Walk id (.ok elements)
  /-- A primitive sort is linked to live sorts that are no aspects tuples. -/
  linked : ∀ id sort tag linked, r.catalog.get id = .ok sort →
    sort.body = .primitive tag (some (.sorts linked)) → ∀ part ∈ linked, Operand r.catalog part
  /-- The arguments of an aspects tuple are live and no aspects tuples. -/
  arguments : ∀ id sort tag aspects arguments, r.catalog.get id = .ok sort →
    sort.body = .aspects tag aspects arguments → ∀ part ∈ arguments, Operand r.catalog part
  /-- The instance of a recursive sort, if it was not removed, is live and no aspects tuple. -/
  instances : ∀ id sort target, r.catalog.get id = .ok sort →
    sort.body = .recursive (some target) → target ∉ gone → Operand r.catalog target
  /-- The handle of a sort that was removed is dead until its slot was freed `2 ^ 32` times. -/
  dead : ∀ id ∈ gone, SlotMap.ofSlot (gone.map SortId.key) id.key.index < 2 ^ 32 →
    r.catalog.get id = .error (.dead id)

theorem Lost.madeUp (lost : Lost r gone) : r.MadeUp gone := by
  have proper := lost.reachable.proper
  have assembled := lost.assembled
  have firm {id : SortId} {sort : SortRecord} {body : Body} (found : r.catalog.get id = .ok sort)
      (made : sort.body = body) : ∀ part ∈ body.firm, Operand r.catalog part :=
    made ▸ (assembled.assembles found).firm
  have disjoins {id : SortId} {sort : SortRecord} (found : r.catalog.get id = .ok sort) :=
    (assembled.assembles found).disjoins
  constructor
  case several => exact fun id sort components ↦ proper.steady.several
  case components => exact fun id sort components found made ↦ (disjoins found _ made).each
  case apart => exact fun id sort components found made ↦ (disjoins found _ made).apart
  case bases =>
    intro id sort base weight found made
    obtain ⟨b, there, simple⟩ := lost.reachable.based.simple found made
    exact ⟨b, there, b.isSimple_iff.mp simple⟩
  case weights =>
    intro id sort base weight found made
    obtain ⟨w, there, older, -⟩ := lost.reachable.weighed.weights found made
    obtain ⟨w', again, operand⟩ := firm found made weight (by simp [Body.firm])
    rw [there] at again
    cases again
    exact ⟨w, there, older, operand⟩
  case spines =>
    intro id sort found
    have walk := lost.reachable.weighed.walk_spine id
    obtain ⟨elements, ended⟩ := lost.reachable.weighed.exists_of_walk walk ⟨sort, found⟩
    exact ⟨elements, ended, ended ▸ walk⟩
  case linked => exact fun id sort tag linked found made ↦ firm found made
  case arguments => exact fun id sort tag aspects arguments found made ↦ firm found made
  case instances =>
    exact fun id sort target found ↦ (assembled.assembles found).instances target
  case dead => exact fun id inside ↦ lost.dead inside

/-- In every registry that any calls lead to, whichever sorts they removed on the way, composite
sorts are made up of the sorts that `MadeUp` says. -/
theorem assembled_of_reachable (reached : Reachable AnyCall r) :
    (∃ gone, Lost r gone) ∧ ∀ gone, Lost r gone → r.MadeUp gone :=
  ⟨reached.exists_lost, fun _ ↦ Lost.madeUp⟩

/-- A disjunction of an earlier session has grown by a sort that was undone since; another one
stands in its slot. -/
theorem assembled_of_reachable_sample :
    let id (number : Nat) : SortId := ⟨⟨0⟩, ⟨number, 0⟩⟩
    let r := sample.performAll [.define "[Label] x + [Label] y", .define "[Label] z",
      .sum (id 2) (id 3), .undo, .define "[Label] w"]
    ∃ gone sort, Lost r gone ∧ gone = [id 3] ∧ r.catalog.get (id 2) = .ok sort ∧
      sort.body = .disjunctive [id 0, id 1, id 3] ∧ r.catalog.Live ⟨⟨0⟩, ⟨3, 1⟩⟩ ∧
      r.catalog.get (id 3) = .error (.dead (id 3)) ∧
      ∀ part ∈ [id 0, id 1, id 3], part ∉ gone → ∃ record, r.catalog.get part = .ok record ∧
        record.variant ≠ .aspects ∧ ¬ (record.variant = .disjunctive ∧ record.name = none) := by
  intro id r
  have removed : sample.removalsOf [.define "[Label] x + [Label] y", .define "[Label] z",
      .sum (id 2) (id 3), .undo, .define "[Label] w"] = [id 3] := by decide +kernel
  have begun : Lost sample [] := .empty _ _ _
  have lost : Lost r [id 3] := by
    have lost := begun.performAll [.define "[Label] x + [Label] y", .define "[Label] z",
      .sum (id 2) (id 3), .undo, .define "[Label] w"] (by simp)
    rwa [removed] at lost
  obtain ⟨sort, found, made⟩ : ∃ sort, r.catalog.get (id 2) = .ok sort ∧
      sort.body = .disjunctive [id 0, id 1, id 3] := exists_of_seen (by decide +kernel)
  have later : r.catalog.Live ⟨⟨0⟩, ⟨3, 1⟩⟩ := live_iff.mpr (by decide +kernel)
  have reached : Reachable AnyCall r := (reachable_sample _).performAll _ fun _ _ _ ↦ trivial
  have madeUp := (assembled_of_reachable reached).2 _ lost
  exact ⟨_, sort, lost, rfl, found, made, later,
    madeUp.dead _ List.mem_cons_self (by decide +kernel), madeUp.components _ _ _ found made⟩

end CompositeSorts.Registry
