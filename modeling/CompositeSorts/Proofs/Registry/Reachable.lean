import CompositeSorts.Proofs.Catalog.Lasting
import CompositeSorts.Proofs.Definition.Advance
import CompositeSorts.Proofs.Matching.Remembered
import CompositeSorts.Registry

/-!
Reachable registries. A registry starts empty and is changed by calls; what calls are allowed can
be restricted, by the registry they are made on. Whatever is called, the catalog stays steady and
what is remembered of matches stays about live sorts.
-/

set_option autoImplicit false
set_option relaxedAutoImplicit false

namespace CompositeSorts

open Catalog Matchings

/-- The calls that change a registry. -/
inductive Call where
  | define (text : String)
  | defineAll (text : String)
  | undo
  | clear
  | matchSorts (left right : SortId)
  | primitive (tag : String) (argument : Option Argument)
  | declareAspects (tag : String) (names : List String) (arguments : List SortId)
  | duplicate (id : SortId) (name : String)
  | combine (base weight : SortId)
  | sum (left right : SortId)
  | register (id : SortId)
  | bind (recursive target : SortId)
  | takeLog

namespace Registry

variable {r : Registry}

/-- The registry after a call, whatever it answers. -/
def perform (r : Registry) : Call → Registry
  | .define text => (r.define text).2
  | .defineAll text => (r.defineAll text).2
  | .undo => r.undo.2
  | .clear => r.clear
  | .matchSorts left right => (r.matchSorts left right).2
  | .primitive tag argument => (r.primitive tag argument).2
  | .declareAspects tag names arguments => (r.declareAspects tag names arguments).2
  | .duplicate id name => (r.operate (.duplicate id name)).2
  | .combine base weight => (r.operate (.combine base weight)).2
  | .sum left right => (r.operate (.sum left right)).2
  | .register id => (r.operate (.register id)).2
  | .bind recursive target => (r.operate (.bind recursive target)).2
  | .takeLog => r.takeLog.2

/-- The registries that allowed calls lead to. -/
inductive Reachable (allowed : Registry → Call → Prop) : Registry → Prop where
  | empty (id : RegistryId) (categories : CategoryTable) (config : Configuration) :
    Reachable allowed (.empty id categories config)
  | step {r : Registry} (reached : Reachable allowed r) (call : Call) (allow : allowed r call) :
    Reachable allowed (r.perform call)

/-- The registry after several calls. -/
def performAll (r : Registry) (calls : List Call) : Registry := calls.foldl perform r

theorem Reachable.performAll {allowed : Registry → Call → Prop} (reached : Reachable allowed r)
    (calls : List Call) (allow : ∀ call ∈ calls, ∀ r, allowed r call) :
    Reachable allowed (r.performAll calls) := by
  induction calls generalizing r with
  | nil => exact reached
  | cons call calls ih =>
    obtain ⟨first, others⟩ := List.forall_mem_cons.mp allow
    exact ih (reached.step call (first r)) others

/-- An empty registry with a category for each shape of arguments, for instances of what holds of
all registries. -/
def sample : Registry :=
  let categories := (((CategoryTable.empty.withCategory "Label" .identifier).withCategory
    "Flag" .nothing).withCategory "Count" .bound).withCategory "Relation" (.sorts 2)
  .empty ⟨0⟩ categories {}

/-- Any call. -/
abbrev AnyCall : Registry → Call → Prop := fun _ _ ↦ True

theorem reachable_sample (allowed : Registry → Call → Prop) : Reachable allowed sample :=
  .empty _ _ _

/-- What is seen of a sort is seen of a live one. -/
theorem exists_of_seen {β : Type} {c : Catalog} {id : SortId} {look : SortRecord → β} {b : β}
    (seen : (c.get id).toOption.map look = some b) :
    ∃ sort, c.get id = .ok sort ∧ look sort = b := by
  cases found : c.get id with
  | error reason =>
    rw [found] at seen
    cases seen
  | ok sort =>
    rw [found] at seen
    exact ⟨sort, rfl, Option.some.inj seen⟩

theorem bind_of_seen {β : Type} {c : Catalog} {id : SortId} {sort : SortRecord}
    (found : c.get id = .ok sort) (see : SortRecord → Option β) :
    (c.get id).toOption.bind see = see sort := by
  rw [found]
  rfl

/-- What is seen of an answer and of what was left behind. -/
def look {α β : Type} (see : α → Matchings → β) : EStateM.Result Refusal Matchings α → Option β
  | .ok a t => some (see a t)
  | .error _ _ => none

theorem exists_of_looked {α β : Type} {see : α → Matchings → β}
    {result : EStateM.Result Refusal Matchings α} {b : β} (looked : look see result = some b) :
    ∃ a t, result = .ok a t ∧ see a t = b := by
  cases result with
  | ok a t => exact ⟨a, t, rfl, Option.some.inj looked⟩
  | error reason t => cases looked

theorem Reachable.mono {allowed allowed' : Registry → Call → Prop}
    (h : Reachable allowed r) (more : ∀ r call, allowed r call → allowed' r call) :
    Reachable allowed' r := by
  induction h with
  | empty id categories config => exact .empty id categories config
  | step _ call allow reached => exact .step reached call (more _ call allow)

/-- The catalog is steady, and what is remembered is about live sorts. -/
structure Proper (r : Registry) : Prop where
  steady : r.catalog.Steady
  current : r.matchings.Current r.catalog

theorem proper_empty (id : RegistryId) (categories : CategoryTable) (config : Configuration) :
    (empty id categories config).Proper :=
  ⟨Steady.empty id, current_empty _⟩

/-! ### Sessions -/

/-- The catalog in which the evaluation of a text ends, whichever way it ends. -/
def evaluated (r : Registry) (text : String) : Catalog :=
  match evaluateText r.categories text r.catalog.openSession with
  | .ok _ c => c
  | .error _ c => c

/-- Evaluating a text makes the catalog grow. -/
theorem ends_evaluateText {c : Catalog} (categories : CategoryTable) (text : String)
    (h : c.Steady) : Ends (evaluateText categories text) c (YieldsAll c) (Advance c) := by
  unfold evaluateText
  split
  · exact Phrase.yieldsAll categories _ c h
  · exact Ends.throw (Advance.refl h)

theorem advance_evaluated (h : r.catalog.Steady) (text : String) :
    Advance r.catalog.openSession (r.evaluated text) := by
  have ends := ends_evaluateText r.categories text h.openSession
  unfold evaluated
  split
  · exact (ends.of_ok ‹_›).toAdvance
  · exact ends.of_error ‹_›

theorem Proper.undo (h : r.Proper) : r.undo.2.Proper := by
  have steady := h.steady.rollBack
  have current : (r.matchings.forget r.catalog.fresh).2.Current r.catalog.rollBack :=
    h.current.forget fun sort live out ↦ h.steady.toSound.live_rollBack.mpr ⟨live, out⟩
  unfold Registry.undo
  dsimp only
  split_ifs
  · exact ⟨(steady.note _).note _, current.mono fun _ live ↦ live⟩
  · exact ⟨steady.note _, current.mono fun _ live ↦ live⟩

theorem Proper.withCatalog (h : r.Proper) {c : Catalog} (later : Advance r.catalog.openSession c) :
    { r with catalog := c }.Proper :=
  ⟨later.toSteady, h.current.mono fun _ live ↦ later.live live⟩

theorem Proper.defineAll (h : r.Proper) (text : String) : (r.defineAll text).2.Proper := by
  have later := advance_evaluated h.steady text
  unfold evaluated at later
  unfold Registry.defineAll
  split at later
  · rename_i ids c run
    rw [run]
    exact h.withCatalog (later.note _)
  · rename_i reason c run
    rw [run]
    cases reason with
    | abandoned => exact h.withCatalog later
    | refused problem =>
      have undone := (h.withCatalog later).undo
      exact ⟨undone.steady.note _, undone.current.mono fun _ live ↦ live⟩

theorem snd_define (r : Registry) (text : String) : (r.define text).2 = (r.defineAll text).2 := by
  unfold define
  split
  · rename_i run
    split <;> rw [run]
  · rename_i run
    rw [run]

/-! ### Other calls -/

/-- What holds of any sort. -/
abbrev anything : Trait := .ofBody fun _ ↦ True

theorem operate_of_ok {α : Type} {operation : Op α} {answer : α} {c : Catalog}
    (run : operation r.catalog = .ok answer c) :
    r.operate operation = (.ok answer, { r with catalog := c }) := by
  unfold operate
  rw [run]

theorem exists_of_operate {α : Type} {operation : Op α} {answer : α}
    (answered : (r.operate operation).1 = .ok answer) :
    ∃ c, operation r.catalog = .ok answer c := by
  unfold operate at answered
  split at answered
  · rename_i other c run
    cases answered
    exact ⟨c, run⟩
  · cases answered

theorem Proper.operate {α : Type} (h : r.Proper) {operation : Op α}
    (safe : Lasting.Safe anything operation) : (r.operate operation).2.Proper := by
  have ends := safe r.catalog r.catalog (Lasting.refl h.steady fun _ ↦ trivial)
  unfold Registry.operate
  split
  · have later := ends.of_ok ‹_›
    exact ⟨later.toSteady, h.current.mono later.live⟩
  · have later := ends.of_error ‹_›
    exact ⟨later.toSteady, h.current.mono later.live⟩

theorem Proper.matchSorts (h : r.Proper) (left right : SortId) :
    (r.matchSorts left right).2.Proper := by
  have ends := respects_relate r.catalog h.steady.toRooted r.config [] left right r.matchings
  unfold Registry.matchSorts
  split
  · exact ⟨h.steady, (ends.of_ok ‹_›).2 h.current⟩
  · exact ⟨h.steady, (ends.of_error ‹_›).2 h.current⟩

theorem proper_clear (r : Registry) : r.clear.Proper where
  steady := Steady.clear r.catalog
  current := by
    have nothing := current_empty r.clear.catalog
    exact ⟨nothing.memo, nothing.sentinels, nothing.identities⟩

theorem Proper.takeLog (h : r.Proper) : r.takeLog.2.Proper where
  steady := by
    have steady := h.steady
    exact ⟨⟨⟨steady.slots, steady.placed, steady.named, steady.kept⟩, steady.listed,
      steady.recent⟩, steady.several, steady.awaited⟩
  current := by
    have current := h.current
    exact ⟨current.memo, current.sentinels, current.identities⟩

theorem Proper.perform (h : r.Proper) (call : Call) : (r.perform call).Proper := by
  have composite : anything.Composite := fun _ _ _ ↦ trivial
  cases call with
  | define text =>
    change (r.define text).2.Proper
    rw [snd_define]
    exact h.defineAll text
  | defineAll text => exact h.defineAll text
  | undo => exact h.undo
  | clear => exact proper_clear r
  | matchSorts left right => exact h.matchSorts left right
  | primitive tag argument => exact h.operate (Lasting.safe_primitive fun _ _ _ ↦ trivial)
  | declareAspects tag names arguments =>
    exact h.operate (Lasting.safe_declareAspects names arguments (fun _ _ _ _ _ ↦ trivial)
      fun _ _ _ ↦ trivial)
  | duplicate id name => exact h.operate (Lasting.safe_duplicate id name fun _ _ _ _ ↦ trivial)
  | combine base weight => exact h.operate (Lasting.safe_combine composite base weight)
  | sum left right => exact h.operate (Lasting.safe_sum composite left right)
  | register id => exact h.operate (Lasting.safe_register id)
  | bind recursive target =>
    exact h.operate fun _ _ reached ↦ reached.lasts_bind fun _ _ ↦ trivial
  | takeLog => exact h.takeLog

/-- Every registry that calls lead to is proper. -/
theorem Reachable.proper {allowed : Registry → Call → Prop} (h : Reachable allowed r) :
    r.Proper := by
  induction h with
  | empty id categories config => exact proper_empty id categories config
  | step _ call _ proper => exact proper.perform call

end Registry

end CompositeSorts
