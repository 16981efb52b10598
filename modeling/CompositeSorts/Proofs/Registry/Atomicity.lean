import CompositeSorts.Proofs.Registry.Reachable

/-!
A definition that fails is atomic. When a text has a problem, the registry is afterwards as it was
before, up to its clock, its slots and its journal: the sorts and their handles, the names, the kept
attributes, and everything about matches are the same, and the handles that were made for the text
are dead.
-/

set_option autoImplicit false
set_option relaxedAutoImplicit false

namespace CompositeSorts.Registry

open Catalog Matchings

variable {r : Registry}

/-- What a failed definition leaves behind: the same sorts and matches, and no definition that is
under way. -/
structure Restored (before after : Registry) : Prop extends
    SameSorts before.catalog after.catalog where
  sorts : after.catalog.sorts = before.catalog.sorts
  matchings : after.matchings = before.matchings
  pending : after.catalog.pending = []
  config : after.config = before.config
  categories : after.categories = before.categories

/-- The handles of the sorts that were made while a text was evaluated. -/
def madeBy (r : Registry) (text : String) : List SortId := (r.evaluated text).fresh

theorem fresh_undo (r : Registry) : r.undo.2.catalog.fresh = [] := by
  unfold undo
  dsimp only
  split_ifs <;> rfl

/-- When the sorts that grew since a session began are removed, everything is as it was. -/
theorem restored_undo (h : r.Proper) {c : Catalog} (later : Advance r.catalog.openSession c) :
    Restored r { r with catalog := c }.undo.2 ∧
      ∀ id ∈ c.fresh, { r with catalog := c }.undo.2.catalog.get id = .error (.dead id) := by
  have begun := h.steady.openSession
  have same := later.toGrowth.sameSorts_rollBack begun.toSound later.toSound rfl
  have before : SameSorts r.catalog c.rollBack :=
    ⟨same.get, same.history, same.names, same.interned⟩
  have dead : ∀ id ∈ c.fresh, ¬ r.catalog.Live id := by
    intro id inside
    obtain ⟨new, -, fresh, apart⟩ := later.toGrowth.made
    change c.fresh = new ++ [] at fresh
    rw [List.append_nil] at fresh
    exact apart id (fresh ▸ inside)
  have kept : r.matchings.forget c.fresh = (0, r.matchings) := h.current.forget_eq dead
  have gone : ∀ id ∈ c.fresh, c.rollBack.get id = .error (.dead id) := fun id inside ↦
    get_removeAll_of_mem later.toSound.ours_of_fresh inside
  have result : { r with catalog := c }.undo.2 =
      { r with catalog := c.rollBack.note (.sessionRolledBack c.fresh.length) } := by
    unfold Registry.undo
    dsimp only
    rw [kept]
    rfl
  rw [result]
  refine ⟨⟨⟨before.get, before.history, before.names, before.interned⟩, ?_, rfl, rfl, rfl, rfl⟩,
    gone⟩
  exact before.sorts h.steady.toSound

/-- A text with a problem leaves the registry as it was. -/
theorem restored_defineAll (h : r.Proper) {text : String} {problem : Problem}
    (failed : (r.defineAll text).1 = .error (.refused problem)) :
    Restored r (r.defineAll text).2 ∧
      ∀ id ∈ r.madeBy text, (r.defineAll text).2.catalog.get id = .error (.dead id) := by
  have later := advance_evaluated h.steady text
  unfold madeBy
  unfold evaluated at later ⊢
  unfold Registry.defineAll at failed ⊢
  split at later
  · rename_i ids c run
    rw [run] at failed
    cases failed
  · rename_i reason c run
    rw [run] at failed ⊢
    cases reason with
    | abandoned => cases failed
    | refused other =>
      obtain ⟨restored, gone⟩ := restored_undo h later
      refine ⟨⟨⟨restored.get, restored.history, restored.names, restored.interned⟩, ?_,
        restored.matchings, restored.pending, restored.config, restored.categories⟩, gone⟩
      exact restored.sorts

/-- What is found under a handle is found after defining a text. -/
theorem get_defineAll (h : r.Proper) (text : String) {id : SortId} {sort : SortRecord}
    (found : r.catalog.get id = .ok sort) : (r.defineAll text).2.catalog.get id = .ok sort := by
  have later := advance_evaluated h.steady text
  have restored : ∀ problem, (r.defineAll text).1 = .error (.refused problem) →
      Restored r (r.defineAll text).2 := fun _ failed ↦ (restored_defineAll h failed).1
  unfold evaluated at later
  unfold defineAll at restored ⊢
  split at later
  · rename_i ids c run
    rw [run]
    exact later.stays found
  · rename_i reason c run
    rw [run] at restored ⊢
    cases reason with
    | abandoned => exact later.stays found
    | refused problem => exact ((restored problem rfl).get id).trans found

/-- Defining a text leaves the matches alone. -/
theorem matchings_defineAll (h : r.Proper) (text : String) :
    (r.defineAll text).2.matchings = r.matchings := by
  have restored : ∀ problem, (r.defineAll text).1 = .error (.refused problem) →
      Restored r (r.defineAll text).2 := fun _ failed ↦ (restored_defineAll h failed).1
  unfold defineAll at restored ⊢
  split
  · rfl
  · rfl
  · rename_i problem c run
    rw [run] at restored
    exact (restored problem rfl).matchings

/-- What is found under a handle is found after undoing, unless it is gone. -/
theorem get_undo (steady : r.catalog.Steady) {id : SortId} {sort : SortRecord}
    (found : r.catalog.get id = .ok sort) (out : id ∉ r.catalog.fresh) :
    r.undo.2.catalog.get id = .ok sort := by
  have kept : r.catalog.rollBack.get id = .ok sort := by
    rw [get_rollBack, get_removeAll_of_notMem steady.toSound.ours_of_fresh out]
    exact found
  unfold undo
  dsimp only
  split_ifs
  · exact kept
  · exact kept

/-! ### The last sort of a text -/

theorem program_ne_nil (categories : CategoryTable) (stream : TokenStream) :
    Grammar.program categories stream ≠ [] := by
  rw [Grammar.program]
  split
  · exact List.cons_ne_nil _ _
  · split
    · exact List.cons_ne_nil _ _
    · split
      · exact List.cons_ne_nil _ _
      · split
        · exact List.cons_ne_nil _ _
        · exact List.cons_ne_nil _ _
    · exact List.cons_ne_nil _ _

/-- Phrases that are all evaluated have as many answers. -/
theorem length_evaluateAll (categories : CategoryTable) (phrases : List Phrase) (c : Catalog) :
    Ends (Phrase.evaluateAll categories phrases) c (fun ids _ ↦ ids.length = phrases.length)
      fun _ ↦ True := by
  induction phrases generalizing c with
  | nil => exact Ends.pure rfl
  | cons phrase phrases ih =>
    apply Ends.bind
    unfold Ends
    split
    · refine Ends.bind ((ih _).mono (fun ids _ length ↦ ?_) fun _ failed ↦ failed)
      exact Ends.pure (by rw [List.length_cons, List.length_cons, length])
    · trivial

/-- A text that can be evaluated defines something. -/
theorem ne_nil_of_defineAll {text : String} {ids : List SortId}
    (defined : (r.defineAll text).1 = .ok ids) : ids ≠ [] := by
  have answered : Ends (evaluateText r.categories text) r.catalog.openSession
      (fun ids _ ↦ ids ≠ []) fun _ ↦ True := by
    unfold evaluateText
    split
    · rename_i stream _
      refine (length_evaluateAll _ _ _).mono (fun ids _ length ↦ ?_) fun _ failed ↦ failed
      rintro rfl
      exact program_ne_nil r.categories stream (List.eq_nil_of_length_eq_zero length.symm)
    · exact Ends.throw trivial
  unfold Registry.defineAll at defined
  split at defined
  · rename_i catalog run
    cases defined
    have something := answered.of_ok run
    exact something
  · cases defined
  · cases defined

/-- The two ways to define a text fail with the same problems. -/
theorem defineAll_of_define {text : String} {reason : Stop Problem}
    (failed : (r.define text).1 = .error reason) : (r.defineAll text).1 = .error reason := by
  unfold define at failed
  split at failed
  · rename_i ids after run
    have some_ : ids ≠ [] := ne_nil_of_defineAll (by rw [run])
    split at failed
    · cases failed
    · rename_i last
      exact absurd (List.getLast?_eq_none_iff.mp last) some_
  · rename_i run
    rw [run]
    cases failed
    rfl

/-- A failing definition is atomic: whatever was done to a registry before, a text with a problem
leaves the sorts and their handles, the names, the kept attributes and the matches as they were, no
definition under way, and no handle made for the text alive. -/
theorem failed_definition_restores (reached : Reachable AnyCall r) (text : String)
    (problem : Problem)
    (failed : (r.defineAll text).1 = .error (.refused problem) ∨
      (r.define text).1 = .error (.refused problem)) :
    (r.define text).2 = (r.defineAll text).2 ∧ Restored r (r.defineAll text).2 ∧
      ∀ id ∈ r.madeBy text, (r.defineAll text).2.catalog.get id = .error (.dead id) := by
  refine ⟨snd_define r text, ?_⟩
  apply restored_defineAll reached.proper
  rcases failed with failed | failed
  · exact failed
  · exact defineAll_of_define failed

/-- Sorts are made, kept and bound here before the text turns out to have a problem. -/
theorem failed_definition_restores_sample :
    let r := sample.perform (.defineAll "a: [Label] p")
    let text := "b: a ^ (c: [Label] q + a ^ c); d: e"
    (r.madeBy text).length = 5 ∧ Restored r (r.defineAll text).2 :=
  ⟨by decide +kernel, (failed_definition_restores
    (.step (reachable_sample _) (.defineAll "a: [Label] p") trivial) _
    ⟨.undefinedName "e", ⟨1, 35⟩⟩ (Or.inl (by decide +kernel))).2.1⟩

end CompositeSorts.Registry
