import CompositeSorts.Proofs.Matching.Rendered
import CompositeSorts.Proofs.Registry.Atomicity

/-!
What a registry remembers. Whatever texts are defined, undone and matched, the matches of a registry
render a memory, and how a call changes that memory depends on the catalog only (`Catalog.recall`):
defining leaves it alone, undoing forgets what was found of sorts that are gone, and matching finds
more. So what a registry answers to a matching request can be read off the memory
(`follows_matchSorts`).
-/

set_option autoImplicit false
set_option relaxedAutoImplicit false

namespace CompositeSorts

open Catalog Matchings

/-- The calls by which texts are defined, undone, dropped and matched. -/
def Call.Textual : Call → Prop
  | .define _ | .defineAll _ | .undo | .clear | .matchSorts _ _ | .takeLog => True
  | _ => False

/-- The memory after a call. -/
def Catalog.recall (c : Catalog) (memory : Memory) : Call → Memory
  | .undo => memory.without c.fresh
  | .clear => .empty
  | .matchSorts left right =>
    match Appraisal.relate c [] left right memory with
    | .ok _ later => later
    | .error _ later => later
  | _ => memory

namespace Registry

variable {r : Registry} {memory : Memory}

/-- The matches of the registry render the memory. -/
def Recalls (r : Registry) (memory : Memory) : Prop := r.matchings.Renders r.catalog memory

theorem recalls_empty (id : RegistryId) (categories : CategoryTable) (config : Configuration) :
    (empty id categories config).Recalls .empty := renders_empty _

theorem recalls_defineAll (proper : r.Proper) (h : r.Recalls memory) (text : String) :
    (r.defineAll text).2.Recalls memory := by
  unfold Recalls
  rw [matchings_defineAll proper]
  exact Renders.mono h fun found ↦ get_defineAll proper text found

theorem matchings_undo (r : Registry) :
    r.undo.2.matchings = (r.matchings.forget r.catalog.fresh).2 := rfl

theorem recalls_undo (proper : r.Proper) (h : r.Recalls memory) :
    r.undo.2.Recalls (memory.without r.catalog.fresh) := by
  unfold Recalls
  rw [matchings_undo]
  exact Renders.forget h fun found out ↦ get_undo proper.steady found out

/-- Matching leaves the sorts alone. -/
theorem catalog_matchSorts (r : Registry) (left right : SortId) :
    (r.matchSorts left right).2.catalog = r.catalog := by
  unfold matchSorts
  split <;> rfl

/-- A matching request is answered by the match that shows what is found, and refused where nothing
is. -/
theorem follows_matchSorts (proper : r.Proper) (h : r.Recalls memory) (left right : SortId) :
    match Appraisal.relate r.catalog [] left right memory with
    | .ok finding later => ∃ id r', r.matchSorts left right = (.ok id, r') ∧ r'.Recalls later ∧
        r'.matchings.Shows id finding ∧ r'.catalog = r.catalog
    | .error reason later => ∃ r', r.matchSorts left right = (.error reason, r') ∧
        r'.Recalls later ∧ r'.catalog = r.catalog := by
  have follows := rendering_relate proper.steady.toRooted r.config [] left right r.matchings
    memory h
  unfold matchSorts
  split
  · rename_i finding later run
    obtain ⟨id, matchings, run', answer⟩ := follows.of_ok run
    rw [run']
    exact ⟨id, _, rfl, answer.renders, answer.shows, rfl⟩
  · rename_i reason later run
    obtain ⟨matchings, run', reached⟩ := follows.of_error run
    rw [run']
    exact ⟨_, rfl, reached.renders, rfl⟩

theorem recalls_perform (proper : r.Proper) (h : r.Recalls memory) {call : Call}
    (textual : call.Textual) : (r.perform call).Recalls (r.catalog.recall memory call) := by
  cases call with
  | define text =>
    change (r.define text).2.Recalls memory
    rw [snd_define]
    exact recalls_defineAll proper h text
  | defineAll text => exact recalls_defineAll proper h text
  | undo => exact recalls_undo proper h
  | clear => exact (renders_empty r.clear.catalog).counted _ _
  | matchSorts left right =>
    have answered := follows_matchSorts proper h left right
    unfold Catalog.recall perform
    dsimp only
    split at answered
    · rename_i run
      obtain ⟨id, r', answer, recalls, -⟩ := answered
      rw [answer]
      exact recalls
    · rename_i run
      obtain ⟨r', answer, recalls, -⟩ := answered
      rw [answer]
      exact recalls
  | takeLog =>
    have kept : Renders r.takeLog.2.catalog r.matchings memory := Renders.mono h fun found ↦ found
    exact kept.counted _ _
  | _ => exact absurd textual id

end Registry

end CompositeSorts
