import CompositeSorts.Proofs.Matching.Unbroken
import CompositeSorts.Proofs.Registry.Repeating
import CompositeSorts.Proofs.Registry.Symmetry

/-!
Where no recursive sort is, no cycle is met. The guard against matching in circles goes by displays,
and it is asked again whenever a pair is exchanged. Still it answers for none but pairs that are
really under way: matching two sorts that reach no recursive one counts no cycle and makes no
sentinel, whatever was matched before (`unbroken_matchSorts`).
-/

set_option autoImplicit false
set_option relaxedAutoImplicit false

namespace CompositeSorts.Registry

open Catalog Matchings Matching

variable {r : Registry} {left right : SortId}

/-- Matching straight sorts breaks no cycle. -/
theorem unbroken_matchSorts (reached : Reachable ByText r) (straight : r.catalog.Straight left)
    (straight' : r.catalog.Straight right) :
    Unbroken r.matchings (r.matchSorts left right).2.matchings := by
  obtain ⟨height, graded⟩ := reached.rested.exists_graded reached.suited
  have none : ∀ x y, r.catalog.get left = .ok x → r.catalog.get right = .ok y →
      Ahead r.catalog height [] x y :=
    fun _ _ _ _ _ _ _ _ _ _ inside ↦ absurd inside List.not_mem_nil
  obtain ⟨id, t, answer, unbroken⟩ | ⟨reason, t, answer, unbroken⟩ :=
    ends_matchSorts (unbroken_relate reached.rested reached.rested.legible graded r.config []
      left right r.matchings straight straight' none)
  all_goals
    rw [answer]
    exact unbroken

/-- An attribute and a sum that it is in, which is matched from the other side, after a recursive
sort was matched and a cycle broken. Three different sorts show `[Flag]`. -/
theorem unbroken_matchSorts_sample :
    let r := (sample.perform (.defineAll "r: [Flag] ^ r; [Flag] + [Flag] ^ [Flag]")).perform
      (.matchSorts ⟨⟨0⟩, ⟨0, 0⟩⟩ ⟨⟨0⟩, ⟨1, 0⟩⟩)
    r.matchings.metrics.cyclesBroken = 1 ∧ r.catalog.Straight ⟨⟨0⟩, ⟨6, 0⟩⟩ ∧
      r.catalog.Straight ⟨⟨0⟩, ⟨7, 0⟩⟩ ∧
      Unbroken r.matchings (r.matchSorts ⟨⟨0⟩, ⟨6, 0⟩⟩ ⟨⟨0⟩, ⟨7, 0⟩⟩).2.matchings := by
  intro r
  have reached : Reachable ByText r :=
    .step (.next (reachable_sample _) (by decide +kernel)) (.matchSorts _ _) trivial
  let ids : List SortId := [3, 4, 5, 6, 7].map fun index ↦ ⟨⟨0⟩, ⟨index, 0⟩⟩
  have closed : ∀ id ∈ ids, ∀ sort ∈ (r.catalog.get id).toOption,
      sort.variant ≠ .recursive ∧ ∀ other ∈ sort.body.handles, other ∈ ids := by decide +kernel
  have straight {id : SortId} (inside : id ∈ ids) : r.catalog.Straight id :=
    Straight.of_closed (fun id inside sort found ↦ closed id inside sort (by rw [found]; rfl)) inside
  have left : r.catalog.Straight ⟨⟨0⟩, ⟨6, 0⟩⟩ := straight (by decide)
  have right : r.catalog.Straight ⟨⟨0⟩, ⟨7, 0⟩⟩ := straight (by decide)
  exact ⟨by decide +kernel, left, right, unbroken_matchSorts reached left right⟩

end CompositeSorts.Registry
