import CompositeSorts.Proofs.Matching.Nesting
import CompositeSorts.Proofs.Matching.Reversing
import CompositeSorts.Proofs.Registry.Repeating
import CompositeSorts.Proofs.Registry.Sessions

/-!
Matching ends. Nothing about the sorts of a registry makes matching them come to an end: recursive
sorts lead back to themselves, and a disjunction can be made to contain itself. What does are three
bounds. The computations of pairs that stand inside each other are of different pairs of displays, a
chain goes from sorts to older ones, and reversals that stand inside each other are of different
matches.
-/

set_option autoImplicit false
set_option relaxedAutoImplicit false

namespace CompositeSorts.Registry

open Catalog Matchings Matching

variable {r : Registry}

/-- Matching any two handles of any registry is what matching does when no more computations of
pairs may stand inside each other than there are pairs of displays of live sorts, whatever lies
beyond. The chain of any sort is where the walk along its weights ends; and reversing any match is
what reversing does when no more reversals may stand inside each other than there are matches. -/
theorem matching_ends (reached : Reachable AnyCall r) :
    (∀ beyond depth, r.catalog.pairKeys.toFinset.card ≤ depth → ∀ left right,
        relateWithin r.catalog r.config beyond depth left right r.matchings =
          relate r.catalog r.config [] left right r.matchings) ∧
      (∀ id, r.catalog.Walk id (r.catalog.spine id)) ∧
      ∀ (t : Matchings) beyond depth, t.nodes.size ≤ depth → ∀ id left right,
        t.copiesWithin beyond depth id left right = t.copies id left right := by
  refine ⟨fun beyond depth enough left right ↦ ?_, reached.weighed.walk_spine,
    fun t beyond depth enough id left right ↦ copiesWithin_eq_copies t beyond id left right depth enough⟩
  exact (concur_relateWithin beyond depth [] List.nodup_nil (List.nil_subset _) enough left right
    r.matchings reached.idle).1

/-- A disjunction that was made to contain an attribute that it is itself the weight of, beside a
recursive sort; there are eight displays. -/
theorem matching_ends_sample :
    let r := ((sample.perform (.defineAll "x: [Label] x; r: x ^ r; [Label] a + [Label] b")).perform
      (.combine ⟨⟨0⟩, ⟨1, 0⟩⟩ ⟨⟨0⟩, ⟨6, 0⟩⟩)).perform (.sum ⟨⟨0⟩, ⟨6, 0⟩⟩ ⟨⟨0⟩, ⟨7, 0⟩⟩)
    (r.catalog.get ⟨⟨0⟩, ⟨6, 0⟩⟩).toOption.map SortRecord.summands =
        some [⟨⟨0⟩, ⟨4, 0⟩⟩, ⟨⟨0⟩, ⟨5, 0⟩⟩, ⟨⟨0⟩, ⟨7, 0⟩⟩] ∧
      (r.catalog.get ⟨⟨0⟩, ⟨7, 0⟩⟩).toOption.map SortRecord.body =
        some (.weighted ⟨⟨0⟩, ⟨1, 0⟩⟩ ⟨⟨0⟩, ⟨6, 0⟩⟩) ∧
      (∀ beyond, relateWithin r.catalog r.config beyond 64 ⟨⟨0⟩, ⟨6, 0⟩⟩ ⟨⟨0⟩, ⟨2, 0⟩⟩ r.matchings =
        relate r.catalog r.config [] ⟨⟨0⟩, ⟨6, 0⟩⟩ ⟨⟨0⟩, ⟨2, 0⟩⟩ r.matchings) ∧
      r.catalog.Walk ⟨⟨0⟩, ⟨7, 0⟩⟩ (r.catalog.spine ⟨⟨0⟩, ⟨7, 0⟩⟩) := by
  intro r
  obtain ⟨nesting, walks, -⟩ : _ ∧ _ ∧ _ := matching_ends (r := r)
    (.step (.step (.step (reachable_sample _) _ trivial) _ trivial) _ trivial)
  exact ⟨by decide +kernel, by decide +kernel,
    fun beyond ↦ nesting beyond 64 (by decide +kernel) _ _, walks _⟩

end CompositeSorts.Registry
