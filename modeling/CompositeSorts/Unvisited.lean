/-!
What a search has not visited. A search that visits each of finitely many things at most once ends,
because less is unvisited after each visit. Main statement: `length_unvisited_cons_lt`.
-/

set_option autoImplicit false
set_option relaxedAutoImplicit false

namespace CompositeSorts

variable {α : Type} [DecidableEq α]

/-- The things that were not visited. -/
def unvisited (all visited : List α) : List α := all.filter (· ∉ visited)

/-- Visiting something new leaves less unvisited. -/
theorem length_unvisited_cons_lt {all visited : List α} {a : α} (inside : a ∈ all)
    (new : a ∉ visited) :
    (unvisited all (a :: visited)).length < (unvisited all visited).length := by
  have split : unvisited all (a :: visited) = (unvisited all visited).filter (· ≠ a) := by
    rw [unvisited, unvisited, List.filter_filter]
    congr 1
    funext b
    simp [not_or]
  rw [split]
  exact List.length_filter_lt_length_iff_exists.2 ⟨a, by simp [unvisited, inside, new], by simp⟩

end CompositeSorts
