import CompositeSorts.Catalog.Resolution
import CompositeSorts.Proofs.Catalog.Fitting

/-!
What recursive sorts stand for. Following the instances of a recursive sort ends at a sort that is
not recursive, whose canonical text and counts the sorts on the way have taken over
(`Catalog.Settles`). The way visits each sort once, so it is no longer than there are live sorts,
and resolving gets to its end (`Settles.resolve`).
-/

set_option autoImplicit false
set_option relaxedAutoImplicit false

namespace CompositeSorts.Catalog

variable {c d : Catalog} {id start : SortId} {text text' : String}
    {counts counts' : ComponentCounts}
  {steps steps' : Nat}

/-- Following instances from the sort leads, in so many steps, to a sort that is not recursive. The
canonical text and the counts are the same all the way. -/
inductive Settles (c : Catalog) : SortId → String → ComponentCounts → Nat → Prop where
  | here {id : SortId} {sort : SortRecord} (found : c.get id = .ok sort)
    (plain : sort.variant ≠ .recursive) : Settles c id sort.canonical sort.counts 0
  | through {id target : SortId} {sort : SortRecord} {steps : Nat} (found : c.get id = .ok sort)
    (bound : sort.body = .recursive (some target))
    (next : Settles c target sort.canonical sort.counts steps) :
    Settles c id sort.canonical sort.counts (steps + 1)

/-- A handle in a live sort leads to the sort. -/
def Used (c : Catalog) (id : SortId) : Prop :=
  ∃ user sort, c.get user = .ok sort ∧ id ∈ sort.body.handles

namespace Settles

theorem live (h : c.Settles id text counts steps) : c.Live id := by
  cases h with
  | here found _ => exact ⟨_, found⟩
  | through found _ _ => exact ⟨_, found⟩

theorem steps_eq (h : c.Settles id text counts steps) (h' : c.Settles id text' counts' steps') :
    steps = steps' := by
  induction h generalizing text' counts' steps' with
  | here found plain =>
    cases h' with
    | here _ _ => rfl
    | through found' bound _ =>
      rw [found] at found'
      cases found'
      exact absurd bound (SortRecord.body_ne_recursive plain _)
  | through found bound _ ih =>
    cases h' with
    | here found' plain =>
      rw [found] at found'
      cases found'
      exact absurd bound (SortRecord.body_ne_recursive plain _)
    | through found' bound' next =>
      rw [found] at found'
      cases found'
      rw [bound] at bound'
      cases bound'
      rw [ih next]

/-- The instance of a recursive sort is the next sort on its way. -/
theorem target (h : c.Settles id text counts steps) {sort : SortRecord} {target : SortId}
    (found : c.get id = .ok sort) (bound : sort.body = .recursive (some target)) :
    ∃ left, c.Settles target text counts left := by
  cases h with
  | here found' plain =>
    rw [found] at found'
    cases found'
    exact absurd bound (SortRecord.body_ne_recursive plain _)
  | through found' bound' next =>
    rw [found] at found'
    cases found'
    rw [bound] at bound'
    cases bound'
    exact ⟨_, next⟩

/-- The way stays when the sorts on it look the same; which sorts are on it can be said by any
condition that leads from a sort to those it leads to. -/
theorem frame_of (h : c.Settles id text counts steps) (good : SortId → Prop) (start : good id)
    (firm : ∀ id, good id → c.Live id → Firm c d id)
    (closed : ∀ id sort, good id → c.get id = .ok sort → ∀ next ∈ sort.body.handles, good next) :
    d.Settles id text counts steps := by
  induction h with
  | here found plain =>
    obtain ⟨before, after, there, there', alike⟩ := firm _ start ⟨_, found⟩
    rw [found] at there
    cases there
    obtain ⟨sameText, sameCounts⟩ := alike.settled (SortRecord.body_ne_recursive plain none)
    rw [← sameText, ← sameCounts]
    exact .here there' (alike.variant ▸ plain)
  | through found bound _ ih =>
    obtain ⟨before, after, there, there', alike⟩ := firm _ start ⟨_, found⟩
    rw [found] at there
    cases there
    obtain ⟨sameText, sameCounts⟩ := alike.settled (by rw [bound]; rintro ⟨⟩)
    have next := ih (closed _ _ start found _ (SortRecord.target_mem_handles bound))
    rw [← sameText, ← sameCounts] at next ⊢
    exact .through there' ((alike.bound _ bound).trans bound) next

/-- The way stays when its beginning and all sorts in use look the same. -/
theorem frame (h : c.Settles id text counts steps) (firm : Firm c d id)
    (firms : ∀ id, c.Used id → Firm c d id) : d.Settles id text counts steps :=
  h.frame_of (Firm c d) firm (fun _ good _ ↦ good)
    fun id sort _ found next inside ↦ firms next ⟨id, sort, found, inside⟩

/-- The way visits different sorts, one more than it has steps. -/
theorem exists_visited (h : c.Settles id text counts steps) :
    ∃ visited : List SortId, visited.length = steps + 1 ∧ visited.Nodup ∧
      ∀ other ∈ visited, ∃ text counts left, left ≤ steps ∧ c.Settles other text counts left := by
  induction h with
  | @here id sort found plain =>
    refine ⟨[id], rfl, List.nodup_singleton id, fun other inside ↦ ?_⟩
    rw [List.mem_singleton.mp inside]
    exact ⟨_, _, 0, Nat.le_refl _, .here found plain⟩
  | @through id target sort steps found bound next ih =>
    obtain ⟨visited, length, nodup, behind⟩ := ih
    refine ⟨id :: visited, by rw [List.length_cons, length], List.nodup_cons.mpr ⟨?_, nodup⟩, ?_⟩
    · intro inside
      obtain ⟨text, counts, left, fewer, settles⟩ := behind id inside
      have same := (Settles.through found bound next).steps_eq settles
      omega
    · intro other inside
      rcases List.mem_cons.mp inside with rfl | inside
      · exact ⟨_, _, steps + 1, Nat.le_refl _, .through found bound next⟩
      · obtain ⟨text, counts, left, fewer, settles⟩ := behind other inside
        exact ⟨text, counts, left, Nat.le_succ_of_le fewer, settles⟩

theorem steps_lt_size (h : c.Settles id text counts steps) (rooted : c.Rooted) :
    steps < c.size := by
  obtain ⟨visited, length, nodup, behind⟩ := h.exists_visited
  have bounded := rooted.length_le_size nodup fun other inside ↦ by
    obtain ⟨_, _, _, _, settles⟩ := behind other inside
    exact settles.live
  omega

/-- With enough steps left, following instances gets to the end of the way. -/
theorem resolveWithin (h : c.Settles id text counts steps) {bound : Nat} (enough : steps < bound) :
    ∃ goal sort, c.resolveWithin start bound id = .ok goal ∧ c.get goal = .ok sort ∧
      sort.variant ≠ .recursive ∧ sort.canonical = text ∧ sort.counts = counts := by
  induction h generalizing bound with
  | @here id sort found plain =>
    obtain ⟨rest, rfl⟩ := Nat.exists_eq_add_of_lt enough
    refine ⟨id, sort, ?_, found, plain, rfl, rfl⟩
    simp only [Catalog.resolveWithin, found, bind, Except.bind]
    unfold SortRecord.variant at plain
    cases made : sort.body with
    | recursive target =>
      rw [made] at plain
      exact absurd rfl plain
    | _ => rfl
  | @through id target sort steps found bound_ next ih =>
    obtain ⟨rest, rfl⟩ : ∃ rest, bound = rest + 1 := ⟨bound - 1, by omega⟩
    have fewer : steps < rest := by omega
    obtain ⟨goal, last, leads, found', plain, same⟩ := ih fewer
    refine ⟨goal, last, ?_, found', plain, same⟩
    simp only [Catalog.resolveWithin, found, bind, Except.bind, bound_]
    exact leads

/-- Resolving gets to the end of the way. -/
theorem resolve (h : c.Settles id text counts steps) (rooted : c.Rooted) :
    ∃ goal sort, c.resolve id = .ok goal ∧ c.get goal = .ok sort ∧ sort.variant ≠ .recursive ∧
      sort.canonical = text ∧ sort.counts = counts :=
  h.resolveWithin (Nat.lt_succ_of_lt (h.steps_lt_size rooted))

end Settles

end CompositeSorts.Catalog
