import CompositeSorts.Proofs.Catalog.Common
import Mathlib.Order.Lattice.Nat

/-!
The heights of displays. No sort is made of itself, so sorts have ranks; but sorts of one display
need not have one rank. They lead to sorts of the same displays, so the least rank of a sort that
shows a display is a height of the display: a sort that is not recursive is higher than those it
leads to (`Rested.exists_graded`). Below a recursive sort there is no such order, for its instance
can lead back to it; a sort is *straight* when it reaches no recursive one.
-/

set_option autoImplicit false
set_option relaxedAutoImplicit false

namespace CompositeSorts.Catalog

variable {c : Catalog} {id part left right other : SortId} {sort record x y x' y' : SortRecord}
  {height : String → Nat} {categories : CategoryTable}

/-- The sort reaches no recursive sort. -/
def Straight (c : Catalog) (id : SortId) : Prop :=
  ∀ {part : SortId} {sort : SortRecord}, c.Reaches id part → c.get part = .ok sort →
    sort.variant ≠ .recursive

theorem Straight.of_reaches (h : c.Straight id) (reaches : c.Reaches id part) : c.Straight part :=
  fun further found ↦ h (reaches.trans further) found

/-- Among sorts that use only each other and are not recursive, each is straight. -/
theorem Straight.of_closed {ids : List SortId}
    (closed : ∀ id ∈ ids, ∀ sort, c.get id = .ok sort →
      sort.variant ≠ .recursive ∧ ∀ other ∈ sort.body.handles, other ∈ ids)
    (inside : id ∈ ids) : c.Straight id := by
  have among : ∀ {part : SortId}, c.Reaches id part → part ∈ ids := by
    intro part reaches
    induction reaches with
    | refl => exact inside
    | tail _ leads ih =>
      obtain ⟨user, there, here | ⟨owner, above, tuple, owned, here⟩⟩ := leads.exists_handle
      · exact (closed _ ih user there).2 _ here
      · exact (closed owner ((closed _ ih user there).2 owner above) tuple owned).2 _ here
  exact fun part sort reaches found ↦ (closed part (among reaches) sort found).1

/-- Sorts that are not recursive are higher than what they lead to, and the height of a sort is that
of its display. -/
def Graded (c : Catalog) (height : String → Nat) : Prop :=
  ∀ {id part : SortId} {sort record : SortRecord}, c.LeadsTo id part → c.get id = .ok sort →
    c.get part = .ok record → sort.variant ≠ .recursive →
      height record.display < height sort.display

/-- A sort that is not recursive ranks above what it leads to: the argument of an aspect is a part
of the owner, and the owner is a part of the aspect. -/
theorem rank_lt_of_leadsTo {rank : SortId → Nat}
    (above : ∀ {id : SortId} {sort : SortRecord}, c.get id = .ok sort →
      ∀ part ∈ sort.body.parts, rank part < rank id)
    (leads : c.LeadsTo id part) (found : c.get id = .ok sort)
    (straight : sort.variant ≠ .recursive) : rank part < rank id := by
  cases leads with
  | component there made inside => exact above there part (by rw [made]; exact inside)
  | base there made => exact above there part (by rw [made]; exact List.mem_cons_self)
  | weight there made => exact above there part (by rw [made]; simp [Body.parts])
  | «instance» there made =>
    rw [there] at found
    cases found
    exact absurd (by rw [SortRecord.variant, made]; rfl) straight
  | owner there made => exact above there part (by rw [made]; exact List.mem_cons_self)
  | argument linked =>
    obtain ⟨aspect, owner, position, tuple, category, own, arguments, there, made, owned, listed,
      linked⟩ := argumentOf_eq_ok_iff.mp linked
    calc rank part
      _ < rank owner := above owned part (by rw [listed]; exact List.mem_of_getElem? linked)
      _ < rank id := above there owner (by rw [made]; exact List.mem_cons_self)

/-- In a catalog at rest, displays have heights. -/
theorem Rested.exists_graded (rested : c.Rested) (suited : Suited categories c) :
    ∃ height, c.Graded height := by
  obtain ⟨rank, above⟩ := rested.ranked
  let shown (display : String) : Set Nat :=
    {n | ∃ id sort, c.get id = .ok sort ∧ sort.display = display ∧ rank id = n}
  refine ⟨fun display ↦ sInf (shown display),
    fun {id part sort record} leads found there straight ↦ ?_⟩
  -- the lowest sort of the display leads to a sort that shows what the other one leads to
  obtain ⟨lowest, same, found', display, least⟩ :=
    Nat.sInf_mem (s := shown sort.display) ⟨rank id, id, sort, found, rfl, rfl⟩
  obtain ⟨other, first, second, leads', here, here', equal⟩ :=
    exists_leadsTo_of_display rested suited found found' display.symm leads
  rw [there] at here
  cases here
  calc sInf (shown record.display)
    _ ≤ rank other := Nat.sInf_le ⟨other, second, here', equal.symm, rfl⟩
    _ < rank lowest := rank_lt_of_leadsTo above leads' found'
      (rested.variant_eq found found' display.symm ▸ straight)
    _ = sInf (shown sort.display) := least

namespace Graded

variable (graded : c.Graded height)

include graded

/-- What a straight sort reaches in one step or more is lower. -/
theorem lt_of_inside (rested : c.Rested) (straight : c.Straight id) (found : c.get id = .ok sort)
    (there : c.get part = .ok record) (inside : Relation.TransGen c.LeadsTo id part) :
    height record.display < height sort.display := by
  induction inside using Relation.TransGen.head_induction_on generalizing sort with
  | single leads => exact graded leads found there (straight .refl found)
  | head leads _ ih =>
    obtain ⟨between, here⟩ := rested.live_of_leadsTo leads
    calc height record.display
      _ < height between.display := ih (straight.of_reaches (.single leads)) here
      _ < height sort.display := graded leads found here (straight .refl found)

theorem le_of_reaches (rested : c.Rested) (straight : c.Straight id) (found : c.get id = .ok sort)
    (there : c.get part = .ok record) (reaches : c.Reaches id part) :
    height record.display ≤ height sort.display := by
  rcases Relation.reflTransGen_iff_eq_or_transGen.mp reaches with rfl | inside
  · rw [found] at there
    cases there
    exact Nat.le_refl _
  · exact (graded.lt_of_inside rested straight found there inside).le

/-- A pair inside of another is lower, both heights taken together. -/
theorem add_lt_of_inside (rested : c.Rested) (straight : c.Straight left)
    (straight' : c.Straight right) (foundLeft : c.get left = .ok x)
    (foundRight : c.get right = .ok y) (there : c.get part = .ok x') (there' : c.get other = .ok y')
    (inside : c.Inside left right part other) :
    height x'.display + height y'.display < height x.display + height y.display := by
  rcases inside with ⟨inside, reaches⟩ | ⟨reaches, inside⟩
  · exact Nat.add_lt_add_of_lt_of_le
      (graded.lt_of_inside rested straight foundLeft there inside)
      (graded.le_of_reaches rested straight' foundRight there' reaches)
  · exact Nat.add_lt_add_of_le_of_lt
      (graded.le_of_reaches rested straight foundLeft there reaches)
      (graded.lt_of_inside rested straight' foundRight there' inside)

end Graded

end CompositeSorts.Catalog
