import CompositeSorts.Counter

/-!
What sets two sorts apart, counted. A *tally* has nine counters, which add up over the parts of a
match. Its *score* is a fraction of the size of the sorts, in which structural differences count
twice; fractions are compared exactly, by cross-multiplication.

Main definitions: `Tally`, `Tally.reversed`, `Tally.score`, `Ratio`, `Ratio.compare`.
-/

set_option autoImplicit false
set_option relaxedAutoImplicit false

namespace CompositeSorts

/-- A fraction that is not negative, with a positive denominator. It is not reduced. -/
structure Ratio where
  numerator : Nat
  denominator : Nat
deriving DecidableEq, Repr

namespace Ratio

/-- The fraction with these terms; a denominator of zero is read as one. -/
def of (numerator denominator : Nat) : Ratio := ⟨numerator, max denominator 1⟩

/-- Zero. -/
def zero : Ratio := ⟨0, 1⟩

/-- Compares two fractions by their values. -/
def compare (a b : Ratio) : Ordering :=
  Ord.compare (a.numerator * b.denominator) (b.numerator * a.denominator)

/-- A fraction is written `numerator/denominator`. -/
def text (r : Ratio) : String := toString r.numerator ++ "/" ++ toString r.denominator

end Ratio

/-- The differences found in a match. `excess` counts components on the left without a
counterpart, `omits` those on the right; `augs` counts structure that the right side adds, `dims`
what the left side adds; `skipped` and `swapped` count links of a chain that were passed over or
changed places; the last three count demotions: sorts that differ in their names, sorts that are
the same by definition only, and arguments that differ. -/
structure Tally where
  excess : Counter := 0
  omits : Counter := 0
  skipped : Counter := 0
  swapped : Counter := 0
  augs : Counter := 0
  dims : Counter := 0
  byName : Counter := 0
  byDefinition : Counter := 0
  byArgument : Counter := 0
deriving DecidableEq, Repr

namespace Tally

/-- No differences. -/
def none : Tally := {}

/-- Adds two tallies, counter by counter. -/
def add (a b : Tally) : Tally where
  excess := a.excess + b.excess
  omits := a.omits + b.omits
  skipped := a.skipped + b.skipped
  swapped := a.swapped + b.swapped
  augs := a.augs + b.augs
  dims := a.dims + b.dims
  byName := a.byName + b.byName
  byDefinition := a.byDefinition + b.byDefinition
  byArgument := a.byArgument + b.byArgument

/-- The structural differences. -/
def structural (t : Tally) : Nat :=
  t.excess.value + t.omits.value + t.skipped.value + t.swapped.value + t.augs.value + t.dims.value

/-- The demotions. -/
def demotions (t : Tally) : Nat := t.byName.value + t.byDefinition.value + t.byArgument.value

/-- All differences; structural ones count twice. -/
def penalty (t : Tally) : Nat := 2 * t.structural + t.demotions

/-- The penalty as a fraction of twice the size of the sorts. -/
def score (t : Tally) (scale : Counter) : Ratio := .of t.penalty (2 * max scale.value 1)

/-- The tally seen from the other side. -/
def reversed (t : Tally) : Tally :=
  { t with excess := t.omits, omits := t.excess, augs := t.dims, dims := t.augs }

/-- The places of a tally, in their order, each as what it reads. -/
def places : List (Tally → Counter) :=
  [excess, omits, skipped, swapped, augs, dims, byName, byDefinition, byArgument]

/-- Whether one of the counters has carried. -/
def carried (t : Tally) : Bool := places.any fun place ↦ (place t).carried

/-- The words of the counters by themselves. -/
def plain (t : Tally) : Tally where
  excess := t.excess.plain
  omits := t.omits.plain
  skipped := t.skipped.plain
  swapped := t.swapped.plain
  augs := t.augs.plain
  dims := t.dims.plain
  byName := t.byName.plain
  byDefinition := t.byDefinition.plain
  byArgument := t.byArgument.plain

theorem place_none {place : Tally → Counter} (among : place ∈ places) : place none = 0 := by
  simp only [places, List.mem_cons, List.not_mem_nil, or_false] at among
  rcases among with rfl | rfl | rfl | rfl | rfl | rfl | rfl | rfl | rfl <;> rfl

/-- Tallies are added place by place. -/
theorem place_add {place : Tally → Counter} (among : place ∈ places) (a b : Tally) :
    place (a.add b) = place a + place b := by
  simp only [places, List.mem_cons, List.not_mem_nil, or_false] at among
  rcases among with rfl | rfl | rfl | rfl | rfl | rfl | rfl | rfl | rfl <;> rfl

theorem place_foldl {place : Tally → Counter} (among : place ∈ places) (start : Tally)
    (tallies : List Tally) :
    place (tallies.foldl add start) = (tallies.map place).foldl (· + ·) (place start) := by
  induction tallies generalizing start with
  | nil => rfl
  | cons tally tallies ih =>
    rw [List.foldl_cons, ih, place_add among, List.map_cons, List.foldl_cons]

theorem reversed_reversed (t : Tally) : t.reversed.reversed = t := rfl

theorem penalty_reversed (t : Tally) : t.reversed.penalty = t.penalty := by
  simp only [penalty, structural, demotions, reversed]
  omega

theorem reversed_add (a b : Tally) : (a.add b).reversed = a.reversed.add b.reversed := rfl

end Tally

end CompositeSorts
