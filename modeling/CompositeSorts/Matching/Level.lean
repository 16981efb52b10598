/-!
How close two sorts are. A *level* says how well they correspond, from identical to incongruous; a
*grade* says which of them holds something that the other lacks.

Main definitions: `Level`, with its `rank`, `worst`, `atLeast` and `lifted`; `Grade`, with
`combine` and `reverse`. Main statements: `Level.worst` and `Grade.combine` are commutative and
associative, `Grade.reverse` is an involution that commutes with `combine`.
-/

set_option autoImplicit false
set_option relaxedAutoImplicit false

namespace CompositeSorts

/-- How well two sorts correspond. -/
inductive Level where
  | identical
  | equivalent
  | stronglySimilar
  | weaklySimilar
  | convertible
  | incomplete
  | incongruous
deriving DecidableEq, Repr

namespace Level

/-- The place of a level in the order; lower is closer. A sort is as close to an equivalent one as
to itself. -/
def rank : Level → Nat
  | identical => 0
  | equivalent => 0
  | stronglySimilar => 1
  | weaklySimilar => 2
  | convertible => 3
  | incomplete => 4
  | incongruous => 5

/-- The worse of two levels. Identical and equivalent together are equivalent. -/
def worst (a b : Level) : Level :=
  if a.rank < b.rank then b
  else if b.rank < a.rank then a
  else if a = b then a
  else equivalent

/-- The level, but no better than `floor`. -/
def atLeast (level floor : Level) : Level := if level.rank < floor.rank then floor else level

/-- The level of different sorts that correspond like this: never identical. -/
def lifted : Level → Level
  | identical => equivalent
  | level => level

/-- The word for a level. -/
def text : Level → String
  | identical => "identical"
  | equivalent => "equivalent"
  | stronglySimilar => "strongly similar"
  | weaklySimilar => "weakly similar"
  | convertible => "convertible"
  | incomplete => "incomplete"
  | incongruous => "incongruous"

/-- The name of a level in data. -/
def tag : Level → String
  | identical => "Identical"
  | equivalent => "Equivalent"
  | stronglySimilar => "StronglySimilar"
  | weaklySimilar => "WeaklySimilar"
  | convertible => "Convertible"
  | incomplete => "Incomplete"
  | incongruous => "Incongruous"

/-- All levels. -/
def all : List Level :=
  [identical, equivalent, stronglySimilar, weaklySimilar, convertible, incomplete, incongruous]

theorem mem_all (level : Level) : level ∈ all := by cases level <;> decide

theorem rank_worst (a b : Level) : (a.worst b).rank = max a.rank b.rank := by
  cases a <;> cases b <;> rfl

theorem worst_comm (a b : Level) : a.worst b = b.worst a := by
  cases a <;> cases b <;> rfl

theorem worst_assoc (a b c : Level) : (a.worst b).worst c = a.worst (b.worst c) := by
  cases a <;> cases b <;> cases c <;> rfl

theorem lifted_ne_identical (level : Level) : level.lifted ≠ identical := by
  cases level <;> simp [lifted]

end Level

/-- Which of two sorts holds something that the other lacks: neither, the right one, the left one,
or both. -/
inductive Grade where
  | concordant
  | partOf
  | subsumptive
  | mixed
deriving DecidableEq, Repr

namespace Grade

/-- The place of a grade in the order; lower is preferred. -/
def rank : Grade → Nat
  | concordant => 0
  | partOf => 1
  | subsumptive => 2
  | mixed => 3

/-- The grade of a match with parts of these two grades. -/
def combine : Grade → Grade → Grade
  | concordant, b => b
  | a, concordant => a
  | partOf, partOf => partOf
  | subsumptive, subsumptive => subsumptive
  | _, _ => mixed

/-- The grade seen from the other side. -/
def reverse : Grade → Grade
  | partOf => subsumptive
  | subsumptive => partOf
  | grade => grade

/-- The word for a grade. -/
def text : Grade → String
  | concordant => "concordant"
  | partOf => "part of"
  | subsumptive => "subsumptive"
  | mixed => "partial"

/-- The name of a grade in data. -/
def tag : Grade → String
  | concordant => "Concordant"
  | partOf => "PartOf"
  | subsumptive => "Subsumptive"
  | mixed => "Partial"

/-- All grades. -/
def all : List Grade := [concordant, partOf, subsumptive, mixed]

theorem mem_all (grade : Grade) : grade ∈ all := by cases grade <;> decide

theorem combine_comm (a b : Grade) : a.combine b = b.combine a := by
  cases a <;> cases b <;> rfl

theorem combine_assoc (a b c : Grade) : (a.combine b).combine c = a.combine (b.combine c) := by
  cases a <;> cases b <;> cases c <;> rfl

theorem reverse_reverse (grade : Grade) : grade.reverse.reverse = grade := by
  cases grade <;> rfl

theorem reverse_combine (a b : Grade) : (a.combine b).reverse = a.reverse.combine b.reverse := by
  cases a <;> cases b <;> rfl

end Grade

end CompositeSorts
