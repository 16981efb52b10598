import CompositeSorts.Matching.Tally
import Mathlib.Algebra.Order.Field.Basic
import Mathlib.Algebra.Order.Ring.Rat
import Mathlib.Data.Nat.Cast.Order.Ring
import Mathlib.Tactic.Positivity
import Mathlib.Tactic.Ring

/-!
Scores in words. The counters of two tallies and the sizes they are measured by are words of 32
bits, and their scores are compared in words of 64 and 128 bits: the counters are added up in 64
bits, and the fractions are multiplied crosswise in 128. No sum and no product overflows on the way
(`compareInWords_eq`), and what is compared is the order of the fractions (`compare_score`).

Main definitions: `Words.add`, `Words.mul`, which notice overflow, and `Tally.compareInWords`.
-/

set_option autoImplicit false
set_option relaxedAutoImplicit false

namespace CompositeSorts

/-! ### Words -/

namespace Words

variable {width : Nat}

/-- The sum of two words, if it does not overflow. -/
def add (a b : BitVec width) : Option (BitVec width) :=
  if a.uaddOverflow b then none else some (a + b)

/-- The product of two words, if it does not overflow. -/
def mul (a b : BitVec width) : Option (BitVec width) :=
  if a.umulOverflow b then none else some (a * b)

/-- Words added up one by one, if no sum on the way overflows. -/
def sum (words : List (BitVec width)) : Option (BitVec width) := words.foldlM add 0

/-- What is computed does not overflow, and is the number. -/
def Gives (word : Option (BitVec width)) (n : Nat) : Prop := ∃ w, word = some w ∧ w.toNat = n

theorem gives_add {a b : BitVec width} (fits : a.toNat + b.toNat < 2 ^ width) :
    Gives (add a b) (a.toNat + b.toNat) := by
  refine ⟨a + b, ?_, BitVec.toNat_add_of_lt fits⟩
  simp only [add, BitVec.uaddOverflow, decide_eq_true_eq]
  rw [if_neg (Nat.not_le.2 fits)]

theorem gives_mul {a b : BitVec width} (fits : a.toNat * b.toNat < 2 ^ width) :
    Gives (mul a b) (a.toNat * b.toNat) := by
  refine ⟨a * b, ?_, BitVec.toNat_mul_of_lt fits⟩
  simp only [mul, BitVec.umulOverflow, decide_eq_true_eq]
  rw [if_neg (Nat.not_le.2 fits)]

theorem gives_double {a : BitVec 64} (fits : 2 * a.toNat < 2 ^ 64) :
    Gives (mul 2 a) (2 * a.toNat) := gives_mul (a := 2) fits

theorem toNat_ofNat {n : Nat} (fits : n < 2 ^ width) : (BitVec.ofNat width n).toNat = n := by
  rw [BitVec.toNat_ofNat, Nat.mod_eq_of_lt fits]

/-- Where all of a sum fits, so does every part of it. -/
theorem gives_sum (width : Nat) (numbers : List Nat) (fits : numbers.sum < 2 ^ width) :
    Gives (sum (numbers.map (BitVec.ofNat width))) numbers.sum := by
  suffices onwards : ∀ before : BitVec width, before.toNat + numbers.sum < 2 ^ width →
      Gives ((numbers.map (BitVec.ofNat width)).foldlM add before)
        (before.toNat + numbers.sum) by
    have zero : (0 : BitVec width).toNat = 0 := BitVec.toNat_ofNat ..
    have total := onwards 0 (by omega)
    rwa [zero, Nat.zero_add] at total
  clear fits
  induction numbers with
  | nil => exact fun before _ ↦ ⟨before, rfl, rfl⟩
  | cons number numbers ih =>
    intro before fits
    rw [List.sum_cons, ← Nat.add_assoc] at fits ⊢
    have exact : (BitVec.ofNat width number).toNat = number := toNat_ofNat (by omega)
    obtain ⟨next, run, value⟩ := gives_add (a := before) (b := BitVec.ofNat width number) (by omega)
    rw [List.map_cons, List.foldlM_cons, run, ← exact, ← value]
    exact ih next (by omega)

end Words

/-! ### Scores -/

namespace Tally

/-- What the counters of structural differences stand at. -/
def structuralCounters (t : Tally) : List Nat :=
  [t.excess, t.omits, t.skipped, t.swapped, t.augs, t.dims].map Counter.value

/-- What the counters of demotions stand at. -/
def demotionCounters (t : Tally) : List Nat :=
  [t.byName, t.byDefinition, t.byArgument].map Counter.value

/-- The penalty in 64 bits: the counters are widened and added up, and the sum of the structural
ones is doubled. -/
def penaltyInWords (t : Tally) : Option (BitVec 64) := do
  let structural ← Words.sum (t.structuralCounters.map (BitVec.ofNat 64))
  let demotions ← Words.sum (t.demotionCounters.map (BitVec.ofNat 64))
  Words.add (← Words.mul 2 structural) demotions

/-- The denominator of a score in 64 bits. -/
def denominatorInWords (scale : Counter) : Option (BitVec 64) := do
  let doubled ← Words.mul 2 (BitVec.ofNat 64 (max scale.value 1))
  return if doubled = 0 then 1 else doubled

/-- Compares two scores by their cross products in 128 bits. -/
def compareInWords (a : Tally) (scale : Counter) (b : Tally) (scale' : Counter) :
    Option Ordering := do
  let left ← Words.mul ((← a.penaltyInWords).setWidth 128)
    ((← denominatorInWords scale').setWidth 128)
  let right ← Words.mul ((← b.penaltyInWords).setWidth 128)
    ((← denominatorInWords scale).setWidth 128)
  return compare left.toNat right.toNat

theorem sum_structuralCounters (t : Tally) : t.structuralCounters.sum = t.structural := by
  simp only [structuralCounters, structural, List.map_cons, List.map_nil, List.sum_cons,
    List.sum_nil]
  omega

theorem sum_demotionCounters (t : Tally) : t.demotionCounters.sum = t.demotions := by
  simp only [demotionCounters, demotions, List.map_cons, List.map_nil, List.sum_cons, List.sum_nil]
  omega

/-- Six structural counters count twice and three others once: four bits more are enough. -/
theorem bounds (t : Tally) : t.structural < 2 ^ 35 ∧ t.demotions < 2 ^ 34 ∧ t.penalty < 2 ^ 36 := by
  have narrow (n : Counter) : n.value < 2 ^ 32 := n.value_lt
  have structural : t.structural < 6 * 2 ^ 32 := by
    have := narrow t.excess
    have := narrow t.omits
    have := narrow t.skipped
    have := narrow t.swapped
    have := narrow t.augs
    have := narrow t.dims
    unfold Tally.structural
    omega
  have demotions : t.demotions < 3 * 2 ^ 32 := by
    have := narrow t.byName
    have := narrow t.byDefinition
    have := narrow t.byArgument
    unfold Tally.demotions
    omega
  unfold penalty
  omega

theorem gives_penalty (t : Tally) : Words.Gives t.penaltyInWords t.penalty := by
  obtain ⟨few, fewer, all⟩ := t.bounds
  obtain ⟨structural, runStructural, valueStructural⟩ :=
    Words.gives_sum 64 t.structuralCounters (by rw [sum_structuralCounters]; omega)
  obtain ⟨demotions, runDemotions, valueDemotions⟩ :=
    Words.gives_sum 64 t.demotionCounters (by rw [sum_demotionCounters]; omega)
  rw [sum_structuralCounters] at valueStructural
  rw [sum_demotionCounters] at valueDemotions
  obtain ⟨doubled, runDoubled, valueDoubled⟩ := Words.gives_double (a := structural) (by omega)
  obtain ⟨penalty, runPenalty, valuePenalty⟩ :=
    Words.gives_add (a := doubled) (b := demotions) (by omega)
  refine ⟨penalty, ?_, by rw [Tally.penalty]; omega⟩
  simp only [penaltyInWords, runStructural, runDemotions, runDoubled, runPenalty,
    Option.bind_eq_bind, Option.bind_some]

theorem gives_denominator (scale : Counter) :
    Words.Gives (denominatorInWords scale) (2 * max scale.value 1) := by
  have narrow : scale.value < 2 ^ 32 := scale.value_lt
  have exact : (BitVec.ofNat 64 (max scale.value 1)).toNat = max scale.value 1 :=
    Words.toNat_ofNat (by omega)
  obtain ⟨doubled, run, value⟩ :=
    Words.gives_double (a := BitVec.ofNat 64 (max scale.value 1)) (by omega)
  rw [exact] at value
  have positive : doubled ≠ 0 := by
    rintro rfl
    have zero : (0 : BitVec 64).toNat = 0 := rfl
    omega
  refine ⟨doubled, ?_, value⟩
  simp only [denominatorInWords, run, Option.bind_eq_bind, Option.bind_some, if_neg positive,
    Option.pure_def]

/-- Widened words are multiplied without overflow. -/
theorem gives_cross {p q : BitVec 64} :
    Words.Gives (Words.mul (p.setWidth 128) (q.setWidth 128)) (p.toNat * q.toNat) := by
  have left : (p.setWidth 128).toNat = p.toNat := BitVec.toNat_setWidth_of_le (by decide)
  have right : (q.setWidth 128).toNat = q.toNat := BitVec.toNat_setWidth_of_le (by decide)
  rw [← left, ← right]
  refine Words.gives_mul ?_
  rw [left, right]
  calc p.toNat * q.toNat < 2 ^ 64 * 2 ^ 64 := Nat.mul_lt_mul'' p.isLt q.isLt
    _ = 2 ^ 128 := by decide

/-- The comparison in words does not overflow, and is that of the scores. -/
theorem compareInWords_eq (a b : Tally) (scale scale' : Counter) :
    a.compareInWords scale b scale' = some ((a.score scale).compare (b.score scale')) := by
  obtain ⟨p, runP, valueP⟩ := a.gives_penalty
  obtain ⟨q, runQ, valueQ⟩ := b.gives_penalty
  obtain ⟨d, runD, valueD⟩ := gives_denominator scale
  obtain ⟨d', runD', valueD'⟩ := gives_denominator scale'
  obtain ⟨cross, runCross, valueCross⟩ := gives_cross (p := p) (q := d')
  obtain ⟨cross', runCross', valueCross'⟩ := gives_cross (p := q) (q := d)
  have denominator (n : Nat) : max (2 * max n 1) 1 = 2 * max n 1 := by omega
  simp only [compareInWords, runP, runQ, runD, runD', runCross, runCross', Option.bind_eq_bind,
    Option.bind_some, Option.pure_def]
  rw [valueCross, valueCross', valueP, valueQ, valueD, valueD']
  simp only [score, Ratio.of, Ratio.compare, denominator]

end Tally

/-! ### Fractions -/

namespace Ratio

variable {a b : Ratio}

/-- The number that a fraction stands for. -/
def value (r : Ratio) : ℚ := r.numerator / r.denominator

/-- Cross-multiplication compares the numbers that two fractions stand for. -/
theorem compare_eq (left : 0 < a.denominator) (right : 0 < b.denominator) :
    a.compare b = Ord.compare a.value b.value := by
  have left : (0 : ℚ) < a.denominator := Nat.cast_pos.2 left
  have right : (0 : ℚ) < b.denominator := Nat.cast_pos.2 right
  unfold compare value
  rcases lt_trichotomy (a.numerator * b.denominator) (b.numerator * a.denominator) with
    less | same | more
  · rw [Nat.compare_eq_lt.2 less, eq_comm, compare_lt_iff_lt, div_lt_div_iff₀ left right]
    exact_mod_cast less
  · rw [Nat.compare_eq_eq.2 same, eq_comm, compare_eq_iff_eq, div_eq_div_iff left.ne' right.ne']
    exact_mod_cast same
  · rw [Nat.compare_eq_gt.2 more, eq_comm, compare_gt_iff_gt,
      div_lt_div_iff₀ right left]
    exact_mod_cast more

end Ratio

/-- The order of scores is that of the penalties as fractions of twice the sizes. -/
theorem Tally.compare_score (a b : Tally) (scale scale' : Counter) :
    (a.score scale).compare (b.score scale') =
      compare (((2 * a.structural + a.demotions : Nat) : ℚ) / ((2 * max scale.value 1 : Nat) : ℚ))
        (((2 * b.structural + b.demotions : Nat) : ℚ) /
          ((2 * max scale'.value 1 : Nat) : ℚ)) := by
  have denominator (n : Nat) : max (2 * max n 1) 1 = 2 * max n 1 := by omega
  have value (t : Tally) (n : Counter) : (t.score n).value =
      ((2 * t.structural + t.demotions : Nat) : ℚ) / ((2 * max n.value 1 : Nat) : ℚ) := by
    simp only [score, Ratio.of, Ratio.value, penalty, denominator]
  rw [← value, ← value]
  refine Ratio.compare_eq ?_ ?_ <;> exact Nat.lt_of_lt_of_le Nat.one_pos (Nat.le_max_right _ _)

end CompositeSorts
