import CompositeSorts.Proofs.Matching.Steps
import Mathlib.Tactic.Common

/-!
The preference between matches. It is a total preorder, for the scores that it compares have
positive denominators. It goes by the *standing* of matches. Those of the same scale that it does
not tell apart have the same standing, and so have their reversals.
-/

set_option autoImplicit false
set_option relaxedAutoImplicit false

namespace CompositeSorts

variable {a a' b b' : MatchNode}

theorem Level.eq_incongruous_iff {level : Level} : level = .incongruous ↔ level.rank = 5 := by
  cases level <;> decide

theorem Grade.rank_injective {grade grade' : Grade} (same : grade.rank = grade'.rank) :
    grade = grade' := by
  cases grade <;> cases grade' <;> first | rfl | cases same

namespace MatchNode

/-- The order of the scores. -/
def compareScores (a b : MatchNode) : Ordering := a.score.compare b.score

theorem denominator_score_pos (node : MatchNode) : 0 < node.score.denominator := by
  unfold score Tally.score Ratio.of
  exact Nat.lt_of_lt_of_le Nat.one_pos (Nat.le_max_right _ _)

theorem isLE_compareScores_iff : (compareScores a b).isLE ↔
    a.score.numerator * b.score.denominator ≤ b.score.numerator * a.score.denominator := by
  unfold compareScores Ratio.compare
  exact Nat.isLE_compare

instance : Std.TransCmp compareScores where
  eq_swap {a b} := Nat.compare_swap _ _ |>.symm
  isLE_trans {a b c} before after := by
    rw [isLE_compareScores_iff] at before after ⊢
    refine Nat.le_of_mul_le_mul_right ?_ b.denominator_score_pos
    calc a.score.numerator * c.score.denominator * b.score.denominator
        = a.score.numerator * b.score.denominator * c.score.denominator := Nat.mul_right_comm ..
      _ ≤ b.score.numerator * a.score.denominator * c.score.denominator :=
        Nat.mul_le_mul_right _ before
      _ = b.score.numerator * c.score.denominator * a.score.denominator := Nat.mul_right_comm ..
      _ ≤ c.score.numerator * b.score.denominator * a.score.denominator :=
        Nat.mul_le_mul_right _ after
      _ = c.score.numerator * a.score.denominator * b.score.denominator := Nat.mul_right_comm ..

instance : Std.TransCmp prefer :=
  inferInstanceAs (Std.TransCmp (compareLex (compareOn fun node ↦ node.incongruous.toNat)
    (compareLex (compareOn fun node ↦ node.level.rank)
      (compareLex compareScores (compareOn fun node ↦ node.grade.rank)))))

end MatchNode

theorem MatchNode.prefer_swap (a b : MatchNode) : a.prefer b = (b.prefer a).swap :=
  Std.OrientedCmp.eq_swap

/-- What the preference goes by. -/
structure Standing where
  rank : Nat
  penalty : Nat
  scale : Nat
  grade : Grade

namespace MatchNode

/-- The standing of a match. -/
def standing (node : MatchNode) : Standing :=
  ⟨node.level.rank, node.tally.penalty, node.scale.value, node.grade⟩

theorem incongruous_eq (node : MatchNode) : node.incongruous = decide (node.level.rank = 5) := by
  unfold incongruous
  rw [decide_eq_decide]
  exact Level.eq_incongruous_iff

theorem incongruous_congr (same : a.standing = b.standing) : a.incongruous = b.incongruous := by
  rw [incongruous_eq, incongruous_eq, (Standing.mk.inj same).1]

/-- The preference goes by the standings. -/
theorem prefer_congr (left : a.standing = a'.standing) (right : b.standing = b'.standing) :
    a.prefer b = a'.prefer b' := by
  unfold prefer score Tally.score
  rw [incongruous_congr left, incongruous_congr right]
  obtain ⟨rank, penalty, scale, grade⟩ := Standing.mk.inj left
  obtain ⟨rank', penalty', scale', grade'⟩ := Standing.mk.inj right
  rw [rank, penalty, scale, grade, rank', penalty', scale', grade']

/-- Matches of the same scale that are equally good have the same standing. -/
theorem standing_eq_of_prefer (tied : a.prefer b = .eq) (scale : a.scale = b.scale) :
    a.standing = b.standing := by
  unfold prefer at tied
  simp only [Ordering.then_eq_eq, Nat.compare_eq_eq] at tied
  obtain ⟨-, rank, score, grade⟩ := tied
  unfold MatchNode.score Tally.score Ratio.of Ratio.compare at score
  rw [Nat.compare_eq_eq, scale] at score
  have penalty : a.tally.penalty = b.tally.penalty := Nat.eq_of_mul_eq_mul_right
    (Nat.lt_of_lt_of_le Nat.one_pos (Nat.le_max_right _ _)) score
  unfold standing
  rw [rank, penalty, scale, Grade.rank_injective grade]

theorem standing_mirrored (same : a.standing = b.standing) (left right left' right' : SortId)
    (parts parts' : List MatchId) (tie tie' : Option MatchId) :
    (a.mirrored left right parts tie).standing =
      (b.mirrored left' right' parts' tie').standing := by
  obtain ⟨rank, penalty, scale, grade⟩ := Standing.mk.inj same
  unfold standing mirrored reversed
  dsimp only
  rw [Tally.penalty_reversed, Tally.penalty_reversed, rank, penalty, scale, grade]

end MatchNode

end CompositeSorts
