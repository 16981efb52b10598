import CompositeSorts.Proofs.Matching.Unfolding
import CompositeSorts.Proofs.Registry.Chains

/-!
Reflections. Whatever was called, every match of a registry can be reversed, and what the reversal
unfolds to is the mirror image of what the match unfolds to: parts and ties, to any depth and in the
same order, with the sides exchanged and grades and tallies seen from the other side. Nothing that
was there changes, and the reversal of the reversal unfolds to what the match does
(`reflects_of_reachable`).
-/

set_option autoImplicit false
set_option relaxedAutoImplicit false

namespace CompositeSorts.Registry

open Catalog Matchings Matching

variable {r : Registry} {t : Matchings} {id : MatchId} {node : MatchNode} {tree : Unfolding}

/-- A match of the table is reversed for the given sides: `reversal` is new in `later`, where all
matches of the table are what they were, and it unfolds to `image`. -/
structure Reverses (t : Matchings) (id : MatchId) (left right : SortId) (image : Unfolding)
    (reversal : MatchId) (later : Matchings) : Prop where
  run : reverse id left right t = .ok reversal later
  new : t.get? reversal = none
  kept : ∀ other before, t.get? other = some before → later.get? other = some before
  unfolds : later.Unfolds reversal image

/-- In an orderly table a match is reversed to its mirror image, for any sides, and the table is
orderly afterwards. -/
theorem exists_reverses (orderly : t.Orderly) (plain : t.Plain) (unfolds : t.Unfolds id tree)
    (found : t.get? id = some node) (left right : SortId) :
    ∃ reversal later, Reverses t id left right (tree.mirror.labelled left right) reversal later ∧
      later.Orderly ∧ later.Plain ∧ ∃ copy, later.get? reversal = some copy := by
  have ended := ends_reverse_unfolded orderly plain unfolds found left right
  cases run : reverse id left right t with
  | ok reversal later =>
    obtain ⟨new, kept, orderly', plain', there, image⟩ := Ends.of_ok run ended
    exact ⟨reversal, later, ⟨run, new, kept, image⟩, orderly', plain', there⟩
  | error reason later => exact (Ends.of_error run ended).elim

/-- Every match unfolds, and its reversal for any sides is new, changes no match that was there, and
unfolds to the mirror image of the match under these sides; for the exchanged sides of the match
this is the mirror image itself. The reversal of the reversal, for the sides of the match, unfolds
to what the match does. -/
theorem reflects_of_reachable (reached : Reachable AnyCall r)
    (found : r.matchings.get? id = some node) :
    ∃ tree, r.matchings.Unfolds id tree ∧
      tree.mirror.labelled node.right node.left = tree.mirror ∧
      ∀ left right, ∃ reversal later,
        Reverses r.matchings id left right (tree.mirror.labelled left right) reversal later ∧
          ∃ again last, Reverses later reversal node.left node.right tree again last := by
  have knit := reached.knit
  obtain ⟨tree, unfolds⟩ := knit.orderly.exists_unfolds found
  have own := unfolds.labelled_self found
  refine ⟨tree, unfolds, ?_, fun left right ↦ ?_⟩
  · rw [← Unfolding.mirror_labelled, own]
  obtain ⟨reversal, later, reverses, orderly, plain, copy, there⟩ :=
    exists_reverses knit.orderly (fun _ ↦ knit.blank) unfolds found left right
  obtain ⟨again, last, reverses', -⟩ :=
    exists_reverses orderly plain reverses.unfolds there node.left node.right
  refine ⟨reversal, later, reverses, again, last, ?_⟩
  rwa [Unfolding.mirror_labelled, Unfolding.mirror_mirror, Unfolding.labelled_labelled,
    own] at reverses'

/-- A match of a sort with a disjunction, which is a reversal itself and tied to another one. -/
theorem reflects_of_reachable_sample :
    let r := (sample.perform (.defineAll "d: [Label] x + [Label] y; [Label] z")).perform
      (.matchSorts ⟨⟨0⟩, ⟨4, 0⟩⟩ ⟨⟨0⟩, ⟨3, 0⟩⟩)
    ∃ node tree, r.matchings.get? ⟨7⟩ = some node ∧ node.tiedWith = some ⟨6⟩ ∧
      node.grade = .partOf ∧ r.matchings.Unfolds ⟨7⟩ tree ∧
      ∃ reversal later, Reverses r.matchings ⟨7⟩ node.right node.left tree.mirror reversal later ∧
        ∃ again last, Reverses later reversal node.left node.right tree again last := by
  intro r
  obtain ⟨node, found, tied, grade⟩ : ∃ node, r.matchings.get? ⟨7⟩ = some node ∧
      node.tiedWith = some ⟨6⟩ ∧ node.grade = .partOf := by
    have told : ((r.matchings.get? ⟨7⟩).map fun node ↦ (node.tiedWith, node.grade)) =
        some (some ⟨6⟩, .partOf) := by decide +kernel
    obtain ⟨node, found, same⟩ := Option.map_eq_some_iff.mp told
    exact ⟨node, found, congrArg Prod.fst same, congrArg Prod.snd same⟩
  have reached : Reachable AnyCall r := .step (.step (reachable_sample _) _ trivial) _ trivial
  obtain ⟨tree, unfolds, own, reverses⟩ := reflects_of_reachable reached found
  have here := reverses node.right node.left
  rw [own] at here
  exact ⟨node, tree, found, tied, grade, unfolds, here⟩

end CompositeSorts.Registry
