import CompositeSorts.Proofs.Matching.RuleChains
import CompositeSorts.Proofs.Matching.Rendered
import CompositeSorts.Proofs.Registry.Repeating

/-!
The matches of a registry and the chains between them. Whatever is called, no match leads to one
that is not there or back to itself. Behind each match there is a chain of such as are equally good,
as long as the configuration allows at most, and a report shows all parts and all alternatives
(`chains_of_reachable`).
-/

set_option autoImplicit false
set_option relaxedAutoImplicit false

namespace CompositeSorts.Registry

open Catalog Matchings Matching

variable {r : Registry}

/-- The matches of every registry that calls lead to are knit. -/
theorem Reachable.knit {allowed : Registry → Call → Prop} (reached : Reachable allowed r) :
    Knit r.config r.matchings := by
  have lasting : Endures Knit := {
    empty := knit_empty
    clear := fun {config t} _ ↦ (knit_empty config).of_same rfl rfl rfl rfl
    forget := fun {_ t} gone knit ↦ (enters_forget t gone).knit knit fun _ inside ↦
      absurd inside List.not_mem_nil
    unlogged := fun knit ↦ knit.of_same rfl rfl rfl rfl
    relate := fun {_ config t} left right rooted knit ↦
      (knit_relate rooted config [] left right t knit).mono (fun _ _ made ↦ made.1.1)
        fun _ kept ↦ kept.1 }
  exact reached.endures lasting

/-- Whatever was called: the parts and ties of matches lead in no circle, and to matches that are
there. The alternatives of a match are the chain behind it. It is no longer than it may be, and
empty where alternatives are not kept; all of it is of one level, score and grade, and nothing in it
is incongruous. The report of a match holds the reports of all its parts and all its
alternatives. -/
theorem chains_of_reachable (reached : Reachable AnyCall r) :
    (∀ id, ¬ Relation.TransGen r.matchings.LeadsTo id id) ∧
    ∀ id node, r.matchings.get? id = some node →
      (∀ link ∈ node.links, ∃ other, r.matchings.get? link = some other) ∧
      ∃ ties, r.matchings.Chain id ties ∧ r.matchings.alternatives id = ties ∧
        ties.length ≤ r.config.maxAlternatives ∧
        (r.config.keepAlternatives = false → ties = []) ∧
        (ties ≠ [] → node.incongruous = false) ∧
        (∀ tie ∈ ties, ∃ other, r.matchings.get? tie = some other ∧
          other.level.rank = node.level.rank ∧ other.score = node.score ∧
            other.grade = node.grade ∧ other.incongruous = false) ∧
        ∃ parts behind, List.Forall₂ r.matchings.Shows node.parts parts ∧
          List.Forall₂ r.matchings.Shows ties behind ∧
          r.report id = some (reportNode r.catalog node (parts.map (Finding.report r.catalog))
            (behind.map (Finding.report r.catalog))) := by
  have knit := reached.knit
  refine ⟨knit.orderly.acyclic, fun id node found ↦ ⟨fun link ↦ knit.orderly.inside found, ?_⟩⟩
  obtain ⟨ties, chain⟩ := knit.orderly.exists_chain found
  have fits := knit.chains found chain
  obtain ⟨parts, shown⟩ := exists_forall₂ fun part inside ↦
    (knit.orderly.inside found (List.mem_append_left _ inside)).elim fun _ ↦
      knit.orderly.exists_shows
  obtain ⟨behind, tied⟩ := exists_forall₂ fun tie inside ↦
    (chain.exists_of_mem inside).elim fun _ ↦ knit.orderly.exists_shows
  refine ⟨ties, chain, chain.alternatives_eq knit.orderly, fits.short, fun none ↦ ?_,
    fits.congruous, fun tie inside ↦ ?_, parts, behind, shown, tied,
    knit.orderly.report_eq found chain shown tied⟩
  · by_contra some
    rw [fits.keeps some] at none
    cases none
  · obtain ⟨other, there⟩ := chain.exists_of_mem inside
    obtain ⟨standing, -⟩ := chain.standing_eq knit.orderly found inside there
    refine ⟨other, there, congrArg Standing.rank standing, ?_, congrArg Standing.grade standing, ?_⟩
    · have penalty := congrArg Standing.penalty standing
      have scale := congrArg Standing.scale standing
      unfold MatchNode.score Tally.score
      exact congrArg₂ (fun penalty scale ↦ Ratio.of penalty (2 * max scale 1)) penalty scale
    · rw [MatchNode.incongruous_congr standing]
      exact fits.congruous (List.ne_nil_of_mem inside)

/-- A sort matches two components of a disjunction equally well, and the match is a reversal. -/
theorem chains_of_reachable_sample :
    let r := (sample.perform (.defineAll "d: [Label] x + [Label] y; [Label] z")).perform
      (.matchSorts ⟨⟨0⟩, ⟨4, 0⟩⟩ ⟨⟨0⟩, ⟨3, 0⟩⟩)
    r.matchings.alternatives ⟨7⟩ = [⟨6⟩] ∧
      ¬ Relation.TransGen r.matchings.LeadsTo ⟨7⟩ ⟨7⟩ ∧ ∃ node, r.matchings.get? ⟨7⟩ = some node ∧
        ∃ ties, r.matchings.Chain ⟨7⟩ ties ∧ r.matchings.alternatives ⟨7⟩ = ties ∧
          ties.length ≤ r.config.maxAlternatives := by
  intro r
  have chained : r.matchings.alternatives ⟨7⟩ = [⟨6⟩] := by decide +kernel
  have there : (r.matchings.get? ⟨7⟩).isSome := by decide +kernel
  obtain ⟨node, found⟩ := Option.isSome_iff_exists.mp there
  have reached : Reachable AnyCall r := .step (.step (reachable_sample _) _ trivial) _ trivial
  obtain ⟨acyclic, nodes⟩ := chains_of_reachable reached
  obtain ⟨-, ties, chain, alternatives, short, -⟩ := nodes ⟨7⟩ node found
  exact ⟨chained, acyclic ⟨7⟩, node, found, ties, chain, alternatives, short⟩

end CompositeSorts.Registry
