import CompositeSorts.Proofs.Matching.Deciding
import CompositeSorts.Proofs.Registry.Order
import CompositeSorts.Proofs.Registry.Sessions

/-!
The order of components. The written order of a disjunction is meant not to matter: when two texts
define the same sorts, but for the order in which sums are written, corresponding sorts should match
in the same way. This holds for decided sorts (`sameAnswer_of_arrangement`), where it makes no
difference which of equally good components are matched.

It does not hold otherwise (`exists_answer_of_other_order`). Of components that are tied for the
best, the first one is taken, and they can be tied although different counters make up their
penalties. Sorts that are decided but for the additions that have carried match in the same way but
for these (`samePlain_of_arrangement`).
-/

set_option autoImplicit false
set_option relaxedAutoImplicit false

namespace CompositeSorts

open Catalog Matchings

variable {r r' r₁ : Registry} {alike : SortId → SortId → Prop} {same : Tally → Tally → Prop}
  {left right left' right' : SortId} {id : MatchId}

namespace Registry

/-- The calls by which texts are defined, as long as no evaluation is abandoned. -/
def Defined (r : Registry) (call : Call) : Prop := Defining r call ∧ r.ByText call

theorem Reachable.another (built : Reachable Defined r) {text : String}
    (finished : (r.defineAll text).1 ≠ .error .abandoned) :
    Reachable Defined (r.perform (.defineAll text)) := .step built _ ⟨trivial, finished⟩

/-- Disjunctions that texts define list each component once. -/
theorem Reachable.unrepeated (built : Reachable Defined r) : r.catalog.Unrepeated := by
  intro id sort components found made
  have rested := (built.mono fun _ _ ↦ And.right).rested
  have composed := (rested.fits found).composed
  rw [made] at composed
  exact composed.2.of_map _

theorem recalls_of_defined (built : Reachable Defined r) : r.Recalls .empty := by
  unfold Recalls
  rw [(built.mono fun _ _ ↦ And.left).matchings_of_defining]
  exact renders_empty _

section

variable (built : Reachable Defined r) (built' : Reachable Defined r')
  (arranged : r.catalog.Arrangement r'.catalog alike) (lefts : alike left left')
  (rights : alike right right') (isLeft : r.catalog.Distinct left)
  (isRight : r.catalog.Distinct right) (isLeft' : r'.catalog.Distinct left')
  (isRight' : r'.catalog.Distinct right')
  (first : r.matchSorts left right = (.ok id, r₁)) (unbroken : r₁.matchings.sentinels = ∅)

include built built' arranged lefts rights isLeft isRight isLeft' isRight' first unbroken

/-- Decided sorts of two registries match as the corresponding sorts do, as far as tallies of this
kind are the same. -/
theorem exists_agreeing_answer (equates : Tally.Congruence same)
    (decided : r.catalog.Decided same fun id ↦ ∃ id', alike id id') :
    ∃ id' r₂ node node', r'.matchSorts left' right' = (.ok id', r₂) ∧
      r₁.matchings.get? id = some node ∧ r₂.matchings.get? id' = some node' ∧
      node'.level = node.level ∧ node'.standing = node.standing ∧ same node.tally node'.tally := by
  obtain ⟨finding, later, ⟨depth, worked⟩, recalls, shows, -⟩ :=
    exists_unaided built.proper (recalls_of_defined built) isLeft isRight first unbroken
  obtain ⟨finding', worked', agrees⟩ := arranged.unaided equates built.proper.steady.toRooted
    built'.proper.steady.toRooted built.weighed built'.weighed built.unrepeated
    built'.unrepeated decided
    lefts rights worked
  obtain ⟨id', r₂, later', answer, recalls', shows', -⟩ :=
    matchSorts_of_unaided built'.proper (recalls_of_defined built') (Memory.keeps_empty _ _) isLeft'
      isRight' ⟨depth, worked'⟩
  obtain ⟨node, found, alone, -⟩ := shows_iff.mp shows
  obtain ⟨node', found', alone', -⟩ := shows_iff.mp shows'
  have level := agrees.level
  have standing := agrees.standing
  have tally := agrees.tally
  rw [← alone, ← alone'] at level standing tally
  exact ⟨id', r₂, node, node', answer, found, found', level.symm, standing.symm, tally⟩

/-- Decided sorts of two registries that texts have built match as the corresponding sorts do,
whatever the order of components is. -/
theorem sameAnswer_of_arrangement (decided : r.catalog.Decided Eq fun id ↦ ∃ id', alike id id') :
    ∃ id' r₂ node node', r'.matchSorts left' right' = (.ok id', r₂) ∧
      r₁.matchings.get? id = some node ∧ r₂.matchings.get? id' = some node' ∧
      node'.level = node.level ∧ node'.grade = node.grade ∧ node'.tally = node.tally := by
  obtain ⟨id', r₂, node, node', answer, found, found', level, standing, tally⟩ :=
    exists_agreeing_answer built built' arranged lefts rights isLeft isRight isLeft' isRight' first
      unbroken Tally.congruence_eq decided
  exact ⟨id', r₂, node, node', answer, found, found', level, (Standing.mk.inj standing).2.2.2,
    tally.symm⟩

/-- So it is when only what the counters stand at is looked at, and not whether they have
carried. -/
theorem samePlain_of_arrangement (decided : r.catalog.Decided (fun a b ↦ a.plain = b.plain)
      fun id ↦ ∃ id', alike id id') :
    ∃ id' r₂ node node', r'.matchSorts left' right' = (.ok id', r₂) ∧
      r₁.matchings.get? id = some node ∧ r₂.matchings.get? id' = some node' ∧
      node'.level = node.level ∧ node'.grade = node.grade ∧
      node'.tally.plain = node.tally.plain := by
  obtain ⟨id', r₂, node, node', answer, found, found', level, standing, tally⟩ :=
    exists_agreeing_answer built built' arranged lefts rights isLeft isRight isLeft' isRight' first
      unbroken Tally.congruence_plain decided
  exact ⟨id', r₂, node, node', answer, found, found', level, (Standing.mk.inj standing).2.2.2,
    tally.symm⟩

end

/-- Two sums, written in both orders. A component of the one is matched with the other one, both
components of which are as close to it; it does not matter which of them is taken. -/
theorem sameAnswer_of_arrangement_sample :
    let r := sample.perform (.defineAll "d: [Label] x + [Label] y; e: [Label] z + [Flag]")
    let r' := sample.perform (.defineAll "d: [Label] y + [Label] x; e: [Flag] + [Label] z")
    (r.matchSorts ⟨⟨0⟩, ⟨3, 0⟩⟩ ⟨⟨0⟩, ⟨4, 0⟩⟩).1 = .ok ⟨1⟩ ∧
      ∃ id' r₂ node node', r'.matchSorts ⟨⟨0⟩, ⟨3, 0⟩⟩ ⟨⟨0⟩, ⟨5, 0⟩⟩ = (.ok id', r₂) ∧
        (r.matchSorts ⟨⟨0⟩, ⟨3, 0⟩⟩ ⟨⟨0⟩, ⟨4, 0⟩⟩).2.matchings.get? ⟨1⟩ = some node ∧
        r₂.matchings.get? id' = some node' ∧
        node'.level = node.level ∧ node'.grade = node.grade ∧ node'.tally = node.tally := by
  intro r r'
  let ids : List SortId := [0, 1, 3, 4, 5, 7].map fun slot ↦ ⟨⟨0⟩, ⟨slot, 0⟩⟩
  let rename (id : SortId) : SortId := Equiv.swap ⟨⟨0⟩, ⟨0, 0⟩⟩ ⟨⟨0⟩, ⟨1, 0⟩⟩
    (Equiv.swap ⟨⟨0⟩, ⟨4, 0⟩⟩ ⟨⟨0⟩, ⟨5, 0⟩⟩ id)
  have built : Reachable Defined r := (reachable_sample _).another (by decide +kernel)
  have built' : Reachable Defined r' := (reachable_sample _).another (by decide +kernel)
  have arranged : r.catalog.Arrangement r'.catalog fun id id' ↦ id ∈ ids ∧ rename id = id' :=
    arrangement_of_rearranges (by decide +kernel) (by decide +kernel)
  have decided : r.catalog.Decided Eq fun id ↦ ∃ id', id ∈ ids ∧ rename id = id' :=
    decided_of_settles 1 built.proper.steady.toRooted (fun _ ⟨_, inside, _⟩ ↦ inside)
      (by decide +kernel)
  have apart : (r.catalog.sorts.map SortRecord.display).Nodup := by decide +kernel
  have apart' : (r'.catalog.sorts.map SortRecord.display).Nodup := by decide +kernel
  have distinct := distinct_of_nodup built.proper.steady apart
  have distinct' := distinct_of_nodup built'.proper.steady apart'
  have first : (r.matchSorts ⟨⟨0⟩, ⟨3, 0⟩⟩ ⟨⟨0⟩, ⟨4, 0⟩⟩).1 = .ok ⟨1⟩ := by decide +kernel
  have unbroken : (r.matchSorts ⟨⟨0⟩, ⟨3, 0⟩⟩ ⟨⟨0⟩, ⟨4, 0⟩⟩).2.matchings.sentinels.isEmpty = true := by
    decide +kernel
  exact ⟨first, sameAnswer_of_arrangement built built' arranged (by decide +kernel) (by decide +kernel)
    (distinct _) (distinct _) (distinct' _) (distinct' _) (Prod.ext first rfl)
    (Std.ExtTreeMap.isEmpty_iff.mp unbroken) decided⟩

/-! ### Sums in another order -/

end Registry

mutual

/-- The phrases are the same, but for their positions and the order of the operands of some sums.
Both are read to the end. -/
def Phrase.reorders : Phrase → Phrase → Bool
  | .reference _ name, .reference _ name' => name = name'
  | .primitive _ tag argument, .primitive _ tag' argument' => tag = tag' && argument = argument'
  | .linked _ tag arguments, .linked _ tag' arguments' =>
    tag = tag' && reordersAll arguments arguments'
  | .weighted _ base weight, .weighted _ base' weight' =>
    base.reorders base' && weight.reorders weight'
  | .sum _ left right, .sum _ left' right' =>
    left.reorders left' && right.reorders right' || left.reorders right' && right.reorders left'
  | .definition _ name body, .definition _ name' body' => name = name' && body.reorders body'
  | .aspects _ tag names arguments, .aspects _ tag' names' arguments' =>
    tag = tag' && names = names' && reordersAll arguments arguments'
  | _, _ => false

/-- The same for phrases one after the other. -/
def Phrase.reordersAll : List Phrase → List Phrase → Bool
  | [], [] => true
  | phrase :: phrases, phrase' :: phrases' =>
    phrase.reorders phrase' && reordersAll phrases phrases'
  | _, _ => false

end

namespace Registry

/-- The texts are the same definitions, but for the order of the operands of some sums. -/
def reorders (r : Registry) (text text' : String) : Bool :=
  match TokenStream.ofText text, TokenStream.ofText text' with
  | .ok stream, .ok stream' =>
    Phrase.reordersAll (Grammar.program r.categories stream) (Grammar.program r.categories stream')
  | _, _ => false

/-- A sum of two attributes, of which the first one has the sort that it is matched with for its
base. -/
def exactFirst : String := "a: [Label] p; b: [Label] q; l: b ^ b + a ^ b; r: b"

/-- The same sum, where that attribute is the second one. -/
def exactLast : String := "a: [Label] p; b: [Label] q; l: a ^ b + b ^ b; r: b"

/-- Both attributes are equally far from the sort, but the base of the one is the same by
definition, and that of the other one is convertible by its argument. The order of the sum decides
what is counted. -/
theorem exists_answer_of_other_order :
    ¬ ∀ (r r₁ r₂ : Registry) (text text' leftName rightName : String)
      (left right left' right' : SortId) (id id' : MatchId) (node node' : MatchNode),
      Reachable Defining r → r.reorders text text' →
      (r.defineAll text).2.catalog.sortOf leftName = some left →
      (r.defineAll text).2.catalog.sortOf rightName = some right →
      (r.defineAll text').2.catalog.sortOf leftName = some left' →
      (r.defineAll text').2.catalog.sortOf rightName = some right' →
      (r.defineAll text).2.matchSorts left right = (.ok id, r₁) →
      (r.defineAll text').2.matchSorts left' right' = (.ok id', r₂) →
      r₁.matchings.get? id = some node → r₂.matchings.get? id' = some node' →
      node'.level = node.level ∧ node'.grade = node.grade ∧ node'.tally = node.tally := by
  intro orderless
  have first : ((sample.defineAll exactFirst).2.matchSorts ⟨⟨0⟩, ⟨7, 0⟩⟩ ⟨⟨0⟩, ⟨8, 0⟩⟩).1 = .ok ⟨3⟩ := by
    decide +kernel
  have last : ((sample.defineAll exactLast).2.matchSorts ⟨⟨0⟩, ⟨7, 0⟩⟩ ⟨⟨0⟩, ⟨8, 0⟩⟩).1 = .ok ⟨4⟩ := by
    decide +kernel
  have counted : (((sample.defineAll exactFirst).2.matchSorts ⟨⟨0⟩, ⟨7, 0⟩⟩
      ⟨⟨0⟩, ⟨8, 0⟩⟩).2.matchings.get? ⟨3⟩).map (·.tally.byDefinition) = some 1 := by decide +kernel
  have counted' : (((sample.defineAll exactLast).2.matchSorts ⟨⟨0⟩, ⟨7, 0⟩⟩
      ⟨⟨0⟩, ⟨8, 0⟩⟩).2.matchings.get? ⟨4⟩).map (·.tally.byDefinition) = some 0 := by decide +kernel
  obtain ⟨node, found, count⟩ := Option.map_eq_some_iff.mp counted
  obtain ⟨node', found', count'⟩ := Option.map_eq_some_iff.mp counted'
  obtain ⟨-, -, tally⟩ := orderless sample _ _ exactFirst exactLast "l" "r" _ _ _ _ ⟨3⟩ ⟨4⟩ node
    node' (reachable_sample _) (by decide +kernel) (by decide +kernel) (by decide +kernel)
    (by decide +kernel) (by decide +kernel) (Prod.ext first rfl) (Prod.ext last rfl) found found'
  rw [tally, count] at count'
  cases count'

end Registry

end CompositeSorts
