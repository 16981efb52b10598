import CompositeSorts.Proofs.Catalog.Bookkeeping
import CompositeSorts.Proofs.Registry.Sessions

/-!
The books of registries. Whatever calls lead to a registry, and wherever texts and operations among
them were refused or abandoned half-way, the books of its catalog agree with each other.
-/

set_option autoImplicit false
set_option relaxedAutoImplicit false

namespace CompositeSorts.Registry

open Catalog

variable {r : Registry} {allowed : Registry → Call → Prop}

/-- The history of a registry is in order, and its attributes are kept. -/
theorem Reachable.orderly (reached : Reachable allowed r) : r.catalog.Orderly := by
  have lasting : Persists (fun _ ↦ True) (fun _ ↦ True) fun c ↦ c.Weighed ∧ c.Orderly := {
    words := fun _ _ ↦ trivial
    empty := fun home ↦ ⟨Weighed.empty home, Orderly.empty home⟩
    clear := fun _ ↦ ⟨Weighed.clear _, Orderly.clear _⟩
    step := fun steady ⟨weighed, orderly⟩ step ↦
      ⟨(step.edit steady.toSound).weighed steady.toSound weighed,
        (step.edit steady.toSound).orderly steady.toSound weighed orderly⟩
    openSession := fun ⟨weighed, orderly⟩ ↦ ⟨weighed.openSession, orderly.openSession⟩
    rollBack := fun steady _ ⟨weighed, orderly⟩ ↦
      ⟨weighed.rollBack steady.toSound, orderly.rollBack steady.toSound⟩ }
  exact (reached.persists_any lasting).2

/-- In every registry that any calls lead to, whether they succeed, fail or are abandoned half-way,
the history has exactly the live sorts, each of them once and in the order in which they were made;
every sort is found under the handle it carries and every name leads to a sort that carries it;
exactly the attributes without names are kept, under their canonical texts; and the sorts that can
be undone are the latest ones. -/
theorem accounted_of_reachable (reached : Reachable AnyCall r) : r.catalog.Accounted :=
  reached.orderly.accounted reached.proper.steady.toSound

/-- The sample with a category that is never answered for. -/
def unansweredSample : Registry :=
  .empty ⟨0⟩ (sample.categories.withUnanswered "Never") {}

theorem reachable_unansweredSample (allowed : Registry → Call → Prop) :
    Reachable allowed unansweredSample := .empty _ _ _

/-- A definition is abandoned half-way and leaves a recursive sort that is not registered, and an
attribute that is kept; a second text fails and a third one succeeds; then the name of the abandoned
definition is given to a copy, and an attribute is made and undone with it. -/
theorem accounted_of_reachable_sample :
    let abandoned := unansweredSample.perform (.defineAll "r: (s: [Label] x ^ r) + [Never]")
    let r := ((abandoned.perform (.defineAll "t: [Label] x ^ u")).perform
      (.defineAll "t: [Label] y")).perform (.duplicate ⟨⟨0⟩, ⟨0, 0⟩⟩ "r")
    let attached := r.perform (.combine ⟨⟨0⟩, ⟨0, 0⟩⟩ ⟨⟨0⟩, ⟨0, 0⟩⟩)
    (abandoned.catalog.size, attached.catalog.size, attached.undo.2.catalog.size) = (4, 8, 4) ∧
      abandoned.catalog.sortOf "r" = none ∧
      abandoned.catalog.interned["[Label] x^r"]? = some ⟨⟨0⟩, ⟨2, 0⟩⟩ ∧
      attached.catalog.Accounted ∧ attached.undo.2.catalog.Accounted := by
  intro abandoned r attached
  have reached : Reachable AnyCall attached :=
    .step (.step (.step (.step (.step (reachable_unansweredSample _)
      _ trivial) _ trivial) _ trivial) _ trivial) _ trivial
  exact ⟨by decide +kernel, by decide +kernel, by decide +kernel, accounted_of_reachable reached,
    accounted_of_reachable (reached.step .undo trivial)⟩

end CompositeSorts.Registry
