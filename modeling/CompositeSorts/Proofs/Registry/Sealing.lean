import CompositeSorts.Proofs.Definition.Sealing
import CompositeSorts.Proofs.Registry.Bookkeeping

/-!
What abandoned definitions leave behind. A text that is abandoned leaves sorts that are not
finished: recursive sorts that were never bound and names that were never registered. Later texts
make none of their sorts unfinished, and they get hold of an unfinished sort only through a name
that was registered or an attribute that was kept when they began (`finished_or_left`). But these
two do let them through (`exists_unfinished_sort_of_text`).
-/

set_option autoImplicit false
set_option relaxedAutoImplicit false

namespace CompositeSorts

namespace Catalog

variable {a c : Catalog} {id part : SortId}

instance (c : Catalog) (id part : SortId) : Decidable (c.Holds id part) :=
  match found : c.get id with
  | .ok sort => decidable_of_iff (part ∈ sort.body.handles) (by simp [Holds, found])
  | .error _ => isFalse (by simp [Holds, found])

instance (c : Catalog) (id : SortId) : Decidable (c.Finished id) :=
  match found : c.get id with
  | .ok sort => decidable_of_iff (sort.body ≠ .recursive none ∧
      ∀ name ∈ sort.name, c.names[name]? = some id) (by simp [Finished, found])
  | .error _ => isFalse (by simp [Finished, found])

/-- What is comprised by an accessible sort is accessible. -/
theorem Sealed.comprises (h : Sealed a [] c) (grown : Growth a c) (access : Accessible a c id)
    (path : c.Comprises id part) : Accessible a c part := by
  induction path with
  | refl => exact access
  | tail _ step access =>
    obtain ⟨sort, found, inside⟩ := step
    exact h.accessible grown access found _ inside

/-- When no definition is under way any more, an accessible sort is finished, unless it was there
before and was not. -/
theorem Sealed.finished_or_left (h : Sealed a [] c) (grown : Growth a c) (idle : c.pending = [])
    (access : Accessible a c id) : c.Finished id ∨ a.Available id ∧ ¬ a.Finished id := by
  rcases access with available | ⟨live, new⟩
  · by_cases ready : a.Finished id
    · exact .inl (ready.grow grown)
    · exact .inr ⟨available, ready⟩
  · rcases h.finished live new with ready | waits | ⟨pending, inside, -⟩
    · exact .inl ready
    · cases waits
    · rw [idle] at inside
      cases inside

end Catalog

namespace Registry

open Catalog

variable {r : Registry} {text : String} {ids : List SortId} {id part : SortId}

theorem sealed_evaluateText (steady : r.catalog.Steady) (text : String) :
    Ends (evaluateText r.categories text) r.catalog.openSession
      (fun ids d ↦ Growth r.catalog.openSession d ∧ d.pending = [] ∧
        Sealed r.catalog.openSession [] d ∧ ∀ id ∈ ids, Accessible r.catalog.openSession d id)
      fun _ ↦ True := by
  have begun := steady.openSession
  unfold evaluateText
  split
  · refine ((Phrase.yieldsAll r.categories _ _ begun).and
      ((maintains_sealed r.categories _).evaluateAll _
      _ (.refl begun) (.start _ rfl))).mono ?_ fun _ _ ↦ trivial
    rintro ids d ⟨yields, kept, access⟩
    exact ⟨yields.toGrowth, List.forall₂_nil_left_iff.mp yields.awaits, kept, access⟩
  · exact Ends.throw trivial

/-- Whatever was done to a registry, and however many definitions were abandoned in it: take any
sort that a sort made of a text comprises. It is bound if it is recursive, and registered under its
name if it has one; or it was not before, and was to be had then from a registered name or a kept
attribute. -/
theorem finished_or_left_of_defineAll (reached : Reachable AnyCall r)
    (defined : (r.defineAll text).1 = .ok ids) (among : id ∈ ids)
    (path : (r.defineAll text).2.catalog.Comprises id part) :
    (r.defineAll text).2.catalog.Finished part ∨
      r.catalog.Available part ∧ ¬ r.catalog.Finished part := by
  have ends := sealed_evaluateText reached.proper.steady text
  unfold defineAll at defined path ⊢
  split at defined
  · rename_i others c run
    cases defined
    rw [run] at path
    rw [Ends, run] at ends
    obtain ⟨grown, idle, kept, access⟩ := ends
    exact kept.finished_or_left grown idle (kept.comprises grown (access id among) path)
  · cases defined
  · cases defined

/-- A sum was abandoned in the middle of the definition of `r`, and a recursive sort for `r` was
left open. Then `r` is defined anew, with a sort from before the break; everything in it is
finished. -/
theorem finished_or_left_of_defineAll_sample :
    let r := unansweredSample.perform (.defineAll "a: [Label] x; r: [Label] y + r + [Never]")
    let text := "r: a ^ [Label] z + a ^ r"
    let after := (r.defineAll text).2.catalog
    (r.defineAll text).1 = .ok [⟨⟨0⟩, ⟨7, 0⟩⟩] ∧ r.catalog.Live ⟨⟨0⟩, ⟨3, 0⟩⟩ ∧
      ¬ after.Finished ⟨⟨0⟩, ⟨3, 0⟩⟩ ∧ after.Comprises ⟨⟨0⟩, ⟨7, 0⟩⟩ ⟨⟨0⟩, ⟨8, 0⟩⟩ ∧
      (after.Finished ⟨⟨0⟩, ⟨8, 0⟩⟩ ∨
        r.catalog.Available ⟨⟨0⟩, ⟨8, 0⟩⟩ ∧ ¬ r.catalog.Finished ⟨⟨0⟩, ⟨8, 0⟩⟩) := by
  intro r text after
  have defined : (r.defineAll text).1 = .ok [⟨⟨0⟩, ⟨7, 0⟩⟩] := by decide +kernel
  have path : after.Comprises ⟨⟨0⟩, ⟨7, 0⟩⟩ ⟨⟨0⟩, ⟨8, 0⟩⟩ :=
    .tail (.single (by decide +kernel : after.Holds ⟨⟨0⟩, ⟨7, 0⟩⟩ ⟨⟨0⟩, ⟨9, 0⟩⟩))
      (by decide +kernel : after.Holds ⟨⟨0⟩, ⟨9, 0⟩⟩ ⟨⟨0⟩, ⟨8, 0⟩⟩)
  have open_ : (r.catalog.get ⟨⟨0⟩, ⟨3, 0⟩⟩).toOption.isSome := by decide +kernel
  refine ⟨defined, ?_, by decide +kernel, path, finished_or_left_of_defineAll
    (.step (reachable_unansweredSample _) _ trivial) defined List.mem_cons_self path⟩
  cases found : r.catalog.get ⟨⟨0⟩, ⟨3, 0⟩⟩ with
  | ok sort => exact ⟨sort, found⟩
  | error reason =>
    rw [found] at open_
    cases open_

/-- A text can get hold of a sort that is not finished: an attribute of the open sort that an
abandoned definition of `r` left is kept, and it is what `[Label] x ^ r` makes when `r` is defined
anew. -/
theorem exists_unfinished_sort_of_text :
    ¬ ∀ (r : Registry) (text : String) (ids : List SortId) (id part : SortId),
      Reachable (fun _ call ↦ ∃ text, call = .defineAll text) r →
      (r.defineAll text).1 = .ok ids → id ∈ ids →
      (r.defineAll text).2.catalog.Comprises id part →
      (r.defineAll text).2.catalog.Finished part := by
  intro onlyFinished
  let r := (unansweredSample.perform (.defineAll "r: [Label] x ^ r + [Never]")).perform
    (.defineAll "r: [Label] y")
  have held : (r.defineAll "[Label] x ^ r").2.catalog.Holds ⟨⟨0⟩, ⟨2, 0⟩⟩ ⟨⟨0⟩, ⟨1, 0⟩⟩ := by
    decide +kernel
  have finished := onlyFinished r "[Label] x ^ r" [⟨⟨0⟩, ⟨2, 0⟩⟩] ⟨⟨0⟩, ⟨2, 0⟩⟩ ⟨⟨0⟩, ⟨1, 0⟩⟩
    (.step (.step (reachable_unansweredSample _) _ ⟨_, rfl⟩) _ ⟨_, rfl⟩) (by decide +kernel)
    List.mem_cons_self (.single held)
  exact absurd finished (by decide +kernel)

end Registry

end CompositeSorts
