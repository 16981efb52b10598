import CompositeSorts.Proofs.Catalog.Containment

/-!
How containment composes (`contains_closure_iff`). A disjunction is contained where its components
are, and what is contained in something that is contained is contained too; but for one case. That
all components of a disjunction are inside does not put the disjunction inside. So if it is a
component of a larger disjunction, that one is not contained for it
(`exists_containment_not_closed`).
-/

set_option autoImplicit false
set_option relaxedAutoImplicit false

namespace CompositeSorts

open Catalog

namespace Registry

variable {r : Registry}

/-- A sort that contains all components of a disjunction contains the disjunction if and only if it
presents the disjunction, or those of its components that are disjunctions themselves. A sort that
contains another one, which contains a third one, contains the third one if and only if it presents
one of the two, or the second one is not displayed as a component of the third one. -/
theorem contains_closure_iff (reached : Reachable ByText r) {a b d : SortId}
    (liveA : r.catalog.Live a) (liveB : r.catalog.Live b) (liveD : r.catalog.Live d) :
    (∀ components, r.catalog.Splits b components →
      (∀ part ∈ components, r.catalog.contains a part = .ok true) →
      (r.catalog.contains a b = .ok true ↔ r.catalog.Presents a b ∨ ∀ part ∈ components,
        (∃ parts, r.catalog.Splits part parts) → r.catalog.Presents a part)) ∧
    (r.catalog.contains a b = .ok true → r.catalog.contains b d = .ok true →
      (r.catalog.contains a d = .ok true ↔ r.catalog.Presents a b ∨ r.catalog.Presents a d ∨
        ∀ components, r.catalog.Splits d components → ∀ part ∈ components,
          ¬ r.catalog.Twins part b)) := by
  have rested := reached.rested
  rw [rested.contains_iff liveA liveB, rested.contains_iff liveB liveD,
    rested.contains_iff liveA liveD]
  constructor
  · intro components splits each
    refine splits.contains_iff fun part inside ↦ ?_
    have live := rested.live_of_encloses (splits.encloses_iff.mpr inside)
    exact (rested.contains_iff liveA live).mp (each part inside)
  · exact rested.contains_trans_iff

/-- A registry with two disjunctions `3` and `7` of the same components and different names, and a
disjunction `9` of the second one and a third sort, which is displayed as one of those
components. -/
def nestedSample : Registry :=
  sample.perform
    (.defineAll "a: [Label] x + [Label] y; s: [Label] x + [Label] y; s + [Label] x")

/-- The sort `3` contains the components of `7`, and so `7` and what `7` contains. -/
theorem contains_closure_iff_sample :
    nestedSample.catalog.contains ⟨⟨0⟩, ⟨3, 0⟩⟩ ⟨⟨0⟩, ⟨7, 0⟩⟩ = .ok true ∧
      nestedSample.catalog.contains ⟨⟨0⟩, ⟨7, 0⟩⟩ ⟨⟨0⟩, ⟨8, 0⟩⟩ = .ok true ∧
      nestedSample.catalog.contains ⟨⟨0⟩, ⟨3, 0⟩⟩ ⟨⟨0⟩, ⟨8, 0⟩⟩ = .ok true := by
  have reached : Reachable ByText nestedSample := (reachable_sample _).next (by decide +kernel)
  have rested := reached.rested
  let id (number : Nat) : SortId := ⟨⟨0⟩, ⟨number, 0⟩⟩
  obtain ⟨live, splits, encloses, encloses', first, second, third⟩ :
      (∀ number ∈ [3, 4, 5, 7, 8], nestedSample.catalog.Live (id number)) ∧
        nestedSample.catalog.Splits (id 7) [id 4, id 5] ∧
        nestedSample.catalog.Encloses (id 3) (id 0) ∧ nestedSample.catalog.Encloses (id 3) (id 1) ∧
        nestedSample.catalog.Twins (id 0) (id 4) ∧ nestedSample.catalog.Twins (id 1) (id 5) ∧
        nestedSample.catalog.Twins (id 4) (id 8) := by decide +kernel
  have each : ∀ part ∈ [id 4, id 5], nestedSample.catalog.Presents (id 3) part := by
    rintro part inside
    rcases List.mem_pair.mp inside with rfl | rfl
    · exact .of_encloses encloses first
    · exact .of_encloses encloses' second
  obtain ⟨closed, transitive⟩ :=
    contains_closure_iff reached (live 3 (by simp)) (live 7 (by simp)) (live 8 (by simp))
  have whole : nestedSample.catalog.contains (id 3) (id 7) = .ok true := by
    refine (closed _ splits fun part inside ↦ ?_).mpr (Or.inr fun part inside _ ↦ each part inside)
    have live' := rested.live_of_encloses (splits.encloses_iff.mpr inside)
    exact (rested.contains_iff (live 3 (by simp)) live').mpr (Or.inl (each part inside))
  have part : nestedSample.catalog.contains (id 7) (id 8) = .ok true :=
    (rested.contains_iff (live 7 (by simp)) (live 8 (by simp))).mpr
      (Or.inl (.of_encloses (splits.encloses_iff.mpr List.mem_cons_self) third))
  exact ⟨whole, part, (transitive whole part).mpr
    (Or.inr (Or.inl (.of_encloses encloses (first.trans third))))⟩

/-- The sort `3` contains both components `7` and `8` of the disjunction `9`, and `7` contains `9`;
but `3` does not contain `9`. -/
theorem exists_containment_not_closed :
    (¬ ∀ r : Registry, Reachable ByText r → ∀ a b, r.catalog.Live a → r.catalog.Live b →
      ∀ components, r.catalog.Splits b components →
        (∀ part ∈ components, r.catalog.contains a part = .ok true) →
        r.catalog.contains a b = .ok true) ∧
    ¬ ∀ r : Registry, Reachable ByText r → ∀ a b d, r.catalog.Live a → r.catalog.Live b →
      r.catalog.Live d → r.catalog.contains a b = .ok true → r.catalog.contains b d = .ok true →
        r.catalog.contains a d = .ok true := by
  have reached : Reachable ByText nestedSample := (reachable_sample _).next (by decide +kernel)
  have rested := reached.rested
  let id (number : Nat) : SortId := ⟨⟨0⟩, ⟨number, 0⟩⟩
  obtain ⟨live, splits, splits', closed, apart, encloses, encloses', first, second, third⟩ :
      (∀ number ∈ [3, 4, 5, 7, 8, 9], nestedSample.catalog.Live (id number)) ∧
        nestedSample.catalog.Splits (id 7) [id 4, id 5] ∧
        nestedSample.catalog.Splits (id 9) [id 7, id 8] ∧
        (∀ outer ∈ [id 3, id 0, id 1], ∀ inner ∈ nestedSample.catalog.enclosed outer,
          inner ∈ [id 3, id 0, id 1]) ∧
        (∀ inner ∈ [id 3, id 0, id 1], ∀ outer ∈ [id 7, id 9],
          ¬ nestedSample.catalog.Twins inner outer) ∧
        nestedSample.catalog.Encloses (id 3) (id 0) ∧ nestedSample.catalog.Encloses (id 3) (id 1) ∧
        nestedSample.catalog.Twins (id 0) (id 4) ∧ nestedSample.catalog.Twins (id 1) (id 5) ∧
        nestedSample.catalog.Twins (id 4) (id 8) := by decide +kernel
  have absent : ∀ outer ∈ [id 7, id 9], ¬ nestedSample.catalog.Presents (id 3) outer := by
    intro outer among presents
    obtain ⟨inner, inside, twins⟩ := presents.exists_twins closed List.mem_cons_self
    exact apart inner inside outer among twins
  have part : nestedSample.catalog.contains (id 3) (id 7) = .ok true := by
    refine (rested.contains_iff (live 3 (by simp)) (live 7 (by simp))).mpr
      (Or.inr ⟨_, splits, fun part inside ↦ ?_⟩)
    rcases List.mem_pair.mp inside with rfl | rfl
    · exact .of_encloses encloses first
    · exact .of_encloses encloses' second
  have other : nestedSample.catalog.contains (id 3) (id 8) = .ok true :=
    (rested.contains_iff (live 3 (by simp)) (live 8 (by simp))).mpr
      (Or.inl (.of_encloses encloses (first.trans third)))
  have larger : nestedSample.catalog.contains (id 7) (id 9) = .ok true := by
    refine (rested.contains_iff (live 7 (by simp)) (live 9 (by simp))).mpr
      (Or.inr ⟨_, splits', fun part inside ↦ ?_⟩)
    rcases List.mem_pair.mp inside with rfl | rfl
    · exact .of_twins (.refl (live 7 (by simp)))
    · exact .of_encloses (splits.encloses_iff.mpr List.mem_cons_self) third
  have outside : ¬ nestedSample.catalog.contains (id 3) (id 9) = .ok true := by
    rw [rested.contains_iff (live 3 (by simp)) (live 9 (by simp))]
    rintro (presents | ⟨components, splits'', each⟩)
    · exact absent _ (by simp) presents
    · rw [splits''.unique splits'] at each
      exact absent _ List.mem_cons_self (each _ List.mem_cons_self)
  constructor
  · intro collects
    refine outside (collects _ reached _ _ (live 3 (by simp)) (live 9 (by simp)) _ splits' ?_)
    intro component inside
    rcases List.mem_pair.mp inside with rfl | rfl
    · exact part
    · exact other
  · intro transitive
    exact outside (transitive _ reached _ _ _ (live 3 (by simp)) (live 7 (by simp))
      (live 9 (by simp)) part larger)

end Registry

end CompositeSorts
