import CompositeSorts.Proofs.Catalog.Reckoning
import CompositeSorts.Proofs.Registry.Identity
import CompositeSorts.Proofs.Registry.Sessions

/-!
Counts and displays. In a registry that texts have built, sorts of one display count the same, but
for disjunctions without a name: these count a recursive component as a placeholder if they were
added up before it was bound, and so they count the same if they were added up on the same side of
each binding (`counts_eq_of_display`). Inside of a definition its own name is not bound yet, so a
disjunction over it counts less there than the same disjunction outside
(`exists_display_of_other_counts`).
-/

set_option autoImplicit false
set_option relaxedAutoImplicit false

namespace CompositeSorts

namespace Catalog

variable {now : Nat} {date : SortId → Nat} {c : Catalog} {id id' part part' : SortId}
  {sort sort' record record' : SortRecord}

namespace Rested

/-- Components of one display add the same, if a recursive sort is on the same side of both. -/
theorem share_eq (h : c.Rested) (reckoned : c.Reckoned now date) (found : c.get id = .ok sort)
    (found' : c.get id' = .ok sort') (growing : sort.Growing) (growing' : sort'.Growing)
    (inside : part ∈ sort.summands) (inside' : part' ∈ sort'.summands)
    (same : c.display part = c.display part')
    (sides : c.Recurs id part → (date id < date part ↔ date id' < date part)) :
    c.share date (date id) part = c.share date (date id') part' := by
  obtain ⟨record, there, -, fixed⟩ := reckoned.components found growing part inside
  obtain ⟨record', there', -, -⟩ := reckoned.components found' growing' part' inside'
  rw [display_of_get there, display_of_get there'] at same
  have shown : record.display = record'.display := Except.ok.inj same
  have later := reckoned.later found growing inside there
  have later' := reckoned.later found' growing' inside' there'
  rw [share_of_get there, share_of_get there']
  by_cases equal : part = part'
  · subst equal
    rw [there] at there'
    cases there'
    by_cases recursive : record.variant = .recursive
    · exact if_congr (sides ⟨sort, record, found, growing, inside, there, recursive⟩) rfl rfl
    · rw [if_neg (mt later recursive), if_neg (mt later' recursive)]
  · have nameless : record.name = none := by
      by_contra named
      exact equal (h.eq_of_named there there' shown named)
    obtain ⟨nameless', variant, -⟩ := h.eq_of_nameless there there' shown nameless
    rcases (h.fits there).nameless nameless with primitive | weighted | disjunctive
    · have primitive' := variant.trans primitive
      have fixed : record.variant ≠ .recursive := by rw [primitive]; decide
      have fixed' : record'.variant ≠ .recursive := by rw [primitive']; decide
      rw [if_neg (mt later fixed), if_neg (mt later' fixed'),
        reckoned.simple there nameless primitive, reckoned.simple there' nameless' primitive']
    · exact absurd (h.eq_of_weighted there there' shown weighted) equal
    · exact absurd ⟨nameless, disjunctive⟩ fixed

theorem counts_eq (h : c.Rested) (reckoned : c.Reckoned now date) (found : c.get id = .ok sort)
    (found' : c.get id' = .ok sort') (same : sort.display = sort'.display)
    (sides : ∀ part, c.Recurs id part → (date id < date part ↔ date id' < date part)) :
    sort.counts = sort'.counts := by
  by_cases equal : id = id'
  · subst equal
    rw [found] at found'
    cases found'
    rfl
  have nameless : sort.name = none := by
    by_contra named
    exact equal (h.eq_of_named found found' same named)
  obtain ⟨nameless', variant, canonical⟩ := h.eq_of_nameless found found' same nameless
  rcases (h.fits found).nameless nameless with primitive | weighted | disjunctive
  · rw [reckoned.simple found nameless primitive,
      reckoned.simple found' nameless' (variant.trans primitive)]
  · exact absurd (h.eq_of_weighted found found' same weighted) equal
  · have growing : sort.Growing := ⟨nameless, disjunctive⟩
    have growing' : sort'.Growing := ⟨nameless', variant.trans disjunctive⟩
    obtain ⟨components, made, own⟩ := growing.body_eq
    obtain ⟨components', made', own'⟩ := growing'.body_eq
    have permuted : (components.map c.display).Perm (components'.map c.display) := by
      have agree := h.agree_disjunctive found found' made made' canonical.symm
      rw [made, made'] at agree
      exact agree
    rw [reckoned.counts found growing, reckoned.counts found' growing']
    refine ComponentCounts.composite_perm ?_
    rw [own, own']
    refine perm_map_of_perm_map permuted fun part inside part' inside' shown ↦ ?_
    exact h.share_eq reckoned found found' growing growing' (own ▸ inside) (own' ▸ inside') shown
      (sides part)

end Rested

end Catalog

namespace Registry

open Catalog

variable {r : Registry}

/-- What a text has made is led to only by what it has made. -/
theorem Reachable.secluded_evaluated (reached : Reachable ByText r) (text : String) :
    (r.evaluated text).Secluded := by
  have later := advance_evaluated reached.proper.steady text
  obtain ⟨new, history, fresh, apart⟩ := later.made
  intro id sort found out other inside within
  change (r.evaluated text).fresh = new ++ [] at fresh
  rw [fresh, List.append_nil] at out within
  have listed : id ∈ (r.evaluated text).history := (later.listed id).mpr ⟨sort, found⟩
  rw [history] at listed
  have before : r.catalog.Live id := (reached.proper.steady.listed id).mp
    ((List.mem_append.mp listed).resolve_left out)
  obtain ⟨record, there⟩ := before
  rw [later.stays there] at found
  cases found
  exact apart other within ((reached.rested.fits there).linked other inside)

theorem Reachable.rollsBack_secluded (reached : Reachable ByText r) (call : Call) :
    r.RollsBack Secluded call := by
  cases call with
  | define text | defineAll text => exact reached.secluded_evaluated text
  | undo => exact fun id sort found out ↦ reached.rested.closed found out
  | _ => trivial

/-- The sorts of a registry have dates. -/
theorem Reachable.dated (reached : Reachable ByText r) :
    ∃ now date, Dated now date r.catalog := by
  have next {c d : Catalog} (passage : c.Passage d) (dated : ∃ now date, Dated now date c) :
      ∃ now date, Dated now date d := by
    obtain ⟨now, date, dated⟩ := dated
    exact ⟨now + 1, dated.exists_next passage⟩
  have lasting : Persists (fun _ ↦ True) Secluded fun c ↦ ∃ now date, Dated now date c := {
    words := fun _ _ ↦ trivial
    empty := fun home ↦ ⟨0, _, .empty home⟩
    clear := fun dated ↦ next .clear dated
    step := fun _ dated step ↦ next (.step step) dated
    openSession := fun dated ↦ next .openSession dated
    rollBack := fun _ secluded dated ↦ next (.rollBack secluded) dated }
  exact reached.persists_tidy lasting (fun _ call _ ↦ call.plain_of_forall fun _ ↦ trivial)
    fun _ call before ↦ before.rollsBack_secluded call

/-- In a registry that texts have built, the sorts have dates; and whatever dates they have, two
sorts of one display count the same, if no recursive component was bound after one of them was added
up and before the other. -/
theorem counts_eq_of_display (reached : Reachable ByText r) :
    (∃ now date, Dated now date r.catalog) ∧
      ∀ now date, Dated now date r.catalog → ∀ id id' sort sort', r.catalog.get id = .ok sort →
        r.catalog.get id' = .ok sort' → sort.display = sort'.display →
        (∀ part, r.catalog.Recurs id part → (date id < date part ↔ date id' < date part)) →
        sort.counts = sort'.counts := by
  refine ⟨reached.dated, ?_⟩
  intro now date dated id id' sort sort' found found' same sides
  exact reached.rested.counts_eq dated.reckoned found found' same sides

/-- The disjunction `3` is inside of the definition of its component `1`, and the disjunctions `6`
and `8`, which display the same, are not. -/
def recursiveSample : Registry := sample.perform
  (.defineAll "r: [Label] x ^ (r + [Label] y); r + [Label] y; r + [Label] y")

theorem counts_eq_of_display_sample :
    ∃ sort sort', recursiveSample.catalog.get ⟨⟨0⟩, ⟨6, 0⟩⟩ = .ok sort ∧
      recursiveSample.catalog.get ⟨⟨0⟩, ⟨8, 0⟩⟩ = .ok sort' ∧ sort.counts = sort'.counts := by
  let id (number : Nat) : SortId := ⟨⟨0⟩, ⟨number, 0⟩⟩
  let c := recursiveSample.catalog
  obtain ⟨finished, there, there', shown, simple⟩ :
      (sample.defineAll "r: [Label] x ^ (r + [Label] y); r + [Label] y; r + [Label] y").1 ≠
        .error .abandoned ∧
      ((id 6).registry = c.home ∧ (c.store.get? (id 6).key).isSome) ∧
      ((id 8).registry = c.home ∧ (c.store.get? (id 8).key).isSome) ∧
      (∀ d ∈ [id 6, id 8], ∀ sort ∈ (c.get d).toOption, sort.name = none ∧
        sort.variant = .disjunctive ∧ sort.display = "[Label] y+r" ∧ sort.counts.total = 7 ∧
        ∃ part ∈ [id 5, id 7], sort.summands = [id 1, part]) ∧
      ∀ part ∈ [id 5, id 7], ∀ sort ∈ (c.get part).toOption, sort.counts.total = 1 ∧
        sort.variant ≠ .recursive := by decide +kernel
  have reached : Reachable ByText recursiveSample := (reachable_sample _).next finished
  obtain ⟨⟨now, date, dated⟩, equal⟩ := counts_eq_of_display reached
  have reckoned := dated.reckoned
  obtain ⟨sort, found⟩ : c.Live (id 6) := live_iff.mpr there
  obtain ⟨sort', found'⟩ : c.Live (id 8) := live_iff.mpr there'
  have first : sort ∈ (c.get (id 6)).toOption := by rw [found]; rfl
  have second : sort' ∈ (c.get (id 8)).toOption := by rw [found']; rfl
  -- With a placeholder in it, the disjunction would count less.
  have late : ∀ d ∈ [id 6, id 8], ∀ sort, c.get d = .ok sort → ¬ date d < date (id 1) := by
    intro d among sort found early
    obtain ⟨nameless, disjunctive, -, total, part, inside, own⟩ :=
      shown d among sort (by rw [found]; rfl)
    have growing : sort.Growing := ⟨nameless, disjunctive⟩
    obtain ⟨r, foundR, -⟩ := reckoned.components found growing (id 1) (by simp [own])
    obtain ⟨y, foundY, -⟩ := reckoned.components found growing part (by simp [own])
    have one : (c.share date (date d) part).total = 1 := by
      rw [share_of_get foundY]
      split_ifs
      · rfl
      · exact (simple part inside y (by rw [foundY]; rfl)).1
    have counts : sort.counts.total = 1 + (c.share date (date d) (id 1)).total +
        (c.share date (date d) part).total := by
      rw [reckoned.counts found growing, own]
      rfl
    rw [total, one, share_of_get foundR, if_pos early] at counts
    cases counts
  refine ⟨sort, sort', found, found', equal now date dated _ _ sort sort' found found' ?_ ?_⟩
  · rw [(shown _ (by simp) sort first).2.2.1, (shown _ (by simp) sort' second).2.2.1]
  · rintro other ⟨record, part, there, -, inside, foundPart, recursive⟩
    rw [found] at there
    cases there
    obtain ⟨-, -, -, -, y, among, own⟩ := shown _ (by simp) sort first
    rw [own, List.mem_pair] at inside
    rcases inside with rfl | rfl
    · exact iff_of_false (late _ (by simp) sort found) (late _ (by simp) sort' found')
    · exact absurd recursive (simple _ among part (by rw [foundPart]; rfl)).2

/-- The disjunctions `3` and `6` display the same, but `3` counts its component `1` as a
placeholder. -/
theorem exists_display_of_other_counts :
    ¬ ∀ r : Registry, Reachable ByText r → ∀ id id' sort sort', r.catalog.get id = .ok sort →
      r.catalog.get id' = .ok sort' → sort.display = sort'.display →
      sort.counts = sort'.counts := by
  intro all
  let id (number : Nat) : SortId := ⟨⟨0⟩, ⟨number, 0⟩⟩
  let c := recursiveSample.catalog
  obtain ⟨finished, there, there', apart⟩ :
      (sample.defineAll "r: [Label] x ^ (r + [Label] y); r + [Label] y; r + [Label] y").1 ≠
        .error .abandoned ∧
      ((id 3).registry = c.home ∧ (c.store.get? (id 3).key).isSome) ∧
      ((id 6).registry = c.home ∧ (c.store.get? (id 6).key).isSome) ∧
      ∀ sort ∈ (c.get (id 3)).toOption, ∀ sort' ∈ (c.get (id 6)).toOption,
        sort.display = sort'.display ∧ sort.counts ≠ sort'.counts := by decide +kernel
  have reached : Reachable ByText recursiveSample := (reachable_sample _).next finished
  obtain ⟨sort, found⟩ : c.Live (id 3) := live_iff.mpr there
  obtain ⟨sort', found'⟩ : c.Live (id 6) := live_iff.mpr there'
  obtain ⟨same, differ⟩ := apart sort (by rw [found]; rfl) sort' (by rw [found']; rfl)
  exact differ (all _ reached _ _ _ _ found found' same)

end Registry

end CompositeSorts
