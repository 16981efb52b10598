import CompositeSorts.Proofs.Catalog.Structure
import CompositeSorts.Proofs.Registry.WellFormed

/-!
Displays and identity. In a registry that texts have built, two live sorts of the same display are
of one variant, and their bodies agree position by position up to displays; named sorts and
attributes of the same display are even the same sort (`agree_of_display`). So equality of sorts,
the components of a disjunction, kept attributes and remembered matches, which all go by displays,
never confuse two structures.
-/

set_option autoImplicit false
set_option relaxedAutoImplicit false

namespace CompositeSorts

open Catalog Grammar Text

variable {c d : Catalog} {categories : CategoryTable} {r : Registry} {id id' : SortId}
  {sort sort' : SortRecord}

namespace Catalog

/-- The arguments of all live sorts suit their categories. -/
def Suited (categories : CategoryTable) (c : Catalog) : Prop :=
  ∀ (id : SortId) (sort : SortRecord), c.get id = .ok sort → sort.body.Suits categories

/-- All live sorts are made of tokens, and no recursive sort stands for an aspect. -/
structure Worded (categories : CategoryTable) (c : Catalog) : Prop where
  body : ∀ {id sort}, c.get id = .ok sort → sort.body.Worded categories
  named : ∀ {id sort name}, c.get id = .ok sort → sort.variant ≠ .aspects → sort.name = some name →
    isIdentifier name.toList = true
  bound : ∀ {id sort target goal}, c.get id = .ok sort → sort.body = .recursive (some target) →
    c.get target = .ok goal → goal.variant ≠ .aspect

theorem Worded.suited (h : Worded categories c) : Suited categories c :=
  fun _ _ found ↦ (h.body found).suits

theorem Worded.of_get (h : Worded categories c)
    (same : ∀ id sort, d.get id = .ok sort → c.get id = .ok sort) : Worded categories d where
  body found := h.body (same _ _ found)
  named found := h.named (same _ _ found)
  bound found made there := h.bound (same _ _ found) made (same _ _ there)

theorem worded_empty (home : RegistryId) : Worded categories (Catalog.empty home) := by
  have hollow : ∀ {id sort}, (Catalog.empty home).get id ≠ .ok sort := by
    intro id sort found
    simp [get_eq_ok_iff, Catalog.empty, SlotMap.get?_empty] at found
  exact ⟨fun found ↦ absurd found hollow, fun found ↦ absurd found hollow,
    fun found ↦ absurd found hollow⟩

/-- Where all sorts have the trait, they are worded. -/
theorem Worded.of_lasting {a : Catalog} (h : Lasting (.worded categories) a c) :
    Worded categories c where
  body found := (h.traits found).1
  named found plain named := (h.traits found).2.1 plain _ named
  bound found made there := by
    obtain ⟨goal, there', noAspect⟩ := (h.traits found).2.2 _ made
    rw [there] at there'
    cases there'
    exact noAspect

/-- In a formed catalog worded sorts have the trait. -/
theorem Worded.lasting (h : Worded categories c) (formed : Formed [] c) :
    Lasting (.worded categories) c c := by
  refine Lasting.refl formed.toSteady fun {id sort} found ↦ ⟨h.body found, fun plain _ named ↦
    h.named found plain named, fun target made ↦ ?_⟩
  obtain ⟨goal, there⟩ := (formed.fits found).linked target (SortRecord.target_mem_handles made)
  exact ⟨goal, there, h.bound found made there⟩

namespace Rested

/-- A named sort is known by its display. -/
theorem eq_of_named (h : c.Rested) (found : c.get id = .ok sort) (found' : c.get id' = .ok sort')
    (same : sort.display = sort'.display) (named : sort.name ≠ none) : id = id' := by
  cases name : sort.name with
  | none => exact absurd name named
  | some text =>
    cases name' : sort'.name with
    | none => exact absurd (h.eq_of_nameless found' found same.symm name').1 named
    | some text' =>
      rw [SortRecord.display_of_named name, SortRecord.display_of_named name'] at same
      have entry := h.registered found name
      rw [same, h.registered found' name'] at entry
      exact (Option.some.inj entry).symm

/-- So is an attribute. -/
theorem eq_of_weighted (h : c.Rested) (found : c.get id = .ok sort)
    (found' : c.get id' = .ok sort') (same : sort.display = sort'.display)
    (weighted : sort.variant = .weighted) : id = id' := by
  by_cases nameless : sort.name = none
  · obtain ⟨nameless', variant, canonical⟩ := h.eq_of_nameless found found' same nameless
    rcases h.unique found nameless weighted with entry | waits
    · rcases h.unique found' nameless' (variant.trans weighted) with entry' | waits
      · rw [canonical, entry] at entry'
        exact Option.some.inj entry'
      · cases waits
    · cases waits
  · exact h.eq_of_named found found' same nameless

/-- Sorts of the same display are of one variant. -/
theorem variant_eq (h : c.Rested) (found : c.get id = .ok sort) (found' : c.get id' = .ok sort')
    (same : sort.display = sort'.display) : sort.variant = sort'.variant := by
  by_cases nameless : sort.name = none
  · exact (h.eq_of_nameless found found' same nameless).2.1.symm
  · obtain rfl := h.eq_of_named found found' same nameless
    rw [found] at found'
    cases found'
    rfl

/-- Sorts of the same display agree. -/
theorem agree (h : c.Rested) (suited : Suited categories c) (found : c.get id = .ok sort)
    (found' : c.get id' = .ok sort') (same : sort.display = sort'.display) :
    c.Agree sort.body sort'.body := by
  by_cases equal : id = id'
  · subst equal
    rw [found] at found'
    cases found'
    exact .refl c sort.body
  · have nameless : sort.name = none := by
      by_contra named
      exact equal (h.eq_of_named found found' same named)
    obtain ⟨-, variant, canonical⟩ := h.eq_of_nameless found found' same nameless
    unfold SortRecord.variant at variant
    rcases (h.fits found).nameless nameless with primitive | weighted | disjunctive
    · cases made : sort.body <;> cases made' : sort'.body <;>
        rw [made, made'] at variant <;> rw [SortRecord.variant, made] at primitive <;>
        cases variant <;> cases primitive
      rw [← made, ← made']
      exact h.agree_primitive found found' made made' (suited _ _ found) (suited _ _ found')
        canonical.symm
    · exact absurd (h.eq_of_weighted found found' same weighted) equal
    · cases made : sort.body <;> cases made' : sort'.body <;>
        rw [made, made'] at variant <;> rw [SortRecord.variant, made] at disjunctive <;>
        cases variant <;> cases disjunctive
      rw [← made, ← made']
      exact h.agree_disjunctive found found' made made' canonical.symm

end Rested

end Catalog

namespace Registry

theorem worded_evaluateText (h : Formed [] c) (worded : Worded categories c) (text : String) :
    Ends (evaluateText categories text) c (fun _ d ↦ Worded categories d) fun _ ↦ True := by
  unfold evaluateText
  split
  · rename_i stream read
    have spelled := Grammar.spelled_program categories stream (TokenStream.spelled_ofText read)
    have written :=
      worded_program categories stream ((TokenStream.worded_ofText text).1 stream read)
    exact (Phrase.wordsAll _ c (worded.lasting h) h spelled written).mono
      (fun _ _ reached ↦ .of_lasting reached) fun _ _ ↦ trivial
  · exact Ends.throw trivial

theorem categories_undo (r : Registry) : r.undo.2.categories = r.categories := by
  unfold undo
  rfl

theorem worded_undo (proper : r.Proper) (worded : Worded categories r.catalog) :
    Worded categories r.undo.2.catalog := by
  have kept : Worded categories r.catalog.rollBack := by
    refine worded.of_get fun id sort found ↦ ?_
    have out : id ∉ r.catalog.fresh := (proper.steady.toSound.live_rollBack.mp ⟨sort, found⟩).2
    rwa [get_rollBack, get_removeAll_of_notMem proper.steady.toSound.ours_of_fresh out] at found
  unfold undo
  dsimp only
  split_ifs
  · exact kept.of_get fun _ _ found ↦ found
  · exact kept.of_get fun _ _ found ↦ found

theorem categories_defineAll (r : Registry) (text : String) :
    (r.defineAll text).2.categories = r.categories := by
  unfold defineAll
  split
  · rfl
  · rfl
  · exact categories_undo _

theorem categories_operate {α : Type} (r : Registry) (operation : Op α) :
    (r.operate operation).2.categories = r.categories := by
  unfold operate
  split <;> rfl

/-- The table of categories is that with which the registry began. -/
theorem categories_perform (r : Registry) (call : Call) :
    (r.perform call).categories = r.categories := by
  cases call with
  | define text =>
    change (r.define text).2.categories = r.categories
    rw [snd_define, categories_defineAll]
  | defineAll text => exact categories_defineAll r text
  | matchSorts left right =>
    change (r.matchSorts left right).2.categories = r.categories
    unfold matchSorts
    split <;> rfl
  | undo | clear | takeLog => rfl
  | _ => exact categories_operate r _

theorem worded_defineAll (proper : r.Proper) (rested : r.catalog.Rested)
    (worded : Worded r.categories r.catalog) {text : String}
    (finished : (r.defineAll text).1 ≠ .error .abandoned) :
    Worded r.categories (r.defineAll text).2.catalog := by
  have reads := worded_evaluateText rested.openSession (worded.of_get fun _ _ found ↦ found) text
  have restored : ∀ problem, (r.defineAll text).1 = .error (.refused problem) →
      Restored r (r.defineAll text).2 := fun _ failed ↦ (restored_defineAll proper failed).1
  unfold defineAll at finished restored ⊢
  split
  · rename_i ids d run
    unfold Ends at reads
    rw [run] at reads
    exact Worded.of_get reads fun _ _ found ↦ found
  · rename_i d run
    rw [run] at finished
    exact absurd rfl finished
  · rename_i problem d run
    rw [run] at restored
    exact worded.of_get fun id sort found ↦ ((restored problem rfl).get id).symm.trans found

theorem worded_perform (proper : r.Proper) (rested : r.catalog.Rested)
    (worded : Worded r.categories r.catalog) (call : Call) (allow : r.ByText call) :
    Worded (r.perform call).categories (r.perform call).catalog := by
  cases call with
  | define text =>
    change Worded (r.define text).2.categories (r.define text).2.catalog
    rw [snd_define, categories_defineAll]
    exact worded_defineAll proper rested worded (finished_of_define allow)
  | defineAll text =>
    change Worded (r.defineAll text).2.categories (r.defineAll text).2.catalog
    rw [categories_defineAll]
    exact worded_defineAll proper rested worded allow
  | undo =>
    change Worded r.undo.2.categories r.undo.2.catalog
    rw [categories_undo]
    exact worded_undo proper worded
  | clear => exact (worded_empty r.catalog.home).of_get fun _ _ found ↦ found
  | matchSorts left right =>
    change Worded (r.matchSorts left right).2.categories (r.matchSorts left right).2.catalog
    unfold matchSorts
    split <;> exact worded
  | takeLog => exact worded.of_get fun _ _ found ↦ found
  | _ => exact absurd allow id

/-- The sorts that texts make are made of tokens. -/
theorem Reachable.worded (reached : Reachable ByText r) : Worded r.categories r.catalog := by
  induction reached with
  | empty home categories config => exact worded_empty home
  | step before call allow worded =>
    exact worded_perform before.proper before.rested worded call allow

theorem Reachable.suited (reached : Reachable ByText r) : Suited r.categories r.catalog :=
  reached.worded.suited

/-- Sorts of the same display are of one variant and agree position by position, up to displays; a
named sort and an attribute are the only ones of their display. -/
theorem agree_of_display (reached : Reachable ByText r) (found : r.catalog.get id = .ok sort)
    (found' : r.catalog.get id' = .ok sort') (same : sort.display = sort'.display) :
    sort.variant = sort'.variant ∧ r.catalog.Agree sort.body sort'.body ∧
      (sort.isNamed ∨ sort.variant = .weighted → id = id') := by
  have rested := reached.rested
  refine ⟨rested.variant_eq found found' same, rested.agree reached.suited found found' same, ?_⟩
  rintro (named | weighted)
  · exact rested.eq_of_named found found' same (Option.isSome_iff_ne_none.mp named)
  · exact rested.eq_of_weighted found found' same weighted

/-- Two sorts that link a named sort and a sum, made in two sessions with an undone one between. -/
theorem agree_of_display_sample :
    let r := (((sample.perform (.defineAll "a: [Label] p; [Relation] (a, [Flag] + a ^ a)")).perform
      (.defineAll "b: a")).perform .undo).perform (.defineAll "[Relation] (a, a ^ a + [Flag])")
    ∃ sort sort', r.catalog.get ⟨⟨0⟩, ⟨5, 0⟩⟩ = .ok sort ∧ r.catalog.get ⟨⟨0⟩, ⟨8, 0⟩⟩ = .ok sort' ∧
      sort.display = sort'.display ∧ sort.variant = sort'.variant ∧
      r.catalog.Agree sort.body sort'.body ∧
      (sort.isNamed ∨ sort.variant = .weighted →
        (⟨⟨0⟩, ⟨5, 0⟩⟩ : SortId) = ⟨⟨0⟩, ⟨8, 0⟩⟩) := by
  intro r
  have reached : Reachable ByText r :=
    .next (.step (.next (.next (reachable_sample _) (by decide +kernel)) (by decide +kernel)) .undo
      trivial) (by decide +kernel)
  have seen : (match r.catalog.get ⟨⟨0⟩, ⟨5, 0⟩⟩, r.catalog.get ⟨⟨0⟩, ⟨8, 0⟩⟩ with
    | .ok sort, .ok sort' => decide (sort.display = sort'.display)
    | _, _ => false) = true := by decide +kernel
  split at seen
  · rename_i sort sort' found found'
    have same := of_decide_eq_true seen
    exact ⟨sort, sort', found, found', same, agree_of_display reached found found' same⟩
  · cases seen

end Registry

end CompositeSorts
