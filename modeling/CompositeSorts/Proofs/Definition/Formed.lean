import CompositeSorts.Proofs.Definition.Naming
import CompositeSorts.Proofs.Definition.Spelling

/-!
Evaluating keeps a catalog formed. By induction on phrases, the answer of a phrase that was read
from a text is formed (`Phrase.forms`). That a sum never takes up an open name twice, and that a
definition is not bound to an open name, rests on what the answers of the parts are known to be.
-/

set_option autoImplicit false
set_option relaxedAutoImplicit false

namespace CompositeSorts

open Catalog Evaluation Text

variable {a c d : Catalog} {id l r : SortId} {sort : SortRecord} {name : String}

theorem Ends.of_any {ε σ α : Type} (m : EStateM ε σ α) (s : σ) :
    Ends m s (fun _ _ ↦ True) fun _ ↦ True := by
  unfold Ends
  split <;> trivial

/-- A broken phrase is not evaluated to its end. -/
theorem Phrase.ends_of_broken (categories : CategoryTable) (phrase : Phrase) (c : Catalog)
    (broken : phrase.Broken) :
    Ends (phrase.evaluate categories) c (fun _ _ ↦ False) fun _ ↦ True := by
  match phrase with
  | .weighted position base weight =>
    rcases broken with first | second
    · refine Ends.bind ((Phrase.ends_of_broken categories base c first).mono ?_ fun _ _ ↦ trivial)
      exact fun _ _ never ↦ never.elim
    · refine Ends.bind ((Ends.of_any _ c).mono (fun _ d _ ↦ ?_) fun _ _ ↦ trivial)
      refine Ends.bind ((Phrase.ends_of_broken categories weight d second).mono ?_
        fun _ _ ↦ trivial)
      exact fun _ _ never ↦ never.elim
  | .sum position left right =>
    rcases broken with first | second
    · refine Ends.bind ((Phrase.ends_of_broken categories left c first).mono ?_ fun _ _ ↦ trivial)
      exact fun _ _ never ↦ never.elim
    · refine Ends.bind ((Ends.of_any _ c).mono (fun _ d _ ↦ ?_) fun _ _ ↦ trivial)
      refine Ends.bind ((Phrase.ends_of_broken categories right d second).mono ?_ fun _ _ ↦ trivial)
      exact fun _ _ never ↦ never.elim
  | .definition position name body =>
    refine Ends.bind ((Ends.of_any _ c).mono (fun _ d _ ↦ ?_) fun _ _ ↦ trivial)
    refine Ends.bind ((Phrase.ends_of_broken categories body d broken).mono ?_ fun _ _ ↦ trivial)
    exact fun _ _ never ↦ never.elim
  | .after earlier last =>
    refine Ends.bind ((Ends.of_any _ c).mono (fun _ d _ ↦ ?_) fun _ _ ↦ trivial)
    exact Phrase.ends_of_broken categories last d broken
  | .stop reason => exact Ends.throw trivial

namespace Catalog

/-! ### Answers of parts -/

theorem not_unmarked_primitiveText {tag text : String} {argument : Option Argument}
    (written : c.primitiveText tag argument = .ok text) : ¬ Unmarked text := by
  intro unmarked
  refine unmarked '[' ?_ (by decide)
  unfold primitiveText at written
  cases argument with
  | none =>
    cases written
    simp [String.toList_append]
  | some argument =>
    dsimp only at written
    cases shown : c.argumentText argument with
    | error reason =>
      rw [shown] at written
      cases written
    | ok inner =>
      rw [shown] at written
      cases written
      simp [String.toList_append]

theorem not_unmarked_weightedText (base weight : SortRecord) :
    ¬ Unmarked (weightedText base weight) := by
  intro unmarked
  refine unmarked '^' ?_ (by decide)
  simp [weightedText, String.toList_append]

theorem not_unmarked_disjunctiveText {displays : List String} (several : 2 ≤ displays.length) :
    ¬ Unmarked (disjunctiveText displays) := by
  intro unmarked
  refine unmarked '+' ?_ (by decide)
  unfold disjunctiveText Text.joined
  rw [← (Text.sorted_perm displays).length_eq] at several
  generalize Text.sorted displays = sorted at several
  match sorted, several with
  | first :: second :: others, _ =>
    rw [String.intercalate_cons_cons]
    simp [String.toList_append]

theorem Spares.announce {pending : List Pending} (h : Spares { c with pending := pending } d) :
    Spares c d := h

theorem mentions_trans {before between now : List Pending}
    (h : List.Forall₂ (Mentions id) before between) (h' : List.Forall₂ (Mentions id) between now) :
    List.Forall₂ (Mentions id) before now := by
  induction h generalizing now with
  | nil =>
    cases h'
    exact List.Forall₂.nil
  | cons first rest ih =>
    cases h' with
    | cons first' rest' =>
      refine List.Forall₂.cons ?_ (ih rest')
      rcases first' with rfl | stands
      · exact first
      · exact Or.inr stands

/-- A definition under way was under way before. -/
theorem Awaits.exists_before (h : Awaits c d) {now : Pending} (inside : now ∈ d.pending) :
    ∃ before ∈ c.pending, GoesOn c before now := by
  unfold Awaits at h
  generalize c.pending = earlier at h
  generalize d.pending = later at h inside
  induction h with
  | nil => simp at inside
  | cons first rest ih =>
    rcases List.mem_cons.mp inside with rfl | inside
    · exact ⟨_, List.mem_cons_self, first⟩
    · obtain ⟨before, among, goesOn⟩ := ih inside
      exact ⟨before, List.mem_cons_of_mem _ among, goesOn⟩

/-- A sort that carries the name of a definition under way goes on to stand for it. -/
theorem Awaits.claimed (h : Awaits c d) (claimed : ∀ pending ∈ c.pending, pending.name = name →
      pending.placeholder = some id) :
    ∀ pending ∈ d.pending, pending.name = name → pending.placeholder = some id := by
  intro now inside same
  obtain ⟨before, among, named, goesOn⟩ := h.exists_before inside
  have stands := claimed before among (named.symm.trans same)
  rcases goesOn with kept | ⟨open_, -⟩
  · exact kept.trans stands
  · rw [stands] at open_
    cases open_

/-- The display of a sort without a name is marked. -/
theorem Formed.named_of_unmarked {waiting : List SortId} (h : Formed waiting c)
    (found : c.get id = .ok sort) (unmarked : Unmarked sort.display) :
    ∃ name, sort.name = some name := by
  cases named : sort.name with
  | some name => exact ⟨name, rfl⟩
  | none =>
    exfalso
    have fits := h.fits found
    have shown : sort.display = sort.canonical := by
      rw [SortRecord.display, named]
      rfl
    rw [shown] at unmarked
    have plain : sort.variant ≠ .recursive := by
      rcases fits.nameless named with kind | kind | kind <;> rw [kind] <;> decide
    have written := fits.rendered plain
    have kind := fits.nameless named
    unfold SortRecord.variant at kind
    cases made : sort.body with
    | primitive category argument =>
      rw [made] at written
      exact not_unmarked_primitiveText written unmarked
    | weighted base weight =>
      rw [made] at written
      obtain ⟨⟨b, foundBase, -⟩, w, foundWeight, -⟩ := made ▸ fits.composed
      rw [rendering_weighted foundBase foundWeight] at written
      rw [← Except.ok.inj written] at unmarked
      exact not_unmarked_weightedText b w unmarked
    | disjunctive components =>
      rw [made] at written
      unfold rendering at written
      dsimp only at written
      cases texts : c.displays components with
      | error reason =>
        rw [texts] at written
        cases written
      | ok displays =>
        rw [texts] at written
        rw [← Except.ok.inj written] at unmarked
        refine not_unmarked_disjunctiveText ?_ unmarked
        rw [← (mapM_eq_ok_iff.mp texts).length_eq]
        exact h.several found made
    | _ =>
      rw [made] at kind
      rcases kind with kind | kind | kind <;> cases kind

/-- An open name is shown only by the sort that stands for it. -/
theorem Formed.eq_of_display {left right : SortRecord} (h : Formed [] c)
    (foundLeft : c.get l = .ok left) (foundRight : c.get r = .ok right)
    (same : left.display = right.display) (unbound : left.body = .recursive none)
    (claimed : ∀ name, right.name = some name → ∀ pending ∈ c.pending, pending.name = name →
      pending.placeholder = some r) : r = l := by
  rcases h.standing foundLeft unbound with waits | ⟨pending, inside, stands⟩
  · cases waits
  obtain ⟨record, found, named⟩ := h.awaited pending inside l stands
  rw [foundLeft] at found
  cases found
  have shown : left.display = pending.name := by
    rw [SortRecord.display, named]
    rfl
  have unmarked : Unmarked right.display := by
    rw [← same, shown]
    exact h.announced pending inside
  obtain ⟨name, carries⟩ := h.named_of_unmarked foundRight unmarked
  have name_eq : pending.name = name := by
    rw [← shown, same, SortRecord.display, carries]
    rfl
  have stands' := claimed name carries pending inside name_eq
  rw [stands] at stands'
  exact (Option.some.inj stands').symm

end Catalog

/-- What is known of the answers of phrases that were evaluated one after the other. -/
structure FormsAll (a c : Catalog) : Prop where
  formed : Formed [] c
  spares : Spares a c

mutual

/-- The answer of a phrase is formed. -/
theorem Phrase.forms (categories : CategoryTable) (phrase : Phrase) (c : Catalog)
    (h : Formed [] c) (spelled : phrase.Spelled categories) :
    Ends (phrase.evaluate categories) c (Forms c) fun _ ↦ True := by
  match phrase with
  | .reference position name => exact forms_lookUp h
  | .primitive position tag argument =>
    refine Op.ends_at (forms_primitive h (Spares.refl c) ?_ ⟨spelled.1, ?_⟩)
    · intro linked given
      cases argument with
      | none => cases given
      | some literal => cases literal <;> cases given
    · intro lexeme given
      cases argument with
      | none => cases given
      | some literal =>
        cases literal with
        | bound text =>
          cases given
          exact (spelled.2 _ rfl).1
        | _ => cases given
  | .linked position tag arguments =>
    refine Ends.bind (((Phrase.yieldsAll categories arguments c h.toSteady).and
      (Phrase.formsAll categories arguments c h spelled.2.1)).mono ?_ fun _ _ ↦ trivial)
    rintro linked d ⟨reached, forms⟩
    refine Op.ends_at (forms_primitive forms.formed forms.spares ?_ ⟨spelled.1, by rintro _ ⟨⟩⟩)
    rintro _ ⟨⟩ id inside
    exact (reached.obtained id inside).not_loose reached.toGrowth
  | .weighted position base weight =>
    refine Ends.bind (((Phrase.yields categories base c h.toSteady).and
      (Phrase.forms categories base c h spelled.1)).mono ?_ fun _ _ ↦ trivial)
    rintro b d ⟨reached, forms⟩
    refine Ends.bind (((Phrase.yields categories weight d reached.toSteady).and
      (Phrase.forms categories weight d forms.formed spelled.2)).mono ?_ fun _ _ ↦ trivial)
    rintro w e ⟨later, forms'⟩
    have last := later.since reached.toAdvance reached.awaits
    exact Op.ends_at (forms_combine forms'.formed last.toAdvance last.awaits
      (forms.spares.trans forms'.spares) last.obtained)
  | .sum position left right =>
    refine Ends.bind (((Phrase.yields categories left c h.toSteady).and
      (Phrase.forms categories left c h spelled.1)).mono ?_ fun _ _ ↦ trivial)
    rintro l d ⟨reached, forms⟩
    refine Ends.bind (((Phrase.yields categories right d reached.toSteady).and
      (Phrase.forms categories right d forms.formed spelled.2)).mono ?_ fun _ _ ↦ trivial)
    rintro r e ⟨later, forms'⟩
    have last := later.since reached.toAdvance reached.awaits
    obtain ⟨sort, found, -⟩ := reached.obtained
    have stays := later.stays found
    refine Op.ends_at (forms_sum forms'.formed last.toGrowth (forms.spares.trans forms'.spares)
      (reached.obtained.grow later.toGrowth later.awaits) last.obtained ?_ ?_ ?_)
    · intro record there growing
      rw [stays] at there
      cases there
      exact forms'.spares l (forms.loose sort found growing)
    · intro record other there there' same unbound
      rw [stays] at there
      cases there
      obtain rfl : r = l := forms'.formed.eq_of_display stays there' same unbound
        (forms'.claimed other · there')
      rw [stays] at there'
      cases there'
      exact mentions_trans (forms.alone sort found unbound) (forms'.alone sort stays unbound)
    · intro record name there named
      rw [stays] at there
      cases there
      exact later.awaits.claimed (forms.claimed sort name found named)
  | .definition position name body =>
    refine Ends.bind (Op.ends_at (Op.ends_announce trivial fun apart free ↦ ?_))
    have announced := h.announce spelled.1 apart
    refine Ends.bind (((Phrase.yields categories body _ announced.toSteady).and
      (Phrase.forms categories body _ announced spelled.2)).mono ?_ fun _ _ ↦ trivial)
    rintro target d ⟨reached, forms⟩
    have awaits := reached.awaits
    unfold Awaits at awaits
    obtain ⟨innermost, outer, mine, others, under⟩ := List.forall₂_cons_left_iff.mp awaits
    refine forms_complete forms.formed forms.spares.announce
      (reached.obtained.not_loose reached.toGrowth) under mine.1 ?_ ?_
    · intro sort found unbound placeholder stands
      have alone := forms.alone sort found unbound
      rw [under] at alone
      cases alone with
      | cons first _ =>
        rcases first with rfl | same
        · cases stands
        · rw [stands] at same
          exact Option.some.inj same
    · intro sort found named
      refine forms.claimed sort name found named innermost ?_ mine.1
      rw [under]
      exact List.mem_cons_self
  | .aspects position tag names arguments =>
    refine Ends.bind (((Phrase.yieldsAll categories arguments c h.toSteady).and
      (Phrase.formsAll categories arguments c h spelled.2.2)).mono ?_ fun _ _ ↦ trivial)
    rintro linked d ⟨reached, forms⟩
    exact Op.ends_at (forms_declareAspects forms.formed reached.toAdvance forms.spares
      (fun id inside ↦ (reached.obtained id inside).not_loose reached.toGrowth) spelled.1
      spelled.2.1)
  | .after earlier last =>
    refine Ends.bind ((Ends.of_any _ c).mono (fun _ d _ ↦ ?_) fun _ _ ↦ trivial)
    refine (Phrase.ends_of_broken categories last d spelled.2.2).mono ?_ fun _ _ ↦ trivial
    exact fun _ _ never ↦ never.elim
  | .stop reason => exact Ends.throw trivial

/-- Phrases that are evaluated one after the other keep the catalog formed. -/
theorem Phrase.formsAll (categories : CategoryTable) (phrases : List Phrase) (c : Catalog)
    (h : Formed [] c) (spelled : AllSpelled categories phrases) :
    Ends (Phrase.evaluateAll categories phrases) c (fun _ ↦ FormsAll c) fun _ ↦ True := by
  match phrases with
  | [] => exact Ends.pure ⟨h, Spares.refl c⟩
  | phrase :: phrases =>
    refine Ends.bind ((Phrase.forms categories phrase c h spelled.1).mono ?_ fun _ _ ↦ trivial)
    rintro id d forms
    refine Ends.bind ((Phrase.formsAll categories phrases d forms.formed spelled.2).mono ?_
      fun _ _ ↦ trivial)
    rintro ids e later
    exact Ends.pure ⟨later.formed, forms.spares.trans later.spares⟩

end

end CompositeSorts
