import CompositeSorts.Proofs.Definition.Advance

/-!
What a text keeps up. A text starts from a catalog `a` and works on the sorts that it obtains from
it. To show that a condition holds of the catalog, and another one of every handle the text works
with, is to show that each operation keeps both (`Maintains`); it then holds whatever the phrase is
(`Maintains.evaluate`). What is known of any text, that it makes the catalog grow and grows in place
only sorts that are new, can be used for it.
-/

set_option autoImplicit false
set_option relaxedAutoImplicit false

namespace CompositeSorts

open Catalog Evaluation

/-- Each operation of a text that starts from `a` keeps the condition `holds` of the catalog, and
returns handles that are `fine` when it is given such. -/
structure Maintains (categories : CategoryTable) (a : Catalog) (holds : Catalog → Prop)
    (fine : Catalog → SortId → Prop) : Prop where
  grow : ∀ {c d id}, Growth c d → fine c id → fine d id
  lookUp : ∀ {c} position name, Advance a c → holds c →
    Ends (lookUp position name) c (fun id d ↦ holds d ∧ fine d id) fun _ ↦ True
  primitive : ∀ {c} tag argument, Advance a c → holds c →
    (∀ linked, argument = some (.sorts linked) → ∀ id ∈ linked, fine c id) →
    Ends (Op.primitive categories tag argument) c (fun id d ↦ holds d ∧ fine d id) fun _ ↦ True
  combine : ∀ {c} base weight, Advance a c → holds c → fine c base → fine c weight →
    Ends (Op.combine base weight) c (fun id d ↦ holds d ∧ fine d id) fun _ ↦ True
  sum : ∀ {c} left right, Advance a c → holds c → Obtained a c left → fine c left → fine c right →
    Ends (Op.sum left right) c (fun id d ↦ holds d ∧ fine d id) fun _ ↦ True
  announce : ∀ {c} name, Advance a c → holds c → (∀ pending ∈ c.pending, pending.name ≠ name) →
    c.names[name]? = none → holds { c with pending := ⟨name, none⟩ :: c.pending }
  complete : ∀ {c} position name body, Advance a c → holds c → fine c body →
    Ends (complete position name body) c (fun id d ↦ holds d ∧ fine d id) fun _ ↦ True
  declareAspects : ∀ {c} tag names arguments, Advance a c → holds c →
    (∀ id ∈ arguments, fine c id) → Ends (Op.declareAspects categories tag names arguments) c
      (fun id d ↦ holds d ∧ fine d id) fun _ ↦ True

namespace Maintains

variable {categories : CategoryTable} {a : Catalog} {holds : Catalog → Prop}
  {fine : Catalog → SortId → Prop}

/-- The beginning of a definition only adds to the definitions under way. -/
theorem advance_announced {c : Catalog} (h : Advance a c) (name : String) :
    Advance a { c with pending := ⟨name, none⟩ :: c.pending } := by
  refine h.withPending fun pending inside id stands ↦ ?_
  rcases List.mem_cons.mp inside with rfl | inside
  · cases stands
  · exact h.awaited pending inside id stands

mutual

/-- A phrase keeps the condition and is answered with a fine handle. -/
theorem evaluate (u : Maintains categories a holds fine) (phrase : Phrase) (c : Catalog)
    (advance : Advance a c) (start : holds c) :
    Ends (phrase.evaluate categories) c (fun id d ↦ holds d ∧ fine d id) fun _ ↦ True := by
  match phrase with
  | .reference position name => exact u.lookUp position name advance start
  | .primitive position tag argument =>
    refine Op.ends_at (u.primitive tag _ advance start fun linked given ↦ ?_)
    cases argument with
    | none => cases given
    | some literal => cases literal <;> cases given
  | .linked position tag arguments =>
    refine Ends.bind (((Phrase.yieldsAll categories arguments c advance.toSteady).and
      (evaluateAll u arguments c advance start)).mono ?_ fun _ _ ↦ trivial)
    rintro linked d ⟨reached, holds, fine⟩
    refine Op.ends_at (u.primitive tag _ (advance.trans reached.toAdvance) holds fun _ given ↦ ?_)
    cases given
    exact fine
  | .weighted position base weight =>
    refine Ends.bind (((Phrase.yields categories base c advance.toSteady).and
      (evaluate u base c advance start)).mono ?_ fun _ _ ↦ trivial)
    rintro b d ⟨reached, kept, fineBase⟩
    have atBase := advance.trans reached.toAdvance
    refine Ends.bind (((Phrase.yields categories weight d atBase.toSteady).and
      (evaluate u weight d atBase kept)).mono ?_ fun _ _ ↦ trivial)
    rintro w e ⟨later, kept, fineWeight⟩
    exact Op.ends_at (u.combine b w (atBase.trans later.toAdvance) kept
      (u.grow later.toGrowth fineBase) fineWeight)
  | .sum position left right =>
    refine Ends.bind (((Phrase.yields categories left c advance.toSteady).and
      (evaluate u left c advance start)).mono ?_ fun _ _ ↦ trivial)
    rintro l d ⟨reached, kept, fineLeft⟩
    have atLeft := advance.trans reached.toAdvance
    refine Ends.bind (((Phrase.yields categories right d atLeft.toSteady).and
      (evaluate u right d atLeft kept)).mono ?_ fun _ _ ↦ trivial)
    rintro r e ⟨later, kept, fineRight⟩
    have got := (reached.obtained.since advance.toGrowth).grow later.toGrowth later.awaits
    exact Op.ends_at (u.sum l r (atLeft.trans later.toAdvance) kept got
      (u.grow later.toGrowth fineLeft) fineRight)
  | .definition position name body =>
    refine Ends.bind (Op.ends_at (Op.ends_announce trivial fun apart free ↦ ?_))
    have announced := advance_announced advance name
    refine Ends.bind (((Phrase.yields categories body _ announced.toSteady).and
      (evaluate u body _ announced (u.announce name advance start apart free))).mono ?_
      fun _ _ ↦ trivial)
    rintro target d ⟨reached, kept, fineTarget⟩
    exact u.complete position name target (announced.trans reached.toAdvance) kept fineTarget
  | .aspects position tag names arguments =>
    refine Ends.bind (((Phrase.yieldsAll categories arguments c advance.toSteady).and
      (evaluateAll u arguments c advance start)).mono ?_ fun _ _ ↦ trivial)
    rintro linked d ⟨reached, kept, fineAll⟩
    exact Op.ends_at (u.declareAspects tag names linked
      (advance.trans reached.toAdvance) kept fineAll)
  | .after earlier last =>
    refine Ends.bind (((Phrase.yieldsAll categories earlier c advance.toSteady).and
      (evaluateAll u earlier c advance start)).mono ?_ fun _ _ ↦ trivial)
    rintro _ d ⟨reached, kept, -⟩
    exact evaluate u last d (advance.trans reached.toAdvance) kept
  | .stop reason => exact Ends.throw trivial

/-- Phrases keep the condition one after the other. -/
theorem evaluateAll (u : Maintains categories a holds fine) (phrases : List Phrase) (c : Catalog)
    (advance : Advance a c) (start : holds c) :
    Ends (Phrase.evaluateAll categories phrases) c (fun ids d ↦ holds d ∧ ∀ id ∈ ids, fine d id)
      fun _ ↦ True := by
  match phrases with
  | [] => exact Ends.pure ⟨start, by simp⟩
  | phrase :: phrases =>
    refine Ends.bind (((Phrase.yields categories phrase c advance.toSteady).and
      (evaluate u phrase c advance start)).mono ?_ fun _ _ ↦ trivial)
    rintro id d ⟨reached, kept, fineFirst⟩
    have further := advance.trans reached.toAdvance
    refine Ends.bind (((Phrase.yieldsAll categories phrases d further.toSteady).and
      (evaluateAll u phrases d further kept)).mono ?_ fun _ _ ↦ trivial)
    rintro ids e ⟨later, kept, fineRest⟩
    refine Ends.pure ⟨kept, fun other inside ↦ ?_⟩
    rcases List.mem_cons.mp inside with rfl | inside
    · exact u.grow later.toGrowth fineFirst
    · exact fineRest other inside

end

end Maintains

end CompositeSorts
