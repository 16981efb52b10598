import CompositeSorts.Proofs.Definition.Reprinting
import CompositeSorts.Proofs.Registry.Compiling
import CompositeSorts.Proofs.Registry.Identity

/-!
Canonical texts are definitions. In a registry that texts have built, defining the canonical text of
a sort that is no aspects tuple and no aspect makes one sort, and it has the same canonical text
(`defineAll_canonical`).

What shows in a canonical text are the structures of some sorts: the sort itself, parts without a
name and their parts without a name, and for a recursive sort what it stands for (`Exhibits`). All
else is shown by names, which are registered. Since no sort is made of itself, displays are read as
sorts by induction on ranks (`Rested.readable`).

There is one condition. Quoting escapes some characters in a way that the reader does not undo: a
tab is written as `\t`, which is read as a backslash and a `t`. A text with such a character is read
as another one, and the canonical text of what is made is not the same
(`exists_canonical_not_restored`).
-/

set_option autoImplicit false
set_option relaxedAutoImplicit false

namespace CompositeSorts

open Catalog Grammar Text

variable {c d : Catalog} {id other : SortId} {sort : SortRecord}
    {categories : CategoryTable} {r : Registry}

/-- The sort without its name, which only its structure shows. -/
def SortRecord.unnamed (sort : SortRecord) : SortRecord := { sort with name := none }

theorem SortRecord.unnamed_of_nameless (nameless : sort.name = none) : sort.unnamed = sort := by
  unfold unnamed
  rw [← nameless]

namespace Catalog

/-- The canonical text of a sort shows the structure of another: of itself, of a part without a
name, or of what a recursive sort stands for. -/
inductive Exhibits (c : Catalog) : SortId → SortId → Prop where
  | self (id : SortId) : Exhibits c id id
  | part {id part other : SortId} {sort record : SortRecord} (found : c.get id = .ok sort)
    (inside : part ∈ sort.body.parts) (there : c.get part = .ok record)
    (nameless : record.name = none) (behind : Exhibits c part other) : Exhibits c id other
  | through {id target other : SortId} {sort : SortRecord} (found : c.get id = .ok sort)
    (bound : sort.body = .recursive (some target)) (behind : Exhibits c target other) :
    Exhibits c id other

namespace Exhibits

theorem trans {between : SortId} (h : c.Exhibits id between) (h' : c.Exhibits between other) :
    c.Exhibits id other := by
  induction h with
  | self => exact h'
  | part found inside there nameless _ ih => exact .part found inside there nameless (ih h')
  | through found bound _ ih => exact .through found bound (ih h')

theorem congr (same : ∀ id, d.get id = c.get id) (h : d.Exhibits id other) :
    c.Exhibits id other := by
  induction h with
  | self => exact .self _
  | part found inside there nameless _ ih =>
    exact .part ((same _).symm.trans found) inside ((same _).symm.trans there) nameless ih
  | through found bound _ ih => exact .through ((same _).symm.trans found) bound ih

end Exhibits

/-- The reader restores the words in the canonical text of the sort from the way they are quoted. -/
def Restorable (c : Catalog) (id : SortId) : Prop :=
  ∀ other sort, c.Exhibits id other → c.get other = .ok sort → sort.body.Restorable

namespace Restorable

theorem of_exhibits (h : c.Restorable id) (exhibits : c.Exhibits id other) : c.Restorable other :=
  fun last sort behind ↦ h last sort (exhibits.trans behind)

theorem congr (h : c.Restorable id) (same : ∀ id, d.get id = c.get id) : d.Restorable id :=
  fun other sort exhibits found ↦ h other sort (exhibits.congr same) ((same other).symm.trans found)

/-- It does so in particular if it restores all words. -/
theorem of_sorts (sound : c.Sound) (all : ∀ sort ∈ c.sorts, sort.body.Restorable) (id : SortId) :
    c.Restorable id := by
  intro other sort _ found
  have listed : other ∈ c.history := (sound.listed other).mpr ⟨sort, found⟩
  refine all sort (List.mem_filterMap.mpr ⟨other, List.mem_reverse.mpr listed, ?_⟩)
  exact (get_eq_ok_iff.mp found).2

end Restorable

theorem exists_sorts {ids : List SortId} (live : ∀ id ∈ ids, c.Live id) :
    ∃ sorts, ids.mapM c.get = .ok sorts ∧ ∀ sort ∈ sorts, ∃ id ∈ ids, c.get id = .ok sort := by
  induction ids with
  | nil => exact ⟨[], rfl, fun _ inside ↦ absurd inside List.not_mem_nil⟩
  | cons id ids ih =>
    obtain ⟨⟨sort, found⟩, behind⟩ := List.forall_mem_cons.mp live
    obtain ⟨sorts, all, each⟩ := ih behind
    refine ⟨sort :: sorts, mapM_eq_ok_iff.mpr (.cons found (mapM_eq_ok_iff.mp all)), ?_⟩
    refine List.forall_mem_cons.mpr ⟨⟨id, List.mem_cons_self, found⟩, fun other inside ↦ ?_⟩
    obtain ⟨id', among, there⟩ := each other inside
    exact ⟨id', List.mem_cons_of_mem _ among, there⟩

namespace Rested

/-- A sort that is no growing disjunction shows no sum. -/
theorem unsummed (h : c.Rested) (found : c.get id = .ok sort) (closed : ¬ sort.Growing) :
    Unsummed sort.display := by
  obtain ⟨shown, exposed⟩ := h.exposed found
  exact ⟨shown, exposed.exposes, fun plus ↦ closed
    (SortRecord.growing_of_look (exposed.plus.mp plus))⟩

/-- A named sort is read from its name. -/
theorem readable_of_named (h : c.Rested) (worded : Worded categories c)
    (found : c.get id = .ok sort) (plain : sort.variant ≠ .aspects) {name : String}
    (named : sort.name = some name) :
    Readable categories c sort := by
  refine .of_factor ?_
  rw [SortRecord.display_of_named named]
  exact ⟨_, prints_reference (worded.named found plain named), trivial,
    Tree.revives_reference (h.registered found named) found named⟩

section

/-! ### Sorts without their names -/

variable (parts : ∀ part ∈ sort.body.parts, ∀ record, c.get part = .ok record →
  record.variant ≠ .aspects → Readable categories c record)

include parts

theorem readable_primitive (h : c.Rested) (worded : Worded categories c)
    (found : c.get id = .ok sort) {tag : String} {argument : Option Argument}
    (made : sort.body = .primitive tag argument)
    (restorable : sort.body.Restorable) : Readable categories c sort.unnamed := by
  have fits := h.fits found
  have kind : sort.unnamed.variant = .primitive := congrArg Body.variant made
  have rendered := fits.rendered (by rw [SortRecord.variant, made]; rintro ⟨⟩)
  have composed := fits.composed
  have spelled := worded.body found
  rw [made] at rendered composed spelled parts restorable
  have written : c.primitiveText tag argument = .ok sort.unnamed.canonical := rendered
  obtain ⟨word, shape, known, fine⟩ := spelled
  refine .of_factor ?_
  change ReadsAs categories c .factor sort.unnamed.canonical sort.unnamed
  have readsAs (literal : Literal) (given : argument = some literal.argument) :
      ReadsAs categories c .factor sort.unnamed.canonical sort.unnamed := by
    subst given
    exact readsAs_literal word known (fine _ rfl).1 (fine _ rfl).2 restorable rfl kind written
  cases argument with
  | none =>
    have bare : (Tree.primitive tag none).Fits categories := ⟨shape, known, by rintro _ ⟨⟩⟩
    refine ⟨_, ?_, bare, Tree.revives_primitive known rfl kind fun _ ↦ written⟩
    rw [← Except.ok.inj written]
    exact prints_bare word
  | some argument =>
    cases argument with
    | identifier text => exact readsAs (.identifier text) rfl
    | bound lexeme => exact readsAs (.bound lexeme) rfl
    | locale language region => exact readsAs (.locale language region) rfl
    | sorts linked =>
      obtain ⟨suits, some_⟩ := fine _ rfl
      obtain rfl : shape = .sorts linked.length := by
        cases shape with
        | sorts arity => exact congrArg ParamShape.sorts suits.symm
        | _ => exact suits.elim
      obtain ⟨sorts, all, each⟩ := exists_sorts fun id inside ↦ by
        obtain ⟨record, there, -⟩ := composed id inside
        exact ⟨record, there⟩
      have plain : ∀ part ∈ sorts, part.variant ≠ .aspects := by
        intro part inside
        obtain ⟨id, among, there⟩ := each part inside
        obtain ⟨record, there', noTuple⟩ := composed id among
        rw [there] at there'
        cases there'
        exact noTuple
      refine readsAs_linked word known some_ all plain (fun part inside ↦ ?_) rfl kind written
      obtain ⟨id, among, there⟩ := each part inside
      exact parts id among part there (plain part inside)

theorem readable_weighted (h : c.Rested) (found : c.get id = .ok sort) {base weight : SortId}
    (made : sort.body = .weighted base weight) : Readable categories c sort.unnamed := by
  have fits := h.fits found
  have kind : sort.unnamed.variant = .weighted := congrArg Body.variant made
  have rendered := fits.rendered (by rw [SortRecord.variant, made]; rintro ⟨⟩)
  have composed := fits.composed
  rw [made] at rendered composed parts
  obtain ⟨⟨b, foundBase, simple⟩, w, foundWeight, plain⟩ := composed
  rw [rendering_weighted foundBase foundWeight] at rendered
  have isBase := parts base List.mem_cons_self b foundBase
    (SortRecord.variant_ne_aspects_of_simple simple)
  have isWeight := parts weight (List.mem_cons_of_mem _ List.mem_cons_self) w foundWeight plain
  have composite : ¬ sort.unnamed.body.isSimple := by
    change ¬ sort.body.isSimple
    rw [made]
    rintro ⟨⟩
  refine .of_term composite ?_
  change ReadsAs categories c .term sort.unnamed.canonical sort.unnamed
  exact readsAs_weighted isBase isWeight simple plain rfl kind (Except.ok.inj rendered).symm

theorem readable_disjunctive (h : c.Rested) (found : c.get id = .ok sort) {components : List SortId}
    (made : sort.body = .disjunctive components) : Readable categories c sort.unnamed := by
  have fits := h.fits found
  have growing : sort.unnamed.Growing := ⟨rfl, congrArg Body.variant made⟩
  have rendered := fits.rendered (by rw [SortRecord.variant, made]; rintro ⟨⟩)
  have composed := fits.composed
  rw [made] at rendered composed parts
  obtain ⟨members, apart⟩ := composed
  obtain ⟨sorts, all, each⟩ := exists_sorts fun id inside ↦ by
    obtain ⟨part, there, -⟩ := members id inside
    exact ⟨part, there⟩
  have shown := displays_eq_of_mapM all
  rw [map_display_of_displays shown] at apart
  have written : sort.unnamed.canonical = disjunctiveText (sorts.map SortRecord.display) := by
    obtain ⟨texts, shown', canonical⟩ := exists_of_map_eq_ok rendered
    rw [shown] at shown'
    cases shown'
    exact canonical.symm
  have several : 2 ≤ sorts.length := by
    rw [← (mapM_eq_ok_iff.mp all).length_eq]
    exact h.several found made
  refine .of_growing growing ?_
  change ReadsAs categories c .expression sort.unnamed.canonical sort.unnamed
  refine readsAs_disjunctive growing several (apart.of_map _) (fun part inside ↦ ?_) written
  obtain ⟨id, among, there⟩ := each part inside
  obtain ⟨record, there', plain, closed⟩ := members id among
  rw [there] at there'
  cases there'
  exact ⟨plain, closed, h.unsummed there closed, parts id among part there plain⟩

end

/-- A sort that is made of sorts is read from its structure, if these are read from their
displays. -/
theorem readable_unnamed (h : c.Rested) (worded : Worded categories c) (found : c.get id = .ok sort)
    (kind : sort.variant = .primitive ∨ sort.variant = .weighted ∨ sort.variant = .disjunctive)
    (restorable : c.Restorable id)
    (parts : ∀ part ∈ sort.body.parts, ∀ record, c.get part = .ok record →
      record.variant ≠ .aspects → (record.name = none → c.Restorable part) →
      Readable categories c record) : Readable categories c sort.unnamed := by
  have below : ∀ part ∈ sort.body.parts, ∀ record, c.get part = .ok record →
      record.variant ≠ .aspects → Readable categories c record := by
    intro part inside record there plain
    exact parts part inside record there plain fun nameless ↦
      restorable.of_exhibits (.part found inside there nameless (.self part))
  have own := restorable id sort (.self id) found
  unfold SortRecord.variant at kind
  cases made : sort.body with
  | primitive => exact readable_primitive below h worded found made own
  | weighted => exact readable_weighted below h found made
  | disjunctive => exact readable_disjunctive below h found made
  | _ =>
    rw [made] at kind
    rcases kind with kind | kind | kind <;> cases kind

/-- The display of a sort that is no tuple is read as the sort. -/
theorem readable (h : c.Rested) (worded : Worded categories c) (found : c.get id = .ok sort)
    (plain : sort.variant ≠ .aspects) (restorable : sort.name = none → c.Restorable id) :
    Readable categories c sort := by
  obtain ⟨rank, above⟩ := h.ranked
  induction place : rank id using Nat.strongRecOn generalizing id sort with
  | ind n ih =>
    cases named : sort.name with
    | some name => exact h.readable_of_named worded found plain named
    | none =>
      rw [← SortRecord.unnamed_of_nameless named]
      refine h.readable_unnamed worded found ((h.fits found).nameless named) (restorable named) ?_
      intro part inside record there plain' restorable'
      exact ih (rank part) (place ▸ above found part inside) there plain' restorable' rfl

/-! ### What a sort stands for -/

/-- Following instances from a sort that is no tuple and no aspect never leads to one. -/
theorem exists_exhibited {text : String} {counts : ComponentCounts} {steps : Nat} (h : c.Rested)
    (worded : Worded categories c) (settles : c.Settles id text counts steps)
    (found : c.get id = .ok sort) (noTuple : sort.variant ≠ .aspects)
    (noAspect : sort.variant ≠ .aspect) :
    ∃ other goal, c.Exhibits id other ∧ c.get other = .ok goal ∧ goal.canonical = text ∧
      (goal.variant = .primitive ∨ goal.variant = .weighted ∨ goal.variant = .disjunctive) := by
  induction settles generalizing sort with
  | @here id goal there plain =>
    rw [found] at there
    cases there
    refine ⟨id, goal, .self id, found, rfl, ?_⟩
    cases kind : goal.variant <;> simp_all
  | @through id target record steps there bound _ ih =>
    rw [found] at there
    cases there
    have composed := (h.fits found).composed
    rw [bound] at composed
    obtain ⟨next, foundNext, noTuple'⟩ := composed
    obtain ⟨other, goal, exhibits, rest⟩ :=
      ih foundNext noTuple' (worded.bound found bound foundNext)
    exact ⟨other, goal, .through found bound exhibits, rest⟩

/-- The canonical text of a sort that is no tuple and no aspect is read as a sort of this text. -/
theorem readsAs_canonical (h : c.Rested) (worded : Worded categories c)
    (found : c.get id = .ok sort) (noTuple : sort.variant ≠ .aspects)
    (noAspect : sort.variant ≠ .aspect)
    (restorable : c.Restorable id) : ∃ goal,
      ReadsAs categories c .expression sort.canonical goal ∧ goal.canonical = sort.canonical := by
  obtain ⟨steps, settles⟩ : ∃ steps, c.Settles id sort.canonical sort.counts steps := by
    cases made : sort.body with
    | recursive target =>
      cases target with
      | none => exact absurd made (h.bound found)
      | some target => exact h.settled found made
    | _ => exact ⟨0, .here found (by rw [SortRecord.variant, made]; rintro ⟨⟩)⟩
  obtain ⟨other, goal, exhibits, there, same, kind⟩ :=
    h.exists_exhibited worded settles found noTuple noAspect
  have readable := h.readable_unnamed worded there kind (restorable.of_exhibits exhibits)
    fun part _ record there plain restorable ↦ h.readable worded there plain restorable
  rw [← same]
  exact ⟨goal.unnamed, readable.expression, rfl⟩

end Rested

end Catalog

namespace Registry

/-- A text that is read as a sort defines a copy of it. -/
theorem exists_defineAll_copy {text : String} (h : r.catalog.Rested)
    (reads : ReadsAs r.categories r.catalog.openSession .expression text sort) :
    ∃ id, (r.defineAll text).1 = .ok [id] ∧ (r.defineAll text).2.catalog.Copy id sort := by
  obtain ⟨tree, ⟨kinds, derives, typesets⟩, fits, revives⟩ := reads
  obtain ⟨id, d, run, -, copy⟩ := revives r.catalog.openSession (.refl h.openSession.toSteady) rfl
  have all : Tree.runAll r.categories [tree] r.catalog.openSession = .ok [id] d := by
    rw [Tree.runAll, Ends.run_bind run]
    rfl
  have allFit : Tree.AllFit r.categories [tree] := ⟨fits, trivial⟩
  have comes := defineAll_written allFit (.lastItem (.plain derives)) typesets.layout
  rw [all] at comes
  have answer : r.defineAll text =
      (.ok [id], { r with catalog := d.note (.definitionsCompiled 1) }) := comes
  rw [answer]
  exact ⟨id, rfl, copy⟩

/-- Canonical texts are definitions. In a registry that texts have built, take a primitive sort, an
attribute, a disjunction or a recursive sort. If the reader restores the words in its canonical text
from the way they are quoted, then this text defines one sort, and that has the same canonical
text. -/
theorem defineAll_canonical (reached : Reachable ByText r) (found : r.catalog.get id = .ok sort)
    (noTuple : sort.variant ≠ .aspects) (noAspect : sort.variant ≠ .aspect)
    (restorable : r.catalog.Restorable id) :
    ∃ id' copy, (r.defineAll sort.canonical).1 = .ok [id'] ∧
      (r.defineAll sort.canonical).2.catalog.get id' = .ok copy ∧
      copy.canonical = sort.canonical := by
  have rested : r.catalog.openSession.Rested :=
    ⟨reached.rested.openSession, rfl, fun _ _ _ _ ↦ List.not_mem_nil⟩
  have worded : Worded r.categories r.catalog.openSession :=
    reached.worded.of_get fun _ _ there ↦ there
  have same : ∀ id, r.catalog.openSession.get id = r.catalog.get id := fun _ ↦ rfl
  obtain ⟨goal, reads, canonical⟩ := rested.readsAs_canonical worded ((same id).trans found) noTuple
    noAspect (restorable.congr same)
  obtain ⟨id', answer, copy, there, repeats⟩ := exists_defineAll_copy reached.rested reads
  exact ⟨id', copy, answer, there, repeats.canonical.trans canonical⟩

/-- A recursive sort, with a sum in parentheses and with quotes, a backslash and a line end in a
word. -/
theorem defineAll_canonical_sample :
    let r := sample.perform (.defineAll "r: [Label] \"say \\\"a\\\\b\\\"\\n\" ^ (r + [Count] 3)")
    ∃ sort, r.catalog.get ⟨⟨0⟩, ⟨1, 0⟩⟩ = .ok sort ∧
      sort.canonical = "[Label] \"say \\\"a\\\\b\\\"\\n\"^([Count] 3+r)" ∧
      sort.variant = .recursive ∧
      ∃ id' copy, (r.defineAll sort.canonical).1 = .ok [id'] ∧
        (r.defineAll sort.canonical).2.catalog.get id' = .ok copy ∧
        copy.canonical = sort.canonical := by
  intro r
  have reached : Reachable ByText r := (reachable_sample _).next (by decide +kernel)
  have seen : (r.catalog.get ⟨⟨0⟩, ⟨1, 0⟩⟩).toOption.any (fun sort ↦
      decide (sort.canonical = "[Label] \"say \\\"a\\\\b\\\"\\n\"^([Count] 3+r)" ∧
        sort.variant = .recursive ∧ ∀ sort ∈ r.catalog.sorts, sort.body.Restorable)) = true := by
    decide +kernel
  cases found : r.catalog.get ⟨⟨0⟩, ⟨1, 0⟩⟩ with
  | error reason =>
    rw [found] at seen
    cases seen
  | ok sort =>
    rw [found] at seen
    obtain ⟨canonical, recursive, restorable⟩ := of_decide_eq_true seen
    exact ⟨sort, rfl, canonical, recursive, defineAll_canonical reached found
      (by rw [recursive]; decide)
      (by rw [recursive]; decide) (.of_sorts reached.rested.toSound restorable _)⟩

/-- A tab in a word is written as `\t`, and this is read as a backslash and a `t`. -/
theorem exists_canonical_not_restored :
    ¬ ∀ r : Registry, Reachable ByText r → ∀ id sort, r.catalog.get id = .ok sort →
      sort.variant ≠ .aspects → sort.variant ≠ .aspect →
      ∃ id' copy, (r.defineAll sort.canonical).1 = .ok [id'] ∧
        (r.defineAll sort.canonical).2.catalog.get id' = .ok copy ∧
        copy.canonical = sort.canonical := by
  intro restores
  let r := sample.perform (.defineAll "[Label] \"a\tb\"")
  let after := r.defineAll "[Label] \"a\\tb\""
  have seen : (r.catalog.get ⟨⟨0⟩, ⟨0, 0⟩⟩).toOption.any (fun sort ↦
      (after.2.catalog.get ⟨⟨0⟩, ⟨1, 0⟩⟩).toOption.any fun copy ↦
        decide (sort.canonical = "[Label] \"a\\tb\"" ∧ sort.variant = .primitive ∧
          after.1 = .ok [⟨⟨0⟩, ⟨1, 0⟩⟩] ∧ copy.canonical = "[Label] \"a\\\\tb\"")) = true := by
    decide +kernel
  cases found : r.catalog.get ⟨⟨0⟩, ⟨0, 0⟩⟩ with
  | error reason =>
    rw [found] at seen
    cases seen
  | ok sort =>
    cases there : after.2.catalog.get ⟨⟨0⟩, ⟨1, 0⟩⟩ with
    | error reason =>
      rw [found, there] at seen
      cases seen
    | ok copy =>
      rw [found, there] at seen
      obtain ⟨canonical, primitive, answer, differs⟩ := of_decide_eq_true seen
      obtain ⟨id', copy', answer', there', same⟩ :=
        restores r ((reachable_sample _).next (by decide +kernel))
        _ sort found (by rw [primitive]; decide) (by rw [primitive]; decide)
      rw [canonical] at answer' there' same
      obtain rfl : id' = ⟨⟨0⟩, ⟨1, 0⟩⟩ := by simpa using answer'.symm.trans answer
      obtain rfl : copy' = copy := Except.ok.inj (there'.symm.trans there)
      exact absurd (same.symm.trans differs) (by decide)

end Registry

end CompositeSorts
