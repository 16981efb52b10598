import CompositeSorts.Proofs.Definition.Silent
import CompositeSorts.Proofs.Definition.Wording

/-!
Worded sorts. The names, tags and numbers of the sorts that texts make are tokens. The reader of a
text asks a category what arguments it takes, and what it reads suits the answer; so the categories
of primitive sorts are known and their arguments suit them. No recursive sort stands for an aspect.
By induction on phrases all of this goes on to hold (`Phrase.words`).
-/

set_option autoImplicit false
set_option relaxedAutoImplicit false

namespace CompositeSorts

open Catalog Evaluation Text

variable {a c : Catalog} {categories : CategoryTable} {position : Position} {name : String}

/-- The argument of a primitive sort suits its category. -/
def Body.Suits (categories : CategoryTable) : Body → Prop
  | .primitive tag (some argument) =>
    ∃ shape, categories.shape? tag = some shape ∧ argument.Suits shape
  | _ => True

/-- A number is a numeral, and a tuple has a sort at least. -/
def Argument.Worded : Argument → Prop
  | .bound lexeme => IsNumeral lexeme.toList
  | .sorts linked => linked ≠ []
  | _ => True

/-- The category of a primitive sort is known, its tag is a word, and the argument suits it. -/
def Body.Worded (categories : CategoryTable) : Body → Prop
  | .primitive tag argument => isIdentifier tag.toList = true ∧
      ∃ shape, categories.lookup tag = .known shape ∧
        ∀ value, argument = some value → value.Suits shape ∧ value.Worded
  | _ => True

theorem Body.Worded.suits {body : Body} (h : body.Worded categories) : body.Suits categories := by
  unfold Body.Suits
  split
  · obtain ⟨-, shape, known, suiting⟩ := h
    exact ⟨shape, ((categories.lookup_eq_known_iff _ shape).mp known).2, (suiting _ rfl).1⟩
  · trivial

/-- The trait of sorts that texts make: they are made of tokens, and no recursive sort stands for an
aspect. Only the name of a tuple is no token. -/
def Catalog.Trait.worded (categories : CategoryTable) : Trait where
  holds c name body := body.Worded categories ∧
    (body.variant ≠ .aspects → ∀ text, name = some text → isIdentifier text.toList = true) ∧
    ∀ target, body = .recursive (some target) →
      ∃ goal, c.get target = .ok goal ∧ goal.variant ≠ .aspect
  stays {c d name body} h resembles := by
    refine ⟨h.1, h.2.1, fun target bound ↦ ?_⟩
    obtain ⟨goal, found, noAspect⟩ := h.2.2 target bound
    obtain ⟨later, found', same⟩ := resembles target goal found
    exact ⟨later, found', same ▸ noAspect⟩

/-- Of a sort that is no primitive sort and not bound, only the name has to be a word. -/
theorem Catalog.Trait.worded_of_variant {name : Option String} {body : Body}
    (plain : body.variant ≠ .primitive) (unbound : ∀ target, body ≠ .recursive (some target))
    (word : body.variant ≠ .aspects → ∀ text, name = some text → isIdentifier text.toList = true) :
    (Trait.worded categories).holds c name body := by
  refine ⟨?_, word, fun target bound ↦ absurd bound (unbound target)⟩
  cases body with
  | primitive => exact absurd rfl plain
  | _ => trivial

/-- A primitive sort without a name only has to be worded itself. -/
theorem Catalog.Trait.worded_of_primitive {tag : String} {argument : Option Argument}
    (worded : (Body.primitive tag argument).Worded categories) :
    (Trait.worded categories).holds c none (.primitive tag argument) := by
  refine ⟨worded, ?_, ?_⟩
  · rintro - text ⟨⟩
  · rintro target ⟨⟩

theorem Catalog.Trait.composite_worded : (Trait.worded categories).Composite := by
  intro c body kind
  refine worded_of_variant ?_ ?_ fun _ text nameless ↦ nomatch nameless
  · rcases kind with kind | kind <;> rw [kind] <;> decide
  · rintro target rfl
    rcases kind with kind | kind <;> cases kind

namespace Catalog.Lasting

variable {t : Trait}

/-- Definitions begin and end. -/
theorem withPending (h : Lasting t a c) {pending : List Pending}
    (awaited : ∀ p ∈ pending, ∀ id, p.placeholder = some id →
      ∃ sort, c.get id = .ok sort ∧ sort.name = some p.name) :
    Lasting t a { c with pending := pending } :=
  h.congr (h.toSteady.withPending awaited) fun _ ↦ rfl

theorem announced (h : Lasting t a c) (name : String) :
    Lasting t a { c with pending := ⟨name, none⟩ :: c.pending } := by
  refine h.withPending fun pending inside id stands ↦ ?_
  rcases List.mem_cons.mp inside with rfl | inside
  · cases stands
  · exact h.awaited pending inside id stands

theorem lasts_lookUp (h : Lasting t a c) (fine : ∀ c, t.holds c (some name) (.recursive none)) :
    Ends (lookUp position name) c (fun _ d ↦ Lasting t a d) (Lasting t a) := by
  refine Ends.bind (Op.ends_at (Op.ends_mention ?_ ?_ ?_))
  · intro _
    refine Ends.bind (Ends.get ?_)
    split
    · exact Ends.pure h
    · exact ends_fail h
  · exact fun _ _ _ ↦ Ends.pure h
  · intro index _
    have found : (c.add (some name) name .ofPlaceholder (.recursive none)).get c.nextId = .ok _ :=
      get_add_nextId h.toRooted
    have added : Lasting t a (c.add (some name) name .ofPlaceholder (.recursive none)) :=
      h.add (fine c) (by rintro components ⟨⟩)
    refine Ends.pure ((added.withPending ?_).note _)
    intro pending inside id stands
    rcases List.mem_or_eq_of_mem_set inside with before | rfl
    · exact added.awaited pending before id stands
    · cases stands
      exact ⟨_, found, rfl⟩

/-- The end of a definition binds the sort that stands for its name, or copies the body. -/
theorem lasts_complete {body : SortId} (h : Lasting t a c)
    (renamed : ∀ c old body, t.holds c old body → t.holds c (some name) body)
    (bound : ∀ innermost outer, c.pending = innermost :: outer → innermost.placeholder ≠ none →
      ∀ name, t.holds c name (.recursive none) → t.holds c name (.recursive (some body))) :
    Ends (complete position name body) c (fun _ d ↦ Lasting t a d) (Lasting t a) := by
  have concluded : Ends Op.conclude c (fun ended d ↦ Lasting t a d ∧
      ∀ placeholder, ended.bind Pending.placeholder = some placeholder →
        ∀ name, t.holds d name (.recursive none) → t.holds d name (.recursive (some body)))
      (Lasting t a) := by
    refine Op.ends_conclude (fun _ ↦ ⟨h, by rintro _ ⟨⟩⟩) fun innermost outer under ↦ ⟨?_, ?_⟩
    · refine h.withPending fun pending inside ↦ h.awaited pending ?_
      rw [under]
      exact List.mem_cons_of_mem _ inside
    · intro placeholder stands name fine
      have fine' := bound innermost outer under (fun none ↦ by
        rw [Option.bind_some, none] at stands
        cases stands) name (t.stays fine (resembles_of_get_eq fun _ ↦ rfl))
      exact t.stays fine' (resembles_of_get_eq fun _ ↦ rfl)
  refine Ends.bind ((Op.ends_at concluded).mono (fun ended d ⟨reached, fine⟩ ↦ ?_)
    fun _ failed ↦ failed)
  split
  · rename_i placeholder stands
    split_ifs
    · exact Ends.bind (ends_fail reached)
    · refine Ends.bind ((Op.ends_at (reached.lasts_bind (fine placeholder stands))).mono
        (fun _ e bound ↦ ?_) fun _ failed ↦ failed)
      refine Ends.bind ((Op.ends_at (safe_register placeholder a e bound)).mono
        (fun _ f last ↦ Ends.pure last) fun _ failed ↦ failed)
  · refine Ends.bind (Ends.get ?_)
    split
    · exact ends_fail reached
    · refine Ends.bind ((Op.ends_at (safe_duplicate body name renamed a d reached)).mono
        (fun named e copied ↦ ?_) fun _ failed ↦ failed)
      refine Ends.bind ((Op.ends_at (safe_register named a e copied)).mono
        (fun _ f last ↦ Ends.pure last) fun _ failed ↦ failed)

end Catalog.Lasting

open Catalog.Lasting

/-- There are as many answers as phrases. -/
theorem Phrase.length_evaluateAll (categories : CategoryTable) (phrases : List Phrase)
    (c : Catalog) : Ends (Phrase.evaluateAll categories phrases) c
      (fun ids _ ↦ ids.length = phrases.length) fun _ ↦ True := by
  induction phrases generalizing c with
  | nil => exact Ends.pure rfl
  | cons phrase phrases ih =>
    refine Ends.bind ((Ends.of_forall fun _ d ↦ ?_))
    exact Ends.bind ((ih d).mono (fun ids _ same ↦ Ends.pure (congrArg Nat.succ same))
      fun _ _ ↦ trivial)

mutual

/-- Evaluating a phrase keeps sorts worded. -/
theorem Phrase.words (phrase : Phrase) (c : Catalog) (h : Lasting (.worded categories) a c)
    (formed : Formed [] c) (spelled : phrase.Spelled categories)
    (worded : phrase.Worded .written categories) : Ends (phrase.evaluate categories) c
      (fun _ d ↦ Lasting (.worded categories) a d) fun _ ↦ True := by
  match phrase with
  | .reference position name =>
    refine (lasts_lookUp h fun _ ↦ ?_).mono (fun _ _ reached ↦ reached) fun _ _ ↦ trivial
    refine Trait.worded_of_variant (by decide) (by rintro target ⟨⟩) ?_
    rintro - text ⟨⟩
    exact worded.2
  | .primitive position tag argument =>
    refine Op.ends_at ((safe_primitive (fun _ shape known ↦ ?_) a c h).mono
      (fun _ _ reached ↦ reached)
      fun _ _ ↦ trivial)
    refine Trait.worded_of_primitive ⟨worded.2.1, shape, known, fun value given ↦ ?_⟩
    cases argument with
    | none => cases given
    | some literal =>
      cases given
      obtain ⟨written, shape', shaped, suits⟩ := worded.2.2 literal rfl
      obtain rfl : shape = shape' := Option.some.inj <|
        ((categories.lookup_eq_known_iff tag shape).mp known).2.symm.trans shaped
      refine ⟨suits, ?_⟩
      cases literal with
      | bound lexeme => exact written
      | _ => trivial
  | .linked position tag arguments =>
    refine Ends.bind (((Phrase.wordsAll arguments c h formed spelled.2.1 worded.2.2.1).and
      (Phrase.length_evaluateAll categories arguments c)).mono ?_ fun _ _ ↦ trivial)
    rintro linked d ⟨reached, length⟩
    refine Op.ends_at ((safe_primitive (fun _ shape known ↦ ?_) a d reached).mono
      (fun _ _ last ↦ last) fun _ _ ↦ trivial)
    refine Trait.worded_of_primitive ⟨worded.2.1, shape, known, ?_⟩
    rintro _ ⟨⟩
    obtain rfl : shape = .sorts arguments.length := Option.some.inj <|
      ((categories.lookup_eq_known_iff tag shape).mp known).2.symm.trans worded.2.2.2.1
    refine ⟨length, fun none ↦ worded.2.2.2.2 ?_⟩
    rw [← List.length_eq_zero_iff, ← length, none, List.length_nil]
  | .weighted position base weight =>
    refine Ends.bind (((Phrase.words base c h formed spelled.1 worded.2.1).and
      (Phrase.forms categories base c formed spelled.1)).mono ?_ fun _ _ ↦ trivial)
    rintro b d ⟨reached, forms⟩
    refine Ends.bind ((Phrase.words weight d reached forms.formed spelled.2 worded.2.2).mono ?_
      fun _ _ ↦ trivial)
    intro w e last
    exact Op.ends_at ((safe_combine Trait.composite_worded b w a e last).mono (fun _ _ kept ↦ kept)
      fun _ _ ↦ trivial)
  | .sum position left right =>
    refine Ends.bind (((Phrase.words left c h formed spelled.1 worded.2.1).and
      (Phrase.forms categories left c formed spelled.1)).mono ?_ fun _ _ ↦ trivial)
    rintro l d ⟨reached, forms⟩
    refine Ends.bind ((Phrase.words right d reached forms.formed spelled.2 worded.2.2).mono ?_
      fun _ _ ↦ trivial)
    intro r e last
    exact Op.ends_at ((safe_sum Trait.composite_worded l r a e last).mono (fun _ _ kept ↦ kept)
      fun _ _ ↦ trivial)
  | .definition position name body =>
    refine Ends.bind (Op.ends_at (Op.ends_announce trivial fun apart _ ↦ ?_))
    have announced := formed.announce spelled.1 apart
    refine Ends.bind (((Phrase.words body _ (h.announced name) announced spelled.2 worded.2.2).and
      ((Phrase.yields categories body _ announced.toSteady).and
        (Phrase.silent categories body _ announced spelled.2))).mono ?_ fun _ _ ↦ trivial)
    rintro target d ⟨reached, yields, silent⟩
    refine (lasts_complete reached (fun _ _ _ fine ↦ ?_) ?_).mono
      (fun _ _ last ↦ last) fun _ _ ↦ trivial
    · refine ⟨fine.1, ?_, fine.2.2⟩
      rintro - text ⟨⟩
      exact worded.2.1
    · intro innermost outer under mentioned carried fine
      refine ⟨trivial, fun _ ↦ fine.2.1 (by decide), ?_⟩
      rintro _ ⟨⟩
      obtain ⟨goal, found, -⟩ := yields.obtained
      refine ⟨goal, found, fun aspect ↦ mentioned ?_⟩
      have same := silent.aspect goal found aspect
      rw [under] at same
      rw [(List.cons.inj same).1]
  | .aspects position tag names arguments =>
    refine Ends.bind ((Phrase.wordsAll arguments c h formed spelled.2.2 worded.2.2.2).mono ?_
      fun _ _ ↦ trivial)
    intro linked d reached
    refine Op.ends_at ((safe_declareAspects names linked (fun _ _ _ name inside ↦ ?_)
      (fun _ _ _ ↦ ?_) a d reached).mono (fun _ _ last ↦ last) fun _ _ ↦ trivial)
    · refine Trait.worded_of_variant (by rintro ⟨⟩) (by rintro target ⟨⟩) ?_
      rintro - text ⟨⟩
      exact worded.2.2.1 name inside
    · exact Trait.worded_of_variant (by rintro ⟨⟩) (by rintro target ⟨⟩)
        fun tuple ↦ absurd rfl tuple
  | .after earlier last =>
    refine Ends.bind ((Ends.of_any _ c).mono (fun _ d _ ↦ ?_) fun _ _ ↦ trivial)
    refine (Phrase.ends_of_broken categories last d spelled.2.2).mono ?_ fun _ _ ↦ trivial
    exact fun _ _ never ↦ never.elim
  | .stop reason => exact Ends.throw trivial

/-- So does evaluating phrases one after the other. -/
theorem Phrase.wordsAll (phrases : List Phrase) (c : Catalog) (h : Lasting (.worded categories) a c)
    (formed : Formed [] c) (spelled : AllSpelled categories phrases)
    (worded : AllWorded .written categories phrases) :
    Ends (Phrase.evaluateAll categories phrases) c
      (fun _ d ↦ Lasting (.worded categories) a d) fun _ ↦ True := by
  match phrases with
  | [] => exact Ends.pure h
  | phrase :: phrases =>
    refine Ends.bind (((Phrase.words phrase c h formed spelled.1 worded.1).and
      (Phrase.forms categories phrase c formed spelled.1)).mono ?_ fun _ _ ↦ trivial)
    rintro id d ⟨reached, forms⟩
    refine Ends.bind ((Phrase.wordsAll phrases d reached forms.formed spelled.2 worded.2).mono ?_
      fun _ _ ↦ trivial)
    exact fun ids e last ↦ Ends.pure last

end

end CompositeSorts
