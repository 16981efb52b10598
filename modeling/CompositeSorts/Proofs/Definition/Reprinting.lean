import CompositeSorts.Proofs.Catalog.Structure
import CompositeSorts.Proofs.Definition.Printing
import CompositeSorts.Proofs.Definition.Reviving
import CompositeSorts.Proofs.Definition.Suiting

/-!
Texts that are read as sorts. A text is read as a sort when it is a way to write a tree that fits
the categories and revives the sort (`ReadsAs`). The display of a sort can stand as a factor, as a
term or as an expression in the canonical text of another sort, depending on what it looks like
(`Readable`): only a growing disjunction is no term, and as a factor only the display of a simple
sort is needed.

There is one lemma for each kind of canonical text. What is shown in it is read as sorts by
assumption; the lemma prints the parts, and revives the whole.
-/

set_option autoImplicit false
set_option relaxedAutoImplicit false

namespace CompositeSorts

open Catalog Grammar Text

variable {c : Catalog} {sort b w : SortRecord} {sorts : List SortRecord}
    {categories : CategoryTable}
  {part : Tree → Part} {text tag : String}

/-- The text, as such a part, is a way to write a tree that fits and leads to a copy of the sort. -/
def ReadsAs (categories : CategoryTable) (c : Catalog) (part : Tree → Part) (text : String)
    (sort : SortRecord) : Prop :=
  ∃ tree, Prints part tree text ∧ tree.Fits categories ∧ tree.Revives categories c sort

/-- The display of the sort is read as the sort wherever it can stand in a canonical text. -/
structure Readable (categories : CategoryTable) (c : Catalog) (sort : SortRecord) : Prop where
  factor : sort.body.isSimple → ReadsAs categories c .factor sort.display sort
  term : ¬ sort.Growing → ReadsAs categories c .term sort.display sort
  expression : ReadsAs categories c .expression sort.display sort

theorem ReadsAs.term (h : ReadsAs categories c .factor text sort) :
    ReadsAs categories c .term text sort := by
  obtain ⟨tree, prints, fits, revives⟩ := h
  exact ⟨tree, prints.term, fits, revives⟩

theorem ReadsAs.expression (h : ReadsAs categories c .term text sort) :
    ReadsAs categories c .expression text sort := by
  obtain ⟨tree, prints, fits, revives⟩ := h
  exact ⟨tree, prints.expression, fits, revives⟩

namespace Readable

theorem of_factor (h : ReadsAs categories c .factor sort.display sort) :
    Readable categories c sort :=
  ⟨fun _ ↦ h, fun _ ↦ h.term, h.term.expression⟩

theorem of_term (composite : ¬ sort.body.isSimple)
    (h : ReadsAs categories c .term sort.display sort) :
    Readable categories c sort :=
  ⟨fun simple ↦ absurd simple composite, fun _ ↦ h, h.expression⟩

theorem of_growing (growing : sort.Growing) (h : ReadsAs categories c .expression
    sort.display sort) :
    Readable categories c sort :=
  ⟨fun simple ↦ absurd growing (SortRecord.not_growing_of_simple simple),
    fun closed ↦ absurd growing closed, h⟩

/-- As a weight, the display of a growing disjunction stands in parentheses. -/
theorem weight (h : Readable categories c w) : ∃ text, weightedText b w = b.display ++ "^" ++ text ∧
    ReadsAs categories c .term text w := by
  unfold weightedText
  split_ifs with growing
  · obtain ⟨tree, prints, fits, revives⟩ := h.expression
    exact ⟨_, rfl, tree, prints.parenthesised.term, fits, revives⟩
  · exact ⟨_, rfl, h.term fun grows ↦ growing ⟨grows.2, grows.1⟩⟩

end Readable

/-! ### Trees for several texts -/

/-- Where there is a tree for each, there are trees for all. -/
theorem exists_trees {β : Type} {items : List β} {relation : Tree → β → Prop}
    (each : ∀ item ∈ items, ∃ tree, relation tree item) :
    ∃ trees, List.Forall₂ relation trees items := by
  induction items with
  | nil => exact ⟨[], .nil⟩
  | cons item items ih =>
    obtain ⟨⟨tree, first⟩, behind⟩ := List.forall_mem_cons.mp each
    obtain ⟨trees, all⟩ := ih behind
    exact ⟨tree :: trees, .cons first all⟩

theorem allFit_of_forall₂ {β : Type} {items : List β} {trees : List Tree}
    {relation : Tree → β → Prop} (all : List.Forall₂ relation trees items)
    (fits : ∀ tree item, relation tree item → tree.Fits categories) :
    Tree.AllFit categories trees := by
  induction all with
  | nil => trivial
  | cons first _ ih => exact ⟨fits _ _ first, ih⟩

/-! ### Canonical texts -/

/-- The argument of a literal is written in the same way in every catalog. -/
theorem argumentText_literal (c d : Catalog) (literal : Literal) :
    d.argumentText literal.argument = c.argumentText literal.argument := by
  cases literal <;> rfl

theorem readsAs_literal {shape : ParamShape} {literal : Literal}
    (word : isIdentifier tag.toList = true) (known : categories.lookup tag = .known shape)
    (suits : literal.argument.Suits shape) (worded : literal.argument.Worded)
    (restorable : literal.argument.Restorable) (nameless : sort.name = none)
    (kind : sort.variant = .primitive)
    (written : c.primitiveText tag (some literal.argument) = .ok sort.canonical) :
    ReadsAs categories c .factor sort.canonical sort := by
  have everywhere (d : Catalog) :
      d.primitiveText tag (some literal.argument) = .ok sort.canonical := by
    rw [← written]
    unfold primitiveText
    dsimp only
    rw [argumentText_literal c d literal]
  have numeral : ∀ lexeme, literal = .bound lexeme → IsNumeral lexeme.toList := by
    rintro lexeme rfl
    exact worded
  have fits : (Tree.primitive tag (some literal)).Fits categories := by
    refine ⟨shape, known, ?_⟩
    rintro _ ⟨⟩
    exact suits
  refine ⟨_, ?_, fits, Tree.revives_primitive known nameless kind everywhere⟩
  obtain ⟨text, shown, eq⟩ := exists_of_map_eq_ok written
  rw [← eq]
  exact prints_primitive word restorable numeral shown

theorem readsAs_linked {linked : List SortId} (word : isIdentifier tag.toList = true)
    (known : categories.lookup tag = .known (.sorts linked.length)) (some_ : linked ≠ [])
    (found : linked.mapM c.get = .ok sorts) (plain : ∀ part ∈ sorts, part.variant ≠ .aspects)
    (parts : ∀ part ∈ sorts, Readable categories c part) (nameless : sort.name = none)
    (kind : sort.variant = .primitive)
    (written : c.primitiveText tag (some (.sorts linked)) = .ok sort.canonical) :
    ReadsAs categories c .factor sort.canonical sort := by
  obtain ⟨trees, each⟩ := exists_trees fun part inside ↦ (parts part inside).expression
  have canonical :
      sort.canonical = "[" ++ tag ++ "] " ++ tupleText (sorts.map SortRecord.display) := by
    unfold primitiveText argumentText at written
    dsimp only at written
    rw [displays_eq_of_mapM found] at written
    exact (Except.ok.inj written).symm
  have length : linked.length = trees.length :=
    (mapM_eq_ok_iff.mp found).length_eq.trans each.length_eq.symm
  have fits : (Tree.linked tag trees).Fits categories :=
    ⟨length ▸ known, allFit_of_forall₂ each fun _ _ h ↦ h.2.1⟩
  refine ⟨_, ?_, fits, Tree.revives_linked known (each.imp fun _ _ h ↦ h.2.2) plain
    nameless kind canonical⟩
  rw [canonical]
  cases each with
  | nil => exact absurd (List.length_eq_zero_iff.mp length) some_
  | cons first others =>
    exact prints_linked word first.1 (List.forall₂_map_right_iff.mpr (others.imp fun _ _ h ↦ h.1))

theorem readsAs_weighted (base : Readable categories c b) (weight : Readable categories c w)
    (simple : b.body.isSimple) (plain : w.variant ≠ .aspects) (nameless : sort.name = none)
    (weighted : sort.variant = .weighted) (written : sort.canonical = weightedText b w) :
    ReadsAs categories c .term sort.canonical sort := by
  obtain ⟨tree, prints, fits, revives⟩ := base.factor simple
  obtain ⟨text, shown, behind, prints', fits', revives'⟩ := weight.weight
  obtain ⟨first, others, rfl, whole⟩ := prints.weighted prints'
  refine ⟨_, ?_, ?_, Tree.revives_weighted revives revives' simple plain nameless weighted written⟩
  · rw [written, shown]
    exact whole
  · rw [Tree.fits_chained_iff] at fits' ⊢
    exact ⟨fits, fits'⟩

/-- The components are printed, and added up again, in the order of their displays. -/
theorem readsAs_disjunctive (growing : sort.Growing) (several : 2 ≤ sorts.length)
    (nodup : (sorts.map SortRecord.display).Nodup)
    (parts : ∀ part ∈ sorts, part.variant ≠ .aspects ∧ ¬ part.Growing ∧ Unsummed part.display ∧
      Readable categories c part)
    (written : sort.canonical = disjunctiveText (sorts.map SortRecord.display)) :
    ReadsAs categories c .expression sort.canonical sort := by
  have perm := sorted_perm (sorts.map SortRecord.display)
  have each : ∀ text ∈ sorted (sorts.map SortRecord.display), ∃ tree : Tree,
      Prints .term tree text ∧ tree.Fits categories ∧ tree.Adds categories c text := by
    intro text inside
    obtain ⟨part, among, rfl⟩ := List.mem_map.mp (perm.mem_iff.mp inside)
    obtain ⟨plain, closed, single, readable⟩ := parts part among
    obtain ⟨tree, prints, fits, revives⟩ := readable.term closed
    exact ⟨tree, prints, fits, part, revives, plain, closed, rfl, single⟩
  have several' : 2 ≤ (sorted (sorts.map SortRecord.display)).length := by
    rwa [perm.length_eq, List.length_map]
  have shown : sort.canonical = joined "+" (sorted (sorts.map SortRecord.display)) := written
  have again : sort.canonical = disjunctiveText (sorted (sorts.map SortRecord.display)) := by
    rw [shown, disjunctiveText, sorted_sorted]
  have nodup' := perm.nodup_iff.mpr nodup
  generalize sorted (sorts.map SortRecord.display) = texts at each several' shown again nodup'
  obtain ⟨trees, all⟩ := exists_trees each
  have adds := all.imp fun _ _ h ↦ h.2.2
  cases all with
  | nil => exact absurd several' (by decide)
  | @cons tree text trees texts first others =>
    have fits : (Tree.summed tree trees).Fits categories :=
      Tree.fits_summed_iff.mpr ⟨first.2.1, allFit_of_forall₂ others fun _ _ h ↦ h.2.1⟩
    refine ⟨_, ?_, fits, Tree.revives_summed adds nodup' several' growing again⟩
    rw [shown]
    exact prints_sum first.1 (others.imp fun _ _ h ↦ h.1)

end CompositeSorts
