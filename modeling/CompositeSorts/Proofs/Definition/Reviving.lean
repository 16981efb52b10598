import CompositeSorts.Proofs.Catalog.Copies
import CompositeSorts.Proofs.Definition.Advance
import CompositeSorts.Proofs.Definition.Trees

/-!
Trees that lead to a copy. A tree *revives* a sort when it leads to a copy of it in every catalog
that has grown since and in which no definition is under way (`Tree.Revives`). A name revives the
sort that is registered under it. Trees for the sorts that a primitive sort is linked to, for base
and weight of an attribute and for the components of a disjunction are put together to trees that
revive these.

Each tree leaves the catalog grown, so the copies it made are still there when the next tree has
run; that the catalog has grown is known from the operations, and need not be proved again.
-/

set_option autoImplicit false
set_option relaxedAutoImplicit false

namespace CompositeSorts

open Catalog Text

variable {a c d : Catalog} {id : SortId} {sort b w : SortRecord} {categories : CategoryTable}
  {tag name text : String} {shape : ParamShape} {tree first : Tree} {trees others : List Tree}

theorem Op.meaning_eq_ok {α : Type} {operation : Op α} {answer : α}
    (run : operation c = .ok answer d) : operation.meaning c = .ok answer d := by
  rw [Op.meaning, run]

theorem Catalog.Awaits.idle (h : Awaits a c) (idle : a.pending = []) : c.pending = [] := by
  unfold Awaits at h
  rw [idle] at h
  exact List.forall₂_nil_left_iff.mp h

namespace Tree

/-- Whatever was made since, the tree leads to a copy of the sort if no definition is under way. -/
def Revives (categories : CategoryTable) (c : Catalog) (tree : Tree) (sort : SortRecord) : Prop :=
  ∀ d, Advance c d → d.pending = [] →
    ∃ id e, tree.run categories d = .ok id e ∧ Catalog.Yields d id e ∧ e.Copy id sort

/-! ### Names and primitive sorts -/

/-- When no definition is under way a name denotes the sort registered under it. -/
theorem lookUp_eq (idle : c.pending = []) (entry : c.names[name]? = some id) :
    Meaning.lookUp name c = .ok id c := by
  have silent : Ends (Op.mention name) c (fun answer d ↦ answer = none ∧ d = c) fun _ ↦ False :=
    Op.ends_mention (fun _ ↦ ⟨rfl, rfl⟩) (by simp [idle]) (by simp [idle])
  have known : c.sortOf name = some id := entry
  unfold Ends at silent
  split at silent
  · rename_i answer d run
    obtain ⟨rfl, rfl⟩ := silent
    rw [Meaning.lookUp, Ends.run_bind (Op.meaning_eq_ok run)]
    dsimp only
    have here : (MonadState.get : Meaning Catalog) d = .ok d d := rfl
    rw [Ends.run_bind here, known]
    rfl
  · exact silent.elim

theorem revives_reference (entry : c.names[name]? = some id) (found : c.get id = .ok sort)
    (named : sort.name = some name) : (reference name).Revives categories c sort := by
  intro d advance idle
  have known := advance.keepsName entry
  have there := advance.stays found
  have obtained : Obtained d d id := by
    refine ⟨sort, there, fun nameless ↦ ?_, fun other carries ↦ ?_⟩
    · rw [named] at nameless
      cases nameless
    · rw [named] at carries
      cases carries
      exact .inl known
  exact ⟨id, d, lookUp_eq idle known, ⟨.refl advance.toSteady, .refl d, obtained⟩, sort,
    there, .refl sort⟩

/-- The text of a primitive sort that is linked to nothing does not depend on the catalog. -/
theorem revives_primitive {argument : Option Literal} (known : categories.lookup tag = .known shape)
    (nameless : sort.name = none) (kind : sort.variant = .primitive)
    (written : ∀ d : Catalog, d.primitiveText tag (argument.map Literal.argument) =
      .ok sort.canonical) :
    (primitive tag argument).Revives categories c sort := by
  intro d advance _
  have unlinked : ∀ linked, argument.map Literal.argument = some (.sorts linked) →
      ∀ id ∈ linked, Op.Operand d id := by
    intro linked given
    cases argument with
    | none => cases given
    | some literal => cases literal <;> cases given
  have made := Op.primitive_eq known unlinked (written d)
  have yields := (yields_primitive (.refl advance.toSteady) (.refl d)).of_ok made
  exact ⟨_, _, Op.meaning_eq_ok made, yields, _, get_add_nextId advance.toRooted,
    nameless.symm, rfl,
    kind.symm⟩

/-- Trees revive their sorts one after the other. -/
theorem runAll_copies {sorts : List SortRecord}
    (all : List.Forall₂ (Revives categories c) trees sorts) (advance : Advance c d)
    (idle : d.pending = []) : ∃ ids e, runAll categories trees d = .ok ids e ∧ YieldsAll d ids e ∧
      List.Forall₂ e.Copy ids sorts := by
  induction all generalizing d with
  | nil =>
    exact ⟨[], d, rfl,
      ⟨.refl advance.toSteady, .refl d, fun _ inside ↦ absurd inside List.not_mem_nil⟩, .nil⟩
  | cons first _ ih =>
    obtain ⟨id, e, run, yields, copy⟩ := first d advance idle
    obtain ⟨ids, f, run', yields', copies⟩ :=
      ih (advance.trans yields.toAdvance) (yields.awaits.idle idle)
    refine ⟨id :: ids, f, ?_, ?_, .cons (copy.grow yields'.toGrowth) copies⟩
    · rw [runAll, Ends.run_bind run, Ends.run_bind run']
      rfl
    · refine ⟨yields.toAdvance.trans yields'.toAdvance,
        yields.awaits.trans yields.toGrowth yields'.awaits, List.forall_mem_cons.mpr ⟨?_, ?_⟩⟩
      · exact yields.obtained.grow yields'.toGrowth yields'.awaits
      · exact fun other inside ↦ (yields'.obtained other inside).since yields.toGrowth

theorem revives_linked {sorts : List SortRecord} (known : categories.lookup tag = .known shape)
    (all : List.Forall₂ (Revives categories c) trees sorts)
    (plain : ∀ part ∈ sorts, part.variant ≠ .aspects) (nameless : sort.name = none)
    (kind : sort.variant = .primitive)
    (written : sort.canonical = "[" ++ tag ++ "] " ++ tupleText (sorts.map SortRecord.display)) :
    (linked tag trees).Revives categories c sort := by
  intro d advance idle
  obtain ⟨ids, e, run, yields, copies⟩ := runAll_copies all advance idle
  have text : e.primitiveText tag (some (.sorts ids)) = .ok sort.canonical := by
    unfold primitiveText argumentText
    dsimp only
    rw [displays_of_copies copies, written]
    rfl
  have operands : ∀ linked, some (Argument.sorts ids) = some (.sorts linked) →
      ∀ id ∈ linked, Op.Operand e id := by
    rintro _ ⟨⟩
    exact operands_of_copies copies plain
  have made := Op.primitive_eq known operands text
  have yields' := (yields_primitive yields.toAdvance yields.awaits).of_ok made
  refine ⟨_, _, ?_, yields', _, get_add_nextId yields.toRooted, nameless.symm, rfl, kind.symm⟩
  rw [Tree.run, Ends.run_bind run]
  exact Op.meaning_eq_ok made

/-! ### Attributes -/

theorem revives_weighted {base : Tree} (revivesBase : base.Revives categories c b)
    (revivesWeight : (chained first others).Revives categories c w) (simple : b.body.isSimple)
    (plain : w.variant ≠ .aspects) (nameless : sort.name = none)
    (weighted : sort.variant = .weighted) (written : sort.canonical = weightedText b w) :
    (chained base (first :: others)).Revives categories c sort := by
  intro d advance idle
  obtain ⟨i, e, run, yields, copyBase⟩ := revivesBase d advance idle
  obtain ⟨j, f, run', yields', copyWeight⟩ :=
    revivesWeight e (advance.trans yields.toAdvance) (yields.awaits.idle idle)
  obtain ⟨b', foundBase, repeatsBase⟩ := copyBase.grow yields'.toGrowth
  obtain ⟨w', foundWeight, repeatsWeight⟩ := copyWeight
  obtain ⟨id, g, combined, copy⟩ := yields'.exists_combine_copy foundBase foundWeight
    (repeatsBase.isSimple_iff.mpr simple) (repeatsWeight.variant ▸ plain) nameless weighted
    (written.trans (repeatsBase.weightedText repeatsWeight).symm)
  have later := yields'.since yields.toAdvance yields.awaits
  have last := (yields_combine later.toAdvance later.awaits later.obtained).of_ok combined
  refine ⟨id, g, ?_, last, copy⟩
  rw [run_chained_cons, Ends.run_bind run, Ends.run_bind run']
  exact Op.meaning_eq_ok combined

/-! ### Disjunctions -/

/-- The tree revives a sort of this display that can be a component of a disjunction. -/
def Adds (categories : CategoryTable) (c : Catalog) (tree : Tree) (text : String) : Prop :=
  ∃ part, tree.Revives categories c part ∧ part.variant ≠ .aspects ∧ ¬ part.Growing ∧
    part.display = text ∧ Unsummed text

theorem Adds.exists_summand (h : tree.Adds categories c text) (advance : Advance c d)
    (idle : d.pending = []) :
    ∃ id e part, tree.run categories d = .ok id e ∧ Catalog.Yields d id e ∧
      e.Summand id part ∧ part.display = text := by
  obtain ⟨part, revives, plain, closed, rfl, single⟩ := h
  obtain ⟨id, e, run, yields, copy⟩ := revives d advance idle
  obtain ⟨part', summand, shown⟩ := copy.summand plain closed single
  exact ⟨id, e, part', run, yields, summand, shown⟩

/-- Summands of different displays are added one after the other. -/
theorem addAll_sums {texts done : List String} {left : SortId}
    (all : List.Forall₂ (Adds categories c) trees texts) (nodup : (done ++ texts).Nodup)
    (advance : Advance c a) (idle : a.pending = []) (yields : Catalog.Yields a left d)
    (sums : d.Sums left done) : ∃ id e, addAll categories left trees d = .ok id e ∧
      Catalog.Yields a id e ∧ e.Sums id (done ++ texts) := by
  induction all generalizing d done left with
  | nil => exact ⟨left, d, rfl, yields, by rwa [List.append_nil]⟩
  | cons first _ ih =>
    obtain ⟨r, e, part, run, later, summand, rfl⟩ :=
      first.exists_summand (advance.trans yields.toAdvance) (yields.awaits.idle idle)
    have new : part.display ∉ done := fun inside ↦
      (List.nodup_append.mp nodup).2.2 _ inside _ List.mem_cons_self rfl
    obtain ⟨id, f, added, sums'⟩ := (sums.grow later.toGrowth).exists_sum later.toSteady summand new
    have between := later.since yields.toAdvance yields.awaits
    have yields' := (yields_sum between.toAdvance between.awaits
      (yields.obtained.grow later.toGrowth later.awaits)).of_ok added
    rw [List.append_cons] at nodup ⊢
    obtain ⟨id', g, rest, answer⟩ := ih nodup yields' sums'
    refine ⟨id', g, ?_, answer⟩
    rw [addAll, Ends.run_bind run, Ends.run_bind (Op.meaning_eq_ok added)]
    exact rest

/-- Trees for the components of a disjunction add up to a copy of it. -/
theorem revives_summed {texts : List String}
    (all : List.Forall₂ (Adds categories c) (first :: others) texts) (nodup : texts.Nodup)
    (several : 2 ≤ texts.length) (growing : sort.Growing)
    (written : sort.canonical = disjunctiveText texts) :
    (summed first others).Revives categories c sort := by
  intro d advance idle
  obtain ⟨text, texts, isFirst, areOthers, rfl⟩ := List.forall₂_cons_left_iff.mp all
  obtain ⟨left, e, part, run, yields, summand, rfl⟩ := isFirst.exists_summand advance idle
  obtain ⟨id, f, rest, yields', sums⟩ :=
    addAll_sums areOthers nodup advance idle yields (summand.sums yields.toSteady)
  refine ⟨id, f, ?_, yields', sums.copy several growing written⟩
  rw [run_summed, Ends.run_bind run]
  exact rest

end Tree

end CompositeSorts
