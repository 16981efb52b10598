import CompositeSorts.Catalog.Resolution
import CompositeSorts.Proofs.Registry.Identity
import Mathlib.Logic.Relation

/-!
What sorts have in common. A sort leads to the sorts it is made of: a disjunction to its components,
an attribute to its base and its weight, a recursive sort to its instance, an aspect to its owner
and to its argument. Two sorts *have a ground in common* when they lead, in any number of steps, to
sorts of one canonical text or to primitive sorts of one category.

Sorts of the same display lead to sorts of the same displays, so they have the same grounds in
common with other sorts.
-/

set_option autoImplicit false
set_option relaxedAutoImplicit false

namespace CompositeSorts

variable {c d : Catalog} {id id' part left right other : SortId} {sort sort' : SortRecord}

/-- The sorts are of one canonical text, or primitive and of one category. -/
def SortRecord.Kindred (sort other : SortRecord) : Prop :=
  sort.canonical = other.canonical ∨ ∃ category argument argument',
    sort.body = .primitive category argument ∧ other.body = .primitive category argument'

theorem SortRecord.Kindred.symm (h : sort.Kindred sort') : sort'.Kindred sort := by
  rcases h with same | ⟨category, argument, argument', made, made'⟩
  · exact Or.inl same.symm
  · exact Or.inr ⟨category, argument', argument, made', made⟩

namespace Catalog

/-- The sort is made of the other one. -/
inductive LeadsTo (c : Catalog) (id : SortId) : SortId → Prop where
  | component {sort : SortRecord} {components : List SortId} {part : SortId}
    (found : c.get id = .ok sort) (made : sort.body = .disjunctive components)
    (inside : part ∈ components) : LeadsTo c id part
  | base {sort : SortRecord} {base weight : SortId} (found : c.get id = .ok sort)
    (made : sort.body = .weighted base weight) : LeadsTo c id base
  | weight {sort : SortRecord} {base weight : SortId} (found : c.get id = .ok sort)
    (made : sort.body = .weighted base weight) : LeadsTo c id weight
  | instance {sort : SortRecord} {target : SortId} (found : c.get id = .ok sort)
    (made : sort.body = .recursive (some target)) : LeadsTo c id target
  | owner {sort : SortRecord} {owner : SortId} {position : Nat} (found : c.get id = .ok sort)
    (made : sort.body = .aspect owner position) : LeadsTo c id owner
  | argument {argument : SortId} (linked : c.argumentOf id = .ok argument) : LeadsTo c id argument

/-- The sorts are live and of one display. -/
def SameDisplay (c : Catalog) (left right : SortId) : Prop :=
  ∃ l r, c.get left = .ok l ∧ c.get right = .ok r ∧ l.display = r.display

/-- The sort leads to the other one, in any number of steps. -/
abbrev Reaches (c : Catalog) : SortId → SortId → Prop := Relation.ReflTransGen c.LeadsTo

/-- The first sort leads to the one, the second to the other, and not both in no step. -/
def Inside (c : Catalog) (left right part other : SortId) : Prop :=
  Relation.TransGen c.LeadsTo left part ∧ c.Reaches right other ∨
    c.Reaches left part ∧ Relation.TransGen c.LeadsTo right other

namespace Inside

theorem onLeft (leads : c.LeadsTo left part) (reaches : c.Reaches right other) :
    c.Inside left right part other := Or.inl ⟨.single leads, reaches⟩

theorem onRight (reaches : c.Reaches left part) (leads : c.LeadsTo right other) :
    c.Inside left right part other := Or.inr ⟨reaches, .single leads⟩

theorem both (leads : c.LeadsTo left part) (leads' : c.LeadsTo right other) :
    c.Inside left right part other := .onLeft leads (.single leads')

theorem reaches (h : c.Inside left right part other) :
    c.Reaches left part ∧ c.Reaches right other :=
  h.elim (fun inside ↦ ⟨inside.1.to_reflTransGen, inside.2⟩)
    fun inside ↦ ⟨inside.1, inside.2.to_reflTransGen⟩

end Inside

/-- The sorts lead to sorts of one canonical text, or to primitive sorts of one category. -/
def Grounded (c : Catalog) (left right : SortId) : Prop :=
  ∃ u v x y, c.Reaches left u ∧ c.Reaches right v ∧ c.get u = .ok x ∧ c.get v = .ok y ∧ x.Kindred y

namespace Grounded

theorem of_kindred (foundLeft : c.get left = .ok sort) (foundRight : c.get right = .ok sort')
    (kindred : sort.Kindred sort') : c.Grounded left right :=
  ⟨left, right, sort, sort', .refl, .refl, foundLeft, foundRight, kindred⟩

theorem symm (h : c.Grounded left right) : c.Grounded right left := by
  obtain ⟨u, v, x, y, toLeft, toRight, foundLeft, foundRight, kindred⟩ := h
  exact ⟨v, u, y, x, toRight, toLeft, foundRight, foundLeft, kindred.symm⟩

/-- What is behind the sorts has a ground in common, so they do. -/
theorem behind (h : c.Grounded part other) (toLeft : c.Reaches left part)
    (toRight : c.Reaches right other) : c.Grounded left right := by
  obtain ⟨u, v, x, y, fromLeft, fromRight, rest⟩ := h
  exact ⟨u, v, x, y, toLeft.trans fromLeft, toRight.trans fromRight, rest⟩

end Grounded

/-- The argument of an aspect is that of its owner at its position. -/
theorem argumentOf_eq_ok_iff {argument : SortId} : c.argumentOf id = .ok argument ↔
    ∃ sort owner position tuple category own arguments, c.get id = .ok sort ∧
      sort.body = .aspect owner position ∧ c.get owner = .ok tuple ∧
      tuple.body = .aspects category own arguments ∧ arguments[position]? = some argument := by
  unfold argumentOf
  constructor
  · intro linked
    cases found : c.get id with
    | error reason =>
      rw [found] at linked
      cases linked
    | ok sort =>
      simp only [found, bind, Except.bind] at linked
      split at linked
      · rename_i owner position made
        cases owned : c.get owner with
        | error reason =>
          rw [owned] at linked
          cases linked
        | ok tuple =>
          simp only [owned] at linked
          split at linked
          · rename_i category own arguments listed
            split at linked
            · cases linked
              exact ⟨sort, owner, position, tuple, category, own, arguments, rfl,
                made, owned, listed,
                ‹_›⟩
            · cases linked
          · cases linked
      · cases linked
  · rintro ⟨sort, owner, position, tuple, category, own, arguments, found, made,
      owned, listed, linked⟩
    simp only [found, made, owned, listed, linked, bind, Except.bind, pure, Except.pure]

/-- A sort leads to a handle in its body, or in that of its owner. -/
theorem LeadsTo.exists_handle (h : c.LeadsTo id part) : ∃ sort, c.get id = .ok sort ∧
    (part ∈ sort.body.handles ∨ ∃ owner ∈ sort.body.handles, ∃ tuple, c.get owner = .ok tuple ∧
      part ∈ tuple.body.handles) := by
  cases h with
  | component found made inside =>
    refine ⟨_, found, Or.inl (Body.mem_handles_of_mem_parts ?_)⟩
    rw [made]
    exact inside
  | base found made =>
    refine ⟨_, found, Or.inl (Body.mem_handles_of_mem_parts ?_)⟩
    rw [made]
    exact List.mem_cons_self
  | weight found made =>
    refine ⟨_, found, Or.inl (Body.mem_handles_of_mem_parts ?_)⟩
    rw [made]
    exact List.mem_cons_of_mem _ List.mem_cons_self
  | «instance» found made =>
    refine ⟨_, found, Or.inl (Body.mem_handles_of_mem_bonds ?_)⟩
    rw [made]
    exact List.mem_singleton_self _
  | owner found made =>
    refine ⟨_, found, Or.inl (Body.mem_handles_of_mem_parts ?_)⟩
    rw [made]
    exact List.mem_cons_self
  | argument linked =>
    obtain ⟨sort, owner, position, tuple, category, own, arguments, found, made, owned, listed,
      linked⟩ := argumentOf_eq_ok_iff.mp linked
    refine ⟨sort, found, Or.inr ⟨owner, Body.mem_handles_of_mem_parts ?_, tuple, owned,
      Body.mem_handles_of_mem_parts ?_⟩⟩
    · rw [made]
      exact List.mem_cons_self
    · rw [listed]
      exact List.mem_of_getElem? linked

section

variable {keep : SortId → Prop}
  (stays : ∀ {id : SortId} {sort : SortRecord}, keep id → c.get id = .ok sort → d.get id = .ok sort)
  (closed : ∀ {id : SortId} {sort : SortRecord}, keep id → c.get id = .ok sort →
    ∀ other ∈ sort.body.handles, keep other)

include stays closed

/-- Sorts that are kept, with what is in them, lead to the same sorts. -/
theorem LeadsTo.transport (h : c.LeadsTo id part) (kept : keep id) :
    keep part ∧ d.LeadsTo id part := by
  have inside : keep part := by
    obtain ⟨sort, found, here | ⟨owner, above, tuple, owned, here⟩⟩ := h.exists_handle
    · exact closed kept found part here
    · exact closed (closed kept found owner above) owned part here
  refine ⟨inside, ?_⟩
  cases h with
  | component found made inside => exact .component (stays kept found) made inside
  | base found made => exact .base (stays kept found) made
  | weight found made => exact .weight (stays kept found) made
  | «instance» found made => exact .instance (stays kept found) made
  | owner found made => exact .owner (stays kept found) made
  | argument linked =>
    obtain ⟨sort, owner, position, tuple, category, own, arguments, found, made, owned, listed,
      linked⟩ := argumentOf_eq_ok_iff.mp linked
    have above : keep owner := by
      refine closed kept found owner (Body.mem_handles_of_mem_parts ?_)
      rw [made]
      exact List.mem_cons_self
    exact .argument (argumentOf_eq_ok_iff.mpr ⟨sort, owner, position, tuple, category, own,
      arguments, stays kept found, made, stays above owned, listed, linked⟩)

theorem Reaches.transport (h : c.Reaches id part) (kept : keep id) :
    keep part ∧ d.Reaches id part := by
  induction h with
  | refl => exact ⟨kept, .refl⟩
  | tail _ step ih =>
    obtain ⟨keptPart, leads⟩ := step.transport stays closed ih.1
    exact ⟨keptPart, ih.2.tail leads⟩

theorem Grounded.transport (h : c.Grounded left right) (keptLeft : keep left)
    (keptRight : keep right) : d.Grounded left right := by
  obtain ⟨u, v, x, y, toLeft, toRight, foundLeft, foundRight, kindred⟩ := h
  obtain ⟨keptU, toLeft⟩ := Reaches.transport stays closed toLeft keptLeft
  obtain ⟨keptV, toRight⟩ := Reaches.transport stays closed toRight keptRight
  exact ⟨u, v, x, y, toLeft, toRight, stays keptU foundLeft, stays keptV foundRight, kindred⟩

end

/-! ### Sorts of one display -/

/-- What a sort leads to is live. -/
theorem Rested.live_of_leadsTo (h : c.Rested) (leads : c.LeadsTo id part) : c.Live part := by
  obtain ⟨sort, found, here | ⟨owner, -, tuple, owned, here⟩⟩ := leads.exists_handle
  · exact (h.fits found).linked part here
  · exact (h.fits owned).linked part here

section

variable {categories : CategoryTable} (rested : c.Rested) (suited : Suited categories c)

include rested suited

/-- Sorts of one display lead to sorts of one display. -/
theorem exists_leadsTo_of_display (found : c.get id = .ok sort) (found' : c.get id' = .ok sort')
    (same : sort.display = sort'.display) (leads : c.LeadsTo id part) :
    ∃ other record record', c.LeadsTo id' other ∧ c.get part = .ok record ∧
      c.get other = .ok record' ∧ record.display = record'.display := by
  by_cases equal : id = id'
  · subst equal
    obtain ⟨record, there⟩ := rested.live_of_leadsTo leads
    exact ⟨part, record, record, leads, there, there, rfl⟩
  have nameless : sort.name = none := by
    by_contra named
    exact equal (rested.eq_of_named found found' same named)
  have kinds : sort.variant = .primitive ∨ sort.variant = .disjunctive := by
    rcases (rested.fits found).nameless nameless with primitive | weighted | disjunctive
    · exact Or.inl primitive
    · exact absurd (rested.eq_of_weighted found found' same weighted) equal
    · exact Or.inr disjunctive
  have only {body : Body} {record : SortRecord} (there : c.get id = .ok record)
      (made : record.body = body) : body.variant = .primitive ∨ body.variant = .disjunctive := by
    rw [found] at there
    cases there
    rwa [← made]
  have agree := rested.agree suited found found' same
  cases leads with
  | component there made inside =>
    rw [found] at there
    cases there
    rw [made] at agree
    cases made' : sort'.body <;> rw [made'] at agree <;> try exact agree.elim
    rename_i components components'
    have shown : c.display part ∈ components'.map c.display :=
      agree.mem_iff.mp (List.mem_map_of_mem inside)
    obtain ⟨other, among, equal⟩ := List.mem_map.mp shown
    have leads : c.LeadsTo id part := .component found made inside
    have leads' : c.LeadsTo id' other := .component found' made' among
    obtain ⟨record, there⟩ := rested.live_of_leadsTo leads
    obtain ⟨record', there'⟩ := rested.live_of_leadsTo leads'
    refine ⟨other, record, record', leads', there, there', ?_⟩
    unfold Catalog.display at equal
    rw [there, there'] at equal
    exact (Except.ok.inj equal).symm
  | base there made | weight there made | «instance» there made | owner there made =>
    exact absurd (only there made) (by simp [Body.variant])
  | argument linked =>
    obtain ⟨record, owner, position, tuple, category, own, arguments, there, made, -⟩ :=
      argumentOf_eq_ok_iff.mp linked
    exact absurd (only there made) (by simp [Body.variant])

/-- Sorts of one display reach sorts of one display. -/
theorem exists_reaches_of_display (found : c.get id = .ok sort) (found' : c.get id' = .ok sort')
    (same : sort.display = sort'.display) (reaches : c.Reaches id part) :
    ∃ other record record', c.Reaches id' other ∧ c.get part = .ok record ∧
      c.get other = .ok record' ∧ record.display = record'.display := by
  induction reaches using Relation.ReflTransGen.head_induction_on generalizing id' sort sort' with
  | refl => exact ⟨id', sort, sort', .refl, found, found', same⟩
  | head step _ ih =>
    obtain ⟨next, record, record', leads, there, there', shown⟩ :=
      exists_leadsTo_of_display rested suited found found' same step
    obtain ⟨other, last, last', reaches, rest⟩ := ih there there' shown
    exact ⟨other, last, last', reaches.head leads, rest⟩

/-- Sorts of one display are kindred to the same sorts. -/
theorem kindred_of_display {record : SortRecord} (found : c.get id = .ok sort)
    (found' : c.get id' = .ok sort') (same : sort.display = sort'.display)
    (kindred : sort.Kindred record) : sort'.Kindred record := by
  rcases kindred with canonical | ⟨category, argument, argument', made, made'⟩
  · by_cases nameless : sort.name = none
    · exact Or.inl ((rested.eq_of_nameless found found' same nameless).2.2.trans canonical)
    · obtain rfl := rested.eq_of_named found found' same nameless
      rw [found] at found'
      cases found'
      exact Or.inl canonical
  · have agree := rested.agree suited found found' same
    rw [made] at agree
    cases other : sort'.body <;> rw [other] at agree <;> try exact agree.elim
    obtain ⟨rfl, -⟩ := agree
    exact Or.inr ⟨_, _, argument', other, made'⟩

/-- Sorts of one display have the same grounds in common with other sorts. -/
theorem Grounded.left_of_display (h : c.Grounded id right) (found : c.get id = .ok sort)
    (found' : c.get id' = .ok sort') (same : sort.display = sort'.display) :
    c.Grounded id' right := by
  obtain ⟨u, v, x, y, toLeft, toRight, foundLeft, foundRight, kindred⟩ := h
  obtain ⟨u', record, record', reaches, there, there', shown⟩ :=
    exists_reaches_of_display rested suited found found' same toLeft
  rw [foundLeft] at there
  cases there
  exact ⟨u', v, record', y, reaches, toRight, there', foundRight,
    kindred_of_display rested suited foundLeft there' shown kindred⟩

theorem Grounded.right_of_display (h : c.Grounded left id) (found : c.get id = .ok sort)
    (found' : c.get id' = .ok sort') (same : sort.display = sort'.display) :
    c.Grounded left id' := (h.symm.left_of_display rested suited found found' same).symm

end

/-! ### Walks -/

/-- A spine has one element, the sort itself, or leads through sorts inside of the sort. -/
theorem eq_or_inside_of_spine {chain : List SortId} (walked : c.spine id = .ok chain) :
    chain = [id] ∨ ∀ part ∈ chain, Relation.TransGen c.LeadsTo id part := by
  unfold spine at walked
  generalize c.clock = bound at walked
  induction bound generalizing id chain with
  | zero =>
    cases found : c.get id <;> rw [spineWithin, found] at walked <;> cases walked
    exact Or.inl rfl
  | succ bound ih =>
    cases found : c.get id with
    | error reason =>
      rw [spineWithin, found] at walked
      cases walked
    | ok sort =>
      simp only [spineWithin, found, bind, Except.bind] at walked
      split at walked
      · rename_i base weight made
        cases further : c.spineWithin bound weight <;> rw [further] at walked <;> cases walked
        refine Or.inr fun part inside ↦ ?_
        rcases List.mem_cons.mp inside with rfl | inside
        · exact .single (.base found made)
        rcases ih further with rfl | deeper
        · obtain rfl := List.mem_singleton.mp inside
          exact .single (.weight found made)
        · exact (deeper part inside).head (.weight found made)
      · cases walked
        exact Or.inl rfl

/-- A spine leads through sorts that the sort reaches. -/
theorem reaches_of_spine {chain : List SortId} (walked : c.spine id = .ok chain)
    (inside : part ∈ chain) : c.Reaches id part := by
  rcases eq_or_inside_of_spine walked with rfl | deeper
  · obtain rfl := List.mem_singleton.mp inside
    exact .refl
  · exact (deeper part inside).to_reflTransGen

namespace Rested

variable (h : c.Rested)

include h

theorem operand_base {base weight : SortId} (found : c.get id = .ok sort)
    (made : sort.body = .weighted base weight) : Op.Operand c base := by
  have composed := (h.fits found).composed
  rw [made] at composed
  obtain ⟨⟨record, there, simple⟩, -⟩ := composed
  exact ⟨record, there, SortRecord.variant_ne_aspects_of_simple simple⟩

theorem operand_weight {base weight : SortId} (found : c.get id = .ok sort)
    (made : sort.body = .weighted base weight) : Op.Operand c weight := by
  have composed := (h.fits found).composed
  rw [made] at composed
  exact composed.2

theorem operand_component {components : List SortId} (found : c.get id = .ok sort)
    (made : sort.body = .disjunctive components) (inside : part ∈ components) :
    Op.Operand c part := by
  have composed := (h.fits found).composed
  rw [made] at composed
  obtain ⟨record, there, plain, -⟩ := composed.1 part inside
  exact ⟨record, there, plain⟩

theorem operand_instance {target : SortId} (found : c.get id = .ok sort)
    (made : sort.body = .recursive (some target)) : Op.Operand c target := by
  have composed := (h.fits found).composed
  rw [made] at composed
  exact composed

/-- The owner of an aspect is an aspects tuple, and the aspect has an argument. -/
theorem exists_argument {owner : SortId} {position : Nat} (found : c.get id = .ok sort)
    (made : sort.body = .aspect owner position) :
    (∃ tuple, c.get owner = .ok tuple ∧ tuple.variant = .aspects) ∧
      ∃ argument, c.argumentOf id = .ok argument ∧ Op.Operand c argument := by
  have composed := (h.fits found).composed
  rw [made] at composed
  obtain ⟨tuple, category, own, arguments, owned, listed, inside⟩ := composed
  refine ⟨⟨tuple, owned, by rw [SortRecord.variant, listed]; rfl⟩, arguments[position], ?_, ?_⟩
  · exact argumentOf_eq_ok_iff.mpr ⟨sort, owner, position, tuple, category, own, arguments, found,
      made, owned, listed, List.getElem?_eq_getElem inside⟩
  · have composed := (h.fits owned).composed
    rw [listed] at composed
    exact composed _ (List.getElem_mem inside)

/-- A sort that is no aspects tuple has a spine, and none of the sorts in it is an aspects tuple. -/
theorem exists_spine (plain : Op.Operand c id) : ∃ chain, c.spine id = .ok chain ∧
    ∀ part ∈ chain, Op.Operand c part := by
  unfold spine
  generalize c.clock = bound
  induction bound generalizing id with
  | zero =>
    obtain ⟨sort, found, differs⟩ := plain
    refine ⟨[id], by rw [spineWithin, found]; rfl, fun part inside ↦ ?_⟩
    obtain rfl := List.mem_singleton.mp inside
    exact ⟨sort, found, differs⟩
  | succ bound ih =>
    obtain ⟨sort, found, differs⟩ := plain
    by_cases weighted : ∃ base weight, sort.body = .weighted base weight
    · obtain ⟨base, weight, made⟩ := weighted
      obtain ⟨behind, walked, each⟩ := ih (h.operand_weight found made)
      refine ⟨base :: behind, ?_, fun part inside ↦ ?_⟩
      · simp only [spineWithin, found, made, walked, bind, Except.bind, pure, Except.pure]
      · rcases List.mem_cons.mp inside with rfl | inside
        · exact h.operand_base found made
        · exact each part inside
    · refine ⟨[id], ?_, fun part inside ↦ ?_⟩
      · simp only [spineWithin, found, bind, Except.bind]
        split
        · exact absurd ⟨_, _, ‹_›⟩ weighted
        · rfl
      · obtain rfl := List.mem_singleton.mp inside
        exact ⟨sort, found, differs⟩

end Rested

end Catalog

end CompositeSorts
