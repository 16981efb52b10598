import CompositeSorts.Proofs.Catalog.Advance

/-!
Operations on any catalog. Outside of a text an operation may be applied to whatever handle there
is, so it may change an old sort. It still keeps a steady catalog steady, and no sort dies of it;
and a trait of all sorts (`Trait`), something that holds of their names and bodies, goes on to hold
if it holds of the sorts that are made and changed.
-/

set_option autoImplicit false
set_option relaxedAutoImplicit false

namespace CompositeSorts.Catalog

variable {a c d : Catalog} {id : SortId} {sort old : SortRecord} {name : Option String}
  {canonical text : String} {counts : ComponentCounts} {body : Body} {categories : CategoryTable}
  {tag : String}

/-- The sorts of one catalog are in the other, of the same variants. -/
def Resembles (c d : Catalog) : Prop :=
  ∀ id sort, c.get id = .ok sort → ∃ later, d.get id = .ok later ∧ later.variant = sort.variant

/-- Something that is said of the name and the body of a sort in a catalog. Of the sorts that the
body leads to it says nothing but their variants. -/
structure Trait where
  holds : Catalog → Option String → Body → Prop
  stays : ∀ {c d : Catalog} {name : Option String} {body : Body}, holds c name body →
    Resembles c d →
    holds d name body

/-- Attributes and disjunctions without names have the trait. -/
def Trait.Composite (t : Trait) : Prop :=
  ∀ c body, body.variant = .weighted ∨ body.variant = .disjunctive → t.holds c none body

/-- What is said of the body alone. -/
def Trait.ofBody (good : Body → Prop) : Trait := ⟨fun _ _ ↦ good, fun h _ ↦ h⟩

/-- A steady catalog in which the sorts of an earlier one still are, and in which all sorts have the
trait. -/
structure Lasting (t : Trait) (a c : Catalog) : Prop extends Steady c where
  resembles : Resembles a c
  traits : ∀ {id sort}, c.get id = .ok sort → t.holds c sort.name sort.body

theorem Resembles.refl (c : Catalog) : Resembles c c := fun _ _ found ↦ ⟨_, found, rfl⟩

theorem Resembles.trans (h : Resembles a c) (h' : Resembles c d) : Resembles a d := by
  intro id sort found
  obtain ⟨later, found', same⟩ := h id sort found
  obtain ⟨last, found'', same'⟩ := h' id later found'
  exact ⟨last, found'', same'.trans same⟩

theorem resembles_of_get_eq (same : ∀ id, d.get id = c.get id) : Resembles c d :=
  fun _ _ found ↦ ⟨_, (same _).trans found, rfl⟩

theorem resembles_add (rooted : c.Rooted) : Resembles c (c.add name canonical counts body) :=
  fun _ _ found ↦ ⟨_, get_add_of_live rooted found, rfl⟩

theorem resembles_replace (found : c.get sort.id = .ok old)
    (sameVariant : sort.variant = old.variant) :
    Resembles c (c.replace sort) := by
  intro id record there
  rcases replaced_cases found there with ⟨rfl, rfl, here⟩ | ⟨-, here⟩
  · exact ⟨sort, here, sameVariant⟩
  · exact ⟨record, here, rfl⟩

namespace Lasting

variable {t : Trait}

theorem refl (h : c.Steady)
    (traits : ∀ {id sort}, c.get id = .ok sort → t.holds c sort.name sort.body) :
    Lasting t c c := ⟨h, Resembles.refl c, traits⟩

/-- No sort dies. -/
theorem live (h : Lasting t a c) (id : SortId) (live : a.Live id) : c.Live id := by
  obtain ⟨sort, found⟩ := live
  obtain ⟨later, found', -⟩ := h.resembles id sort found
  exact ⟨later, found'⟩

theorem trans (h : Lasting t a c) (h' : Lasting t c d) : Lasting t a d :=
  ⟨h'.toSteady, h.resembles.trans h'.resembles, h'.traits⟩

/-- Only the sorts themselves count. -/
theorem congr (h : Lasting t a c) (steady : d.Steady) (get : ∀ id, d.get id = c.get id) :
    Lasting t a d where
  toSteady := steady
  resembles := h.resembles.trans (resembles_of_get_eq get)
  traits {id _} found := t.stays (h.traits ((get id).symm.trans found)) (resembles_of_get_eq get)

theorem note (h : Lasting t a c) (event : Event) : Lasting t a (c.note event) :=
  h.congr (h.toSteady.note event) fun _ ↦ rfl

theorem add (h : Lasting t a c) (fine : t.holds c name body) (several : ∀ components,
    body = .disjunctive components → 2 ≤ components.length) :
    Lasting t a (c.add name canonical counts body) where
  toSteady := h.toSteady.add several
  resembles := h.resembles.trans (resembles_add h.toRooted)
  traits {id sort} found := by
    rcases get_add_cases h.toRooted found with ⟨rfl, rfl⟩ | ⟨-, before⟩
    · exact t.stays fine (resembles_add h.toRooted)
    · exact t.stays (h.traits before) (resembles_add h.toRooted)

theorem replace (h : Lasting t a c) (found : c.get sort.id = .ok old)
    (sameName : sort.name = old.name) (sameVariant : sort.variant = old.variant)
    (loose : old.variant ≠ .weighted) (fine : t.holds c sort.name sort.body)
    (several : ∀ components, sort.body = .disjunctive components → 2 ≤ components.length) :
    Lasting t a (c.replace sort) where
  toSteady := h.toSteady.replace found sameName loose several
  resembles := h.resembles.trans (resembles_replace found sameVariant)
  traits {id record} there := by
    have resembles := resembles_replace found sameVariant
    rcases get_replace_cases found there with ⟨rfl, rfl⟩ | ⟨-, before⟩
    · exact t.stays fine resembles
    · exact t.stays (h.traits before) resembles

/-! ### Operations -/

/-- The operation keeps a steady catalog steady, its sorts live and their trait. -/
def Safe (t : Trait) {α : Type} (operation : Op α) : Prop :=
  ∀ a c, Lasting t a c → Ends operation c (fun _ d ↦ Lasting t a d) (Lasting t a)

theorem safe_primitive {argument : Option Argument}
    (fine : ∀ c shape, categories.lookup tag = .known shape →
      t.holds c none (.primitive tag argument)) :
    Safe t (Op.primitive categories tag argument) := by
  intro a c h
  refine Op.ends_primitive h fun shape canonical known _ _ ↦ h.add (fine c shape known) ?_
  rintro components ⟨⟩

theorem safe_register (id : SortId) : Safe t (Op.register id) := by
  intro a c h
  refine Op.ends_register h (fun _ _ _ _ _ ↦ h) fun sort name found named _ ↦ ?_
  exact note (h.congr (h.toSteady.insertName found named) fun _ ↦ rfl) _

theorem safe_duplicate (id : SortId) (name : String)
    (renamed : ∀ c old body, t.holds c old body → t.holds c (some name) body) :
    Safe t (Op.duplicate id name) := by
  intro a c h
  refine Op.ends_duplicate h (fun _ _ _ ↦ h) fun source found _ _ _ _ ↦
    h.add (renamed _ _ _ (h.traits found)) ?_
  exact fun components made ↦ h.several found made

theorem lasts_bind {recursive target : SortId} (h : Lasting t a c)
    (bound : ∀ name, t.holds c name (.recursive none) → t.holds c name (.recursive (some target))) :
    Ends (Op.bind recursive target) c (fun _ d ↦ Lasting t a d) (Lasting t a) := by
  refine Op.ends_bind h fun sort goal found _ _ _ unbound ↦ ?_
  have here : c.get sort.id = .ok sort := h.get_id found
  have recursiveVariant : sort.variant = .recursive := by
    unfold SortRecord.variant
    rw [unbound]
    rfl
  have fine := bound sort.name (unbound ▸ h.traits found)
  apply note
  refine h.replace here rfl recursiveVariant.symm (by rw [recursiveVariant]; decide) fine ?_
  rintro components ⟨⟩

section

variable (composite : t.Composite)

include composite

/-- What is attached is an attribute. -/
theorem lasts_attach (h : Lasting t a c) (base weight : SortId) : Ends (Op.attach base weight) c
    (fun id d ↦ Lasting t a d ∧
      ∃ sort, d.get id = .ok sort ∧ sort.name = none ∧ sort.variant = .weighted)
    (Lasting t a) := by
  refine Op.ends_attach h (fun b w known _ _ _ _ entry ↦ ?_) fun b w _ _ _ _ _ ↦ ?_
  · obtain ⟨sort, found, nameless, weighted, -⟩ := h.kept entry
    exact ⟨h, sort, found, nameless, weighted⟩
  · have added : Lasting t a (c.add none (weightedText b w) (.composite [b.counts, w.counts])
        (.weighted base weight)) :=
      h.add (composite _ _ (.inl rfl)) (by rintro components ⟨⟩)
    have found : (c.add none (weightedText b w) (.composite [b.counts, w.counts])
        (.weighted base weight)).get c.nextId = .ok _ := get_add_nextId h.toRooted
    refine ⟨note ?_ _, _, found, rfl, rfl⟩
    exact added.congr (added.toSteady.insertKept found rfl rfl rfl) fun _ ↦ rfl

theorem lasts_combine (h : Lasting t a c) (base weight : SortId) : Ends (Op.combine base weight) c
    (fun id d ↦ Lasting t a d ∧
      ∃ sort, d.get id = .ok sort ∧ sort.name = none ∧ sort.variant = .weighted)
    (Lasting t a) := by
  refine Ends.bind (Op.ends_read h fun elements shown ↦ ?_)
  cases elements with
  | nil => exact absurd rfl (ne_nil_of_spineWithin shown)
  | cons first others =>
    rw [List.foldrM_cons]
    refine Ends.bind ((Op.ends_foldrM_attach others h fun base _ weight c reached ↦
      (lasts_attach composite reached base weight).mono (fun _ _ ↦ And.left)
        fun _ failed ↦ failed).mono
      (fun weight d reached ↦ ?_) fun _ failed ↦ failed)
    exact lasts_attach composite reached first weight

theorem safe_combine (base weight : SortId) : Safe t (Op.combine base weight) :=
  fun _ _ h ↦ (lasts_combine composite h base weight).mono (fun _ _ ↦ And.left)
    fun _ failed ↦ failed

theorem safe_sum (l r : SortId) : Safe t (Op.sum l r) := by
  intro a c h
  refine Op.ends_sum h (fun _ _ _ _ _ ↦ h) (fun _ _ _ _ _ _ _ ↦ h) ?_ ?_
  · intro left right components parts summed disjunctive nameless
    have here : c.get left.id = .ok left := h.get_id summed.foundLeft
    have loose : left.variant ≠ .weighted := by
      rw [disjunctive]
      decide
    refine h.replace here rfl disjunctive.symm loose ?_ ?_
    · exact nameless ▸ composite _ _ (.inr rfl)
    · rintro _ ⟨⟩
      exact h.two_le_length_of_summed summed
  · intro left right components parts summed _
    refine h.add (composite _ _ (.inr rfl)) ?_
    rintro _ ⟨⟩
    exact h.two_le_length_of_summed summed

end

theorem lasting_addAspects {owner : SortId} (names : List String) (first : Nat) (h : Lasting t a c)
    (own : ∀ c position, ∀ name ∈ names, t.holds c (some name) (.aspect owner position)) :
    Ends (Op.addAspects owner canonical first names) c
      (fun _ d ↦ Lasting t a d ∧ ∀ id sort, c.get id = .ok sort → d.get id = .ok sort)
      (Lasting t a) := by
  induction names generalizing c first with
  | nil => exact Ends.pure ⟨h, fun _ _ found ↦ found⟩
  | cons name names ih =>
    refine Ends.bind (Op.ends_add ?_)
    have added : Lasting t a (c.add (some name) (aspectText canonical first)
        ComponentCounts.ofSimple.renamed (.aspect owner first)) :=
      h.add (own _ _ name List.mem_cons_self) (by rintro components ⟨⟩)
    refine Ends.bind ((ih (first + 1) added fun c position other inside ↦
      own c position other (List.mem_cons_of_mem _ inside)).mono ?_ fun _ failed ↦ failed)
    rintro aspects d ⟨later, stays⟩
    exact Ends.pure ⟨later, fun id sort found ↦ stays id sort (get_add_of_live h.toRooted found)⟩

/-- What is declared is an aspects tuple. -/
theorem lasts_declareAspects (h : Lasting t a c) (names : List String) (arguments : List SortId)
    (own : ∀ c owner position, ∀ name ∈ names, t.holds c (some name) (.aspect owner position))
    (tuple : ∀ c name own, t.holds c name (.aspects tag own arguments)) :
    Ends (Op.declareAspects categories tag names arguments) c
      (fun id d ↦ Lasting t a d ∧ ∃ sort, d.get id = .ok sort ∧ sort.variant = .aspects)
      (Lasting t a) := by
  refine Op.ends_declareAspects h fun displays _ ↦ ?_
  have atOwner : Lasting t a (c.add (some (tupleText names)) (aspectsText tag displays)
      ComponentCounts.ofSimple.renamed (.aspects tag [] arguments)) :=
    h.add (tuple _ _ _) (by rintro components ⟨⟩)
  refine (lasting_addAspects names 0 atOwner fun c position ↦ own c _ position).mono ?_
    fun _ failed ↦ failed
  rintro aspects d ⟨atAspects, stays⟩
  have found : d.get c.nextId = .ok (Op.tuple c tag names displays arguments []) :=
    stays _ _ (get_add_nextId h.toRooted)
  have linked : Lasting t a (d.replace (Op.tuple c tag names displays arguments aspects)) :=
    atAspects.replace found rfl rfl (by rintro ⟨⟩) (tuple _ _ _) (by rintro components ⟨⟩)
  have now : (d.replace (Op.tuple c tag names displays arguments aspects)).get c.nextId = .ok _ :=
    get_replace_self found
  refine ⟨found, ?_⟩
  -- What is left to do changes no variant, so it can be looked at from here.
  generalize d.replace _ = e at linked now ⊢
  have here : Lasting t e e := refl linked.toSteady linked.traits
  refine (Ends.forM (Lasting t e) here aspects fun id _ e' reached ↦
    safe_register id e e' reached).mono (fun _ e' named ↦ ?_) fun _ failed ↦ linked.trans failed
  refine (safe_register c.nextId e e' named).mono (fun _ f last ↦ ?_)
    fun _ failed ↦ linked.trans failed
  obtain ⟨sort, there, same⟩ := last.resembles _ _ now
  exact ⟨linked.trans last, sort, there, same⟩

theorem safe_declareAspects (names : List String) (arguments : List SortId)
    (own : ∀ c owner position, ∀ name ∈ names, t.holds c (some name) (.aspect owner position))
    (tuple : ∀ c name own, t.holds c name (.aspects tag own arguments)) :
    Safe t (Op.declareAspects categories tag names arguments) :=
  fun _ _ h ↦ (lasts_declareAspects h names arguments own tuple).mono (fun _ _ ↦ And.left)
    fun _ failed ↦ failed

end Lasting

end CompositeSorts.Catalog
