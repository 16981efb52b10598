import CompositeSorts.Proofs.Catalog.Attributes
import CompositeSorts.Proofs.Catalog.Steps

/-!
Lettered catalogs. In a lettered catalog every display can be read, and an attribute without a name
is written over its base and its weight (`Catalog.Written`): its text shows the base, and the weight
as it was displayed at the time. The weight is still displayed so, unless it is a disjunction
without a name, which can have grown since.

Every step keeps a catalog lettered if the words that are given are solid (`Lettered.step`), and so
does rolling back. Nothing else is asked of what is called: disjunctions can grow under the
attributes that have them, and names can be shared.
-/

set_option autoImplicit false
set_option relaxedAutoImplicit false

namespace CompositeSorts

open Text

/-- The word can stand for a sort among others: all parentheses and quotes in it are closed, outside
of them there is no sign of an operation, and it begins neither with a bracket nor with a
parenthesis. -/
def Text.Solid (word : String) : Prop :=
  Exposes word [] ∧ word.toList.head? ≠ some '[' ∧ word.toList.head? ≠ some '('

theorem Text.solid_of_unmarked {word : String} (unmarked : Unmarked word) : Solid word :=
  ⟨.of_unmarked unmarked, fun first ↦ unmarked '[' (List.mem_of_head? first) (by decide),
    fun first ↦ unmarked '(' (List.mem_of_head? first) (by decide)⟩

namespace SortRecord.Legible

variable {sort old : SortRecord} {name : String}

/-- A sort under a solid name is legible, whatever it is. -/
theorem of_named (named : sort.name = some name)
    (solid : Solid name) : sort.Legible where
  exposed := ⟨[], .of_named named solid.1⟩
  nameless none_ := by rw [named] at none_; cases none_
  bracket look := by rw [SortRecord.look_of_named named] at look; cases look
  named other carries := by
    rw [named] at carries
    cases carries
    exact ⟨solid.2.1, fun _ ↦ solid.2.2⟩

/-- So is a tuple of such names. -/
theorem of_tuple {names : List String} (named : sort.name = some (Catalog.tupleText names))
    (tuple : sort.variant = .aspects) (solid : ∀ name ∈ names, Solid name) : sort.Legible where
  exposed := ⟨[], .of_named named (.of_tupleText fun name inside ↦ ⟨[], (solid name inside).1⟩)⟩
  nameless none_ := by rw [named] at none_; cases none_
  bracket look := by rw [SortRecord.look_of_named named] at look; cases look
  named other carries := by
    rw [named] at carries
    cases carries
    refine ⟨?_, fun plain ↦ absurd tuple plain⟩
    unfold Catalog.tupleText
    rw [String.toList_append, String.toList_append]
    rintro ⟨⟩

/-- Only the name, the variant and the display of a sort count. -/
theorem congr (h : old.Legible) (name : sort.name = old.name) (variant : sort.variant = old.variant)
    (display : sort.display = old.display) : sort.Legible := by
  have look : sort.look = old.look := by rw [SortRecord.look, name, variant, SortRecord.look]
  obtain ⟨shown, exposes, plus, caret, closed⟩ := h.exposed
  exact {
    exposed := ⟨shown, display ▸ exposes, look ▸ plus, look ▸ caret, look ▸ closed⟩
    nameless := by rw [name, variant]; exact h.nameless
    bracket := by rw [look, display]; exact h.bracket
    named := by rw [name, variant]; exact h.named }

end SortRecord.Legible

namespace Catalog

variable {may : Touch → Prop} {c d : Catalog} {id base weight : SortId} {sort old : SortRecord}
  {name : Option String} {canonical : String} {counts : ComponentCounts} {body : Body}

/-- The sort has its name and its variant, and unless it can grow it is displayed as before. -/
def Stays (c d : Catalog) (id : SortId) : Prop :=
  ∃ before after, c.get id = .ok before ∧ d.get id = .ok after ∧ after.name = before.name ∧
    after.variant = before.variant ∧ (¬ before.Growing → after.display = before.display)

/-- The base is simple and the weight no tuple, and if the attribute has no name, its text shows the
base, and the weight as it is displayed or, if the weight can grow, as it was displayed once. -/
def Written (c : Catalog) (sort : SortRecord) (base weight : SortId) : Prop :=
  ∃ b w, c.get base = .ok b ∧ c.get weight = .ok w ∧ b.body.isSimple ∧ w.variant ≠ .aspects ∧
    (sort.name = none → ∃ text, (∃ shown, Exposes text shown) ∧
      (¬ w.Growing → text = w.display) ∧ sort.canonical = b.display ++ "^" ++ w.weightText text)

/-- Every display can be read, attributes are written over their bases and weights, the base of an
attribute is not newer than the session if the attribute is not, and names under definition are
solid. -/
structure Lettered (c : Catalog) : Prop where
  legible : ∀ {id sort}, c.get id = .ok sort → sort.Legible
  written : ∀ {id sort base weight}, c.get id = .ok sort → sort.body = .weighted base weight →
    c.Written sort base weight
  bases : ∀ {id sort base weight}, c.get id = .ok sort → sort.body = .weighted base weight →
    base ∈ c.fresh → id ∈ c.fresh
  announced : ∀ pending ∈ c.pending, Solid pending.name

theorem Stays.of_get_eq (same : d.get id = c.get id) (live : c.Live id) : Stays c d id := by
  obtain ⟨sort, found⟩ := live
  exact ⟨sort, sort, found, same.trans found, rfl, rfl, fun _ ↦ rfl⟩

/-- An attribute stays written over sorts that stay. -/
theorem Written.frame (h : c.Written sort base weight) (stays : c.Live base → c.Stays d base)
    (stays' : c.Live weight → c.Stays d weight) : d.Written sort base weight := by
  obtain ⟨b, w, foundBase, foundWeight, simple, operand, shown⟩ := h
  obtain ⟨before, b', there, foundBase', -, variant, display⟩ := stays ⟨b, foundBase⟩
  rw [foundBase] at there
  cases there
  obtain ⟨before, w', there, foundWeight', name', variant', display'⟩ := stays' ⟨w, foundWeight⟩
  rw [foundWeight] at there
  cases there
  have growing : w'.Growing ↔ w.Growing := by unfold SortRecord.Growing; rw [name', variant']
  refine ⟨b', w', foundBase', foundWeight', ?_, variant' ▸ operand, fun nameless ↦ ?_⟩
  · rwa [b'.isSimple_iff, variant, ← b.isSimple_iff]
  · obtain ⟨text, exposes, current, written⟩ := shown nameless
    refine ⟨text, exposes, fun fixed ↦ ?_, ?_⟩
    · rw [growing] at fixed
      exact (current fixed).trans (display' fixed).symm
    · rw [written, display (SortRecord.not_growing_of_simple simple), SortRecord.weightText,
        SortRecord.weightText, name', variant']

namespace Lettered

theorem empty (home : RegistryId) : (Catalog.empty home).Lettered where
  legible found := by simp [get_eq_ok_iff, Catalog.empty, SlotMap.get?_empty] at found
  written found := by simp [get_eq_ok_iff, Catalog.empty, SlotMap.get?_empty] at found
  bases found := by simp [get_eq_ok_iff, Catalog.empty, SlotMap.get?_empty] at found
  announced _ inside := absurd inside List.not_mem_nil

/-- Only the sorts, the session and the definitions under way count. -/
theorem congr (h : c.Lettered) (get : ∀ id, d.get id = c.get id) (fresh : d.fresh = c.fresh)
    (announced : ∀ pending ∈ d.pending, Solid pending.name) : d.Lettered where
  legible found := h.legible ((get _).symm.trans found)
  written found made := (h.written ((get _).symm.trans found) made).frame
    (.of_get_eq (get _)) (.of_get_eq (get _))
  bases found made inside := fresh ▸ h.bases ((get _).symm.trans found) made (fresh ▸ inside)
  announced := announced

theorem openSession (h : c.Lettered) : c.openSession.Lettered where
  legible := h.legible
  written := h.written
  bases _ _ inside := absurd inside List.not_mem_nil
  announced _ inside := absurd inside List.not_mem_nil

theorem clear (c : Catalog) : c.clear.Lettered := by
  have nothing := empty c.home
  exact ⟨nothing.legible, nothing.written, nothing.bases, nothing.announced⟩

/-- The attributes that are not rolled back keep what they are written over. -/
theorem rollBack (h : c.Lettered) (weighed : c.Weighed) (sound : c.Sound) :
    c.rollBack.Lettered where
  legible found := h.legible (sound.get_rollBack_eq_ok_iff.mp found).1
  written found made := by
    obtain ⟨found, out⟩ := sound.get_rollBack_eq_ok_iff.mp found
    obtain ⟨-, -, -, fresh⟩ := weighed.weights found made
    have kept {id : SortId} (old : id ∉ c.fresh) (live : c.Live id) : c.Stays c.rollBack id :=
      .of_get_eq (get_removeAll_of_notMem sound.ours_of_fresh old) live
    exact (h.written found made).frame (kept fun inside ↦ out (h.bases found made inside))
      (kept fun inside ↦ out (fresh inside))
  bases _ _ inside := absurd inside List.not_mem_nil
  announced _ inside := absurd inside List.not_mem_nil

/-! ### Elementary changes -/

theorem add (h : c.Lettered) (rooted : c.Rooted)
    (legible : (⟨c.nextId, name, canonical, c.clock, counts, body⟩ : SortRecord).Legible)
    (written : ∀ base weight, body = .weighted base weight →
      c.Written ⟨c.nextId, name, canonical, c.clock, counts, body⟩ base weight) :
    (c.add name canonical counts body).Lettered := by
  have stays {id : SortId} (live : c.Live id) : Stays c (c.add name canonical counts body) id := by
    obtain ⟨sort, found⟩ := live
    exact .of_get_eq ((get_add_of_live rooted found).trans found.symm) ⟨sort, found⟩
  refine ⟨fun {id sort} found ↦ ?_, fun {id sort base weight} found made ↦ ?_,
    fun {id sort base weight} found made inside ↦ ?_, h.announced⟩
  · rcases get_add_cases rooted found with ⟨rfl, rfl⟩ | ⟨-, before⟩
    · exact legible
    · exact h.legible before
  · have here : c.Written sort base weight := by
      rcases get_add_cases rooted found with ⟨rfl, rfl⟩ | ⟨-, before⟩
      · exact written base weight made
      · exact h.written before made
    exact here.frame stays stays
  · rcases get_add_cases rooted found with ⟨rfl, -⟩ | ⟨-, before⟩
    · exact List.mem_cons_self
    · obtain ⟨b, w, foundBase, -⟩ := h.written before made
      rcases List.mem_cons.mp inside with rfl | inside
      · exact absurd ⟨b, foundBase⟩ (not_live_nextId rooted)
      · exact List.mem_cons_of_mem _ (h.bases before made inside)

/-- A sort that is no attribute can be changed as long as it has its name and its variant, and its
display unless it can grow. -/
theorem replace (h : c.Lettered) (found : c.get sort.id = .ok old) (sameName : sort.name = old.name)
    (sameVariant : sort.variant = old.variant) (loose : old.variant ≠ .weighted)
    (legible : sort.Legible) (shown : ¬ old.Growing → sort.display = old.display) :
    (c.replace sort).Lettered := by
  have stays {id : SortId} (live : c.Live id) : Stays c (c.replace sort) id := by
    by_cases same : id = sort.id
    · subst same
      exact ⟨old, sort, found, get_replace_self found, sameName, sameVariant, shown⟩
    · exact .of_get_eq (get_replace_of_ne found same) live
  have before {id base weight : SortId} {record : SortRecord}
      (there : (c.replace sort).get id = .ok record) (made : record.body = .weighted base weight) :
      c.get id = .ok record := by
    rcases get_replace_cases found there with ⟨rfl, rfl⟩ | ⟨-, before⟩
    · rw [← sameVariant, SortRecord.variant, made] at loose
      exact absurd rfl loose
    · exact before
  refine ⟨fun {id record} there ↦ ?_,
    fun there made ↦ (h.written (before there made) made).frame stays stays,
    fun there made ↦ h.bases (before there made) made, h.announced⟩
  rcases get_replace_cases found there with ⟨rfl, rfl⟩ | ⟨-, before⟩
  · exact legible
  · exact h.legible before

/-! ### Steps -/

theorem exposes (h : c.Lettered) (found : c.get id = .ok sort) :
    ∃ shown, Exposes sort.display shown := by
  obtain ⟨shown, exposed⟩ := (h.legible found).exposed
  exact ⟨shown, exposed.exposes⟩

/-- What a sum shows can be read. -/
theorem exposes_sum (h : c.Lettered) (steady : c.Steady) {a b : SortId} {left right : SortRecord}
    {components : List SortId} {parts : List SortRecord}
    (summed : Op.Summed c a b left right components parts) :
    ∃ shown, Exposes (disjunctiveText (parts.map SortRecord.display)) shown ∧ '+' ∈ shown := by
  have displays := displays_eq_of_mapM summed.found
  refine Exposes.of_disjunctiveText (fun text inside ↦ ?_) ?_
  · obtain ⟨part, -, sort, found, rfl⟩ := exists_of_displays displays inside
    exact h.exposes found
  · rw [← (mapM_eq_ok_iff.mp displays).length_eq]
    exact steady.two_le_length_of_summed summed

/-- A step keeps a catalog lettered when the words that it is given are solid. -/
theorem step (h : c.Lettered) (steady : c.Steady) (step : Step Solid may c d) : d.Lettered := by
  have rooted := steady.toRooted
  cases step with
  | log journal => exact h.congr (fun _ ↦ rfl) rfl h.announced
  | await pending _ named =>
    refine h.congr (fun _ ↦ rfl) rfl fun p inside ↦ ?_
    rcases named p inside with solid | ⟨before, among, same⟩
    · exact solid
    · exact same ▸ h.announced before among
  | @placeholder pending announced =>
    exact h.add rooted (.of_named rfl (h.announced pending announced)) (by rintro _ _ ⟨⟩)
  | primitive written tagged number =>
    refine h.add rooted ?_ (by rintro _ _ ⟨⟩)
    have exposes := exposes_primitiveText written tagged.1
      (fun lexeme given ↦ (number lexeme given).1) fun linked _ part _ sort found ↦ h.exposes found
    exact {
      exposed := ⟨[], .of_primitive rfl rfl exposes⟩
      nameless := fun _ ↦ .inl rfl
      bracket := fun _ ↦ head?_primitiveText written
      named := by rintro _ ⟨⟩ }
  | copy found named bound tuple =>
    refine h.add rooted (.of_named rfl named) fun base weight made ↦ ?_
    obtain ⟨b, w, foundBase, foundWeight, simple, operand, -⟩ := h.written found made
    exact ⟨b, w, foundBase, foundWeight, simple, operand, by rintro ⟨⟩⟩
  | @attach base weight b w foundBase foundWeight simple operand free =>
    obtain ⟨shown, exposes, caret, plus⟩ := exposes_weightedText simple
      (h.legible foundBase).exposed (h.legible foundWeight).exposed
    have added : (c.add none (weightedText b w) (.composite [b.counts, w.counts])
        (.weighted base weight)).Lettered := by
      refine h.add rooted ?_ ?_
      · exact {
          exposed := ⟨shown, .of_weighted rfl rfl exposes caret plus⟩
          nameless := fun _ ↦ .inr (.inl rfl)
          bracket := by rintro ⟨⟩
          named := by rintro _ ⟨⟩ }
      · rintro _ _ ⟨⟩
        exact ⟨b, w, foundBase, foundWeight, simple, operand, fun _ ↦
          ⟨w.display, h.exposes foundWeight, fun _ ↦ rfl, weightedText_eq b w⟩⟩
    exact added.congr (fun _ ↦ rfl) rfl h.announced
  | sum summed fixed =>
    obtain ⟨shown, exposes, plus⟩ := h.exposes_sum steady summed
    refine h.add rooted ?_ (by rintro _ _ ⟨⟩)
    exact {
      exposed := ⟨shown, .of_disjunctive rfl rfl exposes plus⟩
      nameless := fun _ ↦ .inr (.inr rfl)
      bracket := by rintro ⟨⟩
      named := by rintro _ ⟨⟩ }
  | @grow a b left _ _ _ summed disjunctive nameless =>
    obtain ⟨shown, exposes, plus⟩ := h.exposes_sum steady summed
    have here : c.get left.id = .ok left := steady.get_id summed.foundLeft
    refine h.replace here rfl disjunctive.symm (by rw [disjunctive]; decide) ?_
      fun fixed ↦ absurd ⟨nameless, disjunctive⟩ fixed
    exact {
      exposed := ⟨shown, .of_disjunctive nameless rfl exposes plus⟩
      nameless := fun _ ↦ .inr (.inr rfl)
      bracket := fun look ↦ by rw [SortRecord.look, nameless] at look; cases look
      named := fun name named ↦ by rw [nameless] at named; cases named }
  | @bind _ target sort goal found _ unbound =>
    have here : c.get sort.id = .ok sort := steady.get_id found
    have variant : sort.variant = .recursive := by rw [SortRecord.variant, unbound]; rfl
    have legible := h.legible here
    obtain ⟨name, named⟩ : ∃ name, sort.name = some name := by
      cases named : sort.name with
      | some name => exact ⟨name, rfl⟩
      | none =>
        rcases legible.nameless named with kind | kind | kind <;> rw [variant] at kind <;>
          cases kind
    have display : ({ sort with
        canonical := goal.canonical, counts := goal.counts, body := .recursive (some target)
        } : SortRecord).display = sort.display := by
      unfold SortRecord.display
      rw [named]
      rfl
    exact h.replace here rfl variant.symm (by rw [variant]; decide)
      (legible.congr rfl variant.symm display) fun _ ↦ display
  | tuple declared named => exact h.add rooted (.of_tuple rfl rfl named) (by rintro _ _ ⟨⟩)
  | aspect owner canonical position named =>
    exact h.add rooted (.of_named rfl named) (by rintro _ _ ⟨⟩)
  | @own old _ _ aspects found made =>
    have variant : old.variant = .aspects := by rw [SortRecord.variant, made]; rfl
    exact h.replace found rfl variant.symm (by rw [variant]; decide)
      ((h.legible found).congr rfl variant.symm rfl) fun _ ↦ rfl
  | name found => exact h.congr (fun _ ↦ rfl) rfl h.announced

end Lettered

end Catalog

end CompositeSorts
