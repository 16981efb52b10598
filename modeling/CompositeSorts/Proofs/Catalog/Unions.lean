import CompositeSorts.Proofs.Catalog.Attributes
import CompositeSorts.Proofs.Catalog.Copies
import Mathlib.Data.List.Dedup

/-!
Sums are unions of sets. A sort contributes to a sum what its components display if it is a
disjunction without a name, and its own display otherwise (`Catalog.flattened`). Where such
disjunctions are made of sorts that do not grow and show what these display, all different
(`Catalog.Additive`), the display of a sort tells the set of what it contributes, and a sum
contributes what its operands do (`Additive.ends_sum`), whether it answers an operand, grows the
left one or makes a new sort.

A disjunction that occurs several times in a tree of sums can have grown when it is come to again.
But it grows by nothing that the tree does not add up anyway (`Catalog.Swells`), so that the result
contributes what the operands did in the beginning (`Additive.exists_evaluate`).
-/

set_option autoImplicit false
set_option relaxedAutoImplicit false

namespace CompositeSorts

open Text

/-! ### Texts of sets -/

/-- The text of a set of displays, which may be listed in any order and more than once: the displays
in order, joined by plus signs. -/
def Catalog.unionText (texts : List String) : String := disjunctiveText texts.dedup

namespace Text

theorem sorted_eq_of_perm {texts texts' : List String} (perm : texts.Perm texts') :
    sorted texts = sorted texts' := by
  have together : (sorted texts).Perm (sorted texts') :=
    (sorted_perm texts).trans (perm.trans (sorted_perm texts').symm)
  exact together.eq_of_pairwise (fun _ _ _ _ ↦ String.le_antisymm) (pairwise_sorted texts)
    (pairwise_sorted texts')

end Text

namespace Catalog

variable {c d e : Catalog} {a b id other part : SortId} {sort left right new : SortRecord}
  {text : String} {texts texts' : List String} {ids components : List SortId}
  {parts : List SortRecord}

theorem disjunctiveText_singleton (text : String) : disjunctiveText [text] = text := by
  change String.intercalate "+" [text] = text
  exact String.intercalate_singleton

/-- A disjunction of different displays is written as the set of them. -/
theorem disjunctiveText_eq_unionText (nodup : texts.Nodup)
    (same : ∀ text, text ∈ texts ↔ text ∈ texts') : disjunctiveText texts = unionText texts' := by
  have perm : texts.Perm texts'.dedup :=
    (List.perm_ext_iff_of_nodup nodup (List.nodup_dedup _)).mpr fun text ↦ by
      rw [List.mem_dedup, same]
  unfold unionText disjunctiveText
  rw [sorted_eq_of_perm perm]

/-- Closed texts can be told apart again in a disjunction of them. -/
theorem mem_iff_of_disjunctiveText (each : ∀ text ∈ texts, Surface text Closed)
    (each' : ∀ text ∈ texts', Surface text Closed) (some_ : texts ≠ []) (some' : texts' ≠ [])
    (same : disjunctiveText texts = disjunctiveText texts') :
    ∀ text, text ∈ texts ↔ text ∈ texts' := by
  have proper {texts : List String} (some_ : texts ≠ []) : sorted texts ≠ [] := fun none_ ↦
    some_ (List.perm_nil.mp (none_ ▸ (sorted_perm texts).symm))
  have parts : sorted texts = sorted texts' :=
    Surface.joined_injective (c := '+') rfl (fun closed ↦ closed.2 rfl)
      (fun text inside ↦ each text ((sorted_perm texts).mem_iff.mp inside))
      (fun text inside ↦ each' text ((sorted_perm texts').mem_iff.mp inside))
      (proper some_) (proper some') same
  intro text
  rw [← (sorted_perm texts).mem_iff, parts, (sorted_perm texts').mem_iff]

theorem exists_mapM_get (live : ∀ id ∈ ids, c.Live id) : ∃ sorts, ids.mapM c.get = .ok sorts := by
  induction ids with
  | nil => exact ⟨[], rfl⟩
  | cons id ids ih =>
    obtain ⟨⟨sort, found⟩, others⟩ := List.forall_mem_cons.mp live
    obtain ⟨sorts, all⟩ := ih others
    exact ⟨sort :: sorts, mapM_eq_ok_iff.mpr (.cons found (mapM_eq_ok_iff.mp all))⟩

/-! ### Contributions -/

/-- What the sort contributes to a sum: the displays of its components if it is a disjunction
without a name, and otherwise its own. -/
def flattened (c : Catalog) (id : SortId) : List String :=
  match c.get id with
  | .ok sort => sort.summands.filterMap fun part ↦ (c.display part).toOption
  | .error _ => []

/-- Disjunctions without a name are made of sorts that do not grow and that have different displays,
and show what these display; other sorts have no plus signs on the surface of their displays. -/
structure Additive (c : Catalog) : Prop extends Steady c where
  components : ∀ {id sort}, c.get id = .ok sort → sort.Growing →
    ∀ part ∈ sort.summands, c.Component part
  nodup : ∀ {id sort}, c.get id = .ok sort → sort.Growing → (sort.summands.map c.display).Nodup
  written : ∀ {id sort}, c.get id = .ok sort → sort.Growing →
    sort.canonical = disjunctiveText (c.flattened id)
  closed : ∀ {id sort}, c.get id = .ok sort → ¬ sort.Growing → Surface sort.display Closed

theorem displays_of_live (live : ∀ id ∈ ids, c.Live id) :
    c.displays ids = .ok (ids.filterMap fun id ↦ (c.display id).toOption) := by
  refine mapM_eq_ok_iff.mpr ?_
  induction ids with
  | nil => exact .nil
  | cons id ids ih =>
    obtain ⟨⟨sort, found⟩, others⟩ := List.forall_mem_cons.mp live
    have here := display_of_get found
    rw [List.filterMap_cons_some (b := sort.display) (by rw [here]; rfl)]
    exact .cons here (ih others)

theorem flattened_of_displays (found : c.get id = .ok sort)
    (shown : c.displays sort.summands = .ok texts) : c.flattened id = texts := by
  have all := displays_of_live (live_of_displays shown)
  rw [shown] at all
  unfold flattened
  rw [found]
  exact (Except.ok.inj all).symm

theorem Formed.additive {waiting : List SortId} (h : Formed waiting c) : c.Additive where
  toSteady := h.toSteady
  components found growing := h.component_summands found (by rw [growing.2]; decide)
  nodup found _ := h.nodup_summands found
  written found growing := by
    obtain ⟨components, made, own⟩ := growing.body_eq
    have written := (h.fits found).rendered (by rw [growing.2]; decide)
    rw [made] at written
    obtain ⟨texts, shown, eq⟩ := exists_of_map_eq_ok written
    rw [flattened_of_displays found (own.symm ▸ shown), eq]
  closed found fixed := (h.surface found).mono fun _ ↦ SortRecord.closed_of_bare fixed

namespace Additive

variable (h : c.Additive)

include h

theorem live_of_summand (found : c.get id = .ok sort) (inside : part ∈ sort.summands) :
    c.Live part := by
  by_cases growing : sort.Growing
  · obtain ⟨record, there, -⟩ := h.components found growing part inside
    exact ⟨record, there⟩
  · rw [SortRecord.summands_of_not_growing growing, List.mem_singleton, h.placed found] at inside
    exact ⟨sort, inside ▸ found⟩

theorem displays_summands (found : c.get id = .ok sort) :
    c.displays sort.summands = .ok (c.flattened id) := by
  unfold flattened
  rw [found]
  exact displays_of_live fun part ↦ h.live_of_summand found

theorem mem_flattened_iff (found : c.get id = .ok sort) :
    text ∈ c.flattened id ↔ ∃ part ∈ sort.summands, c.display part = .ok text := by
  have shown := map_display_of_displays (h.displays_summands found)
  rw [← List.mem_map, shown]
  simp

theorem flattened_of_not_growing (found : c.get id = .ok sort) (fixed : ¬ sort.Growing) :
    c.flattened id = [sort.display] := by
  unfold flattened
  rw [found]
  dsimp only
  rw [SortRecord.summands_of_not_growing fixed, h.placed found, List.filterMap_cons_some]
  · rfl
  · rw [display_of_get found]
    rfl

/-- The display of a sort shows what it contributes. -/
theorem display_eq (found : c.get id = .ok sort) :
    sort.display = disjunctiveText (c.flattened id) := by
  by_cases growing : sort.Growing
  · rw [SortRecord.display_of_nameless growing.1]
    exact h.written found growing
  · rw [h.flattened_of_not_growing found growing, disjunctiveText_singleton]

theorem flattened_ne_nil (found : c.get id = .ok sort) : c.flattened id ≠ [] := by
  by_cases growing : sort.Growing
  · obtain ⟨components, made, own⟩ := growing.body_eq
    have several := h.several found made
    have length := (mapM_eq_ok_iff.mp (h.displays_summands found)).length_eq
    intro none_
    rw [none_, own] at length
    simp only [List.length_nil] at length
    omega
  · rw [h.flattened_of_not_growing found growing]
    exact List.cons_ne_nil _ _

theorem nodup_flattened (found : c.get id = .ok sort) : (c.flattened id).Nodup := by
  by_cases growing : sort.Growing
  · have nodup := h.nodup found growing
    rw [map_display_of_displays (h.displays_summands found)] at nodup
    exact nodup.of_map _
  · rw [h.flattened_of_not_growing found growing]
    exact List.nodup_singleton _

theorem closed_flattened (found : c.get id = .ok sort) :
    ∀ text ∈ c.flattened id, Surface text Closed := by
  intro text inside
  by_cases growing : sort.Growing
  · obtain ⟨part, among, shown⟩ := (h.mem_flattened_iff found).mp inside
    obtain ⟨record, there, -, fixed⟩ := h.components found growing part among
    rw [display_of_get there] at shown
    exact Except.ok.inj shown ▸ h.closed there fixed
  · rw [h.flattened_of_not_growing found growing] at inside
    exact List.mem_singleton.mp inside ▸ h.closed found growing

/-- Sorts of one display contribute the same. -/
theorem mem_flattened_of_display (foundLeft : c.get a = .ok left) (foundRight : c.get b = .ok right)
    (same : left.display = right.display) : ∀ text, text ∈ c.flattened a ↔ text ∈ c.flattened b := by
  rw [h.display_eq foundLeft, h.display_eq foundRight] at same
  exact mem_iff_of_disjunctiveText (h.closed_flattened foundLeft) (h.closed_flattened foundRight)
    (h.flattened_ne_nil foundLeft) (h.flattened_ne_nil foundRight) same

end Additive

end Catalog

/-! ### Sums -/

namespace Op

variable {c : Catalog} {ids components : List SortId}

/-- Live sorts can be merged. -/
theorem exists_merged (live : ∀ id ∈ components, c.Live id) (live' : ∀ id ∈ ids, c.Live id) :
    ∃ result, merged c components ids = .ok result := by
  induction ids generalizing components with
  | nil => exact ⟨components, rfl⟩
  | cons id ids ih =>
    obtain ⟨⟨sort, found⟩, others⟩ := List.forall_mem_cons.mp live'
    obtain ⟨present, shown⟩ : ∃ present, shows c sort.display components = .ok present :=
      ⟨_, shows_eq (Catalog.displays_of_live live)⟩
    have front : ∀ other ∈ if present then components else components ++ [id], c.Live other := by
      intro other inside
      split_ifs at inside
      · exact live other inside
      · rcases List.mem_append.mp inside with inside | inside
        · exact live other inside
        · exact List.mem_singleton.mp inside ▸ ⟨sort, found⟩
    obtain ⟨result, joined⟩ := ih front others
    refine ⟨result, ?_⟩
    rw [merged, Catalog.display_of_get found]
    change (shows c sort.display components >>= fun present ↦
      merged c (if present then components else components ++ [id]) ids) = _
    rw [shown]
    exact joined

end Op

namespace Catalog

variable {c d e : Catalog} {a b id : SortId} {left right new : SortRecord}
  {texts texts' : List String} {components : List SortId} {parts : List SortRecord}

/-- What other sorts contribute stays, but for some of the texts that can be added. -/
def Swells (c d : Catalog) (texts : List String) : Prop :=
  ∀ id, Op.Operand c id → Op.Operand d id ∧ (∀ text ∈ c.flattened id, text ∈ d.flattened id) ∧
    ∀ text ∈ d.flattened id, text ∈ c.flattened id ∨ text ∈ texts

theorem Swells.refl (c : Catalog) (texts : List String) : c.Swells c texts :=
  fun _ operand ↦ ⟨operand, fun _ inside ↦ inside, fun _ ↦ Or.inl⟩

theorem Swells.trans (h : c.Swells d texts) (h' : d.Swells e texts) : c.Swells e texts := by
  intro id operand
  obtain ⟨operand', kept, bounded⟩ := h id operand
  obtain ⟨operand'', kept', bounded'⟩ := h' id operand'
  exact ⟨operand'', fun text inside ↦ kept' text (kept text inside), fun text inside ↦
    (bounded' text inside).elim (bounded text) Or.inr⟩

theorem Swells.mono (h : c.Swells d texts) (more : ∀ text ∈ texts, text ∈ texts') :
    c.Swells d texts' := by
  intro id operand
  obtain ⟨operand', kept, bounded⟩ := h id operand
  exact ⟨operand', kept, fun text inside ↦ (bounded text inside).imp_right (more text)⟩

namespace Additive

/-- A disjunction that is new, or stands in the place of one that could grow, contributes what it
shows; and all other sorts contribute what they did. -/
theorem change (h : c.Additive) (steady : d.Steady) (here : d.get id = .ok new)
    (kept : ∀ other, other ≠ id → d.get other = c.get other)
    (loose : ∀ old, c.get id = .ok old → old.Growing) (growing : new.Growing)
    (each : ∀ part ∈ new.summands, c.Component part) (nodup : (new.summands.map c.display).Nodup)
    (shown : c.displays new.summands = .ok texts) (text : new.canonical = disjunctiveText texts) :
    d.Additive ∧ d.flattened id = texts ∧
      ∀ other, other ≠ id → c.Live other → d.flattened other = c.flattened other := by
  have apart {part : SortId} (component : c.Component part) : part ≠ id := by
    rintro rfl
    obtain ⟨record, found, -, fixed⟩ := component
    exact fixed (loose record found)
  have display {part : SortId} (differs : part ≠ id) : d.display part = c.display part := by
    unfold Catalog.display
    rw [kept part differs]
  have componentStays {part : SortId} (component : c.Component part) : d.Component part := by
    have differs := apart component
    obtain ⟨record, found, rest⟩ := component
    exact ⟨record, (kept part differs).trans found, rest⟩
  have displays {ids : List SortId} (all : ∀ part ∈ ids, c.Component part) :
      ids.map d.display = ids.map c.display ∧
        (ids.filterMap fun part ↦ (d.display part).toOption) =
          ids.filterMap fun part ↦ (c.display part).toOption := by
    have same : ∀ part ∈ ids, d.display part = c.display part :=
      fun part inside ↦ display (apart (all part inside))
    exact ⟨List.map_congr_left same, List.filterMap_congr fun part inside ↦ by rw [same part inside]⟩
  have now : d.flattened id = texts := by
    have all := displays_of_live (live_of_displays shown)
    rw [shown] at all
    unfold flattened
    rw [here]
    exact (displays each).2.trans (Except.ok.inj all).symm
  have others : ∀ other, other ≠ id → c.Live other → d.flattened other = c.flattened other := by
    rintro other differs ⟨sort, found⟩
    have found' := (kept other differs).trans found
    unfold flattened
    rw [found, found']
    by_cases growing : sort.Growing
    · exact (displays (h.components found growing)).2
    · dsimp only
      rw [SortRecord.summands_of_not_growing growing, h.placed found]
      simp only [List.filterMap_cons, List.filterMap_nil, display differs]
  refine ⟨⟨steady, ?_, ?_, ?_, ?_⟩, now, others⟩
  · intro other sort found growing part inside
    rcases changed_cases here kept found with ⟨rfl, rfl⟩ | ⟨-, before⟩
    · exact componentStays (each part inside)
    · exact componentStays (h.components before growing part inside)
  · intro other sort found growing
    rcases changed_cases here kept found with ⟨rfl, rfl⟩ | ⟨-, before⟩
    · rw [(displays each).1]
      exact nodup
    · rw [(displays (h.components before growing)).1]
      exact h.nodup before growing
  · intro other sort found growing
    rcases changed_cases here kept found with ⟨rfl, rfl⟩ | ⟨differs, before⟩
    · rw [now, text]
    · rw [others other differs ⟨sort, before⟩]
      exact h.written before growing
  · intro other sort found fixed
    rcases changed_cases here kept found with ⟨rfl, rfl⟩ | ⟨-, before⟩
    · exact absurd growing fixed
    · exact h.closed before fixed

/-- What a sum is made of are the contributions of its operands. -/
theorem of_summed (h : c.Additive) (summed : Op.Summed c a b left right components parts) :
    (∀ part ∈ components, c.Component part) ∧ (components.map c.display).Nodup ∧
      ∀ text, text ∈ parts.map SortRecord.display ↔
        text ∈ c.flattened a ∨ text ∈ c.flattened b := by
  obtain ⟨appended, eq, among⟩ := Op.merged_eq_append summed.joined
  have component {id : SortId} {sort : SortRecord} (found : c.get id = .ok sort)
      (plain : sort.variant ≠ .aspects) : ∀ part ∈ sort.summands, c.Component part := by
    intro part inside
    by_cases growing : sort.Growing
    · exact h.components found growing part inside
    · rw [SortRecord.summands_of_not_growing growing, List.mem_singleton, h.placed found] at inside
      exact ⟨sort, inside ▸ found, plain, growing⟩
  have nodup : (left.summands.map c.display).Nodup := by
    by_cases growing : left.Growing
    · exact h.nodup summed.foundLeft growing
    · rw [SortRecord.summands_of_not_growing growing]
      exact List.nodup_singleton _
  have sides : ∀ part ∈ components, part ∈ left.summands ∨ part ∈ right.summands := by
    intro part inside
    rw [eq] at inside
    exact (List.mem_append.mp inside).imp_right (among part)
  refine ⟨fun part inside ↦ ?_, Op.merged_nodup summed.joined nodup, fun text ↦ ?_⟩
  · rcases sides part inside with mine | theirs
    · exact component summed.foundLeft summed.plainLeft part mine
    · exact component summed.foundRight summed.plainRight part theirs
  have shown := map_display_of_displays (displays_eq_of_mapM summed.found)
  have listed : text ∈ parts.map SortRecord.display ↔ ∃ part ∈ components,
      c.display part = .ok text := by
    rw [← List.mem_map, shown]
    simp
  rw [listed, h.mem_flattened_iff summed.foundLeft, h.mem_flattened_iff summed.foundRight]
  constructor
  · rintro ⟨part, inside, display⟩
    exact (sides part inside).imp (fun mine ↦ ⟨part, mine, display⟩)
      fun theirs ↦ ⟨part, theirs, display⟩
  · rintro (⟨part, mine, display⟩ | ⟨part, theirs, display⟩)
    · exact ⟨part, eq ▸ List.mem_append_left _ mine, display⟩
    · obtain ⟨other, inside, same⟩ := Op.merged_shows summed.joined part theirs
      exact ⟨other, inside, same.trans display⟩

/-- Sorts of different displays do not add up to one component. -/
theorem not_single (h : c.Additive) {only : SortId} (foundLeft : c.get a = .ok left)
    (foundRight : c.get b = .ok right) (differ : left.display ≠ right.display)
    (joined : Op.merged c left.summands right.summands = .ok [only]) : False := by
  obtain rfl : only = a := h.eq_of_merged foundLeft joined
  have all : ∀ text ∈ c.flattened b, text = left.display := by
    intro text inside
    obtain ⟨part, among, shown⟩ := (h.mem_flattened_iff foundRight).mp inside
    obtain ⟨other, here, same⟩ := Op.merged_shows joined part among
    rw [List.mem_singleton.mp here, shown, display_of_get foundLeft] at same
    exact (Except.ok.inj same).symm
  have alone : c.flattened b = [left.display] := by
    obtain ⟨first, others, eq⟩ := List.exists_cons_of_ne_nil (h.flattened_ne_nil foundRight)
    have nodup := h.nodup_flattened foundRight
    rw [eq] at all nodup ⊢
    cases others with
    | nil => rw [all first List.mem_cons_self]
    | cons second others =>
      have same := (all first (by simp)).trans (all second (by simp)).symm
      exact absurd (by simp [same]) (List.nodup_cons.mp nodup).1
  have shown := h.display_eq foundRight
  rw [alone, disjunctiveText_singleton] at shown
  exact differ shown.symm

/-- The sum has been added up: it contributes what its operands did, and nothing else is added. -/
structure Added (c : Catalog) (a b id : SortId) (d : Catalog) : Prop where
  additive : d.Additive
  operand : Op.Operand c a → Op.Operand d id
  mem_iff : ∀ text, text ∈ d.flattened id ↔ text ∈ c.flattened a ∨ text ∈ c.flattened b
  swells : c.Swells d (c.flattened a ++ c.flattened b)

/-- A disjunction of the contributions, which is new or has grown from the left operand. -/
theorem added_of_change (h : c.Additive) (summed : Op.Summed c a b left right components parts)
    (steady : d.Steady) (here : d.get id = .ok new)
    (kept : ∀ other, other ≠ id → d.get other = c.get other)
    (loose : ∀ old, c.get id = .ok old → id = a ∧ old.Growing) (nameless : new.name = none)
    (made : new.body = .disjunctive components)
    (text : new.canonical = disjunctiveText (parts.map SortRecord.display)) :
    Added c a b id d := by
  have growing : new.Growing := ⟨nameless, by rw [SortRecord.variant, made]; rfl⟩
  have own : new.summands = components := by
    obtain ⟨components', made', own⟩ := growing.body_eq
    rw [made] at made'
    cases made'
    exact own
  obtain ⟨each, nodup, sides⟩ := h.of_summed summed
  rw [← own] at each nodup
  obtain ⟨additive, gained, stays⟩ := h.change steady here kept (fun old found ↦ (loose old found).2)
    growing each nodup (own.symm ▸ displays_eq_of_mapM summed.found) text
  have plain : Op.Operand d id := ⟨new, here, by rw [growing.2]; decide⟩
  refine ⟨additive, fun _ ↦ plain, fun text ↦ by rw [gained, sides], fun other operand ↦ ?_⟩
  obtain ⟨sort, found, differs⟩ := operand
  by_cases same : other = id
  · obtain rfl := same
    obtain ⟨rfl, -⟩ := loose sort found
    rw [gained]
    refine ⟨plain, fun text inside ↦ (sides text).mpr (Or.inl inside), fun text inside ↦ ?_⟩
    exact Or.inr (List.mem_append.mpr ((sides text).mp inside))
  · rw [stays other same ⟨sort, found⟩]
    exact ⟨⟨sort, (kept other same).trans found, differs⟩, fun _ inside ↦ inside, fun _ ↦ Or.inl⟩

/-- A sum contributes what its operands contribute; what is refused changes nothing. -/
theorem ends_sum (h : c.Additive) (a b : SortId) :
    Ends (Op.sum a b) c (Added c a b) (· = c) := by
  refine Op.ends_sum rfl ?_ ?_ ?_ ?_
  · intro left right foundLeft foundRight same
    have both := h.mem_flattened_of_display foundLeft foundRight same
    refine ⟨h, fun operand ↦ operand, fun text ↦ ?_, .refl c _⟩
    rw [← both, or_self]
  · intro left right only foundLeft foundRight differ joined
    exact (h.not_single foundLeft foundRight differ joined).elim
  · intro left right components parts summed disjunctive nameless
    have two := h.two_le_length_of_summed summed
    have placed := h.placed summed.foundLeft
    generalize is : ({ left with
      canonical := disjunctiveText (parts.map SortRecord.display)
      counts := .composite (parts.map SortRecord.counts)
      body := .disjunctive components } : SortRecord) = new
    have same : new.id = a := by rw [← is, placed]
    have found : c.get new.id = .ok left := same ▸ summed.foundLeft
    refine h.added_of_change summed (h.replace found (by rw [← is]) (by rw [disjunctive]; decide) ?_)
      (same ▸ get_replace_self found) (fun other differs ↦ get_replace_of_ne found (same ▸ differs))
      ?_ (by rw [← is, nameless]) (by rw [← is]) (by rw [← is])
    · intro others made
      rw [← is] at made
      cases made
      exact two
    · intro old there
      rw [summed.foundLeft] at there
      cases there
      exact ⟨rfl, nameless, disjunctive⟩
  · intro left right components parts summed fixed
    have two := h.two_le_length_of_summed summed
    refine h.added_of_change summed (h.add ?_) (get_add_nextId h.toRooted)
      (fun other differs ↦ get_add_of_ne h.toRooted differs) ?_ rfl rfl rfl
    · intro others made
      cases made
      exact two
    · intro old there
      exact absurd ⟨old, there⟩ (not_live_nextId h.toRooted)

/-- Two sorts that are no tuples can be added. -/
theorem exists_sum (h : c.Additive) (operandLeft : Op.Operand c a) (operandRight : Op.Operand c b) :
    ∃ id d, Op.sum a b c = .ok id d := by
  obtain ⟨left, foundLeft, plainLeft⟩ := operandLeft
  obtain ⟨right, foundRight, plainRight⟩ := operandRight
  have liveLeft : ∀ part ∈ left.summands, c.Live part := fun part ↦ h.live_of_summand foundLeft
  have liveRight : ∀ part ∈ right.summands, c.Live part := fun part ↦ h.live_of_summand foundRight
  obtain ⟨components, joined⟩ := Op.exists_merged liveLeft liveRight
  obtain ⟨appended, eq, among⟩ := Op.merged_eq_append joined
  have live : ∀ part ∈ components, c.Live part := by
    intro part inside
    rw [eq] at inside
    exact (List.mem_append.mp inside).elim (liveLeft part)
      fun inside ↦ liveRight part (among part inside)
  obtain ⟨parts, found⟩ := exists_mapM_get live
  by_cases differ : left.display = right.display
  · refine ⟨a, c, ?_⟩
    rw [Op.sum, Op.read_bind foundLeft, Op.read_bind foundRight, Op.refuseAspects_bind plainLeft,
      Op.refuseAspects_bind plainRight, if_pos differ]
    rfl
  · have several : ∀ only, components ≠ [only] := by
      rintro only rfl
      exact h.not_single foundLeft foundRight differ joined
    rw [Op.sum_eq ⟨foundLeft, foundRight, plainLeft, plainRight, differ, joined, found, several⟩]
    split_ifs <;> exact ⟨_, _, rfl⟩

end Additive

end Catalog

instance (c : Catalog) (id : SortId) : Decidable (Op.Operand c id) :=
  decidable_of_iff ((c.get id).toOption.any (·.variant ≠ .aspects) = true) <| by
    unfold Op.Operand
    cases c.get id <;> simp [Except.toOption]

/-! ### Trees of sums -/

/-- Sums of sums, down to sorts. -/
inductive SumTree where
  | sort (id : SortId)
  | sum (left right : SumTree)

namespace SumTree

/-- The sorts that are added up. -/
def operands : SumTree → List SortId
  | sort id => [id]
  | sum left right => left.operands ++ right.operands

/-- Adds up what is on the left, then what is on the right, and then both. -/
def evaluate : SumTree → Op SortId
  | sort id => pure id
  | sum left right => do
    let l ← left.evaluate
    let r ← right.evaluate
    Op.sum l r

/-- What the operands contribute, all together. -/
def contributions (tree : SumTree) (c : Catalog) : List String :=
  tree.operands.flatMap c.flattened

end SumTree

namespace Catalog

variable {c : Catalog} {tree : SumTree}

/-- What the operands contribute in the meantime is no more than what the whole tree adds up. -/
theorem Swells.contributions {d : Catalog} {texts : List String} (h : c.Swells d texts)
    (operands : ∀ id ∈ tree.operands, Op.Operand c id) :
    (∀ text ∈ tree.contributions c, text ∈ tree.contributions d) ∧
      ∀ text ∈ tree.contributions d, text ∈ tree.contributions c ∨ text ∈ texts := by
  simp only [SumTree.contributions, List.mem_flatMap]
  constructor
  · rintro text ⟨id, among, inside⟩
    exact ⟨id, among, (h id (operands id among)).2.1 text inside⟩
  · rintro text ⟨id, among, inside⟩
    exact ((h id (operands id among)).2.2 text inside).imp_left fun before ↦ ⟨id, among, before⟩

/-- A tree of sums can be added up, and contributes what its operands contribute, in whatever state
they are when they are come to. -/
theorem Additive.exists_evaluate (h : c.Additive)
    (operands : ∀ id ∈ tree.operands, Op.Operand c id) :
    ∃ id d, tree.evaluate c = .ok id d ∧ d.Additive ∧ Op.Operand d id ∧
      (∀ text, text ∈ d.flattened id ↔ text ∈ tree.contributions c) ∧
      c.Swells d (tree.contributions c) := by
  induction tree generalizing c with
  | sort id =>
    refine ⟨id, c, rfl, h, operands id List.mem_cons_self, fun text ↦ ?_, .refl c _⟩
    simp [SumTree.contributions, SumTree.operands]
  | sum left right ihLeft ihRight =>
    have sides : ∀ {c : Catalog} {text : String}, text ∈ (SumTree.sum left right).contributions c ↔
        text ∈ left.contributions c ∨ text ∈ right.contributions c := by
      simp [SumTree.contributions, SumTree.operands]
    have operandsLeft : ∀ id ∈ left.operands, Op.Operand c id :=
      fun id inside ↦ operands id (List.mem_append_left _ inside)
    have operandsRight : ∀ id ∈ right.operands, Op.Operand c id :=
      fun id inside ↦ operands id (List.mem_append_right _ inside)
    obtain ⟨l, c₁, runLeft, additive₁, operand₁, gained₁, swells₁⟩ := ihLeft h operandsLeft
    -- The operands on the right can have grown, but only by what is on the left.
    obtain ⟨grown, bounded⟩ := swells₁.contributions operandsRight
    obtain ⟨r, c₂, runRight, additive₂, operand₂, gained₂, swells₂⟩ :=
      ihRight additive₁ fun id inside ↦ (swells₁ id (operandsRight id inside)).1
    -- So can the sum of the left, but only by what is on the right.
    obtain ⟨operandLeft, grown', bounded'⟩ := swells₂ l operand₁
    obtain ⟨id, c₃, run⟩ := additive₂.exists_sum operandLeft operand₂
    have added := (additive₂.ends_sum l r).of_ok run
    have total : ∀ text, text ∈ c₂.flattened l ∨ text ∈ c₂.flattened r ↔
        text ∈ (SumTree.sum left right).contributions c := by
      intro text
      rw [sides]
      constructor
      · rintro (inside | inside)
        · rcases bounded' text inside with mine | theirs
          · exact Or.inl ((gained₁ text).mp mine)
          · exact (bounded text theirs).symm
        · exact (bounded text ((gained₂ text).mp inside)).symm
      · rintro (inside | inside)
        · exact Or.inl (grown' text ((gained₁ text).mpr inside))
        · exact Or.inr ((gained₂ text).mpr (grown text inside))
    refine ⟨id, c₃, ?_, added.additive, added.operand operandLeft, fun text ↦ ?_, ?_⟩
    · rw [SumTree.evaluate]
      exact Op.bind_eq_ok_iff.mpr ⟨l, c₁, runLeft, Op.bind_eq_ok_iff.mpr ⟨r, c₂, runRight, run⟩⟩
    · rw [added.mem_iff, total]
    · have first := swells₁.mono fun text inside ↦ sides.mpr (Or.inl inside)
      have second := swells₂.mono fun text inside ↦ sides.mpr (bounded text inside).symm
      have third := added.swells.mono fun text inside ↦ (total text).mp (List.mem_append.mp inside)
      exact (first.trans second).trans third

end Catalog

end CompositeSorts
