import CompositeSorts.Proofs.Catalog.Formed
import CompositeSorts.Proofs.Source.Exposure

/-!
What a display tells. A display that can be read (`SortRecord.Legible`) shows whether the sort has a
name, and if not, of which variant it is: a sum exposes a plus sign, an attribute a caret, a
primitive sort begins with a bracket, and a name does nothing of the kind. In a formed catalog all
displays can be read. So two sorts of the same display are the same sort, or two primitive sorts or
disjunctions without a name and with the same canonical text (`Formed.eq_of_nameless`).
-/

set_option autoImplicit false
set_option relaxedAutoImplicit false

namespace CompositeSorts

open Text

/-- What a text looks like. -/
inductive Look where
  | name
  | primitive
  | weighted
  | disjunctive
deriving DecidableEq

/-- What the text looks like, by the signs it exposes and by its first letter. -/
def Text.look (text : String) : Look :=
  let shown := signs (.bare 0) text.toList
  if '+' ∈ shown then .disjunctive
  else if '^' ∈ shown then .weighted
  else if text.toList.head? = some '[' then .primitive
  else .name

/-- What the display of the sort should look like. -/
def SortRecord.look (sort : SortRecord) : Look :=
  match sort.name, sort.variant with
  | none, .primitive => .primitive
  | none, .weighted => .weighted
  | none, .disjunctive => .disjunctive
  | _, _ => .name

/-- What the display of the sort exposes, and that it is as it should be. -/
structure SortRecord.Exposed (sort : SortRecord) (shown : List Char) : Prop where
  exposes : Exposes sort.display shown
  plus : '+' ∈ shown ↔ sort.look = .disjunctive
  caret : sort.look = .weighted → '^' ∈ shown
  closed : sort.look = .primitive ∨ sort.look = .name → shown = []

namespace SortRecord

variable {sort : SortRecord} {name : String}

theorem look_of_named (named : sort.name = some name) : sort.look = .name := by
  unfold look
  rw [named]

theorem display_of_named (named : sort.name = some name) : sort.display = name := by
  unfold display
  rw [named]
  rfl

theorem display_of_nameless (nameless : sort.name = none) : sort.display = sort.canonical := by
  unfold display
  rw [nameless]
  rfl

theorem growing_of_look (h : sort.look = .disjunctive) : sort.Growing := by
  unfold look at h
  split at h
  · cases h
  · cases h
  · exact ⟨‹_›, ‹_›⟩
  · cases h

end SortRecord

namespace Text.Exposes

/-- A tuple of texts hides what they expose. -/
theorem of_tupleText {texts : List String} (each : ∀ text ∈ texts, ∃ shown, Exposes text shown) :
    Exposes (Catalog.tupleText texts) [] := by
  have gap : Exposes ", " [] := of_plain (by simp)
  obtain ⟨_, exposes, -⟩ := joined gap each
  exact exposes.parenthesised

theorem of_disjunctiveText {texts : List String}
    (each : ∀ text ∈ texts, ∃ shown, Exposes text shown) (several : 2 ≤ texts.length) :
    ∃ shown, Exposes (Catalog.disjunctiveText texts) shown ∧ '+' ∈ shown := by
  have plus : Exposes "+" ['+'] := by
    intro depth
    cases depth with
    | zero => exact ⟨rfl, rfl⟩
    | succ depth => exact ⟨rfl, rfl⟩
  have inOrder : ∀ text ∈ sorted texts, ∃ shown, Exposes text shown :=
    fun text inside ↦ each text ((sorted_perm texts).mem_iff.mp inside)
  obtain ⟨shown, exposes, behind⟩ := joined plus inOrder
  refine ⟨shown, exposes, behind ?_ '+' (List.mem_singleton_self _)⟩
  rw [(sorted_perm texts).length_eq]
  exact several

end Text.Exposes

namespace Catalog

variable {c : Catalog} {waiting : List SortId} {id id' : SortId} {sort sort' : SortRecord}

/-- Displays are those of sorts that can be looked up. -/
theorem exists_of_displays {ids : List SortId} {texts : List String}
    (shown : c.displays ids = .ok texts) {text : String} (inside : text ∈ texts) :
    ∃ id ∈ ids, ∃ sort, c.get id = .ok sort ∧ sort.display = text := by
  have all := mapM_eq_ok_iff.mp shown
  obtain ⟨index, bound, rfl⟩ := List.mem_iff_getElem.mp inside
  have within : index < ids.length := all.length_eq ▸ bound
  have here : c.display ids[index] = .ok texts[index] := all.get within bound
  refine ⟨ids[index], List.getElem_mem within, ?_⟩
  unfold display at here
  cases found : c.get ids[index] with
  | error reason =>
    rw [found] at here
    cases here
  | ok sort =>
    rw [found] at here
    exact ⟨sort, rfl, Except.ok.inj here⟩

/-- The text of an argument hides the displays in it. -/
theorem exposes_argumentText {argument : Argument} {text : String}
    (written : c.argumentText argument = .ok text)
    (number : ∀ lexeme, argument = .bound lexeme → Exposes lexeme [])
    (parts : ∀ linked, argument = .sorts linked → ∀ part ∈ linked, ∀ sort, c.get part = .ok sort →
      ∃ shown, Exposes sort.display shown) : Exposes text [] := by
  cases argument with
  | identifier word =>
    cases written
    exact .of_wordOrQuoted word
  | bound lexeme =>
    cases written
    exact number _ rfl
  | locale language region =>
    cases written
    refine .of_tupleText fun text inside ↦ ⟨[], ?_⟩
    rcases List.mem_cons.mp inside with rfl | inside
    · exact .of_wordOrQuoted language
    · rw [List.mem_singleton.mp inside]
      exact .of_wordOrQuoted region
  | sorts linked =>
    unfold argumentText at written
    dsimp only at written
    cases shown : c.displays linked with
    | error reason =>
      rw [shown] at written
      cases written
    | ok texts =>
      rw [shown] at written
      cases written
      refine .of_tupleText fun text inside ↦ ?_
      obtain ⟨part, among, sort, found, rfl⟩ := exists_of_displays shown inside
      exact parts linked rfl part among sort found

/-- Brackets and what is in them come first in the text of a primitive sort. -/
theorem primitiveText_eq {category text : String} {argument : Option Argument}
    (written : c.primitiveText category argument = .ok text) :
    ∃ rest, text = "[" ++ category ++ "]" ++ rest ∧ (rest = "" ∧ argument = none ∨ ∃ value written,
      argument = some value ∧ c.argumentText value = .ok written ∧ rest = " " ++ written) := by
  unfold primitiveText at written
  cases argument with
  | none =>
    cases written
    exact ⟨"", (String.append_empty).symm, Or.inl ⟨rfl, rfl⟩⟩
  | some value =>
    dsimp only at written
    cases shown : c.argumentText value with
    | error reason =>
      rw [shown] at written
      cases written
    | ok argument =>
      rw [shown] at written
      cases written
      refine ⟨" " ++ argument, ?_, Or.inr ⟨value, argument, rfl, shown, rfl⟩⟩
      have split : "] " ++ argument = "]" ++ (" " ++ argument) := by
        rw [← String.append_assoc]
        rfl
      dsimp only
      simp only [String.append_assoc]
      rw [split]

/-- The text of a primitive sort exposes nothing. -/
theorem exposes_primitiveText {category text : String} {argument : Option Argument}
    (written : c.primitiveText category argument = .ok text) (tagged : Exposes category [])
    (number : ∀ lexeme, argument = some (.bound lexeme) → Exposes lexeme [])
    (parts : ∀ linked, argument = some (.sorts linked) → ∀ part ∈ linked, ∀ sort,
      c.get part = .ok sort → ∃ shown, Exposes sort.display shown) : Exposes text [] := by
  have brackets : Exposes ("[" ++ category ++ "]") ([] ++ [] ++ []) :=
    ((Exposes.of_plain (by simp)).append tagged).append (.of_plain (by simp))
  obtain ⟨rest, eq, ⟨rfl, -⟩ | ⟨value, argumentText, rfl, shown, rfl⟩⟩ := primitiveText_eq written
  · rw [eq, String.append_empty]
    exact brackets
  · rw [eq]
    refine brackets.append ((Exposes.of_plain (by simp)).append (exposes_argumentText shown ?_ ?_))
    · exact fun lexeme given ↦ number lexeme (by rw [given])
    · exact fun linked given ↦ parts linked (by rw [given])

/-- The text of an attribute exposes a caret and no plus sign. -/
theorem exposes_weightedText {b w : SortRecord} (simple : b.body.isSimple)
    (base : ∃ shown, b.Exposed shown) (weight : ∃ shown, w.Exposed shown) :
    ∃ shown, Exposes (weightedText b w) shown ∧ '^' ∈ shown ∧ '+' ∉ shown := by
  obtain ⟨shownBase, base⟩ := base
  obtain ⟨shownWeight, weight⟩ := weight
  have caret : Exposes "^" ['^'] := by
    intro depth
    cases depth with
    | zero => exact ⟨rfl, rfl⟩
    | succ depth => exact ⟨rfl, rfl⟩
  have noSum : '+' ∉ shownBase := by
    rw [base.plus]
    exact fun sum ↦ SortRecord.not_growing_of_simple simple (SortRecord.growing_of_look sum)
  have behind : ∃ shown, Exposes (if w.variant = .disjunctive ∧ w.name = none then
      "(" ++ w.display ++ ")" else w.display) shown ∧ '+' ∉ shown := by
    split_ifs with growing
    · exact ⟨[], weight.exposes.parenthesised, List.not_mem_nil⟩
    · refine ⟨shownWeight, weight.exposes, fun inside ↦ growing ?_⟩
      obtain ⟨none_, disjunctive⟩ := SortRecord.growing_of_look (weight.plus.mp inside)
      exact ⟨disjunctive, none_⟩
  obtain ⟨shown, exposes, noPlus⟩ := behind
  exact ⟨shownBase ++ ['^'] ++ shown, (base.exposes.append caret).append exposes, by simp,
    by simp [noSum, noPlus]⟩

end Catalog

namespace SortRecord.Exposed

variable {sort : SortRecord} {shown : List Char}

theorem of_primitive (nameless : sort.name = none) (primitive : sort.variant = .primitive)
    (exposes : Exposes sort.canonical []) : sort.Exposed [] := by
  have look : sort.look = .primitive := by rw [SortRecord.look, nameless, primitive]
  exact ⟨display_of_nameless nameless ▸ exposes, by simp [look], by simp [look], fun _ ↦ rfl⟩

theorem of_weighted (nameless : sort.name = none) (weighted : sort.variant = .weighted)
    (exposes : Exposes sort.canonical shown) (caret : '^' ∈ shown) (plus : '+' ∉ shown) :
    sort.Exposed shown := by
  have look : sort.look = .weighted := by rw [SortRecord.look, nameless, weighted]
  exact ⟨display_of_nameless nameless ▸ exposes, by simp [look, plus], fun _ ↦ caret,
    by simp [look]⟩

theorem of_disjunctive (nameless : sort.name = none) (disjunctive : sort.variant = .disjunctive)
    (exposes : Exposes sort.canonical shown) (plus : '+' ∈ shown) : sort.Exposed shown := by
  have look : sort.look = .disjunctive := by rw [SortRecord.look, nameless, disjunctive]
  exact ⟨display_of_nameless nameless ▸ exposes, by simp [look, plus], by simp [look],
    by simp [look]⟩

theorem of_named {name : String} (named : sort.name = some name) (exposes : Exposes name []) :
    sort.Exposed [] := by
  have look := look_of_named named
  exact ⟨display_of_named named ▸ exposes, by simp [look], by simp [look], fun _ ↦ rfl⟩

end SortRecord.Exposed

namespace Catalog

variable {c : Catalog} {waiting : List SortId} {id id' : SortId} {sort sort' : SortRecord}

namespace Formed

theorem exposes_primitive (h : Formed waiting c) {category : String} {argument : Option Argument}
    (found : c.get id = .ok sort) (made : sort.body = .primitive category argument)
    (parts : ∀ part ∈ sort.body.parts, ∀ sort', c.get part = .ok sort' →
      ∃ shown, sort'.Exposed shown) : Exposes sort.canonical [] := by
  have written := (h.fits found).rendered (by rw [SortRecord.variant, made]; rintro ⟨⟩)
  have spelled := (h.fits found).spelled
  rw [made] at written spelled
  refine exposes_primitiveText written (.of_unmarked spelled.1)
    (fun lexeme given ↦ .of_unmarked (spelled.2 lexeme given)) fun linked given part inside sort'
      found' ↦ ?_
  obtain ⟨shown, exposed⟩ := parts part (by rw [made, given]; exact inside) sort' found'
  exact ⟨shown, exposed.exposes⟩

theorem exposes_weighted (h : Formed waiting c) {base weight : SortId}
    (found : c.get id = .ok sort) (made : sort.body = .weighted base weight)
    (parts : ∀ part ∈ sort.body.parts, ∀ sort', c.get part = .ok sort' →
      ∃ shown, sort'.Exposed shown) :
    ∃ shown, Exposes sort.canonical shown ∧ '^' ∈ shown ∧ '+' ∉ shown := by
  have written := (h.fits found).rendered (by rw [SortRecord.variant, made]; rintro ⟨⟩)
  have composed := (h.fits found).composed
  rw [made] at written composed parts
  obtain ⟨⟨b, foundBase, simple⟩, w, foundWeight, plain⟩ := composed
  rw [rendering_weighted foundBase foundWeight] at written
  rw [← Except.ok.inj written]
  exact exposes_weightedText simple (parts base List.mem_cons_self b foundBase)
    (parts weight (List.mem_cons_of_mem _ List.mem_cons_self) w foundWeight)

theorem exposes_disjunctive (h : Formed waiting c) {components : List SortId}
    (found : c.get id = .ok sort) (made : sort.body = .disjunctive components)
    (parts : ∀ part ∈ sort.body.parts, ∀ sort', c.get part = .ok sort' →
      ∃ shown, sort'.Exposed shown) : ∃ shown, Exposes sort.canonical shown ∧ '+' ∈ shown := by
  have written := (h.fits found).rendered (by rw [SortRecord.variant, made]; rintro ⟨⟩)
  rw [made] at written parts
  unfold rendering at written
  dsimp only at written
  cases displayed : c.displays components with
  | error reason =>
    rw [displayed] at written
    cases written
  | ok texts =>
    rw [displayed] at written
    have several : 2 ≤ texts.length := by
      rw [← (mapM_eq_ok_iff.mp displayed).length_eq]
      exact h.several found made
    have each : ∀ text ∈ texts, ∃ shown, Exposes text shown := by
      intro text inside
      obtain ⟨part, among, sort', found', rfl⟩ := exists_of_displays displayed inside
      obtain ⟨_, exposed⟩ := parts part among sort' found'
      exact ⟨_, exposed.exposes⟩
    rw [← Except.ok.inj written]
    exact Exposes.of_disjunctiveText each several

theorem exposed_named (h : Formed waiting c) {name : String} (found : c.get id = .ok sort)
    (named : sort.name = some name) : sort.Exposed [] := by
  refine .of_named named ?_
  have spelled := (h.fits found).named name named
  split_ifs at spelled with tuple
  · obtain ⟨names, rfl, unmarked⟩ := spelled
    exact .of_tupleText fun part inside ↦ ⟨[], .of_unmarked (unmarked part inside)⟩
  · exact .of_unmarked spelled

/-- The display of every sort exposes what it should. -/
theorem exposed (h : Formed waiting c) (found : c.get id = .ok sort) :
    ∃ shown, sort.Exposed shown := by
  obtain ⟨rank, above⟩ := h.ranked
  induction place : rank id using Nat.strongRecOn generalizing id sort with
  | ind n ih =>
    have parts : ∀ part ∈ sort.body.parts, ∀ sort', c.get part = .ok sort' →
        ∃ shown, sort'.Exposed shown := fun part inside sort' found' ↦
      ih (rank part) (place ▸ above found part inside) found' rfl
    cases named : sort.name with
    | some name => exact ⟨[], h.exposed_named found named⟩
    | none =>
      have kind := (h.fits found).nameless named
      unfold SortRecord.variant at kind
      cases made : sort.body with
      | primitive category argument =>
        exact ⟨[], .of_primitive named (by rw [SortRecord.variant, made]; rfl)
          (h.exposes_primitive found made parts)⟩
      | weighted base weight =>
        obtain ⟨shown, exposes, caret, plus⟩ := h.exposes_weighted found made parts
        exact ⟨shown, .of_weighted named (by rw [SortRecord.variant, made]; rfl) exposes caret plus⟩
      | disjunctive components =>
        obtain ⟨shown, exposes, plus⟩ := h.exposes_disjunctive found made parts
        exact ⟨shown, .of_disjunctive named (by rw [SortRecord.variant, made]; rfl) exposes plus⟩
      | _ =>
        rw [made] at kind
        rcases kind with kind | kind | kind <;> cases kind

end Formed

/-- A tag between brackets can be told from what follows. -/
theorem bracketed_injective {category category' rest rest' : String} (plain : Unmarked category)
    (plain' : Unmarked category')
    (same : "[" ++ category ++ "]" ++ rest = "[" ++ category' ++ "]" ++ rest') :
    category = category' ∧ rest = rest' := by
  have clean {tag : String} (plain : Unmarked tag) :
      ∀ letter ∈ tag.toList, (letter != ']') = true := by
    intro letter inside
    rw [bne_iff_ne]
    rintro rfl
    exact plain _ inside (by decide)
  have letters := congrArg String.toList same
  simp only [String.toList_append, List.append_assoc] at letters
  have inner : category.toList ++ ']' :: rest.toList = category'.toList ++ ']' :: rest'.toList :=
    List.append_cancel_left letters
  have tags := congrArg (List.takeWhile (· != ']')) inner
  rw [List.takeWhile_append_of_pos (clean plain), List.takeWhile_append_of_pos (clean plain')]
    at tags
  simp only [bne_self_eq_false, Bool.false_eq_true, not_false_eq_true, List.takeWhile_cons_of_neg,
    List.append_nil] at tags
  obtain rfl := String.toList_inj.mp tags
  exact ⟨rfl, String.toList_inj.mp (List.cons.inj (List.append_cancel_left inner)).2⟩

/-- The text of a primitive sort begins with a bracket. -/
theorem head?_primitiveText {category text : String} {argument : Option Argument}
    (written : c.primitiveText category argument = .ok text) :
    text.toList.head? = some '[' := by
  obtain ⟨rest, rfl, -⟩ := primitiveText_eq written
  rw [String.toList_append, String.toList_append, String.toList_append]
  rfl

end Catalog

/-! ### Looks -/

/-- The display of the sort can be read: it exposes what it should; and while primitive sorts begin
with a bracket and tuples with a parenthesis, a name begins with neither. -/
structure SortRecord.Legible (sort : SortRecord) : Prop where
  exposed : ∃ shown, sort.Exposed shown
  nameless : sort.name = none →
    sort.variant = .primitive ∨ sort.variant = .weighted ∨ sort.variant = .disjunctive
  bracket : sort.look = .primitive → sort.display.toList.head? = some '['
  named : ∀ name, sort.name = some name → name.toList.head? ≠ some '[' ∧
    (sort.variant ≠ .aspects → name.toList.head? ≠ some '(')

namespace SortRecord.Legible

variable {sort sort' : SortRecord}

/-- The display of a sort shows whether it has a name, and if not, of which variant it is. -/
theorem look_eq (h : sort.Legible) : Text.look sort.display = sort.look := by
  obtain ⟨shown, exposed⟩ := h.exposed
  unfold Text.look
  rw [exposed.exposes.signs_eq]
  dsimp only
  cases seems : sort.look with
  | disjunctive => rw [if_pos (exposed.plus.mpr seems)]
  | weighted => rw [if_neg (by simp [exposed.plus, seems]), if_pos (exposed.caret seems)]
  | primitive =>
    rw [exposed.closed (Or.inl seems), if_neg List.not_mem_nil, if_neg List.not_mem_nil,
      if_pos (h.bracket seems)]
  | name =>
    rw [exposed.closed (Or.inr seems), if_neg List.not_mem_nil, if_neg List.not_mem_nil, if_neg]
    cases named : sort.name with
    | some name =>
      rw [SortRecord.display_of_named named]
      exact (h.named name named).1
    | none =>
      unfold SortRecord.look at seems
      rcases h.nameless named with kind | kind | kind <;> rw [named, kind] at seems <;> cases seems

/-- Two sorts without a name that have the same display are of the same variant, and have the same
canonical text. -/
theorem eq_of_nameless (h : sort.Legible) (h' : sort'.Legible)
    (same : sort.display = sort'.display) (nameless : sort.name = none) :
    sort'.name = none ∧ sort'.variant = sort.variant ∧ sort'.canonical = sort.canonical := by
  have looks : sort.look = sort'.look := by rw [← h.look_eq, ← h'.look_eq, same]
  have proper : sort.look ≠ .name := by
    unfold SortRecord.look
    rcases h.nameless nameless with kind | kind | kind <;> rw [nameless, kind] <;> rintro ⟨⟩
  have nameless' : sort'.name = none := by
    cases named : sort'.name with
    | none => rfl
    | some name => exact absurd (looks.trans (SortRecord.look_of_named named)) proper
  refine ⟨nameless', ?_, ?_⟩
  · unfold SortRecord.look at looks
    rw [nameless, nameless'] at looks
    rcases h.nameless nameless with kind | kind | kind <;>
      rcases h'.nameless nameless' with kind' | kind' | kind' <;>
      rw [kind, kind'] at looks ⊢ <;> cases looks
  · rw [← SortRecord.display_of_nameless nameless, ← SortRecord.display_of_nameless nameless', same]

end SortRecord.Legible

namespace Catalog

variable {c : Catalog} {waiting : List SortId} {id id' : SortId} {sort sort' : SortRecord}

namespace Formed

/-- Displays in a formed catalog can be read. -/
theorem legible (h : Formed waiting c) (found : c.get id = .ok sort) : sort.Legible where
  exposed := h.exposed found
  nameless := (h.fits found).nameless
  bracket seems := by
    unfold SortRecord.look at seems
    split at seems
    · rename_i nameless primitive
      rw [SortRecord.display_of_nameless nameless]
      cases made : sort.body with
      | primitive category argument =>
        have written := (h.fits found).rendered (by rw [primitive]; decide)
        rw [made] at written
        exact head?_primitiveText written
      | _ => rw [SortRecord.variant, made] at primitive; cases primitive
    · cases seems
    · cases seems
    · cases seems
  named name named := by
    have spelled := (h.fits found).named name named
    split_ifs at spelled with tuple
    · obtain ⟨names, rfl, -⟩ := spelled
      refine ⟨?_, fun plain ↦ absurd tuple plain⟩
      unfold tupleText
      rw [String.toList_append, String.toList_append]
      rintro ⟨⟩
    · exact ⟨fun first ↦ spelled '[' (List.mem_of_head? first) (by decide),
        fun _ first ↦ spelled '(' (List.mem_of_head? first) (by decide)⟩

theorem eq_of_nameless (h : Formed waiting c) (found : c.get id = .ok sort)
    (found' : c.get id' = .ok sort') (same : sort.display = sort'.display)
    (nameless : sort.name = none) :
    sort'.name = none ∧ sort'.variant = sort.variant ∧ sort'.canonical = sort.canonical :=
  (h.legible found).eq_of_nameless (h.legible found') same nameless

/-- Primitive sorts of the same canonical text are of the same category. -/
theorem category_eq (h : Formed waiting c) {category category' : String}
    {argument argument' : Option Argument} (found : c.get id = .ok sort)
    (found' : c.get id' = .ok sort') (made : sort.body = .primitive category argument)
    (made' : sort'.body = .primitive category' argument')
    (same : sort.canonical = sort'.canonical) :
    category = category' := by
  have written := (h.fits found).rendered (by rw [SortRecord.variant, made]; rintro ⟨⟩)
  have written' := (h.fits found').rendered (by rw [SortRecord.variant, made']; rintro ⟨⟩)
  have spelled := (h.fits found).spelled
  have spelled' := (h.fits found').spelled
  rw [made] at written spelled
  rw [made'] at written' spelled'
  obtain ⟨rest, eq, -⟩ := primitiveText_eq written
  obtain ⟨rest', eq', -⟩ := primitiveText_eq written'
  exact (bracketed_injective spelled.1 spelled'.1 (eq.symm.trans (same.trans eq'))).1

end Formed

end Catalog

end CompositeSorts
