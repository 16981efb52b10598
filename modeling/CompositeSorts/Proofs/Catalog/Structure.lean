import CompositeSorts.Proofs.Catalog.Displays
import CompositeSorts.Proofs.Definition.Suiting
import CompositeSorts.Proofs.Source.Splitting

/-!
Displays determine structure. No comma stands on the surface of a display, and a plus sign only on
that of a disjunction without a name; so what was joined by them can be told apart again, and two
sorts of the same display are made of sorts of the same displays (`Formed.agree`).
-/

set_option autoImplicit false
set_option relaxedAutoImplicit false

namespace CompositeSorts

open Text

/-- What may stand on the surface of an argument: no separator. -/
def Text.Closed (c : Char) : Prop := c ≠ ',' ∧ c ≠ '+'

/-- What may stand on the surface of the display of the sort. -/
def SortRecord.Bare (sort : SortRecord) (c : Char) : Prop := c ≠ ',' ∧ (c = '+' → sort.Growing)

theorem Text.closed_of_unmarked {c : Char} (plain : c ∉ marks) : Closed c := by
  constructor <;> rintro rfl <;> exact plain (by decide)

theorem SortRecord.bare_of_closed {sort : SortRecord} {c : Char} (closed : Closed c) :
    sort.Bare c := ⟨closed.1, fun plus ↦ absurd plus closed.2⟩

theorem SortRecord.closed_of_bare {sort : SortRecord} (fixed : ¬ sort.Growing) {c : Char}
    (bare : sort.Bare c) : Closed c := ⟨bare.1, fun plus ↦ fixed (bare.2 plus)⟩

namespace Catalog

variable {c : Catalog} {waiting : List SortId} {id id' : SortId} {sort sort' : SortRecord}

theorem exists_of_map_eq_ok {α β : Type} {m : Except Refusal α} {f : α → β} {b : β}
    (h : m.map f = .ok b) : ∃ a, m = .ok a ∧ f a = b := by
  cases m with
  | error reason => cases h
  | ok a => exact ⟨a, rfl, Except.ok.inj h⟩

/-- The displays of live sorts have a surface when those of the sorts have. -/
theorem surface_of_displays {ids : List SortId} {texts : List String} {allowed : Char → Prop}
    (shown : c.displays ids = .ok texts)
    (each : ∀ id ∈ ids, ∀ sort, c.get id = .ok sort → Surface sort.display allowed) :
    ∀ text ∈ texts, Surface text allowed := by
  intro text inside
  obtain ⟨id, among, sort, found, rfl⟩ := exists_of_displays shown inside
  exact each id among sort found

/-- Whatever stands on the surface of the texts, a tuple of them covers it. -/
theorem surface_tupleText {texts : List String} {allowed : Char → Prop}
    (each : ∀ text ∈ texts, ∃ inner, Surface text inner) (opens : allowed '(') :
    Surface (tupleText texts) allowed := by
  have open_ : ∀ text ∈ texts, Surface text fun _ ↦ True := by
    intro text inside
    obtain ⟨_, surface⟩ := each text inside
    exact surface.mono fun _ _ ↦ trivial
  exact (Surface.joined (by simp) open_).parenthesised opens

namespace Formed

theorem surface_argumentText (h : Formed waiting c) {category : String} {argument : Argument}
    (found : c.get id = .ok sort) (made : sort.body = .primitive category (some argument))
    (parts : ∀ part ∈ sort.body.parts, ∀ sort', c.get part = .ok sort' →
      Surface sort'.display sort'.Bare) {text : String}
    (written : c.argumentText argument = .ok text) : Surface text Closed := by
  have word (text : String) : Surface (wordOrQuoted text) Closed :=
    .of_wordOrQuoted text ⟨by decide, by decide⟩ fun _ ↦ closed_of_unmarked
  cases argument with
  | identifier text =>
    cases written
    exact word text
  | bound lexeme =>
    cases written
    have spelled := (h.fits found).spelled
    rw [made] at spelled
    exact (Surface.of_unmarked (spelled.2 _ rfl)).mono fun _ ↦ closed_of_unmarked
  | locale language region =>
    cases written
    refine surface_tupleText (fun text inside ↦ ?_) ⟨by decide, by decide⟩
    rcases List.mem_cons.mp inside with rfl | inside
    · exact ⟨_, word language⟩
    · rw [List.mem_singleton.mp inside]
      exact ⟨_, word region⟩
  | sorts linked =>
    obtain ⟨texts, shown, rfl⟩ := exists_of_map_eq_ok written
    refine surface_tupleText (fun text inside ↦ ?_) ⟨by decide, by decide⟩
    obtain ⟨part, among, sort', found', rfl⟩ := exists_of_displays shown inside
    exact ⟨_, parts part (by rw [made]; exact among) sort' found'⟩

theorem surface_primitive (h : Formed waiting c) {category : String} {argument : Option Argument}
    (found : c.get id = .ok sort) (made : sort.body = .primitive category argument)
    (parts : ∀ part ∈ sort.body.parts, ∀ sort', c.get part = .ok sort' →
      Surface sort'.display sort'.Bare) : Surface sort.canonical Closed := by
  have written := (h.fits found).rendered (by rw [SortRecord.variant, made]; rintro ⟨⟩)
  have spelled := (h.fits found).spelled
  rw [made] at written spelled
  have plain {text : String} (fine : ∀ c ∈ text.toList, c ∉ ['"', '(', ')'] ∧ c ∉ [',', '+']) :
      Surface text Closed :=
    .of_plain fun c inside ↦ ⟨(fine c inside).1, by simpa [Closed] using (fine c inside).2⟩
  have brackets : Surface ("[" ++ category ++ "]") Closed :=
    ((plain (by simp)).append ((Surface.of_unmarked spelled.1).mono
      fun _ ↦ closed_of_unmarked)).append (plain (by simp))
  obtain ⟨rest, eq, ⟨rfl, -⟩ | ⟨value, argumentText, rfl, shown, rfl⟩⟩ := primitiveText_eq written
  · rw [eq, String.append_empty]
    exact brackets
  · rw [eq]
    exact brackets.append ((plain (by simp)).append (h.surface_argumentText found made parts shown))

theorem surface_weighted (h : Formed waiting c) {base weight : SortId}
    (found : c.get id = .ok sort) (made : sort.body = .weighted base weight)
    (parts : ∀ part ∈ sort.body.parts, ∀ sort', c.get part = .ok sort' →
      Surface sort'.display sort'.Bare) : Surface sort.canonical Closed := by
  have written := (h.fits found).rendered (by rw [SortRecord.variant, made]; rintro ⟨⟩)
  have composed := (h.fits found).composed
  rw [made] at written composed parts
  obtain ⟨⟨b, foundBase, simple⟩, w, foundWeight, -⟩ := composed
  have base' := parts base List.mem_cons_self b foundBase
  have weight' := parts weight (List.mem_cons_of_mem _ List.mem_cons_self) w foundWeight
  rw [rendering_weighted foundBase foundWeight] at written
  have fixed : ¬ b.Growing := SortRecord.not_growing_of_simple simple
  have front : Surface (b.display ++ "^") Closed :=
    (base'.mono fun _ ↦ SortRecord.closed_of_bare fixed).append
      (.of_plain fun c inside ↦ by simp_all [Closed])
  rw [← Except.ok.inj written]
  refine front.append ?_
  split_ifs with growing
  · exact weight'.parenthesised ⟨by decide, by decide⟩
  · exact weight'.mono fun _ ↦ SortRecord.closed_of_bare fun bare ↦ growing bare.symm

theorem surface_disjunctive (h : Formed waiting c) {components : List SortId}
    (found : c.get id = .ok sort) (made : sort.body = .disjunctive components)
    (parts : ∀ part ∈ sort.body.parts, ∀ sort', c.get part = .ok sort' →
      Surface sort'.display sort'.Bare) : Surface sort.canonical (· ≠ ',') := by
  have written := (h.fits found).rendered (by rw [SortRecord.variant, made]; rintro ⟨⟩)
  rw [made] at written parts
  obtain ⟨texts, shown, eq⟩ := exists_of_map_eq_ok written
  rw [← eq]
  refine Surface.joined (by simp) fun text inside ↦ ?_
  refine surface_of_displays shown (fun part among sort' found' ↦ ?_) text
    ((sorted_perm texts).mem_iff.mp inside)
  exact (parts part among sort' found').mono fun _ bare ↦ bare.1

theorem surface_named (h : Formed waiting c) {name : String} (found : c.get id = .ok sort)
    (named : sort.name = some name) : Surface name Closed := by
  have spelled := (h.fits found).named name named
  split_ifs at spelled with tuple
  · obtain ⟨names, rfl, unmarked⟩ := spelled
    exact surface_tupleText (fun part inside ↦ ⟨_, .of_unmarked (unmarked part inside)⟩)
      ⟨by decide, by decide⟩
  · exact (Surface.of_unmarked spelled).mono fun _ ↦ closed_of_unmarked

/-- No comma stands on the surface of a display, and a plus sign only on that of a disjunction
without a name. -/
theorem surface (h : Formed waiting c) (found : c.get id = .ok sort) :
    Surface sort.display sort.Bare := by
  obtain ⟨rank, above⟩ := h.ranked
  induction place : rank id using Nat.strongRecOn generalizing id sort with
  | ind n ih =>
    have parts : ∀ part ∈ sort.body.parts, ∀ sort', c.get part = .ok sort' →
        Surface sort'.display sort'.Bare := fun part inside sort' found' ↦
      ih (rank part) (place ▸ above found part inside) found' rfl
    cases named : sort.name with
    | some name =>
      rw [SortRecord.display_of_named named]
      exact (h.surface_named found named).mono fun _ ↦ SortRecord.bare_of_closed
    | none =>
      rw [SortRecord.display_of_nameless named]
      have kind := (h.fits found).nameless named
      unfold SortRecord.variant at kind
      cases made : sort.body with
      | primitive category argument =>
        exact (h.surface_primitive found made parts).mono fun _ ↦ SortRecord.bare_of_closed
      | weighted base weight =>
        exact (h.surface_weighted found made parts).mono fun _ ↦ SortRecord.bare_of_closed
      | disjunctive components =>
        refine (h.surface_disjunctive found made parts).mono fun _ noComma ↦ ⟨noComma, fun _ ↦ ?_⟩
        exact ⟨named, by rw [SortRecord.variant, made]; rfl⟩
      | _ =>
        rw [made] at kind
        rcases kind with kind | kind | kind <;> cases kind

end Formed

/-! ### Agreement -/

/-- The same argument, up to the displays of linked sorts. -/
def AgreeArgument (c : Catalog) : Option Argument → Option Argument → Prop
  | some (.sorts linked), some (.sorts linked') => linked.map c.display = linked'.map c.display
  | argument, argument' => argument = argument'

/-- The bodies are of one variant and agree position by position, up to the displays of the sorts
that they lead to; the order of components does not matter. -/
def Agree (c : Catalog) : Body → Body → Prop
  | .primitive category argument, .primitive category' argument' =>
    category = category' ∧ c.AgreeArgument argument argument'
  | .weighted base weight, .weighted base' weight' =>
    c.display base = c.display base' ∧ c.display weight = c.display weight'
  | .disjunctive components, .disjunctive components' =>
    (components.map c.display).Perm (components'.map c.display)
  | .aspects category own arguments, .aspects category' own' arguments' =>
    category = category' ∧ own.map c.display = own'.map c.display ∧
      arguments.map c.display = arguments'.map c.display
  | .aspect owner position, .aspect owner' position' =>
    c.display owner = c.display owner' ∧ position = position'
  | .recursive target, .recursive target' => target.map c.display = target'.map c.display
  | _, _ => False

theorem AgreeArgument.refl (c : Catalog) (argument : Option Argument) :
    c.AgreeArgument argument argument := by
  cases argument with
  | none => rfl
  | some argument => cases argument <;> rfl

theorem Agree.refl (c : Catalog) (body : Body) : c.Agree body body := by
  cases body with
  | primitive category argument => exact ⟨rfl, .refl c argument⟩
  | disjunctive components => exact List.Perm.refl _
  | recursive target => rfl
  | _ => simp [Agree]

theorem map_display_of_displays {ids : List SortId} {texts : List String}
    (shown : c.displays ids = .ok texts) : ids.map c.display = texts.map .ok := by
  have all := mapM_eq_ok_iff.mp shown
  induction all with
  | nil => rfl
  | cons here _ ih => rw [List.map_cons, List.map_cons, here, ih (mapM_eq_ok_iff.mpr ‹_›)]

/-- A tuple of texts can be split again, if it is not empty. -/
theorem tupleText_injective {texts texts' : List String}
    (each : ∀ text ∈ texts, Surface text (· ≠ ','))
    (each' : ∀ text ∈ texts', Surface text (· ≠ ',')) (length : texts.length = texts'.length)
    (same : tupleText texts = tupleText texts') : texts = texts' := by
  unfold tupleText at same
  have letters := congrArg String.toList same
  simp only [String.toList_append] at letters
  have inner := String.toList_inj.mp (List.append_cancel_left (List.append_cancel_right letters))
  cases texts with
  | nil => rw [List.eq_nil_of_length_eq_zero length.symm]
  | cons text texts =>
    refine Surface.joined_injective (c := ',') rfl (by simp) each each'
      (List.cons_ne_nil _ _) ?_ inner
    rintro rfl
    cases length

namespace Formed

/-- The displays of live sorts have no commas on their surface. -/
theorem surface_displays (h : Formed waiting c) {ids : List SortId} {texts : List String}
    (shown : c.displays ids = .ok texts) : ∀ text ∈ texts, Surface text (· ≠ ',') :=
  surface_of_displays shown fun _ _ _ found ↦ (h.surface found).mono fun _ bare ↦ bare.1

/-- Arguments of one kind that are written alike are the same. -/
theorem agreeArgument_of_written (h : Formed waiting c) {argument argument' : Argument}
    {shape : ParamShape} {text : String} (suits : argument.Suits shape)
    (suits' : argument'.Suits shape) (written : c.argumentText argument = .ok text)
    (written' : c.argumentText argument' = .ok text) :
    c.AgreeArgument (some argument) (some argument') := by
  have word (text : String) : Surface (wordOrQuoted text) (· ≠ ',') :=
    .of_wordOrQuoted text (by decide) fun _ plain ↦ (closed_of_unmarked plain).1
  cases shape with
  | nothing => cases argument <;> cases suits
  | identifier =>
    cases argument with
    | identifier word =>
      cases argument' with
      | identifier word' =>
        rw [← written'] at written
        rw [wordOrQuoted_injective (Except.ok.inj written)]
        exact .refl c _
      | _ => cases suits'
    | _ => cases suits
  | bound =>
    cases argument with
    | bound lexeme =>
      cases argument' with
      | bound lexeme' =>
        rw [← written'] at written
        rw [Except.ok.inj written]
        exact .refl c _
      | _ => cases suits'
    | _ => cases suits
  | locale =>
    cases argument with
    | locale language region =>
      cases argument' with
      | locale language' region' =>
        have words : [wordOrQuoted language, wordOrQuoted region] =
            [wordOrQuoted language', wordOrQuoted region'] :=
          tupleText_injective (by simp [word]) (by simp [word]) rfl
            (Except.ok.inj (written.trans written'.symm))
        obtain ⟨first, rest⟩ := List.cons.inj words
        rw [wordOrQuoted_injective first, wordOrQuoted_injective (List.singleton_inj.mp rest)]
        exact .refl c _
      | _ => cases suits'
    | _ => cases suits
  | sorts arity =>
    cases argument with
    | sorts linked =>
      cases argument' with
      | sorts linked' =>
        obtain ⟨texts, shown, eq⟩ := exists_of_map_eq_ok written
        obtain ⟨texts', shown', eq'⟩ := exists_of_map_eq_ok written'
        have length : texts.length = texts'.length := by
          rw [← (mapM_eq_ok_iff.mp shown).length_eq, ← (mapM_eq_ok_iff.mp shown').length_eq]
          exact suits.trans suits'.symm
        have same := tupleText_injective (h.surface_displays shown) (h.surface_displays shown')
          length (eq.trans eq'.symm)
        change linked.map c.display = linked'.map c.display
        rw [map_display_of_displays shown, map_display_of_displays shown', same]
      | _ => cases suits'
    | _ => cases suits

/-- Primitive sorts that are written alike agree. -/
theorem agree_primitive (h : Formed waiting c) {categories : CategoryTable}
    {category category' : String} {argument argument' : Option Argument}
    (found : c.get id = .ok sort) (found' : c.get id' = .ok sort')
    (made : sort.body = .primitive category argument)
    (made' : sort'.body = .primitive category' argument') (suits : sort.body.Suits categories)
    (suits' : sort'.body.Suits categories) (same : sort.canonical = sort'.canonical) :
    c.Agree sort.body sort'.body := by
  obtain rfl := h.category_eq found found' made made' same
  have written := (h.fits found).rendered (by rw [SortRecord.variant, made]; rintro ⟨⟩)
  have written' := (h.fits found').rendered (by rw [SortRecord.variant, made']; rintro ⟨⟩)
  rw [made] at written suits ⊢
  rw [made'] at written' suits' ⊢
  refine ⟨rfl, ?_⟩
  have proper (text : String) : "" ≠ " " ++ text := fun eq ↦ by
    simpa using congrArg String.toList eq
  obtain ⟨rest, eq, end_⟩ := primitiveText_eq written
  obtain ⟨rest', eq', end'⟩ := primitiveText_eq written'
  obtain rfl : rest = rest' := by
    rw [same, eq'] at eq
    simpa [String.toList_inj] using congrArg String.toList eq.symm
  rcases end_ with ⟨rfl, rfl⟩ | ⟨value, text, rfl, shown, rfl⟩ <;>
    rcases end' with ⟨blank, rfl⟩ | ⟨value', text', rfl, shown', blank⟩
  · exact .refl c none
  · exact absurd blank (proper text')
  · exact absurd blank.symm (proper text)
  · obtain ⟨shape, shaped, fine⟩ := suits
    obtain ⟨shape', shaped', fine'⟩ := suits'
    obtain rfl : shape = shape' := Option.some.inj (shaped.symm.trans shaped')
    obtain rfl : text = text' := by
      simpa [String.toList_inj] using congrArg String.toList blank
    exact h.agreeArgument_of_written fine fine' shown shown'

/-- Disjunctions that are written alike have components of the same displays. -/
theorem agree_disjunctive (h : Formed waiting c) {components components' : List SortId}
    (found : c.get id = .ok sort) (found' : c.get id' = .ok sort')
    (made : sort.body = .disjunctive components) (made' : sort'.body = .disjunctive components')
    (same : sort.canonical = sort'.canonical) : c.Agree sort.body sort'.body := by
  have split : ∀ {id sort components}, c.get id = .ok sort → sort.body = .disjunctive components →
      ∃ texts, components.map c.display = texts.map .ok ∧ disjunctiveText texts = sort.canonical ∧
        sorted texts ≠ [] ∧ ∀ text ∈ sorted texts, Surface text Closed := by
    intro id sort components found made
    have written := (h.fits found).rendered (by rw [SortRecord.variant, made]; rintro ⟨⟩)
    have composed := (h.fits found).composed
    rw [made] at written composed
    obtain ⟨texts, shown, eq⟩ := exists_of_map_eq_ok written
    refine ⟨texts, map_display_of_displays shown, eq, ?_, fun text inside ↦ ?_⟩
    · intro nothing
      have several := h.several found made
      rw [(mapM_eq_ok_iff.mp shown).length_eq, ← (sorted_perm texts).length_eq, nothing] at several
      cases several
    · refine surface_of_displays shown (fun part among sort' found' ↦ ?_) text
        ((sorted_perm texts).mem_iff.mp inside)
      obtain ⟨record, there, -, fixed⟩ := composed.1 part among
      rw [there] at found'
      cases found'
      exact (h.surface there).mono fun _ ↦ SortRecord.closed_of_bare fixed
  obtain ⟨texts, shown, eq, some_, each⟩ := split found made
  obtain ⟨texts', shown', eq', some', each'⟩ := split found' made'
  have parts : sorted texts = sorted texts' :=
    Surface.joined_injective (c := '+') rfl (fun closed ↦ closed.2 rfl) each each' some_ some'
      (eq.trans (same.trans eq'.symm))
  rw [made, made']
  change (components.map c.display).Perm (components'.map c.display)
  rw [shown, shown']
  exact (((sorted_perm texts).symm.trans (parts ▸ .refl _)).trans (sorted_perm texts')).map _

end Formed

end Catalog

end CompositeSorts
