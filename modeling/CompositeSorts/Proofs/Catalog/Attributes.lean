import CompositeSorts.Proofs.Catalog.Common
import CompositeSorts.Proofs.Catalog.Walks

/-!
Attributes and their spines. In the text of an attribute its base and its weight can be told apart
again (`eq_of_weightedText`). So the attribute that is kept for a base and a weight, which
can have been made of others, is made of sorts of the same displays; and when sorts are attached to
a weight one after the other, the spine of what is made shows those sorts and behind them the spine
of the weight (`Rested.exists_spine_of_strung`).

A sort can be given a weight when all of its spine is simple (`Catalog.Weighable`). Then every
attribute on the way is made; otherwise already the first one is refused, and nothing is made
(`Rested.ends_combine`).
-/

set_option autoImplicit false
set_option relaxedAutoImplicit false

namespace CompositeSorts

open Text

variable {c d : Catalog} {id id' base base' weight weight' : SortId} {waiting : List SortId}
  {sort b b' w w' : SortRecord} {elements behind : List SortId}

/-! ### Splitting the text of an attribute -/

namespace Text.Exposes

variable {front back : String}

/-- Behind a text that exposes nothing, a caret would be exposed. -/
theorem append_caret_ne (h : Exposes front []) (h' : Exposes back []) (rest : List Char) :
    front.toList ++ '^' :: rest ≠ back.toList := by
  intro same
  have seen := h'.signs_eq
  rw [← same, signs_append, (h 0).1] at seen
  have caret : '^' ∈ signs (.bare 0) ('^' :: rest) := List.mem_append_left _ List.mem_cons_self
  have none_ := (List.append_eq_nil_iff.mp seen).2
  rw [none_] at caret
  cases caret

/-- Texts that expose nothing end where the first caret is exposed. -/
theorem eq_of_append_caret (h : Exposes front []) (h' : Exposes back []) {rest rest' : List Char}
    (same : front.toList ++ '^' :: rest = back.toList ++ '^' :: rest') : front = back := by
  rcases List.append_eq_append_iff.mp same with ⟨more, eq, behind⟩ | ⟨more, eq, behind⟩
  · cases more with
    | nil => exact String.toList_inj.mp (by rw [eq, List.append_nil])
    | cons letter more =>
      obtain rfl := (List.cons.inj behind).1
      exact absurd eq.symm (h.append_caret_ne h' more)
  · cases more with
    | nil => exact String.toList_inj.mp (by rw [eq, List.append_nil])
    | cons letter more =>
      obtain rfl := (List.cons.inj behind).1
      exact absurd eq.symm (h'.append_caret_ne h more)

end Text.Exposes

theorem Op.Operand.grow (h : Op.Operand c id) (grown : Catalog.Growth c d) : Op.Operand d id := by
  obtain ⟨sort, found, plain⟩ := h
  exact ⟨sort, grown.stays found, plain⟩

namespace SortRecord.Legible

/-- A simple sort shows no caret. -/
theorem exposes_of_simple (h : sort.Legible) (simple : sort.body.isSimple) :
    Exposes sort.display [] := by
  obtain ⟨shown, exposed⟩ := h.exposed
  have closed : sort.look = .primitive ∨ sort.look = .name := by
    cases named : sort.name with
    | some name => exact Or.inr (SortRecord.look_of_named named)
    | none =>
      left
      have kind := h.nameless named
      unfold SortRecord.look
      unfold SortRecord.variant at kind ⊢
      cases made : sort.body <;> rw [made] at kind simple <;> simp_all [Body.variant, Body.isSimple]
  rw [exposed.closed closed] at exposed
  exact exposed.exposes

/-- Only a tuple is shown in parentheses. -/
theorem display_ne_parenthesised (h : sort.Legible) (plain : sort.variant ≠ .aspects)
    (fixed : ¬ sort.Growing) {text : String} (exposes : ∃ shown, Exposes text shown) :
    sort.display ≠ "(" ++ text ++ ")" := by
  intro same
  obtain ⟨shown, exposes⟩ := exposes
  have first : sort.display.toList.head? = some '(' := by
    rw [same, String.toList_append, String.toList_append]
    rfl
  cases named : sort.name with
  | some name =>
    rw [SortRecord.display_of_named named] at first
    exact (h.named name named).2 plain first
  | none =>
    have hidden := exposes.parenthesised.signs_eq
    rw [← same] at hidden
    obtain ⟨signs, exposed⟩ := h.exposed
    rw [exposed.exposes.signs_eq] at hidden
    subst hidden
    rcases h.nameless named with kind | kind | kind
    · rw [h.bracket (by rw [SortRecord.look, named, kind])] at first
      cases first
    · exact absurd (exposed.caret (by rw [SortRecord.look, named, kind])) List.not_mem_nil
    · exact fixed ⟨named, kind⟩

end SortRecord.Legible

/-- The text of an attribute with such a weight, the display of which was this text. -/
def SortRecord.weightText (weight : SortRecord) (text : String) : String :=
  if weight.variant = .disjunctive ∧ weight.name = none then "(" ++ text ++ ")" else text

namespace Catalog

theorem weightedText_eq (b w : SortRecord) :
    weightedText b w = b.display ++ "^" ++ w.weightText w.display := rfl

/-- The text of an attribute shows what the base and the weight displayed when it was written. -/
theorem eq_of_writtenText {text : String} (base : b.Legible) (base' : b'.Legible)
    (weight : w.Legible) (weight' : w'.Legible) (simple : b.body.isSimple)
    (simple' : b'.body.isSimple) (plain : w.variant ≠ .aspects) (plain' : w'.variant ≠ .aspects)
    (exposes : ∃ shown, Exposes text shown) (current : ¬ w'.Growing → text = w'.display)
    (same : weightedText b w = b'.display ++ "^" ++ w'.weightText text) :
    b.display = b'.display ∧ w.display = text ∧ (w.Growing ↔ w'.Growing) := by
  rw [weightedText_eq] at same
  have letters := congrArg String.toList same
  simp only [String.toList_append, List.append_assoc] at letters
  have bases : b.display = b'.display :=
    (base.exposes_of_simple simple).eq_of_append_caret (base'.exposes_of_simple simple') letters
  rw [bases] at letters
  have weights := String.toList_inj.mp (List.append_cancel_left (List.append_cancel_left letters))
  refine ⟨bases, ?_⟩
  obtain ⟨shown, exposed⟩ := weight.exposed
  unfold SortRecord.weightText at weights
  by_cases growing : w.variant = .disjunctive ∧ w.name = none <;>
    by_cases growing' : w'.variant = .disjunctive ∧ w'.name = none
  · rw [if_pos growing, if_pos growing'] at weights
    have inner := congrArg String.toList weights
    simp only [String.toList_append] at inner
    exact ⟨String.toList_inj.mp (List.append_cancel_left (List.append_cancel_right inner)),
      fun _ ↦ growing'.symm, fun _ ↦ growing.symm⟩
  · rw [if_pos growing, if_neg growing', current fun loose ↦ growing' loose.symm] at weights
    exact absurd weights.symm (weight'.display_ne_parenthesised plain'
      (fun loose ↦ growing' loose.symm) ⟨shown, exposed.exposes⟩)
  · rw [if_neg growing, if_pos growing'] at weights
    exact absurd weights (weight.display_ne_parenthesised plain
      (fun loose ↦ growing loose.symm) exposes)
  · rw [if_neg growing, if_neg growing'] at weights
    exact ⟨weights, fun loose ↦ absurd loose.symm growing, fun loose ↦ absurd loose.symm growing'⟩

/-- The text of an attribute shows what the base and the weight display. -/
theorem eq_of_weightedText (base : b.Legible) (base' : b'.Legible) (weight : w.Legible)
    (weight' : w'.Legible) (simple : b.body.isSimple) (simple' : b'.body.isSimple)
    (plain : w.variant ≠ .aspects) (plain' : w'.variant ≠ .aspects)
    (same : weightedText b w = weightedText b' w') :
    b.display = b'.display ∧ w.display = w'.display := by
  obtain ⟨shown, exposed⟩ := weight'.exposed
  obtain ⟨bases, weights, -⟩ := eq_of_writtenText base base' weight weight' simple simple' plain
    plain' ⟨shown, exposed.exposes⟩ (fun _ ↦ rfl) (same.trans (weightedText_eq b' w'))
  exact ⟨bases, weights⟩

/-! ### Kept attributes -/

/-- Two live sorts of the same display. -/
def Twins (c : Catalog) (id id' : SortId) : Prop :=
  ∃ sort sort', c.get id = .ok sort ∧ c.get id' = .ok sort' ∧ sort.display = sort'.display

/-- The handle leads to a simple sort, which can be a base. -/
def Basic (c : Catalog) (id : SortId) : Prop := ∃ sort, c.get id = .ok sort ∧ sort.body.isSimple

/-- The attribute of the base and the weight is kept. -/
def Attached (c : Catalog) (base weight id : SortId) : Prop :=
  ∃ b w, c.get base = .ok b ∧ c.get weight = .ok w ∧ b.body.isSimple ∧ w.variant ≠ .aspects ∧
    c.interned[weightedText b w]? = some id

/-- The elements are attached to the weight one by one, the last one first, and the attributes on
the way are kept. -/
def Strung (c : Catalog) (weight : SortId) : (elements : List SortId) → (id : SortId) → Prop
  | [], id => id = weight
  | base :: behind, id => ∃ tail, c.Strung weight behind tail ∧ c.Attached base tail id

/-- All sorts of the spine are simple, so that the sort can be given a weight. -/
def Weighable (c : Catalog) (id : SortId) : Prop :=
  ∃ elements, c.spine id = .ok elements ∧ ∀ base ∈ elements, c.Basic base

theorem Twins.refl (live : c.Live id) : c.Twins id id := by
  obtain ⟨sort, found⟩ := live
  exact ⟨sort, sort, found, found, rfl⟩

theorem Twins.symm (h : c.Twins id id') : c.Twins id' id := by
  obtain ⟨sort, sort', found, found', same⟩ := h
  exact ⟨sort', sort, found', found, same.symm⟩

theorem Twins.trans {id'' : SortId} (h : c.Twins id id') (h' : c.Twins id' id'') :
    c.Twins id id'' := by
  obtain ⟨sort, sort', found, found', same⟩ := h
  obtain ⟨sort₂, sort₃, there, there', same'⟩ := h'
  rw [found'] at there
  cases there
  exact ⟨sort, sort₃, found, there', same.trans same'⟩

theorem Twins.grow (h : c.Twins id id') (grown : Growth c d) : d.Twins id id' := by
  obtain ⟨sort, sort', found, found', same⟩ := h
  exact ⟨sort, sort', grown.stays found, grown.stays found', same⟩

theorem Basic.operand (h : c.Basic id) : Op.Operand c id := by
  obtain ⟨sort, found, simple⟩ := h
  exact ⟨sort, found, SortRecord.variant_ne_aspects_of_simple simple⟩

theorem Basic.grow (h : c.Basic id) (grown : Growth c d) : d.Basic id := by
  obtain ⟨sort, found, simple⟩ := h
  exact ⟨sort, grown.stays found, simple⟩

theorem Attached.grow (h : c.Attached base weight id) (grown : Growth c d) :
    d.Attached base weight id := by
  obtain ⟨b, w, foundBase, foundWeight, simple, plain, entry⟩ := h
  exact ⟨b, w, grown.stays foundBase, grown.stays foundWeight, simple, plain, grown.keepsText entry⟩

/-- A kept attribute is what attaching answers, and nothing is made. -/
theorem Attached.attach_eq (h : c.Attached base weight id) :
    Op.attach base weight c = .ok id c := by
  obtain ⟨b, w, foundBase, foundWeight, simple, plain, entry⟩ := h
  rw [Op.attach_eq foundBase foundWeight (SortRecord.variant_ne_aspects_of_simple simple)
    simple plain,
    entry]

namespace Strung

theorem grow {id : SortId} (h : c.Strung weight elements id) (grown : Growth c d) :
    d.Strung weight elements id := by
  induction elements generalizing id with
  | nil => exact h
  | cons base behind ih =>
    obtain ⟨tail, strung, attached⟩ := h
    exact ⟨tail, ih strung, attached.grow grown⟩

theorem append_iff {front : List SortId} {id : SortId} :
    c.Strung weight (front ++ behind) id ↔
      ∃ tail, c.Strung weight behind tail ∧ c.Strung tail front id := by
  induction front generalizing id with
  | nil =>
    constructor
    · exact fun strung ↦ ⟨id, strung, rfl⟩
    · rintro ⟨tail, strung, rfl⟩
      exact strung
  | cons base front ih =>
    constructor
    · rintro ⟨last, strung, attached⟩
      obtain ⟨tail, first, rest⟩ := ih.mp strung
      exact ⟨tail, first, last, rest, attached⟩
    · rintro ⟨tail, first, last, rest, attached⟩
      exact ⟨last, ih.mpr ⟨tail, first, rest⟩, attached⟩

/-- What is kept is answered, and nothing is made. -/
theorem foldrM_eq {id : SortId} (h : c.Strung weight elements id) :
    elements.foldrM Op.attach weight c = .ok id c := by
  induction elements generalizing id with
  | nil =>
    rw [show id = weight from h]
    rfl
  | cons base behind ih =>
    obtain ⟨tail, strung, attached⟩ := h
    rw [List.foldrM_cons]
    exact Op.bind_eq_ok_iff.mpr ⟨tail, c, ih strung, attached.attach_eq⟩

theorem basic {id : SortId} (h : c.Strung weight elements id) :
    ∀ base ∈ elements, c.Basic base := by
  induction elements generalizing id with
  | nil => simp
  | cons base behind ih =>
    obtain ⟨tail, strung, b, w, found, -, simple, -⟩ := h
    rintro other inside
    rcases List.mem_cons.mp inside with rfl | inside
    · exact ⟨b, found, simple⟩
    · exact ih strung other inside

end Strung

/-- Attaching makes nothing but the attribute that it answers, which is kept then. -/
theorem Rooted.ends_attach (h : c.Rooted) (base weight : SortId) :
    Ends (Op.attach base weight) c
      (fun id d ↦ Growth c d ∧ d.Attached base weight id ∧ c.Basic base ∧ Op.Operand c weight)
      (· = c) := by
  refine Op.ends_attach rfl ?_ ?_
  · intro b w known foundBase foundWeight simple plain entry
    exact ⟨.refl c, ⟨b, w, foundBase, foundWeight, simple, plain, entry⟩, ⟨b, foundBase, simple⟩,
      w, foundWeight, plain⟩
  · intro b w foundBase foundWeight simple plain free
    have added : Growth c (c.add none (weightedText b w) (.composite [b.counts, w.counts])
        (.weighted base weight)) := (Growth.refl c).add h
    have grown := added.insertKept (not_live_nextId h) free
    refine ⟨grown.congr rfl rfl rfl rfl rfl rfl rfl, ?_, ⟨b, foundBase, simple⟩, w, foundWeight,
      plain⟩
    exact ⟨b, w, added.stays foundBase, added.stays foundWeight, simple, plain,
      Std.ExtTreeMap.getElem?_insert_self⟩

/-- When sorts are attached one by one, what is made of them is kept. -/
theorem ends_foldrM_strung {inv : Catalog → Prop} (attach : ∀ base weight c, inv c →
      Ends (Op.attach base weight) c (fun id d ↦ inv d ∧ Growth c d ∧ d.Attached base weight id)
        fun _ ↦ True)
    (start : inv c) (elements : List SortId) (weight : SortId) :
    Ends (elements.foldrM Op.attach weight) c
      (fun id d ↦ inv d ∧ Growth c d ∧ d.Strung weight elements id) fun _ ↦ True := by
  induction elements with
  | nil => exact Ends.pure ⟨start, .refl c, rfl⟩
  | cons base behind ih =>
    rw [List.foldrM_cons]
    refine Ends.bind (ih.mono (fun tail d ⟨reached, grown, strung⟩ ↦ ?_) fun _ _ ↦ trivial)
    refine (attach base tail d reached).mono (fun id e ⟨reached', further, attached⟩ ↦ ?_)
      fun _ _ ↦ trivial
    exact ⟨reached', grown.trans further, tail, strung.grow further, attached⟩

theorem exists_attach (basic : c.Basic base) (operand : Op.Operand c weight) :
    ∃ id d, Op.attach base weight c = .ok id d := by
  obtain ⟨b, foundBase, simple⟩ := basic
  obtain ⟨w, foundWeight, plain⟩ := operand
  rw [Op.attach_eq foundBase foundWeight (SortRecord.variant_ne_aspects_of_simple simple)
    simple plain]
  split
  · exact ⟨_, _, rfl⟩
  · exact ⟨_, _, rfl⟩

theorem Rooted.operand_of_attached (h : c.Rooted) (attached : c.Attached base weight id) :
    Op.Operand c id := by
  obtain ⟨b, w, -, -, -, -, entry⟩ := attached
  obtain ⟨sort, found, -, weighted, -⟩ := h.kept entry
  exact ⟨sort, found, by rw [weighted]; decide⟩

theorem Rooted.operand_of_strung (h : c.Rooted) (operand : Op.Operand c weight)
    (strung : c.Strung weight elements id) : Op.Operand c id := by
  cases elements with
  | nil => exact (show id = weight from strung) ▸ operand
  | cons base behind =>
    obtain ⟨tail, -, attached⟩ := strung
    exact h.operand_of_attached attached

/-- Simple sorts can be attached to any weight that is no tuple. -/
theorem exists_foldrM_strung {inv : Catalog → Prop} (attach : ∀ base weight c, inv c →
      Ends (Op.attach base weight) c (fun id d ↦ inv d ∧ Growth c d ∧ d.Attached base weight id)
        fun _ ↦ True)
    (rooted : ∀ {c}, inv c → c.Rooted) (start : inv c) (each : ∀ base ∈ elements, c.Basic base)
    (operand : Op.Operand c weight) : ∃ id d, elements.foldrM Op.attach weight c = .ok id d := by
  induction elements with
  | nil => exact ⟨weight, c, rfl⟩
  | cons base behind ih =>
    obtain ⟨tail, d, run⟩ := ih fun base inside ↦ each base (List.mem_cons_of_mem _ inside)
    obtain ⟨reached, grown, strung⟩ := (ends_foldrM_strung attach start behind weight).of_ok run
    obtain ⟨id, e, attached⟩ := exists_attach ((each base List.mem_cons_self).grow grown)
      ((rooted reached).operand_of_strung (operand.grow grown) strung)
    refine ⟨id, e, ?_⟩
    rw [List.foldrM_cons]
    exact Op.bind_eq_ok_iff.mpr ⟨tail, d, run, attached⟩

/-- All sorts on a walk are simple, if bases are, but for the last one, of which nothing is
known. -/
theorem Walk.shape (bases : ∀ {id sort base weight}, c.get id = .ok sort →
      sort.body = .weighted base weight → c.Basic base) (walk : c.Walk id (.ok elements)) :
    ∃ front last, elements = front ++ [last] ∧ c.Live last ∧ ∀ base ∈ front, c.Basic base := by
  generalize ended : (Except.ok elements : Except Refusal (List SortId)) = ends at walk
  induction walk generalizing elements with
  | missing => cases ended
  | @last id sort found _ =>
    cases ended
    exact ⟨[], id, rfl, ⟨sort, found⟩, by simp⟩
  | @link id base weight sort behind found made _ ih =>
    cases behind with
    | error reason => cases ended
    | ok rest =>
      cases ended
      obtain ⟨front, last, rfl, live, each⟩ := ih rfl
      refine ⟨base :: front, last, rfl, live, fun other inside ↦ ?_⟩
      rcases List.mem_cons.mp inside with rfl | inside
      · exact bases found made
      · exact each other inside

namespace Rested

/-! ### Attaching -/

theorem weighed (h : c.Rested) : c.Weighed where
  stamped := h.stamped
  weights {id sort base weight} found made := by
    rcases (h.fits found).older with older | ⟨-, first, later, split, -⟩
    · obtain ⟨w, there, before⟩ :=
        older weight (by rw [made]; exact List.mem_cons_of_mem _ List.mem_cons_self)
      refine ⟨w, there, before, fun new ↦ ?_⟩
      by_contra old
      exact h.closed found old weight (by rw [made]; simp [Body.handles, Body.parts]) new
    · rw [made] at split
      cases split

/-- Attaching answers the attribute that is kept then, or is refused and changes nothing. -/
theorem ends_attach (h : c.Rested) (base weight : SortId) :
    Ends (Op.attach base weight) c
      (fun id d ↦ d.Rested ∧ Growth c d ∧ d.Attached base weight id ∧ c.Basic base ∧
        Op.Operand c weight)
      (· = c) := by
  have rested : Ends (Op.attach base weight) c (fun _ d ↦ d.Rested) fun _ ↦ True := by
    refine Op.ends_attach trivial (fun _ _ _ _ _ _ _ _ ↦ h) fun b w foundBase foundWeight simple
      plain free ↦ ?_
    refine ⟨h.attach foundBase foundWeight simple plain free, h.idle, ?_⟩
    intro id sort found old other inside
    obtain ⟨new, before⟩ := not_or.mp (fun among ↦ old (List.mem_cons.mpr among))
    have there : c.get id = .ok sort := (get_add_of_ne h.toRooted new).symm.trans found
    rintro among
    rcases List.mem_cons.mp among with rfl | among
    · exact not_live_nextId h.toRooted ((h.fits there).linked _ inside)
    · exact h.closed there before other inside among
  exact (rested.and (h.toRooted.ends_attach base weight)).mono (fun _ _ ↦ id) fun _ ↦ And.right

/-- What attaching makes is kept, and the catalog stays at rest. -/
theorem attaches (base weight : SortId) (c : Catalog) (h : c.Rested) :
    Ends (Op.attach base weight) c (fun id d ↦ d.Rested ∧ Growth c d ∧ d.Attached base weight id)
      fun _ ↦ True :=
  (h.ends_attach base weight).mono
    (fun _ _ ⟨rested, grown, attached, _⟩ ↦ ⟨rested, grown, attached⟩) fun _ _ ↦ trivial

theorem ends_foldrM (h : c.Rested) (elements : List SortId) (weight : SortId) :
    Ends (elements.foldrM Op.attach weight) c
      (fun id d ↦ d.Rested ∧ Growth c d ∧ d.Strung weight elements id) fun _ ↦ True :=
  ends_foldrM_strung attaches h elements weight

theorem exists_foldrM (h : c.Rested) (each : ∀ base ∈ elements, c.Basic base)
    (operand : Op.Operand c weight) : ∃ id d, elements.foldrM Op.attach weight c = .ok id d :=
  exists_foldrM_strung attaches (fun rested ↦ rested.toRooted) h each operand

theorem spine_shape (h : c.Rested) (walked : c.spine id = .ok elements) :
    ∃ front last, elements = front ++ [last] ∧ c.Live last ∧ ∀ base ∈ front, c.Basic base := by
  refine Walk.shape (fun found made ↦ ?_) (walked ▸ h.weighed.walk_spine id)
  have composed := (h.fits found).composed
  rw [made] at composed
  exact composed.1

/-- A weight is combined with each sort of the spine, which are simple then; or nothing is
changed. -/
theorem ends_combine (h : c.Rested) (base weight : SortId) :
    Ends (Op.combine base weight) c
      (fun id d ↦ d.Rested ∧ Growth c d ∧ c.Weighable base ∧ Op.Operand c weight ∧
        ∃ elements, c.spine base = .ok elements ∧ d.Strung weight elements id)
      (· = c) := by
  refine Ends.bind (Op.ends_read rfl fun elements walked ↦ ?_)
  obtain ⟨front, last, rfl, -, each⟩ := h.spine_shape walked
  rw [List.foldrM_append]
  rw [Op.foldrM_attach_singleton]
  refine Ends.bind ((h.ends_attach last weight).mono
    (fun tail d ⟨rested, grown, attached, basic, operand⟩ ↦ ?_) fun _ same ↦ same)
  -- Once the last sort of the spine is attached, nothing is refused.
  obtain ⟨id, e, run⟩ := rested.exists_foldrM (fun base inside ↦ (each base inside).grow grown)
    (rested.operand_of_attached attached)
  obtain ⟨rested', further, strung⟩ := (rested.ends_foldrM front tail).of_ok run
  rw [Ends, run]
  refine ⟨rested', grown.trans further, ⟨_, walked, fun base inside ↦ ?_⟩, operand, _, walked, ?_⟩
  · rcases List.mem_append.mp inside with inside | inside
    · exact each base inside
    · exact List.mem_singleton.mp inside ▸ basic
  · exact Strung.append_iff.mpr ⟨tail, ⟨weight, rfl, attached.grow further⟩, strung⟩

theorem exists_combine (h : c.Rested) (weighable : c.Weighable base)
    (operand : Op.Operand c weight) : ∃ id d, Op.combine base weight c = .ok id d := by
  obtain ⟨elements, walked, each⟩ := weighable
  obtain ⟨id, d, run⟩ := h.exists_foldrM each operand
  refine ⟨id, d, ?_⟩
  rw [Op.combine, Op.read_bind walked]
  exact run

/-- What is kept already is answered, and nothing is made. -/
theorem combine_of_strung (walked : c.spine base = .ok elements)
    (strung : c.Strung weight elements id) : Op.combine base weight c = .ok id c := by
  rw [Op.combine, Op.read_bind walked]
  exact strung.foldrM_eq

/-! ### Sorts of one display -/

theorem basic_of_twins (h : c.Rested) (twins : c.Twins id id') (basic : c.Basic id') :
    c.Basic id := by
  obtain ⟨sort, sort', found, found', same⟩ := twins
  obtain ⟨record, there, simple⟩ := basic
  rw [found'] at there
  cases there
  refine ⟨sort, found, ?_⟩
  rwa [sort.isSimple_iff, h.variant_eq found found' same, ← sort'.isSimple_iff]

theorem attached_of_twins (h : c.Rested) (twins : c.Twins base base')
    (attached : c.Attached base' weight id) : c.Attached base weight id := by
  obtain ⟨b', w, found', foundWeight, simple, plain, entry⟩ := attached
  obtain ⟨b, simple⟩ := h.basic_of_twins twins ⟨b', found', simple⟩
  obtain ⟨sort, sort', there, there', same⟩ := twins
  rw [simple.1] at there
  rw [found'] at there'
  cases there
  cases there'
  refine ⟨b, w, simple.1, foundWeight, simple.2, plain, ?_⟩
  unfold weightedText at entry ⊢
  rwa [same]

theorem strung_of_twins (h : c.Rested) {elements' : List SortId}
    (twins : List.Forall₂ c.Twins elements elements') (strung : c.Strung weight elements' id) :
    c.Strung weight elements id := by
  induction twins generalizing id with
  | nil => exact strung
  | cons here _ ih =>
    obtain ⟨tail, behind, attached⟩ := strung
    exact ⟨tail, ih behind, h.attached_of_twins here attached⟩

/-- An attribute of the same display as another sort is that sort; other sorts are all of their
spine. -/
theorem spine_of_twins (h : c.Rested) (twins : c.Twins id id')
    (walked : c.spine id' = .ok elements) :
    c.spine id = .ok elements ∨ c.spine id = .ok [id] ∧ elements = [id'] := by
  obtain ⟨sort, sort', found, found', same⟩ := twins
  have variant := h.variant_eq found found' same
  by_cases weighted : sort.variant = .weighted
  · left
    rw [h.eq_of_weighted found found' same weighted]
    exact walked
  · right
    have plain : ∀ {sort : SortRecord}, sort.variant ≠ .weighted →
        ∀ base weight, sort.body ≠ .weighted base weight := by
      rintro sort differs base weight made
      exact differs (by rw [SortRecord.variant, made]; rfl)
    rw [spine_of_plain found' (plain (variant ▸ weighted))] at walked
    exact ⟨spine_of_plain found (plain weighted), (Except.ok.inj walked).symm⟩

/-- What is made of a weight by attaching sorts to it shows these sorts in its spine, and behind
them the spine of the weight. -/
theorem exists_spine_of_strung (h : c.Rested) (walked : c.spine weight = .ok behind)
    (strung : c.Strung weight elements id) :
    ∃ chain, c.spine id = .ok chain ∧ List.Forall₂ c.Twins chain (elements ++ behind) := by
  induction elements generalizing id with
  | nil =>
    obtain rfl : id = weight := strung
    obtain ⟨front, last, rfl, live, each⟩ := h.spine_shape walked
    refine ⟨_, walked, List.forall₂_same.mpr fun base inside ↦ .refl ?_⟩
    rcases List.mem_append.mp inside with inside | inside
    · obtain ⟨sort, found, -⟩ := each base inside
      exact ⟨sort, found⟩
    · exact List.mem_singleton.mp inside ▸ live
  | cons base others ih =>
    obtain ⟨tail, strung, b, w, foundBase, foundTail, simple, plain, entry⟩ := strung
    obtain ⟨chain, shown, twins⟩ := ih strung
    obtain ⟨sort, found, nameless, weighted, text⟩ := h.kept entry
    cases made : sort.body with
    | weighted base' weight' =>
      have fits := h.fits found
      have composed := fits.composed
      have rendered := fits.rendered (by rw [weighted]; decide)
      rw [made] at composed rendered
      obtain ⟨⟨b', foundBase', simple'⟩, w', foundWeight', plain'⟩ := composed
      rw [rendering_weighted foundBase' foundWeight', text] at rendered
      obtain ⟨sameBase, sameWeight⟩ :=
        eq_of_weightedText (h.legible foundBase') (h.legible foundBase) (h.legible foundWeight')
          (h.legible foundTail) simple' simple plain' plain (Except.ok.inj rendered)
      have first : c.Twins base' base := ⟨b', b, foundBase', foundBase, sameBase⟩
      have rest : c.Twins weight' tail := ⟨w', w, foundWeight', foundTail, sameWeight⟩
      rw [h.weighed.spine_of_weighted found made]
      rcases h.spine_of_twins rest shown with same | ⟨only, rfl⟩
      · rw [same]
        exact ⟨_, rfl, .cons first twins⟩
      · rw [only]
        rw [List.cons_append]
        generalize others ++ behind = all at twins ⊢
        cases twins with
        | cons here none_ => exact ⟨_, rfl, .cons first (.cons (rest.trans here) none_)⟩
    | _ => rw [SortRecord.variant, made] at weighted; cases weighted

end Rested

end Catalog

end CompositeSorts
