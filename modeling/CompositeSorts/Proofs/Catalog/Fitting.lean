import CompositeSorts.Proofs.Catalog.Advance
import CompositeSorts.Proofs.Source.Spelling

/-!
Fitting sorts. A sort fits into its catalog when the handles in it lead to live sorts of the right
kinds, which are older than the sort where it is made of them, and when its canonical text is what
its body is written as (`Catalog.Fits`). All that a sort asks of the sorts it leads to is that they
look the same (`Alike`); so a sort goes on to fit as long as those stay alike (`Fits.frame`).

A disjunction without a name is made of older sorts only when it is made: it grows in place by
sorts that can be younger (`Catalog.Older`).
-/

set_option autoImplicit false
set_option relaxedAutoImplicit false

namespace CompositeSorts

open Text

namespace Body

/-- The handles of the sorts that a sort is made of: the sorts linked to a primitive sort or to an
aspects tuple, base and weight, components, and the tuple of an aspect. -/
def parts : Body → List SortId
  | .primitive _ (some (.sorts linked)) => linked
  | .primitive _ _ => []
  | .weighted base weight => [base, weight]
  | .disjunctive components => components
  | .aspects _ _ arguments => arguments
  | .aspect owner _ => [owner]
  | .recursive _ => []

/-- The handles that lead on to later sorts: from a tuple to its aspects, from a recursive sort to
its instance. -/
def bonds : Body → List SortId
  | .aspects _ own _ => own
  | .recursive target => target.toList
  | _ => []

/-- The handles in a body. -/
def handles (body : Body) : List SortId := body.parts ++ body.bonds

/-- Tags and numbers are unmarked. -/
def Spelled : Body → Prop
  | .primitive category argument =>
    Unmarked category ∧ ∀ lexeme, argument = some (.bound lexeme) → Unmarked lexeme
  | .aspects category _ _ => Unmarked category
  | _ => True

theorem mem_handles_of_mem_parts {body : Body} {id : SortId} (h : id ∈ body.parts) :
    id ∈ body.handles := List.mem_append_left _ h

theorem mem_handles_of_mem_bonds {body : Body} {id : SortId} (h : id ∈ body.bonds) :
    id ∈ body.handles := List.mem_append_right _ h

end Body

namespace SortRecord

theorem body_ne_recursive {sort : SortRecord} (plain : sort.variant ≠ .recursive)
    (target : Option SortId) : sort.body ≠ .recursive target := by
  intro made
  apply plain
  unfold SortRecord.variant
  rw [made]
  rfl

/-- Whether a sort is simple shows in its variant. -/
theorem isSimple_iff (sort : SortRecord) :
    sort.body.isSimple ↔ sort.variant = .primitive ∨ sort.variant = .aspect := by
  unfold variant
  cases sort.body <;> simp [Body.isSimple, Body.variant]

theorem variant_ne_aspects_of_simple {sort : SortRecord} (simple : sort.body.isSimple) :
    sort.variant ≠ .aspects := by
  rcases sort.isSimple_iff.mp simple with kind | kind <;> rw [kind] <;> decide

theorem target_mem_handles {sort : SortRecord} {target : SortId}
    (bound : sort.body = .recursive (some target)) : target ∈ sort.body.handles := by
  apply Body.mem_handles_of_mem_bonds
  rw [bound]
  exact List.mem_singleton_self target

end SortRecord

/-- A disjunction without a name, which can grow in place. -/
def SortRecord.Growing (sort : SortRecord) : Prop :=
  sort.name = none ∧ sort.variant = .disjunctive

namespace SortRecord

variable {sort : SortRecord}

theorem not_growing_of_named {name : String} (named : sort.name = some name) : ¬ sort.Growing := by
  rintro ⟨nameless, -⟩
  rw [named] at nameless
  cases nameless

theorem not_growing_of_variant (differs : sort.variant ≠ .disjunctive) : ¬ sort.Growing :=
  fun growing ↦ differs growing.2

theorem not_growing_of_simple (simple : sort.body.isSimple) : ¬ sort.Growing := by
  refine not_growing_of_variant ?_
  rcases sort.isSimple_iff.mp simple with kind | kind <;> rw [kind] <;> decide

/-- Only a growing disjunction contributes more than itself to a sum. -/
theorem summands_of_not_growing (closed : ¬ sort.Growing) : sort.summands = [sort.id] := by
  unfold summands
  split
  · rename_i components made nameless
    refine absurd ⟨nameless, ?_⟩ closed
    rw [variant, made]
    rfl
  · rfl

theorem Growing.body_eq (h : sort.Growing) :
    ∃ components, sort.body = .disjunctive components ∧ sort.summands = components := by
  obtain ⟨nameless, disjunctive⟩ := h
  unfold SortRecord.summands
  cases made : sort.body with
  | disjunctive components =>
    refine ⟨components, rfl, ?_⟩
    rw [nameless]
  | _ =>
    unfold SortRecord.variant at disjunctive
    rw [made] at disjunctive
    cases disjunctive

end SortRecord

/-- The name of a tuple is written from unmarked names; any other name is unmarked. -/
def SortRecord.NameSpelled (sort : SortRecord) : Prop :=
  ∀ name, sort.name = some name →
    if sort.variant = .aspects then
      ∃ names, name = Catalog.tupleText names ∧ ∀ part ∈ names, Unmarked part
    else Unmarked name

/-- What a sort shows to the sorts that lead to it has stayed. Canonical text and counts of a
recursive sort are open until it is bound. -/
structure Alike (before after : SortRecord) : Prop where
  name : after.name = before.name
  display : after.display = before.display
  created : after.created = before.created
  variant : after.variant = before.variant
  settled : before.body ≠ .recursive none →
    after.canonical = before.canonical ∧ after.counts = before.counts
  bound : ∀ target, before.body = .recursive (some target) → after.body = before.body
  tuple : ∀ category own arguments, before.body = .aspects category own arguments →
    ∃ own', after.body = .aspects category own' arguments

theorem Alike.refl (sort : SortRecord) : Alike sort sort :=
  ⟨rfl, rfl, rfl, rfl, fun _ ↦ ⟨rfl, rfl⟩, fun _ _ ↦ rfl, fun _ own _ made ↦ ⟨own, made⟩⟩

theorem Alike.growing_iff {before after : SortRecord} (h : Alike before after) :
    after.Growing ↔ before.Growing := by
  unfold SortRecord.Growing
  rw [h.name, h.variant]

theorem Alike.isSimple_eq {before after : SortRecord} (h : Alike before after) :
    after.body.isSimple = before.body.isSimple := by
  rw [← Bool.coe_iff_coe, after.isSimple_iff, before.isSimple_iff, h.variant]

namespace Catalog

variable {c d : Catalog} {id : SortId} {sort : SortRecord} {body : Body}

/-- What a body is written as when its parts are shown by their displays. A recursive sort shows
the text of its instance, so there is nothing to write. -/
def rendering (c : Catalog) : Body → Except Refusal String
  | .primitive category argument => c.primitiveText category argument
  | .weighted base weight => do
    let b ← c.get base
    let w ← c.get weight
    pure (weightedText b w)
  | .disjunctive components => (c.displays components).map disjunctiveText
  | .aspects category _ arguments => (c.displays arguments).map (aspectsText category)
  | .aspect owner position => do
    let tuple ← c.get owner
    pure (aspectText tuple.canonical position)
  | .recursive _ => pure ""

theorem display_of_get (found : c.get id = .ok sort) : c.display id = .ok sort.display := by
  unfold display
  rw [found]
  rfl

theorem rendering_weighted {base weight : SortId} {b w : SortRecord}
    (foundBase : c.get base = .ok b) (foundWeight : c.get weight = .ok w) :
    c.rendering (.weighted base weight) = .ok (weightedText b w) := by
  unfold rendering
  dsimp only
  rw [foundBase, foundWeight]
  rfl

theorem rendering_aspect {owner : SortId} {tuple : SortRecord} (found : c.get owner = .ok tuple)
    (position : Nat) :
    c.rendering (.aspect owner position) = .ok (aspectText tuple.canonical position) := by
  unfold rendering
  dsimp only
  rw [found]
  rfl

/-- The handle leads to a sort that can be a component. -/
def Component (c : Catalog) (id : SortId) : Prop :=
  ∃ sort, c.get id = .ok sort ∧ sort.variant ≠ .aspects ∧ ¬ sort.Growing

/-- The parts of a body are of the kinds that belong there, no two components show the same display,
a tuple has an argument at the position of each of its aspects, and no instance is a tuple. -/
def Composed (c : Catalog) : Body → Prop
  | .primitive _ (some (.sorts linked)) => ∀ id ∈ linked, Op.Operand c id
  | .primitive _ _ => True
  | .weighted base weight =>
    (∃ sort, c.get base = .ok sort ∧ sort.body.isSimple) ∧ Op.Operand c weight
  | .disjunctive components =>
    (∀ id ∈ components, c.Component id) ∧ (components.map c.display).Nodup
  | .aspects _ _ arguments => ∀ id ∈ arguments, Op.Operand c id
  | .aspect owner position => ∃ sort category own arguments, c.get owner = .ok sort ∧
      sort.body = .aspects category own arguments ∧ position < arguments.length
  | .recursive (some target) => Op.Operand c target
  | .recursive none => True

/-- The handle leads to a sort that was made before the time. -/
def MadeBefore (c : Catalog) (time : Nat) (id : SortId) : Prop :=
  ∃ sort, c.get id = .ok sort ∧ sort.created < time

/-- The sort is made of older sorts; or it is a disjunction that has grown, and its first components
are older, two of them at least. -/
def Older (c : Catalog) (sort : SortRecord) : Prop :=
  (∀ part ∈ sort.body.parts, c.MadeBefore sort.created part) ∨
    sort.name = none ∧ ∃ first later, sort.body = .disjunctive (first ++ later) ∧
      2 ≤ first.length ∧ ∀ part ∈ first, c.MadeBefore sort.created part

/-- The sort fits into the catalog. -/
structure Fits (c : Catalog) (sort : SortRecord) : Prop where
  linked : ∀ id ∈ sort.body.handles, c.Live id
  older : c.Older sort
  rendered : sort.variant ≠ .recursive → c.rendering sort.body = .ok sort.canonical
  composed : c.Composed sort.body
  nameless : sort.name = none →
    sort.variant = .primitive ∨ sort.variant = .weighted ∨ sort.variant = .disjunctive
  named : sort.NameSpelled
  spelled : sort.body.Spelled

/-- The handle leads to sorts that look the same in both catalogs. -/
def Firm (c d : Catalog) (id : SortId) : Prop :=
  ∃ before after, c.get id = .ok before ∧ d.get id = .ok after ∧ Alike before after

theorem Firm.of_get_eq (found : c.get id = .ok sort) (same : d.get id = .ok sort) : Firm c d id :=
  ⟨sort, sort, found, same, Alike.refl sort⟩

namespace Firm

theorem live (h : Firm c d id) : d.Live id := by
  obtain ⟨_, after, _, found, _⟩ := h
  exact ⟨after, found⟩

theorem display_eq (h : Firm c d id) : d.display id = c.display id := by
  obtain ⟨before, after, found, found', alike⟩ := h
  rw [display_of_get found', display_of_get found, alike.display]

theorem madeBefore (h : Firm c d id) {time : Nat} (earlier : c.MadeBefore time id) :
    d.MadeBefore time id := by
  obtain ⟨before, after, found, found', alike⟩ := h
  obtain ⟨sort, there, early⟩ := earlier
  rw [found] at there
  cases there
  exact ⟨after, found', alike.created ▸ early⟩

theorem operand (h : Firm c d id) (plain : Op.Operand c id) : Op.Operand d id := by
  obtain ⟨before, after, found, found', alike⟩ := h
  obtain ⟨sort, there, differs⟩ := plain
  rw [found] at there
  cases there
  exact ⟨after, found', alike.variant ▸ differs⟩

theorem component (h : Firm c d id) (plain : c.Component id) : d.Component id := by
  obtain ⟨before, after, found, found', alike⟩ := h
  obtain ⟨sort, there, differs, closed⟩ := plain
  rw [found] at there
  cases there
  exact ⟨after, found', alike.variant ▸ differs, mt alike.growing_iff.mp closed⟩

end Firm

/-- A question is answered for all when it is answered for each. -/
theorem mapM_eq_ok_iff {α β : Type} {question : α → Except Refusal β} {items : List α}
    {answers : List β} : items.mapM question = .ok answers ↔
      List.Forall₂ (fun item answer ↦ question item = .ok answer) items answers := by
  induction items generalizing answers with
  | nil =>
    rw [List.mapM_nil, List.forall₂_nil_left_iff]
    constructor
    · rintro ⟨⟩
      rfl
    · rintro rfl
      rfl
  | cons item items ih =>
    rw [List.mapM_cons, List.forall₂_cons_left_iff]
    cases first : question item with
    | error reason =>
      constructor
      · rintro ⟨⟩
      · rintro ⟨_, _, ⟨⟩, _⟩
    | ok answer =>
      cases others : items.mapM question with
      | error reason =>
        constructor
        · rintro ⟨⟩
        · rintro ⟨_, more, _, behind, _⟩
          rw [← ih, others] at behind
          cases behind
      | ok more =>
        constructor
        · intro h
          cases h
          exact ⟨answer, more, rfl, ih.mp others, rfl⟩
        · rintro ⟨_, more', h, behind, rfl⟩
          cases h
          rw [← ih, others] at behind
          cases behind
          rfl

theorem live_of_displays {ids : List SortId} {texts : List String}
    (shown : c.displays ids = .ok texts) : ∀ id ∈ ids, c.Live id := by
  intro id inside
  obtain ⟨index, bound, rfl⟩ := List.mem_iff_getElem.mp inside
  have all := mapM_eq_ok_iff.mp shown
  have here := all.get bound (all.length_eq ▸ bound)
  unfold display at here
  cases found : c.get (ids.get ⟨index, bound⟩) with
  | error reason =>
    rw [found] at here
    cases here
  | ok sort => exact ⟨sort, found⟩

/-- The displays of sorts that were looked up. -/
theorem displays_eq_of_mapM {ids : List SortId} {sorts : List SortRecord}
    (found : ids.mapM c.get = .ok sorts) :
    c.displays ids = .ok (sorts.map SortRecord.display) := by
  unfold displays
  rw [mapM_eq_ok_iff] at found ⊢
  rw [List.forall₂_map_right_iff]
  exact found.imp fun _ _ here ↦ display_of_get here

theorem displays_congr {ids : List SortId} (same : ∀ id ∈ ids, d.display id = c.display id) :
    d.displays ids = c.displays ids := by
  unfold displays
  induction ids with
  | nil => rfl
  | cons id ids ih =>
    rw [List.mapM_cons, List.mapM_cons, same id List.mem_cons_self,
      ih fun other inside ↦ same other (List.mem_cons_of_mem _ inside)]

/-- A body is written in the same way when the sorts it leads to look the same. -/
theorem rendering_congr (firm : ∀ id ∈ body.handles, Firm c d id) (composed : c.Composed body) :
    d.rendering body = c.rendering body := by
  have part (id : SortId) (inside : id ∈ body.parts) : Firm c d id :=
    firm id (Body.mem_handles_of_mem_parts inside)
  have shown (ids : List SortId) (inside : ∀ id ∈ ids, id ∈ body.parts) :
      d.displays ids = c.displays ids :=
    displays_congr fun id among ↦ (part id (inside id among)).display_eq
  cases body with
  | primitive category argument =>
    cases argument with
    | none => rfl
    | some argument =>
      cases argument with
      | sorts linked =>
        unfold rendering primitiveText argumentText
        dsimp only
        rw [shown linked fun _ among ↦ among]
      | _ => rfl
  | weighted base weight =>
    obtain ⟨b, b', foundBase, foundBase', alikeBase⟩ := part base List.mem_cons_self
    obtain ⟨w, w', foundWeight, foundWeight', alikeWeight⟩ :=
      part weight (List.mem_cons_of_mem _ List.mem_cons_self)
    rw [rendering_weighted foundBase foundWeight, rendering_weighted foundBase' foundWeight']
    unfold weightedText
    rw [alikeBase.display, alikeWeight.display, alikeWeight.variant, alikeWeight.name]
  | disjunctive components =>
    unfold rendering
    dsimp only
    rw [shown components fun _ among ↦ among]
  | aspects category own arguments =>
    unfold rendering
    dsimp only
    rw [shown arguments fun _ among ↦ among]
  | aspect owner position =>
    obtain ⟨tuple, tuple', found, found', alike⟩ := part owner List.mem_cons_self
    obtain ⟨record, category, own, arguments, there, tupled, -⟩ := composed
    rw [found] at there
    cases there
    have bound : tuple.body ≠ .recursive none := by rw [tupled]; rintro ⟨⟩
    rw [rendering_aspect found, rendering_aspect found', (alike.settled bound).1]
  | recursive target => rfl

/-- The parts of a body go on to be of the right kinds. -/
theorem composed_congr (firm : ∀ id ∈ body.handles, Firm c d id) (composed : c.Composed body) :
    d.Composed body := by
  have part (id : SortId) (inside : id ∈ body.parts) : Firm c d id :=
    firm id (Body.mem_handles_of_mem_parts inside)
  cases body with
  | primitive category argument =>
    cases argument with
    | none => trivial
    | some argument =>
      cases argument with
      | sorts linked => exact fun id inside ↦ (part id inside).operand (composed id inside)
      | _ => trivial
  | weighted base weight =>
    obtain ⟨⟨sort, found, simple⟩, plain⟩ := composed
    obtain ⟨before, after, there, there', alike⟩ := part base List.mem_cons_self
    rw [found] at there
    cases there
    refine ⟨⟨after, there', alike.isSimple_eq.trans simple⟩, ?_⟩
    exact (part weight (List.mem_cons_of_mem _ List.mem_cons_self)).operand plain
  | disjunctive components =>
    refine ⟨fun id inside ↦ (part id inside).component (composed.1 id inside), ?_⟩
    have shown : components.map d.display = components.map c.display :=
      List.map_congr_left fun id inside ↦ (part id inside).display_eq
    rw [shown]
    exact composed.2
  | aspects category own arguments =>
    exact fun id inside ↦ (part id inside).operand (composed id inside)
  | aspect owner position =>
    obtain ⟨sort, category, own, arguments, found, tupled, inside⟩ := composed
    obtain ⟨before, after, there, there', alike⟩ := part owner List.mem_cons_self
    rw [found] at there
    cases there
    obtain ⟨own', tupled'⟩ := alike.tuple category own arguments tupled
    exact ⟨after, category, own', arguments, there', tupled', inside⟩
  | recursive target =>
    cases target with
    | none => trivial
    | some target =>
      exact (firm target (Body.mem_handles_of_mem_bonds List.mem_cons_self)).operand composed

theorem Older.frame (h : c.Older sort) (firm : ∀ id ∈ sort.body.handles, Firm c d id) :
    d.Older sort := by
  have part {id : SortId} (inside : id ∈ sort.body.parts) : Firm c d id :=
    firm id (Body.mem_handles_of_mem_parts inside)
  rcases h with older | ⟨nameless, first, later, made, several, older⟩
  · exact Or.inl fun id inside ↦ (part inside).madeBefore (older id inside)
  · refine Or.inr ⟨nameless, first, later, made, several, fun id inside ↦ ?_⟩
    refine (part ?_).madeBefore (older id inside)
    rw [made]
    exact List.mem_append_left _ inside

/-- A sort goes on to fit when the sorts it leads to look the same. -/
theorem Fits.frame (h : c.Fits sort) (firm : ∀ id ∈ sort.body.handles, Firm c d id) :
    d.Fits sort where
  linked id inside := (firm id inside).live
  older := h.older.frame firm
  rendered plain := (rendering_congr firm h.composed).trans (h.rendered plain)
  composed := composed_congr firm h.composed
  nameless := h.nameless
  named := h.named
  spelled := h.spelled

/-- Recursive sorts are named. -/
theorem Fits.exists_name (h : c.Fits sort) {target : Option SortId}
    (made : sort.body = .recursive target) : ∃ name, sort.name = some name := by
  cases named : sort.name with
  | some name => exact ⟨name, rfl⟩
  | none =>
    rcases h.nameless named with kind | kind | kind <;>
      rw [SortRecord.variant, made] at kind <;> cases kind

end Catalog

end CompositeSorts
