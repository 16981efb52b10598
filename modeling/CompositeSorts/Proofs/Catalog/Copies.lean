import CompositeSorts.Proofs.Catalog.Advance
import CompositeSorts.Proofs.Catalog.Displays

/-!
Copies. A text that is defined a second time makes sorts that look like those of the first time:
they have the same names and canonical texts and are of the same variants (`SortRecord.Repeats`). So
they have the same displays, and what an operation makes of copies is written like what it made of
the originals.

An attribute of copies is met again under its text, or made anew (`Steady.exists_combine_copy`). A
disjunction is put together from the left, one component at a time (`Sums`): as long as all displays
differ, each summand is appended to those before, whether the disjunction grows in place or not.
That a display differs from the text of a sum that was begun is because a component is no growing
disjunction, and shows no plus sign.
-/

set_option autoImplicit false
set_option relaxedAutoImplicit false

namespace CompositeSorts

open Catalog Text

variable {a c d : Catalog} {id : SortId} {sort original : SortRecord}

namespace SortRecord

/-- The sort has the name and the canonical text of the original and is of its variant. -/
structure Repeats (sort original : SortRecord) : Prop where
  name : sort.name = original.name
  canonical : sort.canonical = original.canonical
  variant : sort.variant = original.variant

namespace Repeats

theorem refl (sort : SortRecord) : sort.Repeats sort := ⟨rfl, rfl, rfl⟩

theorem display (h : sort.Repeats original) : sort.display = original.display := by
  unfold SortRecord.display
  rw [h.name, h.canonical]

theorem growing_iff (h : sort.Repeats original) : sort.Growing ↔ original.Growing := by
  unfold Growing
  rw [h.name, h.variant]

theorem isSimple_iff (h : sort.Repeats original) : sort.body.isSimple ↔ original.body.isSimple := by
  rw [sort.isSimple_iff, original.isSimple_iff, h.variant]

theorem weightedText {weight original' : SortRecord} (h : sort.Repeats original)
    (h' : weight.Repeats original') :
    Catalog.weightedText sort weight = Catalog.weightedText original original' := by
  unfold Catalog.weightedText
  rw [h.display, h'.display, h'.variant, h'.name]

end Repeats

end SortRecord

namespace Catalog

/-- The handle leads to a copy of the sort. -/
def Copy (c : Catalog) (id : SortId) (original : SortRecord) : Prop :=
  ∃ sort, c.get id = .ok sort ∧ sort.Repeats original

theorem Copy.grow (h : c.Copy id original) (grown : Growth c d) : d.Copy id original := by
  obtain ⟨sort, found, repeats⟩ := h
  exact ⟨sort, grown.stays found, repeats⟩

theorem Copy.display (h : c.Copy id original) : c.display id = .ok original.display := by
  obtain ⟨sort, found, repeats⟩ := h
  rw [display_of_get found, repeats.display]

variable {ids : List SortId} {originals : List SortRecord}

theorem displays_of_copies (copies : List.Forall₂ c.Copy ids originals) :
    c.displays ids = .ok (originals.map SortRecord.display) := by
  refine mapM_eq_ok_iff.mpr (List.forall₂_map_right_iff.mpr ?_)
  exact copies.imp fun _ _ copy ↦ copy.display

theorem operands_of_copies (copies : List.Forall₂ c.Copy ids originals)
    (plain : ∀ original ∈ originals, original.variant ≠ .aspects) :
    ∀ id ∈ ids, Op.Operand c id := by
  induction copies with
  | nil => exact fun _ inside ↦ absurd inside List.not_mem_nil
  | cons first _ ih =>
    obtain ⟨noTuple, others⟩ := List.forall_mem_cons.mp plain
    obtain ⟨sort, found, repeats⟩ := first
    exact List.forall_mem_cons.mpr ⟨⟨sort, found, repeats.variant ▸ noTuple⟩, ih others⟩

/-- What is attached to a simple sort is a copy of the attribute that is written like it. -/
theorem Steady.exists_combine_copy {base weight : SortId} {b w : SortRecord} (h : c.Steady)
    (foundBase : c.get base = .ok b) (foundWeight : c.get weight = .ok w) (simple : b.body.isSimple)
    (plain : w.variant ≠ .aspects) (nameless : original.name = none)
    (weighted : original.variant = .weighted) (written : original.canonical = weightedText b w) :
    ∃ id d, Op.combine base weight c = .ok id d ∧ d.Copy id original := by
  rw [combine_of_simple foundBase simple, Op.attach_eq foundBase foundWeight
    (SortRecord.variant_ne_aspects_of_simple simple) simple plain, ← written]
  cases entry : c.interned[original.canonical]? with
  | some known =>
    obtain ⟨kept, found, nameless', weighted', canonical⟩ := h.kept entry
    exact ⟨known, c, rfl, kept, found, nameless'.trans nameless.symm, canonical,
      weighted'.trans weighted.symm⟩
  | none =>
    exact ⟨_, _, rfl, _, get_add_nextId h.toRooted, nameless.symm, rfl, weighted.symm⟩

end Catalog

/-! ### Merging one sort -/

namespace Op

variable {text : String} {components : List SortId} {texts : List String}

theorem shows_eq (shown : c.displays components = .ok texts) :
    shows c text components = .ok (decide (text ∈ texts)) := by
  unfold Catalog.displays at shown
  induction components generalizing texts with
  | nil =>
    cases shown
    exact congrArg Except.ok (decide_eq_false List.not_mem_nil).symm
  | cons id components ih =>
    obtain ⟨first, others, here, behind, rfl⟩ :=
      List.forall₂_cons_left_iff.mp (mapM_eq_ok_iff.mp shown)
    rw [shows, here]
    change (if first = text then pure true else shows c text components) = _
    rw [ih (mapM_eq_ok_iff.mpr behind)]
    split_ifs with same
    · exact congrArg Except.ok (decide_eq_true (same ▸ List.mem_cons_self)).symm
    · simp [Ne.symm same]

/-- A component whose display is not shown is appended. -/
theorem merged_singleton (shown : c.displays components = .ok texts)
    (here : c.display id = .ok text)
    (new : text ∉ texts) : merged c components [id] = .ok (components ++ [id]) := by
  rw [merged, here]
  change (shows c text components >>= fun present ↦
    merged c (if present then components else components ++ [id]) []) = _
  rw [shows_eq shown, decide_eq_false new]
  rfl

end Op

/-! ### Sums -/

/-- The text shows no sum. -/
def Text.Unsummed (text : String) : Prop := ∃ shown, Exposes text shown ∧ '+' ∉ shown

/-- What shows no sum is not written like a sum of several texts. -/
theorem Text.Unsummed.ne_disjunctiveText {text : String} {texts : List String} (h : Unsummed text)
    (each : ∀ text ∈ texts, Unsummed text) (several : 2 ≤ texts.length) :
    text ≠ disjunctiveText texts := by
  rintro rfl
  obtain ⟨shown, exposes, noPlus⟩ := h
  have visible : ∀ text ∈ texts, ∃ shown, Exposes text shown := by
    intro text inside
    obtain ⟨shown, exposes, -⟩ := each text inside
    exact ⟨shown, exposes⟩
  obtain ⟨shown', exposes', plus⟩ := Exposes.of_disjunctiveText visible several
  rw [exposes.signs_eq.symm.trans exposes'.signs_eq] at noPlus
  exact noPlus plus

namespace Catalog

variable {part : SortRecord} {texts : List String}

/-- The handle leads to the sort, and it is one that can be a component of a disjunction. -/
structure Summand (c : Catalog) (id : SortId) (part : SortRecord) : Prop where
  found : c.get id = .ok part
  plain : part.variant ≠ .aspects
  closed : ¬ part.Growing
  single : Unsummed part.display

/-- The handle leads to the sum of summands that are shown by these texts, in this order: to a sort
with this display if there is one text, and otherwise to a growing disjunction. -/
def Sums (c : Catalog) (id : SortId) (texts : List String) : Prop :=
  ∃ sort parts, c.get id = .ok sort ∧ sort.variant ≠ .aspects ∧
    List.Forall₂ c.Summand sort.summands parts ∧ parts.map SortRecord.display = texts ∧
    (texts = [sort.display] ∨ 2 ≤ texts.length ∧ sort.Growing ∧
      sort.canonical = disjunctiveText texts)

namespace Summand

theorem grow (h : c.Summand id part) (grown : Growth c d) : d.Summand id part :=
  ⟨grown.stays h.found, h.plain, h.closed, h.single⟩

/-- A disjunction that grows is not among its own summands. -/
theorem replace {old : SortRecord} (h : c.Summand id part) (found : c.get sort.id = .ok old)
    (growing : old.Growing) : (c.replace sort).Summand id part := by
  refine ⟨(get_replace_of_ne found ?_).trans h.found, h.plain, h.closed, h.single⟩
  rintro rfl
  have there := h.found
  rw [found] at there
  cases there
  exact h.closed growing

theorem summands_eq (h : c.Summand id part) (steady : c.Steady) : part.summands = [id] := by
  rw [SortRecord.summands_of_not_growing h.closed, steady.placed h.found]

theorem sums (h : c.Summand id part) (steady : c.Steady) : c.Sums id [part.display] := by
  refine ⟨part, [part], h.found, h.plain, ?_, rfl, .inl rfl⟩
  rw [h.summands_eq steady]
  exact .cons h .nil

end Summand

theorem Copy.summand (h : c.Copy id original) (plain : original.variant ≠ .aspects)
    (closed : ¬ original.Growing) (single : Unsummed original.display) :
    ∃ part, c.Summand id part ∧ part.display = original.display := by
  obtain ⟨part, found, repeats⟩ := h
  refine ⟨part, ⟨found, repeats.variant ▸ plain, mt repeats.growing_iff.mp closed, ?_⟩,
    repeats.display⟩
  rwa [repeats.display]

variable {ids : List SortId} {parts : List SortRecord}

theorem get_of_summands (members : List.Forall₂ c.Summand ids parts) : ids.mapM c.get = .ok parts :=
  mapM_eq_ok_iff.mpr (members.imp fun _ _ member ↦ member.found)

theorem unsummed_of_summands (members : List.Forall₂ c.Summand ids parts) :
    ∀ text ∈ parts.map SortRecord.display, Unsummed text := by
  induction members with
  | nil => exact fun _ inside ↦ absurd inside List.not_mem_nil
  | cons first _ ih => exact List.forall_mem_cons.mpr ⟨first.single, ih⟩

namespace Sums

theorem grow (h : c.Sums id texts) (grown : Growth c d) : d.Sums id texts := by
  obtain ⟨sort, parts, found, plain, members, shown, sum⟩ := h
  exact ⟨sort, parts, grown.stays found, plain, members.imp fun _ _ member ↦
    member.grow grown, shown, sum⟩

theorem of_disjunctive (found : c.get id = .ok sort) (nameless : sort.name = none)
    (made : sort.body = .disjunctive ids) (members : List.Forall₂ c.Summand ids parts)
    (several : 2 ≤ parts.length)
    (written : sort.canonical = disjunctiveText (parts.map SortRecord.display)) :
    c.Sums id (parts.map SortRecord.display) := by
  have growing : sort.Growing := ⟨nameless, congrArg Body.variant made⟩
  obtain ⟨components, made', summands⟩ := growing.body_eq
  rw [made] at made'
  cases made'
  have plain : sort.variant ≠ .aspects := by
    rw [growing.2]
    decide
  refine ⟨sort, parts, found, plain, summands ▸ members, rfl, .inr ⟨?_, growing, written⟩⟩
  rwa [List.length_map]

/-- A summand with a new display is added, in place if the sum so far is a growing disjunction. -/
theorem exists_sum {l r : SortId} {right : SortRecord} (h : c.Sums l texts) (steady : c.Steady)
    (h' : c.Summand r right) (new : right.display ∉ texts) :
    ∃ id d, Op.sum l r c = .ok id d ∧ d.Sums id (texts ++ [right.display]) := by
  obtain ⟨left, parts, found, plain, members, rfl, sum⟩ := h
  have differ : left.display ≠ right.display := by
    intro same
    rcases sum with alone | ⟨several, growing, canonical⟩
    · exact new (by rw [alone, same]; exact List.mem_singleton_self _)
    · refine h'.single.ne_disjunctiveText (unsummed_of_summands members) several ?_
      rw [← same, SortRecord.display_of_nameless growing.1, canonical]
  have some : left.summands ≠ [] := by
    intro none
    rw [none] at members
    cases members
    rcases sum with alone | ⟨several, -⟩
    · cases alone
    · exact absurd several (by decide)
  have all : List.Forall₂ c.Summand (left.summands ++ [r]) (parts ++ [right]) :=
    List.rel_append members (.cons h' .nil)
  have summed : Op.Summed c l r left right (left.summands ++ [r]) (parts ++ [right]) := by
    refine ⟨found, h'.found, plain, h'.plain, differ, ?_, get_of_summands all, fun only single ↦ ?_⟩
    · rw [h'.summands_eq steady]
      exact Op.merged_singleton (displays_eq_of_mapM (get_of_summands members))
        (display_of_get h'.found) new
    · exact some (by simpa using congrArg List.length single)
  have several : 2 ≤ (parts ++ [right]).length := by
    rw [← all.length_eq]
    exact steady.two_le_length_of_summed summed
  have shown : (parts ++ [right]).map SortRecord.display =
      parts.map SortRecord.display ++ [right.display] := by
    rw [List.map_append, List.map_singleton]
  rw [Op.sum_eq summed, ← shown]
  split_ifs with growing
  · obtain rfl : left.id = l := steady.placed found
    refine ⟨_, _, rfl, .of_disjunctive (get_replace_self found) growing.2 rfl ?_ several rfl⟩
    exact all.imp fun _ _ member ↦ member.replace found ⟨growing.2, growing.1⟩
  · refine ⟨_, _, rfl, .of_disjunctive (get_add_nextId steady.toRooted) rfl rfl ?_ several rfl⟩
    exact all.imp fun _ _ member ↦
      ⟨get_add_of_live steady.toRooted member.found, member.plain, member.closed, member.single⟩

/-- The sum of several texts is a copy of the disjunction that is written like it. -/
theorem copy (h : c.Sums id texts) (several : 2 ≤ texts.length) (growing : original.Growing)
    (written : original.canonical = disjunctiveText texts) : c.Copy id original := by
  obtain ⟨sort, parts, found, -, -, -, alone | ⟨-, growing', canonical⟩⟩ := h
  · rw [alone] at several
    exact absurd several (by simp)
  · exact ⟨sort, found, growing'.1.trans growing.1.symm, canonical.trans written.symm,
      growing'.2.trans growing.2.symm⟩

end Sums

end Catalog

end CompositeSorts
