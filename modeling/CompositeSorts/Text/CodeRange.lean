/-!
Sets of characters given by closed intervals of code points, as the character tables of the Unicode
standard list them, and the shortest of these tables, that of the characters with the property
White_Space. Main definitions: `CodeRange.covers`, `isBlank`.
-/

set_option autoImplicit false
set_option relaxedAutoImplicit false

namespace CompositeSorts.Text

/-- A closed interval of code points, first and last. -/
abbrev CodeRange := Nat × Nat

/-- Whether the code point of `c` lies in one of the intervals. -/
def CodeRange.covers (table : List CodeRange) (c : Char) : Bool :=
  table.any fun range ↦ range.1 ≤ c.toNat && c.toNat ≤ range.2

theorem CodeRange.covers_iff (table : List CodeRange) (c : Char) :
    CodeRange.covers table c = true ↔ ∃ range ∈ table, range.1 ≤ c.toNat ∧ c.toNat ≤ range.2 := by
  simp [CodeRange.covers]

/-- The blank characters. -/
def blankRanges : List CodeRange := [
  (0x0009, 0x000D), (0x0020, 0x0020), (0x0085, 0x0085), (0x00A0, 0x00A0), (0x1680, 0x1680),
  (0x2000, 0x200A), (0x2028, 0x2029), (0x202F, 0x202F), (0x205F, 0x205F), (0x3000, 0x3000)]

/-- Whether `c` is white space in any script. -/
def isBlank (c : Char) : Bool :=
  CodeRange.covers blankRanges c

theorem isBlank_of_isWhitespace {c : Char} (h : c.isWhitespace = true) : isBlank c = true := by
  simp only [Char.isWhitespace, Bool.or_eq_true, decide_eq_true_eq] at h
  rcases h with ((rfl | rfl) | rfl) | rfl <;> decide

end CompositeSorts.Text
