import CompositeSorts.Source.TokenStream
import Mathlib.Data.List.TakeWhile
import Mathlib.Tactic.Common

/-!
Spelling. Canonical texts are put together with brackets, parentheses, quotes, commas and the signs
of the operations. None of these marks can stand in a name or a number that was read from a text.
-/

set_option autoImplicit false
set_option relaxedAutoImplicit false

namespace CompositeSorts

namespace Text

/-- The characters with a meaning in canonical texts. -/
def marks : List Char := ['[', ']', '(', ')', '^', '+', ',', '"']

/-- No mark stands in the text. -/
def Unmarked (text : String) : Prop := ∀ c ∈ text.toList, c ∉ marks

theorem notMem_marks_of_isIdentifierRest {c : Char} (h : isIdentifierRest c = true) :
    c ∉ marks := by
  intro mark
  have others : marks.all fun c ↦ !isIdentifierRest c := by decide +kernel
  simpa [h] using List.all_eq_true.1 others c mark

theorem notMem_marks_of_isIdentifierStart {c : Char} (h : isIdentifierStart c = true) :
    c ∉ marks := by
  apply notMem_marks_of_isIdentifierRest
  unfold isIdentifierStart at h
  unfold isIdentifierRest
  rw [Bool.or_eq_true] at h
  rcases h with letter | underscore
  · rw [letter, Bool.true_or, Bool.true_or]
  · rw [underscore, Bool.or_true]

theorem notMem_marks_of_isDigit {c : Char} (h : c.isDigit = true) : c ∉ marks := by
  intro mark
  have others : marks.all fun c ↦ !c.isDigit := by decide
  simpa [h] using List.all_eq_true.1 others c mark

/-- No mark stands in an identifier. -/
theorem unmarked_of_isIdentifier {text : String} (word : isIdentifier text.toList = true) :
    Unmarked text := by
  intro c inside
  cases letters : text.toList with
  | nil =>
    rw [letters] at inside
    cases inside
  | cons first rest =>
    rw [letters] at inside word
    obtain ⟨start, others⟩ := Bool.and_eq_true_iff.mp word
    rcases List.mem_cons.mp inside with rfl | inside
    · exact notMem_marks_of_isIdentifierStart start
    · exact notMem_marks_of_isIdentifierRest (List.all_eq_true.mp others c inside)

theorem unmarked_ofList {letters : List Char} (h : ∀ c ∈ letters, c ∉ marks) :
    Unmarked (String.ofList letters) := by
  unfold Unmarked
  rw [String.toList_ofList]
  exact h

end Text

open Text

/-- The text of a name or a number is unmarked. -/
def TokenKind.Spelled : TokenKind → Prop
  | .identifier text => Unmarked text
  | .number text => Unmarked text
  | _ => True

namespace Lexeme

theorem spelled_word {first : Char} (start : isIdentifierStart first = true) (behind : List Char)
    {kind : TokenKind} (read : (word first behind).outcome = .ok kind) : kind.Spelled := by
  cases read
  apply unmarked_ofList
  intro c inside
  rcases List.mem_cons.mp inside with rfl | inside
  · exact notMem_marks_of_isIdentifierStart start
  · exact notMem_marks_of_isIdentifierRest (List.mem_takeWhile_imp inside)

theorem spelled_fraction {whole : List Char} (spelled : ∀ c ∈ whole, c ∉ marks) (text : List Char)
    {kind : TokenKind} (read : (fraction whole text).outcome = .ok kind) : kind.Spelled := by
  unfold fraction at read
  split at read
  · dsimp only at read
    split_ifs at read
    cases read
    apply unmarked_ofList
    intro c inside
    rcases List.mem_append.mp inside with inside | inside
    · exact spelled c inside
    · rcases List.mem_cons.mp inside with rfl | inside
      · decide
      · exact notMem_marks_of_isDigit (List.mem_takeWhile_imp inside)
  · cases read
    exact unmarked_ofList spelled

theorem spelled_number {first : Char} (start : (first.isDigit || first = '-') = true)
    (behind : List Char) {kind : TokenKind} (read : (number first behind).outcome = .ok kind) :
    kind.Spelled := by
  unfold number at read
  dsimp only at read
  split_ifs at read
  refine spelled_fraction (fun c inside ↦ ?_) _ read
  rcases List.mem_cons.mp inside with rfl | inside
  · rw [Bool.or_eq_true] at start
    rcases start with digit | minus
    · exact notMem_marks_of_isDigit digit
    · rw [of_decide_eq_true minus]
      decide
  · exact notMem_marks_of_isDigit (List.mem_takeWhile_imp inside)

theorem spelled_ofPunctuation {c : Char} {kind : TokenKind}
    (read : TokenKind.ofPunctuation c = some kind) : kind.Spelled := by
  unfold TokenKind.ofPunctuation at read
  split at read <;> cases read <;> trivial

theorem spelled_ofCharacters {text : List Char} {kind : TokenKind}
    (read : (ofCharacters text).outcome = .ok kind) : kind.Spelled := by
  unfold ofCharacters at read
  split at read
  · cases read
    trivial
  · split at read
    · rename_i punctuation
      cases read
      exact spelled_ofPunctuation punctuation
    · split_ifs at read with quote start letter
      · unfold quotation at read
        dsimp only at read
        split at read
        · cases read
          trivial
        · cases read
      · exact spelled_number start _ read
      · exact spelled_word letter _ read

end Lexeme

/-- All tokens are spelled without marks. -/
def TokenStream.Spelled (s : TokenStream) : Prop :=
  s.current.kind.Spelled ∧ ∀ token ∈ s.behind, token.kind.Spelled

namespace TokenStream

theorem spelled_next {scanner : Scanner} {token : Token} (read : scanner.next.1 = .ok token) :
    token.kind.Spelled := by
  unfold Scanner.next at read
  dsimp only at read
  split at read
  · rename_i outcome
    cases read
    exact Lexeme.spelled_ofCharacters outcome
  · cases read

theorem spelled_scanAll (scanner : Scanner) :
    ∀ token ∈ (scanAll scanner).1, token.kind.Spelled := by
  fun_induction scanAll scanner with
  | case1 => simp
  | case2 => simp
  | case3 scanner token outcome final tokens last eq ih =>
    intro other inside
    rcases List.mem_cons.mp inside with rfl | inside
    · exact spelled_next outcome
    · rw [eq] at ih
      exact ih other inside

theorem spelled_ofTokens {tokens : List Token} {final : Except Problem Position}
    {s : TokenStream} (spelled : ∀ token ∈ tokens, token.kind.Spelled)
    (made : ofTokens tokens final = .ok s) : s.Spelled := by
  unfold ofTokens at made
  split at made
  · cases made
    exact ⟨spelled _ List.mem_cons_self, fun token inside ↦
      spelled token (List.mem_cons_of_mem _ inside)⟩
  · cases final with
    | error problem => cases made
    | ok position =>
      cases made
      exact ⟨trivial, by simp⟩

/-- The tokens of a text are spelled without marks. -/
theorem spelled_ofText {text : String} {s : TokenStream} (read : ofText text = .ok s) :
    s.Spelled := by
  unfold ofText at read
  exact spelled_ofTokens (spelled_scanAll _) read

end TokenStream

end CompositeSorts
