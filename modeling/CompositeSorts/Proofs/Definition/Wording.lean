import CompositeSorts.Definition.Evaluation
import CompositeSorts.Proofs.Definition.Spelling
import CompositeSorts.Proofs.Source.Layout

/-!
The wording of texts. The words and numbers of a text are identifiers and numerals, and the only
problem that the scanner finds is a fault of its own (`TokenStream.worded_ofText`). So no text is
refused because a token was pushed back twice (`Phrase.failsWith`).
-/

set_option autoImplicit false
set_option relaxedAutoImplicit false

namespace CompositeSorts

open Text

/-- A word is an identifier and a number is a numeral. -/
def TokenKind.Written : TokenKind → Prop
  | .identifier name => isIdentifier name.toList = true
  | .number lexeme => IsNumeral lexeme.toList
  | _ => True

theorem TokenKind.written_identifier {letters : List Char} (word : isIdentifier letters = true) :
    (TokenKind.identifier (String.ofList letters)).Written := by
  change isIdentifier (String.ofList letters).toList = true
  rwa [String.toList_ofList]

theorem TokenKind.written_number {letters : List Char} (numeral : IsNumeral letters) :
    (TokenKind.number (String.ofList letters)).Written := by
  change IsNumeral (String.ofList letters).toList
  rwa [String.toList_ofList]

namespace Lexeme

theorem written_word {first : Char} (start : isIdentifierStart first = true) (behind : List Char)
    {kind : TokenKind} (read : (word first behind).outcome = .ok kind) : kind.Written := by
  cases read
  exact TokenKind.written_identifier (Bool.and_eq_true_iff.mpr ⟨start, List.all_takeWhile⟩)

theorem isDigits_takeWhile {letters : List Char} (some : letters.takeWhile Char.isDigit ≠ []) :
    IsDigits (letters.takeWhile Char.isDigit) :=
  ⟨some, fun _ inside ↦ List.mem_takeWhile_imp inside⟩

theorem written_fraction (sign : List Char) {whole : List Char} (isSign : sign = [] ∨ sign = ['-'])
    (digits : IsDigits whole) (text : List Char) {kind : TokenKind}
    (read : (fraction (sign ++ whole) text).outcome = .ok kind) : kind.Written := by
  unfold fraction at read
  split at read
  · rename_i behind
    dsimp only at read
    split_ifs at read with none
    cases read
    refine TokenKind.written_number ⟨sign, whole, _, List.append_assoc _ _ _, isSign, digits,
      .inr ⟨_, rfl, ?_⟩⟩
    exact isDigits_takeWhile (by simpa using none)
  · cases read
    exact TokenKind.written_number ⟨sign, whole, [], by simp, isSign, digits, .inl rfl⟩

theorem written_number {first : Char} (start : (first.isDigit || first = '-') = true)
    (behind : List Char) {kind : TokenKind} (read : (number first behind).outcome = .ok kind) :
    kind.Written := by
  unfold number at read
  dsimp only at read
  split_ifs at read with alone
  rw [Bool.or_eq_true] at start
  by_cases digit : first.isDigit = true
  · refine written_fraction [] (.inl rfl) ⟨by simp, fun c inside ↦ ?_⟩ _ read
    rcases List.mem_cons.mp inside with rfl | inside
    · exact digit
    · exact List.mem_takeWhile_imp inside
  · obtain rfl := of_decide_eq_true (start.resolve_left digit)
    refine written_fraction ['-'] (.inr rfl) (isDigits_takeWhile fun none ↦ ?_) _ read
    exact alone (by rw [none])

theorem written_ofCharacters {text : List Char} {kind : TokenKind}
    (read : (ofCharacters text).outcome = .ok kind) : kind.Written := by
  unfold ofCharacters at read
  split at read
  · cases read
    trivial
  · split at read
    · rename_i punctuation
      cases read
      unfold TokenKind.ofPunctuation at punctuation
      split at punctuation <;> cases punctuation <;> trivial
    · split_ifs at read with quote start letter
      · unfold quotation at read
        dsimp only at read
        split at read
        · cases read
          trivial
        · cases read
      · exact written_number start _ read
      · exact written_word letter _ read

end Lexeme

/-- Words are identifiers, numbers are numerals, and no token is pushed back twice. -/
def Wording.written : Wording :=
  ⟨TokenKind.Written, (· ≠ .pushedTwice), fun _ ↦ True, fun _ other ↦ other⟩

namespace TokenStream

theorem written_next {scanner : Scanner} {token : Token} (read : scanner.next.1 = .ok token) :
    token.kind.Written := by
  unfold Scanner.next at read
  dsimp only at read
  split at read
  · rename_i outcome
    cases read
    exact Lexeme.written_ofCharacters outcome
  · cases read

theorem written_scanAll (scanner : Scanner) :
    (∀ token ∈ (scanAll scanner).1, token.kind.Written) ∧
      ∀ problem, (scanAll scanner).2 = .error problem → problem.cause ≠ .pushedTwice := by
  fun_induction scanAll scanner with
  | case1 scanner fault =>
    refine ⟨by simp, ?_⟩
    rintro _ ⟨⟩
    rintro ⟨⟩
  | case2 => exact ⟨by simp, by rintro _ ⟨⟩⟩
  | case3 scanner token outcome final tokens last eq ih =>
    rw [eq] at ih
    refine ⟨fun other inside ↦ ?_, ih.2⟩
    rcases List.mem_cons.mp inside with rfl | inside
    · exact written_next outcome
    · exact ih.1 other inside

/-- The tokens of a text are identifiers, numerals, quoted texts and signs. -/
theorem worded_ofText (text : String) : Yields .written (ofText text) fun s ↦ s.Worded .written :=
  worded_ofTokens (fun token inside ↦ ⟨(written_scanAll _).1 token inside, trivial⟩)
    ⟨fun problem last ↦ ⟨(written_scanAll _).2 problem last, trivial⟩,
      fun _ _ ↦ ⟨trivial, trivial⟩⟩

end TokenStream

/-! ### The causes of problems -/

/-- What the evaluation is refused for is known. -/
def Evaluation.FailsWith {α : Type} (known : Problem → Prop) (evaluation : Evaluation α) : Prop :=
  ∀ c problem changed, evaluation c = .error (.refused problem) changed → known problem

namespace Evaluation.FailsWith

variable {α β : Type} {known : Problem → Prop}

theorem pure (value : α) : FailsWith known (Pure.pure value) := by
  rintro _ _ _ ⟨⟩

theorem get : FailsWith known (MonadState.get : Evaluation Catalog) := by
  rintro _ _ _ ⟨⟩

theorem throw {reason : Stop Problem}
    (h : ∀ problem, reason = .refused problem → known problem) :
    FailsWith known (MonadExcept.throw reason : Evaluation α) := by
  rintro _ problem _ ⟨⟩
  exact h problem rfl

theorem fail {cause : ProblemCause} {position : Position} (h : known ⟨cause, position⟩) :
    FailsWith known (Evaluation.fail cause position : Evaluation α) := by
  rintro _ problem _ ⟨⟩
  exact h

theorem bind {first : Evaluation α} {next : α → Evaluation β} (h : FailsWith known first)
    (h' : ∀ value, FailsWith known (next value)) : FailsWith known (first >>= next) := by
  intro c problem changed failed
  change EStateM.bind first next c = _ at failed
  unfold EStateM.bind at failed
  cases run : first c with
  | ok value reached =>
    rw [run] at failed
    exact h' value reached problem changed failed
  | error reason reached =>
    rw [run] at failed
    cases failed
    exact h c problem changed run

theorem place {position : Position} (h : ∀ refusal, known ⟨.refused refusal, position⟩)
    (operation : Op α) : FailsWith known (operation.at position) := by
  intro c problem changed failed
  unfold Op.at at failed
  cases run : operation c with
  | ok value reached =>
    rw [run] at failed
    cases failed
  | error reason reached =>
    rw [run] at failed
    cases reason with
    | abandoned => cases failed
    | refused refusal =>
      cases failed
      exact h refusal

variable {w : Wording} {position : Position}

theorem own_at (operation : Op α) (here : w.place position) :
    FailsWith w.Finds (operation.at position) :=
  FailsWith.place (fun _ ↦ ⟨w.own _ nofun, here⟩) operation

theorem lookUp (here : w.place position) (name : String) :
    FailsWith w.Finds (Evaluation.lookUp position name) := by
  refine (own_at _ here).bind fun placeholder ↦ ?_
  cases placeholder with
  | some placeholder => exact pure _
  | none =>
    refine get.bind fun c ↦ ?_
    cases c.sortOf name with
    | some id => exact pure _
    | none => exact fail ⟨w.own _ nofun, here⟩

theorem complete (here : w.place position) (name : String) (body : SortId) :
    FailsWith w.Finds (Evaluation.complete position name body) := by
  refine (own_at _ here).bind fun concluded ↦ ?_
  cases concluded.bind Pending.placeholder with
  | some placeholder =>
    dsimp only
    split_ifs
    · exact (fail ⟨w.own _ nofun, here⟩).bind fun _ ↦
        (own_at _ here).bind fun _ ↦ (own_at _ here).bind fun _ ↦ pure _
    · exact (own_at _ here).bind fun _ ↦ (own_at _ here).bind fun _ ↦ pure _
  | none =>
    refine get.bind fun c ↦ ?_
    cases unboundDisplay c body with
    | some outer => exact fail ⟨w.own _ nofun, here⟩
    | none => exact (own_at _ here).bind fun _ ↦ (own_at _ here).bind fun _ ↦ pure _

end Evaluation.FailsWith

open Evaluation

variable {w : Wording} {categories : CategoryTable}

mutual

/-- A phrase is refused for what its wording knows, where it knows it. -/
theorem Phrase.failsWith (phrase : Phrase) (worded : phrase.Worded w categories) :
    FailsWith w.Finds (phrase.evaluate categories) := by
  match phrase with
  | .reference position name =>
    rw [Phrase.evaluate]
    exact .lookUp worded.1 _
  | .primitive position tag argument =>
    rw [Phrase.evaluate]
    exact .own_at _ worded.1
  | .linked position tag arguments =>
    rw [Phrase.evaluate]
    exact (Phrase.failsWithAll arguments worded.2.2.1).bind fun _ ↦ .own_at _ worded.1
  | .weighted position base weight =>
    rw [Phrase.evaluate]
    exact (Phrase.failsWith base worded.2.1).bind fun _ ↦
      (Phrase.failsWith weight worded.2.2).bind fun _ ↦ .own_at _ worded.1
  | .sum position left right =>
    rw [Phrase.evaluate]
    exact (Phrase.failsWith left worded.2.1).bind fun _ ↦
      (Phrase.failsWith right worded.2.2).bind fun _ ↦ .own_at _ worded.1
  | .definition position name body =>
    rw [Phrase.evaluate]
    exact (FailsWith.own_at _ worded.1).bind fun _ ↦
      (Phrase.failsWith body worded.2.2).bind fun _ ↦ .complete worded.1 _ _
  | .aspects position tag names arguments =>
    rw [Phrase.evaluate]
    exact (Phrase.failsWithAll arguments worded.2.2.2).bind fun _ ↦ .own_at _ worded.1
  | .after earlier last =>
    rw [Phrase.evaluate]
    exact (Phrase.failsWithAll earlier worded.1).bind fun _ ↦ Phrase.failsWith last worded.2.1
  | .stop reason =>
    rw [Phrase.evaluate]
    exact .throw worded

theorem Phrase.failsWithAll (phrases : List Phrase) (worded : AllWorded w categories phrases) :
    FailsWith w.Finds (evaluateAll categories phrases) := by
  match phrases with
  | [] =>
    rw [Phrase.evaluateAll]
    exact .pure _
  | phrase :: phrases =>
    rw [Phrase.evaluateAll]
    exact (Phrase.failsWith phrase worded.1).bind fun _ ↦
      (Phrase.failsWithAll phrases worded.2).bind fun _ ↦ .pure _

end

end CompositeSorts
