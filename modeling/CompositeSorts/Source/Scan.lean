import CompositeSorts.Source.Token
import CompositeSorts.Text.CodeRange
import CompositeSorts.Text.Quoted

/-!
Scanning tokens. Blanks and comments (from `#` or `//` to the end of the line) separate tokens.
A lexeme is cut off the front of the text by one of three scanners, for words, numbers and quoted
texts, or is a single character. A scanner that fails has consumed what it looked through: the
sign of a number without digits, all of a text whose closing quote is missing.

Main definitions: `splitTrivia`, `Lexeme.ofCharacters`, `Scanner.next`. Main statement:
`Lexeme.consumed_append`: the consumed characters and the rest make up the text.
-/

set_option autoImplicit false
set_option relaxedAutoImplicit false

namespace CompositeSorts

/-- Why no token could be cut off. -/
inductive LexicalFault where
  | missingDigits
  | missingFraction
  | unclosedQuote
  | strayCharacter (c : Char)
deriving DecidableEq, Repr

/-- What a scanner made of the front of a text: the token or the fault, the characters it
consumed and those it left. -/
structure Lexeme where
  outcome : Except LexicalFault TokenKind
  consumed : List Char
  rest : List Char

namespace Lexeme

/-- A word: its first letter, and letters, numerals and underscores as far as they go. -/
def word (first : Char) (behind : List Char) : Lexeme :=
  let name := first :: behind.takeWhile Text.isIdentifierRest
  ⟨.ok (.identifier (String.ofList name)), name, behind.dropWhile Text.isIdentifierRest⟩

/-- The fraction behind the decimal point of `whole`, or nothing when no point follows. -/
def fraction (whole text : List Char) : Lexeme :=
  match text with
  | '.' :: behind =>
    let digits := behind.takeWhile Char.isDigit
    let consumed := whole ++ '.' :: digits
    let outcome := if digits.isEmpty then .error .missingFraction
      else .ok (.number (String.ofList consumed))
    ⟨outcome, consumed, behind.dropWhile Char.isDigit⟩
  | _ => ⟨.ok (.number (String.ofList whole)), whole, text⟩

/-- A number: a digit or a minus sign, further digits, and an optional fraction. A minus sign has
to have digits behind it. -/
def number (first : Char) (behind : List Char) : Lexeme :=
  let whole := first :: behind.takeWhile Char.isDigit
  let left := behind.dropWhile Char.isDigit
  if whole = ['-'] then ⟨.error .missingDigits, whole, left⟩ else fraction whole left

/-- What stands between the quotes and behind them: the text with its escapes undone, or nothing
when the closing quote is missing; the consumed characters; the rest. `\"`, `\\` and `\n` are
escapes, any other backslash stands for itself. -/
def quotedBody : List Char → Option (List Char) × List Char × List Char
  | [] => (none, [], [])
  | '"' :: rest => (some [], ['"'], rest)
  | ['\\'] => (none, ['\\'], [])
  | '\\' :: c :: rest =>
    let (text, consumed, left) := quotedBody rest
    let meant := if c = '"' ∨ c = '\\' then [c] else if c = 'n' then ['\n'] else ['\\', c]
    (text.map (meant ++ ·), '\\' :: c :: consumed, left)
  | c :: rest =>
    let (text, consumed, left) := quotedBody rest
    (text.map (c :: ·), c :: consumed, left)

/-- A text in double quotes, given what stands behind the opening quote. -/
def quotation (behind : List Char) : Lexeme :=
  let (text, consumed, rest) := quotedBody behind
  let outcome := match text with
    | some text => .ok (.quoted (String.ofList text))
    | none => .error .unclosedQuote
  ⟨outcome, '"' :: consumed, rest⟩

/-- Cuts one lexeme off a text that starts with no blank and no comment. -/
def ofCharacters (text : List Char) : Lexeme :=
  match text with
  | [] => ⟨.ok .endOfInput, [], []⟩
  | c :: rest =>
    match TokenKind.ofPunctuation c with
    | some kind => ⟨.ok kind, [c], rest⟩
    | none =>
      if c = '"' then quotation rest
      else if c.isDigit || c = '-' then number c rest
      else if Text.isIdentifierStart c then word c rest
      else ⟨.error (.strayCharacter c), [], text⟩

end Lexeme

/-! ### Blanks and comments -/

/-- Splits off the blanks and comments in front. The flag says that the text starts inside a
comment. -/
def splitTrivia : (inComment : Bool) → List Char → List Char × List Char
  | _, [] => ([], [])
  | true, c :: rest =>
    let (trivia, left) := splitTrivia (c ≠ '\n') rest
    (c :: trivia, left)
  | false, c :: rest =>
    if Text.isBlank c then
      let (trivia, left) := splitTrivia false rest
      (c :: trivia, left)
    else if c = '#' ∨ (c = '/' ∧ rest.head? = some '/') then
      let (trivia, left) := splitTrivia true rest
      (c :: trivia, left)
    else ([], c :: rest)

/-! ### The scanner -/

/-- A scanner: the text that is left and the place where it starts. -/
structure Scanner where
  rest : List Char
  position : Position
deriving Repr

namespace Scanner

/-- The scanner in front of a whole text. -/
def ofText (text : String) : Scanner := ⟨text.toList, .start⟩

/-- The next token, or the fault and the place of the lexeme that has it; and the scanner behind
what was consumed. -/
def next (s : Scanner) : Except (LexicalFault × Position) Token × Scanner :=
  let (trivia, text) := splitTrivia false s.rest
  let position := s.position.after trivia
  let lexeme := Lexeme.ofCharacters text
  let behind : Scanner := ⟨lexeme.rest, position.after lexeme.consumed⟩
  match lexeme.outcome with
  | .ok kind => (.ok ⟨kind, position⟩, behind)
  | .error fault => (.error (fault, position), behind)

end Scanner

/-! ### Nothing is lost -/

theorem splitTrivia_append (inComment : Bool) (text : List Char) :
    (splitTrivia inComment text).1 ++ (splitTrivia inComment text).2 = text := by
  fun_induction splitTrivia inComment text <;> simp_all

theorem Lexeme.quotedBody_append (text : List Char) :
    (quotedBody text).2.1 ++ (quotedBody text).2.2 = text := by
  fun_induction quotedBody text <;> simp_all

theorem Lexeme.fraction_append (whole text : List Char) :
    (fraction whole text).consumed ++ (fraction whole text).rest = whole ++ text := by
  unfold fraction
  split <;> simp

theorem Lexeme.number_append (first : Char) (behind : List Char) :
    (number first behind).consumed ++ (number first behind).rest = first :: behind := by
  simp only [number]
  split
  · simp
  · rw [fraction_append, List.cons_append, List.takeWhile_append_dropWhile]

/-- The consumed characters and the rest make up the text. -/
theorem Lexeme.consumed_append (text : List Char) :
    (ofCharacters text).consumed ++ (ofCharacters text).rest = text := by
  unfold ofCharacters
  split
  · rfl
  · rename_i c rest
    split
    · rfl
    · split
      · rename_i quote
        subst quote
        simpa [quotation] using quotedBody_append rest
      · split
        · exact number_append c rest
        · split
          · simp [word]
          · rfl

/-! ### Progress -/

theorem Lexeme.fraction_consumed_ne_nil {whole : List Char} (h : whole ≠ []) (text : List Char) :
    (fraction whole text).consumed ≠ [] := by
  unfold fraction
  split <;> simp [h]

/-- A token that is not the end of the input consumes a character. -/
theorem Lexeme.consumed_ne_nil {text : List Char} {kind : TokenKind}
    (h : (ofCharacters text).outcome = .ok kind) (proper : kind ≠ .endOfInput) :
    (ofCharacters text).consumed ≠ [] := by
  unfold ofCharacters at h ⊢
  split
  · simp_all
  · rename_i c rest
    split
    · simp
    · split
      · simp [quotation]
      · split
        · simp only [number]
          split
          · simp
          · exact fraction_consumed_ne_nil (by simp) _
        · split
          · simp [word]
          · simp_all

theorem Scanner.next_rest_length_le (s : Scanner) : s.next.2.rest.length ≤ s.rest.length := by
  have trivia := congrArg List.length (splitTrivia_append false s.rest)
  have lexeme := congrArg List.length (Lexeme.consumed_append (splitTrivia false s.rest).2)
  simp only [List.length_append] at trivia lexeme
  unfold next
  simp only
  split <;> simp only <;> omega

/-- A token that is not the end of the input leaves less than there was. -/
theorem Scanner.next_rest_length_lt {s : Scanner} {token : Token} (h : s.next.1 = .ok token)
    (proper : token.kind ≠ .endOfInput) : s.next.2.rest.length < s.rest.length := by
  have trivia := congrArg List.length (splitTrivia_append false s.rest)
  have lexeme := congrArg List.length (Lexeme.consumed_append (splitTrivia false s.rest).2)
  simp only [List.length_append] at trivia lexeme
  unfold next at h ⊢
  simp only at h ⊢
  split at h
  · rename_i kind outcome
    simp only [Except.ok.injEq] at h
    subst h
    have progress := List.length_pos_iff.2 (Lexeme.consumed_ne_nil outcome proper)
    simp only
    omega
  · simp at h

end CompositeSorts
