import CompositeSorts.Proofs.Source.Layout
import CompositeSorts.Proofs.Source.Lookahead
import Mathlib.Data.List.DropRight

/-!
What scanning makes of a text, whatever text it is. Nothing is lost: the text is the written tokens,
with nothing but blanks and comments in front, between and behind, up to its end or up to a lexeme
that has a fault (`Scans`). Each token, and the fault, has the place of the first character of its
lexeme (`Position.behind`), and a word or a number goes on as far as it can (`TokenKind.Whole`).
Every text is scanned like this (`scans_scanAll`).
-/

set_option autoImplicit false
set_option relaxedAutoImplicit false

namespace CompositeSorts

open Text

/-! ### Places -/

/-- The place behind the letters that a text begins with: one line further for each line feed, and
one column further for each letter behind the last line feed. -/
def Position.behind (letters : List Char) : Position :=
  ⟨letters.count '\n' + 1, (letters.rtakeWhile (· ≠ '\n')).length + 1⟩

theorem Position.start_after (letters : List Char) :
    Position.start.after letters = .behind letters := by
  induction letters using List.reverseRecOn with
  | nil => rfl
  | append_singleton letters c ih =>
    rw [after_append, ih, after_cons, after_nil]
    unfold next behind
    split_ifs with feed
    · subst feed
      simp [List.rtakeWhile_concat_neg]
    · simp [feed, List.rtakeWhile_concat_pos]

theorem Position.behind_after (before letters : List Char) :
    (Position.behind before).after letters = .behind (before ++ letters) := by
  rw [← start_after, ← start_after, after_append]

/-! ### What a text is scanned into -/

/-- What comes behind a word or a number does not go on with it: a word ends in front of a
character that is no letter, numeral or underscore; a number in front of one that is no digit, and
no point unless the number has one. -/
def TokenKind.Whole : TokenKind → List Char → Prop
  | identifier _, text => ∀ c ∈ text.head?, isIdentifierRest c = false
  | number lexeme, text => ∀ c ∈ text.head?, c.isDigit = false ∧ (c = '.' → '.' ∈ lexeme.toList)
  | _, _ => True

/-- The text begins with a lexeme that has the fault: a minus sign without a digit behind it, a
number with a point and no digit behind it, a quotation that is not closed, or a character that
begins no lexeme. -/
inductive LexicalFault.Spoils : LexicalFault → List Char → Prop where
  | missingDigits {text : List Char} (noDigit : ∀ c ∈ text.head?, c.isDigit = false) :
    Spoils .missingDigits ('-' :: text)
  | missingFraction {whole text : List Char} (numeral : IsNumeral whole) (noPoint : '.' ∉ whole)
    (noDigit : ∀ c ∈ text.head?, c.isDigit = false) :
    Spoils .missingFraction (whole ++ '.' :: text)
  | unclosedQuote {text : List Char} (noEnd : ∀ meant written rest, Quotes meant written →
    text ≠ written ++ '"' :: rest) : Spoils .unclosedQuote ('"' :: text)
  | strayCharacter {c : Char} {text : List Char} (noSign : TokenKind.ofPunctuation c = none)
    (noNumber : c.isDigit = false ∧ c ≠ '-') (noQuote : c ≠ '"')
    (noWord : isIdentifierStart c = false) (noBlank : isBlank c = false)
    (noComment : ¬ ∃ comment rest, Comment comment ∧ c :: text = comment ++ rest) :
    Spoils (.strayCharacter c) (c :: text)

/-- The text, which stands behind the letters `before`, consists of the tokens, with blanks and
comments between them, and of what comes last: blanks and comments up to the end of the text, where
a comment need not end with its line, or a lexeme that has a fault. Everything has its place. -/
inductive Scans : (before text : List Char) → List Token → Except Problem Position → Prop where
  | ends {before trivia : List Char} (isTrivia : Trivia trivia) :
    Scans before trivia [] (.ok (.behind (before ++ trivia)))
  | comment {before trivia comment : List Char} (isTrivia : Trivia trivia)
    (isComment : Comment comment) :
    Scans before (trivia ++ comment) [] (.ok (.behind (before ++ (trivia ++ comment))))
  | fault {before trivia text : List Char} {fault : LexicalFault} (isTrivia : Trivia trivia)
    (spoils : fault.Spoils text) :
    Scans before (trivia ++ text) [] (.error ⟨.lexical fault, .behind (before ++ trivia)⟩)
  | token {before trivia letters text : List Char} {kind : TokenKind} {tokens : List Token}
    {final : Except Problem Position} (isTrivia : Trivia trivia) (writes : kind.Writes letters)
    (whole : kind.Whole text) (rest : Scans (before ++ trivia ++ letters) text tokens final) :
    Scans before (trivia ++ (letters ++ text)) (⟨kind, .behind (before ++ trivia)⟩ :: tokens) final

/-! ### Blanks and comments -/

/-- The text begins with no blank and no comment. -/
def StartsPlain (text : List Char) : Prop :=
  (∀ c ∈ text.head?, isBlank c = false) ∧
    ¬ ∃ comment rest, Comment comment ∧ text = comment ++ rest

/-- What was split off is blanks and comments: all there were, or all of the text, and it ends
inside of a comment. -/
def Skipped (split : List Char × List Char) : Prop :=
  Trivia split.1 ∧ StartsPlain split.2 ∨ split.2 = [] ∧
    ∃ trivia comment, Trivia trivia ∧ Comment comment ∧ split.1 = trivia ++ comment

/-- Inside of a comment its line is split off first, and then what is split off behind it, if the
line has an end. -/
def SkippedLine (split : List Char × List Char) : Prop :=
  ∃ line, '\n' ∉ line ∧ (split = (line, []) ∨
    ∃ trivia rest, split = (line ++ '\n' :: trivia, rest) ∧ Skipped (trivia, rest))

theorem Skipped.blank {c : Char} {trivia rest : List Char} (blank : isBlank c = true)
    (skipped : Skipped (trivia, rest)) : Skipped (c :: trivia, rest) := by
  rcases skipped with ⟨isTrivia, bare⟩ | ⟨atEnd, front, comment, isTrivia, isComment, rfl⟩
  · exact Or.inl ⟨isTrivia.blank blank, bare⟩
  · exact Or.inr ⟨atEnd, c :: front, comment, isTrivia.blank blank, isComment, rfl⟩

theorem SkippedLine.of_cons {c : Char} {trivia rest : List Char} (notEnd : c ≠ '\n')
    (skipped : SkippedLine (c :: trivia, rest)) : SkippedLine (trivia, rest) := by
  obtain ⟨line, oneLine, same | ⟨front, behind, same, skipped⟩⟩ := skipped
  · obtain ⟨rfl, rfl⟩ := Prod.mk.inj same
    exact ⟨trivia, List.not_mem_of_not_mem_cons oneLine, Or.inl rfl⟩
  · obtain ⟨letters, rfl⟩ := Prod.mk.inj same
    cases line with
    | nil => exact absurd (List.cons.inj letters).1 notEnd
    | cons d line =>
      obtain ⟨rfl, rfl⟩ := List.cons.inj letters
      exact ⟨line, List.not_mem_of_not_mem_cons oneLine, Or.inr ⟨front, rest, rfl, skipped⟩⟩

/-- What opens a comment makes one of the line behind it. -/
theorem SkippedLine.opened {trivia rest : List Char} (skipped : SkippedLine (trivia, rest))
    (opening : List Char)
    (isComment : ∀ line, '\n' ∉ line → Comment (opening ++ line)) :
    Skipped (opening ++ trivia, rest) := by
  obtain ⟨line, oneLine, same | ⟨front, behind, same, skipped⟩⟩ := skipped
  · obtain ⟨rfl, rfl⟩ := Prod.mk.inj same
    exact Or.inr ⟨rfl, [], opening ++ trivia, .nil, isComment _ oneLine, rfl⟩
  · obtain ⟨rfl, rfl⟩ := Prod.mk.inj same
    have isComment := isComment _ oneLine
    rw [← List.append_assoc]
    rcases skipped with ⟨isTrivia, bare⟩ | ⟨atEnd, inner, last, isTrivia, isLast, rfl⟩
    · exact Or.inl ⟨isTrivia.comment isComment, bare⟩
    · exact Or.inr ⟨atEnd, opening ++ line ++ '\n' :: inner, last, isTrivia.comment isComment,
        isLast, by simp⟩

theorem startsPlain_cons {c : Char} {rest : List Char} (noBlank : ¬ isBlank c = true)
    (noComment : ¬ (c = '#' ∨ c = '/' ∧ rest.head? = some '/')) : StartsPlain (c :: rest) := by
  refine ⟨?_, ?_⟩
  · rintro _ ⟨⟩
    simpa using noBlank
  · rintro ⟨comment, behind, isComment, same⟩
    cases isComment with
    | hash _ => exact noComment (Or.inl (List.cons.inj same).1)
    | slashes _ =>
      obtain ⟨rfl, rfl⟩ := List.cons.inj same
      exact noComment (Or.inr ⟨rfl, rfl⟩)

theorem SkippedLine.cons {c : Char} {trivia rest : List Char} (notEnd : c ≠ '\n')
    (skipped : SkippedLine (trivia, rest)) : SkippedLine (c :: trivia, rest) := by
  obtain ⟨line, oneLine, ends⟩ := skipped
  refine ⟨c :: line, List.mem_cons.not.mpr (not_or.mpr ⟨notEnd.symm, oneLine⟩), ?_⟩
  rcases ends with same | ⟨front, behind, same, skipped⟩ <;> obtain ⟨rfl, rfl⟩ := Prod.mk.inj same
  · exact Or.inl rfl
  · exact Or.inr ⟨front, _, rfl, skipped⟩

/-- Blanks and comments are what is split off, and inside of a comment also the rest of its line. -/
theorem skipped_splitTrivia (text : List Char) :
    Skipped (splitTrivia false text) ∧ SkippedLine (splitTrivia true text) := by
  induction text with
  | nil =>
    refine ⟨Or.inl ⟨.nil, by rintro _ ⟨⟩, ?_⟩, [], List.not_mem_nil, Or.inl rfl⟩
    rintro ⟨comment, rest, isComment, same⟩
    cases isComment <;> cases same
  | cons c rest ih =>
    obtain ⟨outside, inside⟩ := ih
    constructor
    · rw [splitTrivia]
      split_ifs with blank comment
      · exact outside.blank blank
      · rcases comment with rfl | ⟨rfl, slash⟩
        · exact inside.opened ['#'] fun _ ↦ .hash
        · obtain ⟨rest, rfl⟩ : ∃ behind, rest = '/' :: behind := List.head?_eq_some_iff.mp slash
          rw [splitTrivia, decide_eq_true (by decide)] at inside ⊢
          exact (inside.of_cons (by decide)).opened ['/', '/'] fun _ ↦ .slashes
      · exact Or.inl ⟨.nil, startsPlain_cons blank comment⟩
    · rw [splitTrivia]
      by_cases feed : c = '\n'
      · rw [decide_eq_false (by simpa using feed), feed]
        exact ⟨[], List.not_mem_nil, Or.inr ⟨_, _, rfl, outside⟩⟩
      · rw [decide_eq_true feed]
        exact inside.cons feed

/-! ### Lexemes -/

/-- What was cut off a text is a way to write the token, and goes on as far as it can; or the text
begins with the fault. -/
def Lexeme.Sound (lexeme : Lexeme) (text : List Char) : Prop :=
  match lexeme.outcome with
  | .ok kind => kind.Writes lexeme.consumed ∧ kind.Whole lexeme.rest
  | .error fault => fault.Spoils text

theorem head?_dropWhile {p : Char → Bool} {text : List Char} :
    ∀ c ∈ (text.dropWhile p).head?, p c = false := by
  intro c inside
  have stops := List.head?_dropWhile_not p text
  rw [Option.mem_def.mp inside] at stops
  exact stops

theorem head?_of_takeWhile_eq_nil {p : Char → Bool} {text : List Char}
    (none : text.takeWhile p = []) : ∀ c ∈ text.head?, p c = false := by
  have whole : text.takeWhile p ++ text.dropWhile p = text := List.takeWhile_append_dropWhile
  rw [none, List.nil_append] at whole
  rw [← whole]
  exact head?_dropWhile

namespace Lexeme

theorem writes_identifier {letters : List Char} (isWord : isIdentifier letters = true) :
    (TokenKind.identifier (String.ofList letters)).Writes letters := by
  have same : (String.ofList letters).toList = letters := String.toList_ofList
  have writes := TokenKind.Writes.identifier (same.symm ▸ isWord)
  rwa [same] at writes

theorem writes_number {letters : List Char} (numeral : IsNumeral letters) :
    (TokenKind.number (String.ofList letters)).Writes letters := by
  have same : (String.ofList letters).toList = letters := String.toList_ofList
  have writes := TokenKind.Writes.number (same.symm ▸ numeral)
  rwa [same] at writes

theorem sound_word {first : Char} (start : isIdentifierStart first = true) (behind : List Char) :
    (word first behind).Sound (first :: behind) := by
  refine ⟨writes_identifier ?_, head?_dropWhile⟩
  rw [isIdentifier, start, List.all_takeWhile]
  rfl

/-- A number without a point, and the fraction behind it. -/
theorem isNumeral_append {whole digits : List Char} (numeral : IsNumeral whole)
    (noPoint : '.' ∉ whole) (some : IsDigits digits) : IsNumeral (whole ++ '.' :: digits) := by
  obtain ⟨sign, units, fraction, rfl, isSign, isWhole, rfl | ⟨_, rfl, -⟩⟩ := numeral
  · rw [List.append_nil, List.append_assoc]
    exact ⟨sign, units, _, rfl, isSign, isWhole, Or.inr ⟨digits, rfl, some⟩⟩
  · exact absurd (by simp) noPoint

theorem sound_fraction {whole text : List Char} (numeral : IsNumeral whole) (noPoint : '.' ∉ whole)
    (noDigit : ∀ c ∈ text.head?, c.isDigit = false) :
    (fraction whole text).Sound (whole ++ text) := by
  unfold fraction
  split
  · rename_i behind
    by_cases none : behind.takeWhile Char.isDigit = []
    · simp only [none, List.isEmpty_nil, if_true]
      exact .missingFraction numeral noPoint (head?_of_takeWhile_eq_nil none)
    · have digits : IsDigits (behind.takeWhile Char.isDigit) :=
        ⟨none, fun _ ↦ List.mem_takeWhile_imp⟩
      simp only [List.isEmpty_eq_false_iff.mpr none, Bool.false_eq_true, if_false]
      refine ⟨writes_number (isNumeral_append numeral noPoint digits), fun c inside ↦
        ⟨head?_dropWhile c inside, fun _ ↦ ?_⟩⟩
      rw [String.toList_ofList]
      exact List.mem_append_right _ List.mem_cons_self
  · rename_i noPoint
    refine ⟨writes_number numeral, fun c inside ↦ ⟨noDigit c inside, ?_⟩⟩
    rintro rfl
    obtain ⟨behind, rfl⟩ := List.head?_eq_some_iff.mp inside
    exact absurd rfl (noPoint behind)

theorem sound_number {first : Char} (starts : first.isDigit = true ∨ first = '-')
    (behind : List Char) : (number first behind).Sound (first :: behind) := by
  have digits : ∀ c ∈ behind.takeWhile Char.isDigit, c.isDigit = true :=
    fun _ ↦ List.mem_takeWhile_imp
  simp only [number]
  split_ifs with alone
  · obtain ⟨rfl, none⟩ := List.cons.inj alone
    exact .missingDigits (head?_of_takeWhile_eq_nil none)
  · have numeral : IsNumeral (first :: behind.takeWhile Char.isDigit) := by
      rcases starts with digit | rfl
      · exact ⟨[], _, [], (List.append_nil _).symm, Or.inl rfl,
          ⟨List.cons_ne_nil _ _, List.forall_mem_cons.mpr ⟨digit, digits⟩⟩, Or.inl rfl⟩
      · exact ⟨['-'], _, [], congrArg _ (List.append_nil _).symm, Or.inr rfl,
          ⟨fun none ↦ alone (congrArg _ none), digits⟩, Or.inl rfl⟩
    have noPoint : '.' ∉ first :: behind.takeWhile Char.isDigit := by
      refine List.mem_cons.not.mpr (not_or.mpr ⟨?_, fun inside ↦ ?_⟩)
      · rintro rfl
        rcases starts with digit | minus
        · cases digit
        · cases minus
      · cases digits _ inside
    have sound : (fraction _ (behind.dropWhile Char.isDigit)).Sound _ :=
      sound_fraction numeral noPoint head?_dropWhile
    rwa [List.cons_append, List.takeWhile_append_dropWhile] at sound

theorem quotes_escaped {text written : List Char} (c : Char) (behind : Quotes text written) :
    Quotes ((if c = '"' ∨ c = '\\' then [c] else if c = 'n' then ['\n'] else ['\\', c]) ++ text)
      ('\\' :: c :: written) := by
  split_ifs with isMark newline
  · exact .mark isMark behind
  · exact newline ▸ .newline behind
  · exact .backslash (by simp_all) behind

/-- What stands in front of the closing quote means the text that is read. -/
theorem quotes_of_quotedBody {text : List Char} :
    ∀ meant ∈ (quotedBody text).1, ∃ written, (quotedBody text).2.1 = written ++ ['"'] ∧
      Quotes meant written := by
  fun_induction quotedBody text with
  | case1 => rintro _ ⟨⟩
  | case2 => rintro _ ⟨⟩; exact ⟨[], rfl, .nil⟩
  | case3 => rintro _ ⟨⟩
  | case4 c rest inner consumed left read meant ih =>
    intro whole found
    obtain ⟨text, rfl, rfl⟩ := Option.map_eq_some_iff.mp found
    rw [read] at ih
    obtain ⟨written, rfl, quotes⟩ := ih text rfl
    exact ⟨'\\' :: c :: written, rfl, quotes_escaped c quotes⟩
  | case5 c rest noQuote notLast notEscaped inner consumed left read ih =>
    intro whole found
    obtain ⟨text, rfl, rfl⟩ := Option.map_eq_some_iff.mp found
    rw [read] at ih
    obtain ⟨written, rfl, quotes⟩ := ih text rfl
    refine ⟨c :: written, rfl, .plain noQuote ?_ quotes⟩
    rintro rfl
    cases rest with
    | nil => exact notLast rfl rfl
    | cons d rest => exact notEscaped d rest rfl rfl

theorem sound_quotation (behind : List Char) : (quotation behind).Sound ('"' :: behind) := by
  have quotes := @quotes_of_quotedBody behind
  unfold quotation
  cases read : quotedBody behind with
  | mk text split =>
    rw [read] at quotes
    cases text with
    | none =>
      refine .unclosedQuote fun meant written rest quotes same ↦ ?_
      rw [same, quotedBody_exact quotes] at read
      cases read
    | some text =>
      obtain ⟨written, same, quotes⟩ := quotes text rfl
      refine ⟨?_, trivial⟩
      dsimp only at same ⊢
      rw [same]
      refine .quoted ?_
      rwa [String.toList_ofList]

/-- A lexeme is cut off soundly. -/
theorem sound_ofCharacters {c : Char} {text : List Char} (bare : StartsPlain (c :: text)) :
    (ofCharacters (c :: text)).Sound (c :: text) := by
  rw [ofCharacters]
  cases sign : TokenKind.ofPunctuation c with
  | some kind => 
    refine ⟨.punctuation sign, ?_⟩
    unfold TokenKind.ofPunctuation at sign
    split at sign <;> cases sign <;> trivial
  | none =>
    dsimp only
    split_ifs with quote numeral start
    · rw [quote]
      exact sound_quotation text
    · exact sound_number (by simpa using numeral) text
    · exact sound_word start text
    · refine .strayCharacter sign ?_ quote (by simpa using start) (bare.1 c rfl) bare.2
      simpa using numeral

end Lexeme

/-! ### Texts -/

namespace TokenStream

/-- One step of a scanner behind the letters `before`: only blanks and comments are left, or the
first token or fault stands behind some. -/
theorem next_cases {scanner : Scanner} {before : List Char}
    (position : scanner.position = .behind before) :
    ((Trivia scanner.rest ∨ ∃ trivia comment, Trivia trivia ∧ Comment comment ∧
        scanner.rest = trivia ++ comment) ∧
      scanner.next.1 = .ok ⟨.endOfInput, .behind (before ++ scanner.rest)⟩) ∨
    (∃ trivia letters text kind, scanner.rest = trivia ++ (letters ++ text) ∧ Trivia trivia ∧
      kind.Writes letters ∧ kind.Whole text ∧
      scanner.next = (.ok ⟨kind, .behind (before ++ trivia)⟩,
        ⟨text, .behind (before ++ trivia ++ letters)⟩)) ∨
    ∃ trivia text fault, scanner.rest = trivia ++ text ∧ Trivia trivia ∧
      LexicalFault.Spoils fault text ∧
      scanner.next.1 = .error (fault, .behind (before ++ trivia)) := by
  have whole := splitTrivia_append false scanner.rest
  have skipped := (skipped_splitTrivia scanner.rest).1
  have place (letters : List Char) : scanner.position.after letters = .behind (before ++ letters) :=
    position ▸ Position.behind_after before letters
  unfold Scanner.next
  generalize splitTrivia false scanner.rest = split at whole skipped
  obtain ⟨trivia, text⟩ := split
  rw [← whole]
  dsimp only [Skipped] at skipped ⊢
  rw [place]
  cases text with
  | nil =>
    rw [List.append_nil]
    refine Or.inl ⟨?_, rfl⟩
    rcases skipped with ⟨isTrivia, -⟩ | ⟨-, partial_⟩
    · exact Or.inl isTrivia
    · exact Or.inr partial_
  | cons c text =>
    obtain ⟨isTrivia, bare⟩ := skipped.resolve_right fun atEnd ↦ List.cons_ne_nil _ _ atEnd.1
    have sound := Lexeme.sound_ofCharacters bare
    have cut := Lexeme.consumed_append (c :: text)
    generalize Lexeme.ofCharacters (c :: text) = lexeme at sound cut
    obtain ⟨outcome, letters, rest⟩ := lexeme
    rw [← cut, Position.behind_after]
    cases outcome with
    | error fault => exact Or.inr (Or.inr ⟨trivia, _, fault, rfl, isTrivia, cut ▸ sound, rfl⟩)
    | ok kind =>
      exact Or.inr (Or.inl ⟨trivia, letters, rest, kind, rfl, isTrivia, sound.1, sound.2, rfl⟩)

/-- Behind the letters `before`, a scanner reads the text in front of it and gives everything its
place. -/
theorem scans_of_position (scanner : Scanner) {before : List Char}
    (position : scanner.position = .behind before) :
    Scans before scanner.rest (scanAll scanner).1 (scanAll scanner).2 := by
  induction size : scanner.rest.length using Nat.strongRecOn generalizing scanner before with
  | ind size ih =>
    rcases next_cases position with ⟨isTrivia, next⟩ |
      ⟨trivia, letters, text, kind, whole, isTrivia, writes, ends, next⟩ |
      ⟨trivia, text, fault, whole, isTrivia, spoils, next⟩
    · rw [scanAll_of_ok (Prod.ext next rfl), Token.before, if_pos rfl]
      rcases isTrivia with isTrivia | ⟨trivia, comment, isTrivia, isComment, whole⟩
      · exact .ends isTrivia
      · rw [whole]
        exact .comment isTrivia isComment
    · have fewer := Scanner.next_rest_length_lt (congrArg Prod.fst next) writes.ne_endOfInput
      rw [next, size] at fewer
      have behind := ih text.length fewer ⟨text, .behind (before ++ trivia ++ letters)⟩
        (Eq.refl (Position.behind (before ++ trivia ++ letters))) rfl
      rw [scanAll_of_ok next, Token.before, if_neg writes.ne_endOfInput, whole]
      exact .token isTrivia writes ends behind
    · rw [scanAll_of_error (Prod.ext next rfl), whole]
      exact .fault isTrivia spoils

/-- Every text is the written tokens that it is scanned into, with blanks and comments in front,
between and behind, up to the end or up to the first lexeme that has a fault. -/
theorem scans_scanAll (text : String) :
    Scans [] text.toList (scanAll (.ofText text)).1 (scanAll (.ofText text)).2 :=
  scans_of_position (.ofText text) rfl

end TokenStream

end CompositeSorts
