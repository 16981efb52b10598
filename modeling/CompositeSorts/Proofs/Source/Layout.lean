import CompositeSorts.Source.TokenStream
import Mathlib.Data.List.Chain
import Mathlib.Data.List.TakeWhile
import Mathlib.Tactic.Common

/-!
Laying out tokens. A text lays out tokens when it consists of a way to write each of them, one after
the other, with any blanks and comments in front, between and behind. Every such text is scanned
into these tokens and nothing else (`offers_ofText`), if no two words or numbers come one after the
other; those would have to be kept apart.

What the ways to write a token are is said without the scanner: `IsNumeral`, `Quotes`,
`TokenKind.Writes`, and `Trivia` for blanks and comments.
-/

set_option autoImplicit false
set_option relaxedAutoImplicit false

namespace CompositeSorts

open Text

/-! ### Ways to write tokens -/

/-- One digit or more. -/
def IsDigits (letters : List Char) : Prop := letters ≠ [] ∧ ∀ c ∈ letters, c.isDigit = true

/-- A number: digits, perhaps with a minus sign in front, and with a point and digits behind. -/
def IsNumeral (letters : List Char) : Prop :=
  ∃ sign whole fraction, letters = sign ++ (whole ++ fraction) ∧ (sign = [] ∨ sign = ['-']) ∧
    IsDigits whole ∧ (fraction = [] ∨ ∃ digits, fraction = '.' :: digits ∧ IsDigits digits)

/-- How a text is written between double quotes. A quote or a backslash can stand behind a
backslash, and a new line can be written `\n`; any other backslash stands for itself. -/
inductive Quotes : (text written : List Char) → Prop where
  | nil : Quotes [] []
  | plain {c : Char} {text written : List Char} (noQuote : c ≠ '"') (noBackslash : c ≠ '\\')
    (behind : Quotes text written) : Quotes (c :: text) (c :: written)
  | mark {c : Char} {text written : List Char} (isMark : c = '"' ∨ c = '\\')
    (behind : Quotes text written) : Quotes (c :: text) ('\\' :: c :: written)
  | newline {text written : List Char} (behind : Quotes text written) :
    Quotes ('\n' :: text) ('\\' :: 'n' :: written)
  | backslash {c : Char} {text written : List Char} (plain : c ∉ ['"', '\\', 'n'])
    (behind : Quotes text written) : Quotes ('\\' :: c :: text) ('\\' :: c :: written)

/-- The letters are a way to write the token. -/
inductive TokenKind.Writes : TokenKind → List Char → Prop where
  | identifier {name : String} (word : isIdentifier name.toList = true) :
    Writes (.identifier name) name.toList
  | number {lexeme : String} (numeral : IsNumeral lexeme.toList) :
    Writes (.number lexeme) lexeme.toList
  | quoted {text : String} {written : List Char} (quotes : Quotes text.toList written) :
    Writes (.quoted text) ('"' :: (written ++ ['"']))
  | punctuation {kind : TokenKind} {c : Char} (sign : TokenKind.ofPunctuation c = some kind) :
    Writes kind [c]

/-- A comment, without the end of its line. -/
inductive Comment : List Char → Prop where
  | hash {line : List Char} (oneLine : '\n' ∉ line) : Comment ('#' :: line)
  | slashes {line : List Char} (oneLine : '\n' ∉ line) : Comment ('/' :: '/' :: line)

/-- Blanks and comments. -/
inductive Trivia : List Char → Prop where
  | nil : Trivia []
  | blank {c : Char} {trivia : List Char} (isBlank : isBlank c = true) (behind : Trivia trivia) :
    Trivia (c :: trivia)
  | comment {comment trivia : List Char} (isComment : Comment comment) (behind : Trivia trivia) :
    Trivia (comment ++ '\n' :: trivia)

/-- The text consists of the tokens, with blanks and comments between them. -/
inductive Layout : List TokenKind → List Char → Prop where
  | nil {trivia : List Char} (isTrivia : Trivia trivia) : Layout [] trivia
  | comment {trivia comment : List Char} (isTrivia : Trivia trivia) (isComment : Comment comment) :
    Layout [] (trivia ++ comment)
  | cons {kind : TokenKind} {kinds : List TokenKind} {trivia letters text : List Char}
    (isTrivia : Trivia trivia) (writes : kind.Writes letters) (behind : Layout kinds text) :
    Layout (kind :: kinds) (trivia ++ (letters ++ text))

/-- The token is a word or a number, so that another one directly behind would be taken for a part
of it. -/
def TokenKind.IsWord : TokenKind → Prop
  | identifier _ | number _ => True
  | _ => False

/-- The first token is no word and no number. -/
def StartsApart (kinds : List TokenKind) : Prop := ∀ kind ∈ kinds.head?, ¬ kind.IsWord

/-- No two words or numbers come one after the other. -/
def KeptApart (kinds : List TokenKind) : Prop :=
  kinds.IsChain fun kind next ↦ ¬ (kind.IsWord ∧ next.IsWord)

theorem keptApart_cons_iff {kind : TokenKind} {kinds : List TokenKind} :
    KeptApart (kind :: kinds) ↔ (kind.IsWord → StartsApart kinds) ∧ KeptApart kinds := by
  unfold KeptApart StartsApart
  cases kinds with
  | nil => simp
  | cons next kinds => simp [List.isChain_cons_cons]

theorem KeptApart.cons {kind : TokenKind} {kinds : List TokenKind} (h : KeptApart kinds)
    (apart : kind.IsWord → StartsApart kinds) : KeptApart (kind :: kinds) :=
  keptApart_cons_iff.mpr ⟨apart, h⟩

theorem KeptApart.sign {kind : TokenKind} {kinds : List TokenKind} (h : KeptApart kinds)
    (sign : ¬ kind.IsWord) : KeptApart (kind :: kinds) :=
  h.cons fun isWord ↦ absurd isWord sign

theorem startsApart_cons {kind : TokenKind} (sign : ¬ kind.IsWord) (kinds : List TokenKind) :
    StartsApart (kind :: kinds) := by
  rintro _ ⟨⟩
  exact sign

/-! ### Characters -/

/-- The characters that end words and numbers: blanks, quotes, the signs of comments and of single
tokens. -/
def Delimits (c : Char) : Prop :=
  isBlank c = true ∨ c ∈ ['#', '/', '"', ':', ';', ',', '+', '^', '(', ')', '[', ']']

/-- No code point lies in an interval of both tables. -/
def disjoint (table table' : List CodeRange) : Bool :=
  table.all fun range ↦ table'.all fun range' ↦ range.2.blt range'.1 || range'.2.blt range.1

theorem covers_eq_false_of_disjoint {table table' : List CodeRange} {c : Char}
    (apart : disjoint table table' = true) (covered : CodeRange.covers table c = true) :
    CodeRange.covers table' c = false := by
  obtain ⟨range, among, above, below⟩ := (CodeRange.covers_iff table c).mp covered
  rw [Bool.eq_false_iff]
  intro again
  obtain ⟨range', among', above', below'⟩ := (CodeRange.covers_iff table' c).mp again
  have differ := List.all_eq_true.mp (List.all_eq_true.mp apart range among) range' among'
  simp only [Bool.or_eq_true, Nat.blt_eq] at differ
  omega

theorem toNat_lt_of_isAlpha {c : Char} (letter : c.isAlpha = true) : c.toNat < 128 := by
  have small (last : UInt32) (bound : c.val ≤ last) : c.toNat ≤ last.toNat :=
    UInt32.le_iff_toNat_le.mp bound
  rcases Bool.or_eq_true_iff.mp letter with upper | lower
  · have range : c.val ≥ 65 ∧ c.val ≤ 90 := of_decide_eq_true upper
    exact Nat.lt_of_le_of_lt (small 90 range.2) (by decide)
  · have range : c.val ≤ 122 := of_decide_eq_true (Bool.and_eq_true_iff.mp lower).2
    exact Nat.lt_of_le_of_lt (small 122 range) (by decide)

theorem toNat_of_isDigit {c : Char} (digit : c.isDigit = true) :
    48 ≤ c.toNat ∧ c.toNat ≤ 57 := by
  simpa [Char.isDigit, UInt32.le_iff_toNat_le] using digit

/-- Beyond ASCII it is by their tables that blanks differ from letters and numerals. -/
theorem not_isIdentifierRest_of_isBlank {c : Char} (blank : isBlank c = true) :
    isIdentifierRest c = false := by
  by_cases ascii : c.toNat < 128
  · have none : ∀ n < 128, isBlank (Char.ofNat n) = true →
        isIdentifierRest (Char.ofNat n) = false := by decide +kernel
    have here := none c.toNat ascii
    rw [Char.ofNat_toNat] at here
    exact here blank
  · have apart : disjoint blankRanges alphabeticRanges = true := by decide +kernel
    have apart' : disjoint blankRanges numericRanges = true := by decide +kernel
    have letter : ¬ c.isAlpha = true := fun letter ↦ ascii (toNat_lt_of_isAlpha letter)
    have digit : ¬ c.isDigit = true := fun digit ↦
      ascii ((toNat_of_isDigit digit).2.trans_lt (by decide))
    have underscore : c ≠ '_' := by
      rintro rfl
      exact ascii (by decide)
    simp [isIdentifierRest, isAlphabetic, isNumeric, letter, digit, underscore,
      covers_eq_false_of_disjoint apart blank, covers_eq_false_of_disjoint apart' blank]

theorem not_isIdentifierRest_of_delimits {c : Char} (delimits : Delimits c) :
    isIdentifierRest c = false := by
  rcases delimits with blank | sign
  · exact not_isIdentifierRest_of_isBlank blank
  · have none : ['#', '/', '"', ':', ';', ',', '+', '^', '(', ')', '[', ']'].all
        fun c ↦ !isIdentifierRest c := by decide
    simpa using List.all_eq_true.mp none c sign

theorem not_isDigit_of_delimits {c : Char} (delimits : Delimits c) : c.isDigit = false := by
  by_contra digit
  have rest := not_isIdentifierRest_of_delimits delimits
  unfold isIdentifierRest at rest
  rw [isNumeric_of_isDigit (by simpa using digit)] at rest
  simp at rest

theorem not_delimits_point : ¬ Delimits '.' := by
  unfold Delimits
  decide

theorem isIdentifierRest_of_start {c : Char} (start : isIdentifierStart c = true) :
    isIdentifierRest c = true := by
  unfold isIdentifierStart at start
  unfold isIdentifierRest
  rw [Bool.or_eq_true] at start
  rcases start with letter | underscore
  · rw [letter, Bool.true_or, Bool.true_or]
  · rw [underscore, Bool.or_true]

theorem delimits_of_ofPunctuation {c : Char} {kind : TokenKind}
    (sign : TokenKind.ofPunctuation c = some kind) : Delimits c := by
  unfold TokenKind.ofPunctuation at sign
  split at sign <;> first | (cases sign; done) | exact Or.inr (by decide)

theorem ofPunctuation_eq_none {c : Char} (whole : ¬ Delimits c) :
    TokenKind.ofPunctuation c = none :=
  Option.eq_none_iff_forall_ne_some.mpr fun _ sign ↦ whole (delimits_of_ofPunctuation sign)

/-- A word or a number starts with no character that ends one. -/
theorem not_delimits_of_isIdentifierRest {c : Char} (rest : isIdentifierRest c = true) :
    ¬ Delimits c := by
  intro delimits
  rw [not_isIdentifierRest_of_delimits delimits] at rest
  cases rest

theorem not_delimits_of_isDigit {c : Char} (digit : c.isDigit = true) : ¬ Delimits c := by
  intro delimits
  rw [not_isDigit_of_delimits delimits] at digit
  cases digit

theorem not_isDigit_of_isIdentifierStart {c : Char} (start : isIdentifierStart c = true) :
    c.isDigit = false := by
  by_contra digit
  have range := toNat_of_isDigit (by simpa using digit)
  have none : ∀ n ∈ List.range' 48 10, isIdentifierStart (Char.ofNat n) = false := by decide
  have here := none c.toNat (List.mem_range'_1.mpr ⟨range.1, by omega⟩)
  rw [Char.ofNat_toNat, start] at here
  cases here

/-! ### Blanks and comments -/

/-- The text starts with no blank and no comment. -/
def StartsBare (text : List Char) : Prop := splitTrivia false text = ([], text)

theorem startsBare_cons {c : Char} (noBlank : isBlank c = false) (noHash : c ≠ '#')
    (noSlash : c ≠ '/') (text : List Char) : StartsBare (c :: text) := by
  unfold StartsBare
  rw [splitTrivia, noBlank]
  simp [noHash, noSlash]

theorem startsBare_of_not_delimits {c : Char} (whole : ¬ Delimits c) (text : List Char) :
    StartsBare (c :: text) := by
  unfold Delimits at whole
  simp only [List.mem_cons, not_or] at whole
  exact startsBare_cons (by simpa using whole.1) whole.2.1 whole.2.2.1 text

theorem startsBare_of_ofPunctuation {c : Char} {kind : TokenKind}
    (sign : TokenKind.ofPunctuation c = some kind) (text : List Char) : StartsBare (c :: text) := by
  unfold TokenKind.ofPunctuation at sign
  split at sign <;>
    first | (cases sign; done) | exact startsBare_cons (by decide) (by decide) (by decide) text

theorem splitTrivia_line {line : List Char} (oneLine : '\n' ∉ line) (text : List Char) :
    splitTrivia true (line ++ '\n' :: text) =
      (line ++ '\n' :: (splitTrivia false text).1, (splitTrivia false text).2) := by
  induction line with
  | nil => simp [splitTrivia]
  | cons c line ih =>
    obtain ⟨notEnd, oneLine⟩ := not_or.mp (List.mem_cons.not.mp oneLine)
    rw [List.cons_append, splitTrivia, decide_eq_true (Ne.symm notEnd), ih oneLine]
    rfl

theorem splitTrivia_lastLine {line : List Char} (oneLine : '\n' ∉ line) :
    splitTrivia true line = (line, []) := by
  induction line with
  | nil => rfl
  | cons c line ih =>
    obtain ⟨notEnd, oneLine⟩ := not_or.mp (List.mem_cons.not.mp oneLine)
    rw [splitTrivia, decide_eq_true (Ne.symm notEnd), ih oneLine]

theorem Comment.splitTrivia_eq {comment : List Char} (isComment : Comment comment)
    (text : List Char) : splitTrivia false (comment ++ '\n' :: text) =
      (comment ++ '\n' :: (splitTrivia false text).1, (splitTrivia false text).2) := by
  have hash : isBlank '#' = false := by decide
  have slash : isBlank '/' = false := by decide
  cases isComment with
  | hash oneLine =>
    rw [List.cons_append, splitTrivia, hash, splitTrivia_line oneLine]
    rfl
  | @slashes line oneLine =>
    have whole : '\n' ∉ '/' :: line := List.mem_cons.not.mpr (not_or.mpr ⟨by decide, oneLine⟩)
    have line := splitTrivia_line whole text
    rw [List.cons_append] at line
    rw [List.cons_append, List.cons_append, splitTrivia, slash, line]
    rfl

theorem Comment.splitTrivia_last {comment : List Char} (isComment : Comment comment) :
    splitTrivia false comment = (comment, []) := by
  have hash : isBlank '#' = false := by decide
  have slash : isBlank '/' = false := by decide
  cases isComment with
  | hash oneLine =>
    rw [splitTrivia, hash, splitTrivia_lastLine oneLine]
    rfl
  | @slashes line oneLine =>
    have whole : '\n' ∉ '/' :: line := List.mem_cons.not.mpr (not_or.mpr ⟨by decide, oneLine⟩)
    rw [splitTrivia, slash, splitTrivia_lastLine whole]
    rfl

/-- Blanks and comments are split off. -/
theorem Trivia.splitTrivia_append {trivia : List Char} (isTrivia : Trivia trivia)
    (text : List Char) :
    splitTrivia false (trivia ++ text) =
      (trivia ++ (splitTrivia false text).1, (splitTrivia false text).2) := by
  induction isTrivia with
  | nil => rfl
  | blank isBlank _ ih =>
    rw [List.cons_append, splitTrivia, isBlank, ih]
    rfl
  | comment isComment _ ih =>
    rw [List.append_assoc, List.cons_append, isComment.splitTrivia_eq, ih, List.append_assoc]
    rfl

/-! ### Lexemes -/

theorem takeWhile_exact {p : Char → Bool} {body rest : List Char} (inside : ∀ c ∈ body, p c = true)
    (boundary : ∀ c ∈ rest.head?, p c = false) : (body ++ rest).takeWhile p = body := by
  rw [List.takeWhile_append_of_pos inside]
  cases rest with
  | nil => simp
  | cons c rest => simp [boundary c rfl]

theorem dropWhile_exact {p : Char → Bool} {body rest : List Char} (inside : ∀ c ∈ body, p c = true)
    (boundary : ∀ c ∈ rest.head?, p c = false) : (body ++ rest).dropWhile p = rest := by
  rw [List.dropWhile_append_of_pos inside]
  cases rest with
  | nil => simp
  | cons c rest => simp [boundary c rfl]

namespace Lexeme

/-- The text starts with a character that ends words and numbers, or is empty. -/
def Delimited (text : List Char) : Prop := ∀ c ∈ text.head?, Delimits c

theorem ofCharacters_identifier {name : String} {rest : List Char}
    (isWord : isIdentifier name.toList = true) (ends : Delimited rest) :
    ofCharacters (name.toList ++ rest) = ⟨.ok (.identifier name), name.toList, rest⟩ := by
  cases letters : name.toList with
  | nil =>
    rw [letters] at isWord
    cases isWord
  | cons first behind =>
    rw [letters] at isWord
    obtain ⟨start, others⟩ := Bool.and_eq_true_iff.mp isWord
    have whole := not_delimits_of_isIdentifierRest (isIdentifierRest_of_start start)
    have boundary : ∀ c ∈ rest.head?, isIdentifierRest c = false :=
      fun c inside ↦ not_isIdentifierRest_of_delimits (ends c inside)
    have noQuote : first ≠ '"' := fun same ↦ whole (Or.inr (by simp [same]))
    have noMinus : first ≠ '-' := by
      rintro rfl
      exact absurd start (by decide)
    rw [List.cons_append, ofCharacters, ofPunctuation_eq_none whole]
    simp only [noQuote, if_false, not_isDigit_of_isIdentifierStart start, noMinus, decide_false,
      Bool.or_self, Bool.false_eq_true, start, if_true, word]
    rw [takeWhile_exact (List.all_eq_true.mp others) boundary,
      dropWhile_exact (List.all_eq_true.mp others) boundary, ← letters, String.ofList_toList]

theorem fraction_exact {whole fractional rest : List Char}
    (isFraction : fractional = [] ∨ ∃ digits, fractional = '.' :: digits ∧ IsDigits digits)
    (ends : Delimited rest) : fraction whole (fractional ++ rest) =
      ⟨.ok (.number (String.ofList (whole ++ fractional))), whole ++ fractional, rest⟩ := by
  have boundary : ∀ c ∈ rest.head?, c.isDigit = false :=
    fun c inside ↦ not_isDigit_of_delimits (ends c inside)
  rcases isFraction with rfl | ⟨digits, rfl, some, all⟩
  · rw [List.nil_append, List.append_nil]
    unfold fraction
    split
    · exact absurd (ends '.' rfl) not_delimits_point
    · rfl
  · rw [List.cons_append, fraction]
    rw [takeWhile_exact all boundary, dropWhile_exact all boundary]
    simp [some]

theorem ofCharacters_number {lexeme : String} {rest : List Char}
    (numeral : IsNumeral lexeme.toList) (ends : Delimited rest) :
    ofCharacters (lexeme.toList ++ rest) = ⟨.ok (.number lexeme), lexeme.toList, rest⟩ := by
  obtain ⟨sign, whole, fractional, letters, isSign, ⟨nonempty, all⟩, isFraction⟩ := numeral
  have boundary : ∀ c ∈ (fractional ++ rest).head?, c.isDigit = false := by
    rcases isFraction with rfl | ⟨digits, rfl, -⟩
    · exact fun c inside ↦ not_isDigit_of_delimits (ends c inside)
    · rintro c ⟨⟩
      decide
  have lexeme_eq : String.ofList (sign ++ (whole ++ fractional)) = lexeme := by
    rw [← letters, String.ofList_toList]
  rw [letters]
  rcases isSign with rfl | rfl
  · obtain ⟨first, digits, rfl⟩ := List.exists_cons_of_ne_nil nonempty
    obtain ⟨digit, others⟩ := List.forall_mem_cons.mp all
    have bare := not_delimits_of_isDigit digit
    have noQuote : first ≠ '"' := fun same ↦ bare (Or.inr (by simp [same]))
    have noMinus : first :: digits ≠ ['-'] := by
      rintro ⟨⟩
      cases digit
    rw [List.nil_append, List.append_assoc, List.cons_append, ofCharacters,
      ofPunctuation_eq_none bare]
    simp only [noQuote, if_false, digit, Bool.true_or, if_true, number]
    rw [takeWhile_exact others boundary, dropWhile_exact others boundary, if_neg noMinus,
      fraction_exact isFraction ends, ← lexeme_eq]
    rfl
  · have minus : TokenKind.ofPunctuation '-' = none := by decide
    rw [List.append_assoc, List.append_assoc, List.singleton_append, ofCharacters, minus]
    have noMinus : '-' :: whole ≠ ['-'] := fun same ↦ nonempty (List.cons.inj same).2
    simp only [show ('-' : Char) ≠ '"' by decide, if_false, decide_true, Bool.or_true, if_true,
      number]
    rw [takeWhile_exact all boundary, dropWhile_exact all boundary, if_neg noMinus,
      fraction_exact isFraction ends, ← lexeme_eq]
    rfl

theorem quotedBody_exact {text written : List Char} (quotes : Quotes text written)
    (rest : List Char) :
    quotedBody (written ++ '"' :: rest) = (some text, written ++ ['"'], rest) := by
  induction quotes with
  | nil => rfl
  | @plain c text written noQuote noBackslash _ ih =>
    rw [List.cons_append, quotedBody, ih]
    · rfl
    · exact noQuote
    · exact fun same ↦ absurd same noBackslash
    · exact fun _ _ same ↦ absurd same noBackslash
  | @mark c text written isMark _ ih =>
    rw [List.cons_append, List.cons_append, quotedBody, ih]
    simp [isMark]
  | @newline text written _ ih =>
    rw [List.cons_append, List.cons_append, quotedBody, ih]
    simp
  | @backslash c text written plain _ ih =>
    simp only [List.mem_cons, List.not_mem_nil, or_false, not_or] at plain
    rw [List.cons_append, List.cons_append, quotedBody, ih]
    simp [plain]

/-- A token is cut off the text in the way in which it is written. -/
theorem ofCharacters_exact {kind : TokenKind} {letters rest : List Char}
    (writes : kind.Writes letters) (ends : kind.IsWord → Delimited rest) :
    ofCharacters (letters ++ rest) = ⟨.ok kind, letters, rest⟩ := by
  cases writes with
  | identifier isWord => exact ofCharacters_identifier isWord (ends trivial)
  | number numeral => exact ofCharacters_number numeral (ends trivial)
  | @quoted text written quotes =>
    rw [List.cons_append, List.append_assoc, List.singleton_append, ofCharacters]
    rw [show TokenKind.ofPunctuation '"' = none by decide]
    simp only [if_true, quotation, quotedBody_exact quotes, String.ofList_toList]
  | punctuation sign =>
    rw [List.singleton_append, ofCharacters, sign]

end Lexeme

theorem TokenKind.Writes.startsBare {kind : TokenKind} {letters : List Char}
    (writes : kind.Writes letters) (rest : List Char) : StartsBare (letters ++ rest) := by
  cases writes with
  | @identifier name isWord =>
    cases letters : name.toList with
    | nil =>
      rw [letters] at isWord
      cases isWord
    | cons first behind =>
      rw [letters] at isWord
      obtain ⟨start, -⟩ := Bool.and_eq_true_iff.mp isWord
      exact startsBare_of_not_delimits
        (not_delimits_of_isIdentifierRest (isIdentifierRest_of_start start)) _
  | @number lexeme numeral =>
    obtain ⟨sign, whole, fractional, letters, isSign, ⟨nonempty, all⟩, -⟩ := numeral
    obtain ⟨first, digits, rfl⟩ := List.exists_cons_of_ne_nil nonempty
    rw [letters]
    rcases isSign with rfl | rfl
    · exact startsBare_of_not_delimits (not_delimits_of_isDigit (all first List.mem_cons_self)) _
    · exact startsBare_cons (by decide) (by decide) (by decide) _
  | quoted quotes => exact startsBare_cons (by decide) (by decide) (by decide) _
  | punctuation sign => exact startsBare_of_ofPunctuation sign _

theorem TokenKind.Writes.ne_endOfInput {kind : TokenKind} {letters : List Char}
    (writes : kind.Writes letters) : kind ≠ .endOfInput := by
  rintro rfl
  cases writes with
  | @punctuation _ c sign =>
    unfold TokenKind.ofPunctuation at sign
    split at sign <;> cases sign

/-- What is laid out behind a word or a number ends it. -/
theorem Layout.ends {kinds : List TokenKind} {text : List Char} (layout : Layout kinds text)
    (apart : StartsApart kinds) : Lexeme.Delimited text := by
  have ofComment {comment : List Char} (isComment : Comment comment) (rest : List Char) :
      Lexeme.Delimited (comment ++ rest) := by
    cases isComment <;> · rintro c ⟨⟩; exact Or.inr (by decide)
  have ofTrivia {trivia rest : List Char} (isTrivia : Trivia trivia)
    (behind : Lexeme.Delimited rest) :
      Lexeme.Delimited (trivia ++ rest) := by
    cases isTrivia with
    | nil => exact behind
    | blank isBlank _ =>
      rintro c ⟨⟩
      exact Or.inl isBlank
    | comment isComment _ =>
      rw [List.append_assoc]
      exact ofComment isComment _
  cases layout with
  | nil isTrivia =>
    rw [← List.append_nil text]
    exact ofTrivia isTrivia (by rintro c ⟨⟩)
  | @comment _ comment isTrivia isComment =>
    exact ofTrivia isTrivia (List.append_nil comment ▸ ofComment isComment [])
  | cons isTrivia writes _ =>
    refine ofTrivia isTrivia ?_
    cases writes with
    | identifier _ => exact absurd trivial (apart _ rfl)
    | number _ => exact absurd trivial (apart _ rfl)
    | quoted _ =>
      rintro c ⟨⟩
      exact Or.inr (by decide)
    | punctuation sign =>
      rintro c ⟨⟩
      exact delimits_of_ofPunctuation sign

theorem Layout.notMem_endOfInput {kinds : List TokenKind} {text : List Char}
    (layout : Layout kinds text) : TokenKind.endOfInput ∉ kinds := by
  induction layout with
  | nil _ => exact List.not_mem_nil
  | comment _ _ => exact List.not_mem_nil
  | cons _ writes _ ih =>
    exact List.mem_cons.not.mpr (not_or.mpr ⟨writes.ne_endOfInput.symm, ih⟩)

/-! ### Streams -/

namespace TokenStream

/-- The tokens that are left are of these kinds, and then the text ends. -/
structure Offers (s : TokenStream) (kinds : List TokenKind) : Prop where
  current : s.current.kind = kinds.headD .endOfInput
  behind : s.behind.map Token.kind = kinds.tail
  proper : TokenKind.endOfInput ∉ kinds
  final : ∃ position, s.final = .ok position

theorem scanAll_at_end (scanner : Scanner) (atEnd : (splitTrivia false scanner.rest).2 = []) :
    ∃ last, scanAll scanner = ([], .ok last) := by
  have read : scanner.next.1 =
      .ok ⟨.endOfInput, scanner.position.after (splitTrivia false scanner.rest).1⟩ := by
    unfold Scanner.next
    simp only [atEnd, Lexeme.ofCharacters]
  rw [scanAll]
  split
  · rename_i failed
    rw [read] at failed
    cases failed
  · rename_i token found
    rw [read] at found
    cases found
    exact ⟨_, rfl⟩

theorem scanAll_token (scanner : Scanner) {trivia letters text : List Char} {kind : TokenKind}
    (isTrivia : Trivia trivia) (writes : kind.Writes letters)
    (ends : kind.IsWord → Lexeme.Delimited text)
    (rest : scanner.rest = trivia ++ (letters ++ text)) :
    ∃ token position, token.kind = kind ∧ scanAll scanner =
      (token :: (scanAll ⟨text, position⟩).1, (scanAll ⟨text, position⟩).2) := by
  have split : splitTrivia false scanner.rest = (trivia, letters ++ text) := by
    rw [rest, isTrivia.splitTrivia_append, writes.startsBare, List.append_nil]
  have read : scanner.next = (.ok ⟨kind, scanner.position.after trivia⟩,
      ⟨text, (scanner.position.after trivia).after letters⟩) := by
    unfold Scanner.next
    rw [split]
    dsimp only
    rw [Lexeme.ofCharacters_exact writes ends]
  refine ⟨⟨kind, scanner.position.after trivia⟩,
    (scanner.position.after trivia).after letters, rfl, ?_⟩
  rw [scanAll]
  split
  · rename_i failed
    rw [read] at failed
    cases failed
  · rename_i token found
    rw [read] at found
    cases found
    rw [dif_neg writes.ne_endOfInput, read]

/-- A text that lays out tokens is scanned into them. -/
theorem scanAll_of_layout {kinds : List TokenKind} {text : List Char} (layout : Layout kinds text)
    (keptApart : KeptApart kinds) (position : Position) :
    (scanAll ⟨text, position⟩).1.map Token.kind = kinds ∧
      ∃ last, (scanAll ⟨text, position⟩).2 = .ok last := by
  induction layout generalizing position with
  | @nil trivia isTrivia =>
    have nothing : (splitTrivia false trivia).2 = [] := by
      have split := isTrivia.splitTrivia_append []
      rw [List.append_nil] at split
      rw [split]
      rfl
    obtain ⟨last, scanned⟩ := scanAll_at_end ⟨trivia, position⟩ nothing
    rw [scanned]
    exact ⟨rfl, last, rfl⟩
  | @comment trivia comment isTrivia isComment =>
    have nothing : (splitTrivia false (trivia ++ comment)).2 = [] := by
      rw [isTrivia.splitTrivia_append, isComment.splitTrivia_last]
    obtain ⟨last, scanned⟩ := scanAll_at_end ⟨trivia ++ comment, position⟩ nothing
    rw [scanned]
    exact ⟨rfl, last, rfl⟩
  | @cons kind kinds trivia letters text isTrivia writes behind ih =>
    obtain ⟨apart, others⟩ := keptApart_cons_iff.mp keptApart
    obtain ⟨token, next, rfl, scanned⟩ := scanAll_token ⟨trivia ++ (letters ++ text), position⟩
      isTrivia writes (fun isWord ↦ behind.ends (apart isWord)) rfl
    obtain ⟨read, final⟩ := ih others next
    rw [scanned]
    exact ⟨by rw [List.map_cons, read], final⟩

theorem offers_ofTokens {tokens : List Token} {final : Except Problem Position} {last : Position}
    {kinds : List TokenKind} (read : tokens.map Token.kind = kinds)
    (proper : TokenKind.endOfInput ∉ kinds) (ends : final = .ok last) :
    ∃ s, ofTokens tokens final = .ok s ∧ s.Offers kinds := by
  subst read ends
  cases tokens with
  | nil => exact ⟨_, rfl, rfl, rfl, proper, last, rfl⟩
  | cons token tokens => exact ⟨_, rfl, rfl, rfl, proper, last, rfl⟩

/-- A text that lays out tokens offers them. -/
theorem offers_ofText {kinds : List TokenKind} {text : String} (layout : Layout kinds text.toList)
    (keptApart : KeptApart kinds) : ∃ s, ofText text = .ok s ∧ s.Offers kinds := by
  obtain ⟨read, last, final⟩ := scanAll_of_layout layout keptApart .start
  exact offers_ofTokens read layout.notMem_endOfInput final

/-- Moving on leaves the tokens behind the first one. -/
theorem Offers.advance {s : TokenStream} {kind : TokenKind} {kinds : List TokenKind}
    (h : s.Offers (kind :: kinds)) : ∃ next, s.advance = .ok next ∧ next.Offers kinds := by
  obtain ⟨last, final⟩ := h.final
  exact offers_ofTokens h.behind (List.not_mem_of_not_mem_cons h.proper) final

end TokenStream

end CompositeSorts
