/-!
Places in a source text, and the tokens of the definition language with the words for them in
messages. Lines and columns count from one; a line feed ends its line, and every other character, a
tab or an accent too, takes one column.

Main definitions: `Position`, `Position.after`, `sourceLine`, `TokenKind`, `Token`.
-/

set_option autoImplicit false
set_option relaxedAutoImplicit false

namespace CompositeSorts

/-! ### Places -/

/-- A line and a column of a source text. -/
structure Position where
  line : Nat
  column : Nat
deriving DecidableEq, Repr

namespace Position

/-- The place of the first character. -/
def start : Position := ⟨1, 1⟩

/-- The place behind the character `c` that stands at `p`. -/
def next (p : Position) (c : Char) : Position :=
  if c = '\n' then ⟨p.line + 1, 1⟩ else ⟨p.line, p.column + 1⟩

/-- The place behind the characters that start at `p`. -/
def after (p : Position) (characters : List Char) : Position := characters.foldl next p

/-- A place is written `line:column`. -/
def text (p : Position) : String := toString p.line ++ ":" ++ toString p.column

theorem after_nil (p : Position) : p.after [] = p := rfl

theorem after_cons (p : Position) (c : Char) (rest : List Char) :
    p.after (c :: rest) = (p.next c).after rest := rfl

theorem after_append (p : Position) (front back : List Char) :
    p.after (front ++ back) = (p.after front).after back := by
  simp [after]

end Position

/-- The first line, without the line feed that ends it and without a carriage return directly
before that line feed. -/
def firstLine (characters : List Char) : List Char :=
  let line := characters.takeWhile (· ≠ '\n')
  if line.length < characters.length ∧ line.getLast? = some '\r' then line.dropLast else line

/-- The line with `skipped` lines before it, empty when the text has no such line. -/
def sourceLine : Nat → List Char → List Char
  | _, [] => []
  | 0, characters => firstLine characters
  | skipped + 1, characters => sourceLine skipped ((characters.dropWhile (· ≠ '\n')).drop 1)

/-! ### Tokens -/

/-- What a token is. Numbers keep the text they were written in, quoted texts are kept with their
escapes undone. -/
inductive TokenKind where
  | identifier (name : String)
  | number (lexeme : String)
  | quoted (text : String)
  | colon
  | semicolon
  | comma
  | plus
  | caret
  | openParen
  | closeParen
  | openBracket
  | closeBracket
  | endOfInput
deriving DecidableEq, Repr

namespace TokenKind

/-- The words for a token in a message. -/
def describe : TokenKind → String
  | identifier name => "identifier `" ++ name ++ "`"
  | number lexeme => "number `" ++ lexeme ++ "`"
  | quoted text => "string \"" ++ text ++ "\""
  | colon => "`:`"
  | semicolon => "`;`"
  | comma => "`,`"
  | plus => "`+`"
  | caret => "`^`"
  | openParen => "`(`"
  | closeParen => "`)`"
  | openBracket => "`[`"
  | closeBracket => "`]`"
  | endOfInput => "end of input"

/-- The token that a character is by itself. -/
def ofPunctuation : Char → Option TokenKind
  | ':' => some colon
  | ';' => some semicolon
  | ',' => some comma
  | '+' => some plus
  | '^' => some caret
  | '(' => some openParen
  | ')' => some closeParen
  | '[' => some openBracket
  | ']' => some closeBracket
  | _ => none

end TokenKind

/-- A token and the place of its first character. -/
structure Token where
  kind : TokenKind
  position : Position
deriving DecidableEq, Repr

end CompositeSorts
