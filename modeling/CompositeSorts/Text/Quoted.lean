import CompositeSorts.Text.Alphabetic
import CompositeSorts.Text.Numeric
import CompositeSorts.Text.Extending
import CompositeSorts.Text.Printable

/-!
Identifiers and quoted text. A text that is no identifier is written between double quotes, with
backslash escapes for quotes, backslashes, line and tab control, NUL and every character that
would not show by itself. Main definitions: `isIdentifier`, `quoted`, `wordOrQuoted`.
-/

set_option autoImplicit false
set_option relaxedAutoImplicit false

namespace CompositeSorts.Text

/-- Whether an identifier may start with `c`. -/
def isIdentifierStart (c : Char) : Bool := isAlphabetic c || c = '_'

/-- Whether an identifier may go on with `c`. -/
def isIdentifierRest (c : Char) : Bool := isAlphabetic c || isNumeric c || c = '_'

/-- Whether the characters are one identifier: a letter or underscore, then letters, numerals and
underscores. -/
def isIdentifier : List Char → Bool
  | [] => false
  | first :: rest => isIdentifierStart first && rest.all isIdentifierRest

/-- The character as it is written between double quotes. -/
def escaped (c : Char) : List Char :=
  if c = '\x00' then ['\\', '0']
  else if c = '\t' then ['\\', 't']
  else if c = '\r' then ['\\', 'r']
  else if c = '\n' then ['\\', 'n']
  else if c = '\\' then ['\\', '\\']
  else if c = '"' then ['\\', '"']
  else if isExtending c || !isPrintable c then
    ['\\', 'u', '\x7b'] ++ Nat.toDigits 16 c.toNat ++ ['\x7d']
  else [c]

/-- The text between double quotes, escaped. -/
def quoted (text : String) : String :=
  String.ofList ('"' :: text.toList.flatMap escaped ++ ['"'])

/-- An identifier as it is, any other text quoted. -/
def wordOrQuoted (text : String) : String :=
  if isIdentifier text.toList then text else quoted text

theorem wordOrQuoted_of_isIdentifier {text : String}
    (h : isIdentifier text.toList = true) : wordOrQuoted text = text := by
  simp [wordOrQuoted, h]

end CompositeSorts.Text
