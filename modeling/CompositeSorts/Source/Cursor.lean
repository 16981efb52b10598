import CompositeSorts.Source.Problem

/-!
A cursor over the tokens of a text. It stands on a token; it can look one token ahead, move on, and
take one token back. Tokens are scanned as late as possible, so a fault in the text comes up only
when the token behind it is asked for.

Main definitions: `Cursor.ofText`, `Cursor.preview`, `Cursor.advance`, `Cursor.pushBack`.
-/

set_option autoImplicit false
set_option relaxedAutoImplicit false

namespace CompositeSorts

/-- A cursor: the token it stands on, the token pushed back and the token looked ahead at, if any,
and the scanner behind them. The pushed token comes before the one looked ahead at. -/
structure Cursor where
  scanner : Scanner
  current : Token
  ahead : Option Token
  pushed : Option Token
deriving Repr

namespace Cursor

/-- The cursor on the first token of a text. -/
def ofText (text : String) : Except Problem Cursor :=
  match (Scanner.ofText text).next with
  | (.ok token, scanner) => .ok ⟨scanner, token, none, none⟩
  | (.error fault, _) => .error (.ofLexical fault)

/-- The token behind the current one, without moving. -/
def preview (c : Cursor) : Except Problem Token × Cursor :=
  match c.pushed, c.ahead with
  | some token, _ => (.ok token, c)
  | none, some token => (.ok token, c)
  | none, none =>
    match c.scanner.next with
    | (.ok token, scanner) => (.ok token, { c with scanner, ahead := some token })
    | (.error fault, scanner) => (.error (.ofLexical fault), { c with scanner })

/-- Moves on by one token and returns the one it stood on. -/
def advance (c : Cursor) : Except Problem Token × Cursor :=
  match c.pushed, c.ahead with
  | some token, _ => (.ok c.current, { c with current := token, pushed := none })
  | none, some token => (.ok c.current, { c with current := token, ahead := none })
  | none, none =>
    match c.scanner.next with
    | (.ok token, scanner) => (.ok c.current, { c with scanner, current := token })
    | (.error fault, scanner) => (.error (.ofLexical fault), { c with scanner })

/-- Puts the cursor on `token`; the token it stood on comes next. This is not possible twice
without moving on in between. -/
def pushBack (c : Cursor) (token : Token) : Except Problem Unit × Cursor :=
  match c.pushed with
  | some _ => (.error ⟨.pushedTwice, token.position⟩, c)
  | none => (.ok (), { c with current := token, pushed := some c.current })

end Cursor

end CompositeSorts
