import CompositeSorts.Category
import CompositeSorts.Refusal
import CompositeSorts.Source.Scan

/-!
Problems: what is wrong with a definition text, and where. A problem can be shown with the line it
is in and a caret below the place. Main definitions: `ProblemCause`, `Problem`, `Problem.render`.
-/

set_option autoImplicit false
set_option relaxedAutoImplicit false

namespace CompositeSorts

/-- The kinds of problems. -/
inductive ProblemKind where
  | parse
  | illegalOverwrite
  | illegalArgument
  | cyclicDefinition
  | undefinedSort
  | unknownCategory
deriving DecidableEq, Repr

/-- The words for a kind of problem. -/
def ProblemKind.text : ProblemKind → String
  | parse => "parse error"
  | illegalOverwrite => "illegal overwrite"
  | illegalArgument => "illegal argument"
  | cyclicDefinition => "cyclic definition"
  | undefinedSort => "undefined sort"
  | unknownCategory => "unknown category"

/-- A refusal that happens at a place of a text is a problem of the same kind; a sort that leads
nowhere is an undefined one. -/
def RefusalKind.asProblem : RefusalKind → ProblemKind
  | illegalOverwrite => .illegalOverwrite
  | illegalArgument => .illegalArgument
  | unknownSort => .undefinedSort

/-- What the grammar asks for at a place. -/
inductive Expectation where
  | token (kind : TokenKind)
  | name
  | definition
  | separator
  | sort
  | linkedSorts
  | word
deriving DecidableEq, Repr

/-- The words for what the grammar asks for. -/
def Expectation.text : Expectation → String
  | token kind => kind.describe
  | name => "an identifier"
  | definition => "a definition"
  | separator => "`;` or end of input"
  | sort => "a sort"
  | linkedSorts => "the linked sorts"
  | word => "an identifier or string"

/-- The words for the argument that a category asks for. -/
def ParamShape.expected : ParamShape → String
  | nothing => "no argument"
  | identifier => "an identifier"
  | bound => "a number"
  | locale => "a (language, region) pair"
  | sorts arity => "a tuple of " ++ toString arity ++ " sorts"

/-- The causes of problems. -/
inductive ProblemCause where
  | lexical (fault : LexicalFault)
  /-- A token was pushed back before the one pushed back earlier was taken. -/
  | pushedTwice
  | unexpected (expected : Expectation) (found : TokenKind)
  | nothingDefined
  /-- The argument does not have the shape that its category asks for. -/
  | mismatch (tag : String) (shape : ParamShape) (found : TokenKind)
  /-- An aspects tuple over a category that does not link sorts. -/
  | linksNothing (tag : String)
  | aspectCount (tag : String) (arity names : Nat)
  | tupleLength (tag : String) (arity found : Nat)
  | selfDefined (name : String)
  /-- A definition whose body is a name that is still being defined. -/
  | pendingBody (name outer : String)
  | undefinedName (name : String)
  | unknownTag (tag : String)
  | refused (refusal : Refusal)
  /-- A problem in the words of its caller. -/
  | stated (kind : ProblemKind) (words : String)
deriving DecidableEq, Repr

namespace ProblemCause

/-- The kind of a problem. -/
def kind : ProblemCause → ProblemKind
  | lexical _ | pushedTwice | unexpected _ _ | nothingDefined => .parse
  | mismatch _ _ _ | linksNothing _ | aspectCount _ _ _ | tupleLength _ _ _ => .illegalArgument
  | selfDefined _ | pendingBody _ _ => .cyclicDefinition
  | undefinedName _ => .undefinedSort
  | unknownTag _ => .unknownCategory
  | refused refusal => refusal.kind.asProblem
  | stated kind _ => kind

/-- The words for a problem, without its kind and its place. -/
def message : ProblemCause → String
  | lexical .missingDigits => "expected digits after `-`"
  | lexical .missingFraction => "expected digits after decimal point"
  | lexical .unclosedQuote => "unterminated string literal"
  | lexical (.strayCharacter c) => "unexpected character `" ++ c.toString ++ "`"
  | pushedTwice => "tokenizer push-back buffer is full"
  | unexpected expected found => "expected " ++ expected.text ++ ", found " ++ found.describe
  | nothingDefined => "nothing was defined"
  | mismatch tag shape found =>
    "[" ++ tag ++ "] expects " ++ shape.expected ++ ", found " ++ found.describe
  | linksNothing tag => "[" ++ tag ++ "] does not link sorts"
  | aspectCount tag arity names =>
    "tuple names " ++ toString names ++ " aspects but [" ++ tag ++ "] links " ++ toString arity ++
      " sorts"
  | tupleLength tag arity found =>
    "[" ++ tag ++ "] links " ++ toString arity ++ " sorts, found " ++ toString found
  | selfDefined name => "`" ++ name ++ "` is defined as itself"
  | pendingBody name outer =>
    "`" ++ name ++ "` is defined as `" ++ outer ++ "`, which is still being defined"
  | undefinedName name => "`" ++ name ++ "` is not defined"
  | unknownTag tag => "unknown category [" ++ tag ++ "]"
  | refused refusal => refusal.message
  | stated _ words => words

end ProblemCause

/-- A problem at a place of a text. -/
structure Problem where
  cause : ProblemCause
  position : Position
deriving DecidableEq, Repr

namespace Problem

/-- A scanner's fault as a problem. -/
def ofLexical (fault : LexicalFault × Position) : Problem := ⟨.lexical fault.1, fault.2⟩

/-- The problem in one line: its kind, its place, its message. -/
def text (problem : Problem) : String :=
  problem.cause.kind.text ++ " at " ++ problem.position.text ++ ": " ++ problem.cause.message

/-- The padding that puts a caret below the place in its line: a blank for each character before
it, but a tab for a tab. -/
def padding (position : Position) (line : List Char) : List Char :=
  (line.take (position.column - 1)).map fun c ↦ if c = '\t' then '\t' else ' '

/-- The problem, the line of the text it is in, and a caret below the place. -/
def render (problem : Problem) (source : String) : String :=
  let line := sourceLine (problem.position.line - 1) source.toList
  problem.text ++ "\n  " ++ String.ofList line ++ "\n  " ++
    String.ofList (padding problem.position line) ++ "^"

end Problem

end CompositeSorts
