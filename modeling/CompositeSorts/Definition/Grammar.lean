import CompositeSorts.Definition.Phrase
import CompositeSorts.Source.TokenStream

/-!
The grammar of definition texts:

* a text is a list of items, with `;` between them and perhaps at the end;
* an item is a definition `name: expression`, an aspects declaration or an expression;
* an expression is a sum of terms with `+`, a term a chain of factors with `^`;
* a factor is a name, a primitive sort, an aspects declaration, or a definition or expression in
  parentheses;
* a primitive sort is `[Tag]` with an argument of the shape that the category asks for;
* an aspects declaration is `(name, name): [Tag] (expression, expression)`.

Reading gives a phrase. Every reader leaves fewer tokens than it was given, which is why reading
ends; one that cannot go on gives the phrase of what it read so far.

Main definitions: `Grammar.expression` and its companions, and `Grammar.program`.
-/

set_option autoImplicit false
set_option relaxedAutoImplicit false

namespace CompositeSorts

/-- What a reader gives: a value and the tokens left, fewer than `bound`, or the phrase of a text
that is cut short. -/
inductive Outcome (α : Type) (bound : Nat) where
  | complete (value : α) (rest : TokenStream) (shorter : rest.size < bound)
  | cut (phrase : Phrase)

namespace TokenStream

/-- A stream with fewer tokens left than `s` has. -/
abbrev Shorter (s : TokenStream) := { rest : TokenStream // rest.size < s.size }

/-- Moves past a token that is not the end of the input. -/
def pass (s : TokenStream) (proper : s.current.kind ≠ .endOfInput) : Except Problem s.Shorter :=
  match h : s.advance with
  | .ok rest => .ok ⟨rest, size_lt_of_advance h proper⟩
  | .error problem => .error problem

/-- Moves past a token of the given kind. -/
def expect (s : TokenStream) (kind : TokenKind) (proper : kind ≠ .endOfInput := by decide) :
    Except Problem s.Shorter :=
  if h : s.current.kind = kind then s.pass (h ▸ proper)
  else .error (s.unexpected (.token kind))

/-- Moves past an identifier. -/
def expectName (s : TokenStream) : Except Problem (String × s.Shorter) :=
  match h : s.current.kind with
  | .identifier name => do
    let rest ← s.pass (by simp [h])
    pure (name, rest)
  | _ => .error (s.unexpected .name)

/-- Moves past an identifier or a quoted text. -/
def expectWord (s : TokenStream) : Except Problem (String × s.Shorter) :=
  match h : s.current.kind with
  | .identifier name => do
    let rest ← s.pass (by simp [h])
    pure (name, rest)
  | .quoted text => do
    let rest ← s.pass (by simp [h])
    pure (text, rest)
  | _ => .error (s.unexpected .word)

end TokenStream

namespace Grammar

/-- A reader that stops at a problem before anything was read. -/
def stopped {α : Type} {bound : Nat} (problem : Problem) : Outcome α bound :=
  .cut (.stop (.refused problem))

/-- The tag of a primitive sort, `[Tag]`, and its place. -/
def tag (s : TokenStream) : Except Problem (String × Position × s.Shorter) := do
  let ⟨inner, h₁⟩ ← s.expect .openBracket
  let (name, ⟨behind, h₂⟩) ← inner.expectName
  let ⟨rest, h₃⟩ ← behind.expect .closeBracket
  pure (name, inner.current.position, ⟨rest, by omega⟩)

/-- Names with commas before them. -/
def moreNames (s : TokenStream) :
    Except Problem (List String × { rest : TokenStream // rest.size ≤ s.size }) :=
  if s.current.kind = .comma then do
    let ⟨behind, h₁⟩ ← s.expect .comma
    let (name, ⟨rest, h₂⟩) ← behind.expectName
    let (names, ⟨last, h₃⟩) ← moreNames rest
    pure (name :: names, ⟨last, by omega⟩)
  else pure ([], ⟨s, Nat.le_refl _⟩)
termination_by s.size

/-- An aspects declaration up to its linked sorts, `(name, name): [Tag]`. -/
def aspectsHeader (s : TokenStream) :
    Except Problem (List String × String × Position × s.Shorter) := do
  let ⟨inner, h₁⟩ ← s.expect .openParen
  let (first, ⟨behind, h₂⟩) ← inner.expectName
  let (others, ⟨closing, h₃⟩) ← moreNames behind
  let ⟨outer, h₄⟩ ← closing.expect .closeParen
  let ⟨bracket, h₅⟩ ← outer.expect .colon
  let (name, place, ⟨rest, h₆⟩) ← tag bracket
  pure (first :: others, name, place, ⟨rest, by omega⟩)

/-- A pair of words, `(language, region)`. -/
def wordPair (s : TokenStream) : Except Problem (Literal × s.Shorter) := do
  let ⟨inner, h₁⟩ ← s.expect .openParen
  let (language, ⟨comma, h₂⟩) ← inner.expectWord
  let ⟨second, h₃⟩ ← comma.expect .comma
  let (region, ⟨closing, h₄⟩) ← second.expectWord
  let ⟨rest, h₅⟩ ← closing.expect .closeParen
  pure (.locale language region, ⟨rest, by omega⟩)

/-- An argument that is no tuple of sorts; `shape` is what its category asks for. -/
def literal (name : String) (shape : ParamShape) (s : TokenStream) :
    Except Problem (Literal × s.Shorter) :=
  match shape with
  | .identifier =>
    match h : s.current.kind with
    | .identifier text => do
      let rest ← s.pass (by simp [h])
      pure (.identifier text, rest)
    | .quoted text => do
      let rest ← s.pass (by simp [h])
      pure (.identifier text, rest)
    | _ => .error ⟨.mismatch name shape s.current.kind, s.current.position⟩
  | .bound =>
    match h : s.current.kind with
    | .number lexeme => do
      let rest ← s.pass (by simp [h])
      pure (.bound lexeme, rest)
    | _ => .error ⟨.mismatch name shape s.current.kind, s.current.position⟩
  | .locale =>
    if s.current.kind = .openParen then wordPair s
    else .error ⟨.mismatch name shape s.current.kind, s.current.position⟩
  | _ => .error ⟨.mismatch name shape s.current.kind, s.current.position⟩

/-- Whether an argument can start with the token. -/
def startsArgument : TokenKind → Bool
  | .identifier _ | .quoted _ | .number _ | .openParen => true
  | _ => false

/-- Reads the parenthesis that closes what was opened in front of `inner`. -/
def closing {inner : TokenStream} (bound : Nat) (outcome : Outcome Phrase inner.size)
    (shorter : inner.size < bound) : Outcome Phrase bound :=
  match outcome with
  | .cut phrase => .cut phrase
  | .complete phrase rest h₁ =>
    match rest.expect .closeParen with
    | .error problem => .cut (.fails [phrase] problem)
    | .ok ⟨last, h₂⟩ => .complete phrase last (by omega)

variable (categories : CategoryTable)

mutual

/-- An expression: terms with `+` between them, added from the left. -/
def expression (s : TokenStream) : Outcome Phrase s.size :=
  match term s with
  | .cut phrase => .cut phrase
  | .complete first rest shorter => summands s.size first rest shorter
termination_by s.size * 4 + 3

/-- The terms that are added to `left`. -/
def summands (bound : Nat) (left : Phrase) (s : TokenStream) (shorter : s.size < bound) :
    Outcome Phrase bound :=
  if plus : s.current.kind = .plus then
    match s.pass (by simp [plus]) with
    | .error problem => .cut (.fails [left] problem)
    | .ok ⟨behind, h₁⟩ =>
      match term behind with
      | .cut right => .cut (.sum s.current.position left right)
      | .complete right rest h₂ =>
        summands bound (.sum s.current.position left right) rest (by omega)
  else .complete left s shorter
termination_by s.size * 4

/-- A term: factors with `^` between them, combined from the right. -/
def term (s : TokenStream) : Outcome Phrase s.size :=
  match factor s with
  | .cut phrase => .cut phrase
  | .complete base rest h₁ =>
    if caret : rest.current.kind = .caret then
      match rest.pass (by simp [caret]) with
      | .error problem => .cut (.fails [base] problem)
      | .ok ⟨behind, h₂⟩ =>
        match term behind with
        | .cut weight => .cut (.weighted s.current.position base weight)
        | .complete weight last h₃ =>
          .complete (.weighted s.current.position base weight) last (by omega)
    else .complete base rest h₁
termination_by s.size * 4 + 2

/-- A factor. -/
def factor (s : TokenStream) : Outcome Phrase s.size :=
  match _kind : s.current.kind with
  | .openParen =>
    match s.expect .openParen with
    | .error problem => stopped problem
    | .ok ⟨inner, h₁⟩ =>
      match inner.current.kind with
      | .identifier _ =>
        match inner.peek with
        | .error problem => stopped problem
        | .ok .comma => aspects s
        | .ok .colon => closing s.size (definition inner) h₁
        | .ok _ => closing s.size (expression inner) h₁
      | _ => closing s.size (expression inner) h₁
  | .identifier name =>
    match s.pass (by simp [_kind]) with
    | .error problem => stopped problem
    | .ok ⟨rest, h₁⟩ => .complete (.reference s.current.position name) rest h₁
  | .openBracket => primitive s
  | _ => stopped (s.unexpected .sort)
termination_by s.size * 4 + 1

/-- A primitive sort. -/
def primitive (s : TokenStream) : Outcome Phrase s.size :=
  match tag s with
  | .error problem => stopped problem
  | .ok (name, place, ⟨rest, h₁⟩) =>
    match categories.lookup name with
    | .never => .cut (.stop .abandoned)
    | .unknown => stopped ⟨.unknownTag name, place⟩
    | .known .nothing => .complete (.primitive s.current.position name none) rest h₁
    | .known shape =>
      if startsArgument rest.current.kind then
        match shape, rest.current.kind with
        | .sorts arity, .openParen =>
          match tuple name arity rest with
          | .cut phrase => .cut phrase
          | .complete arguments last h₂ =>
            .complete (.linked s.current.position name arguments) last (by omega)
        | _, _ =>
          match literal name shape rest with
          | .error problem => stopped problem
          | .ok (argument, ⟨last, h₂⟩) =>
            .complete (.primitive s.current.position name (some argument)) last (by omega)
      else .complete (.primitive s.current.position name none) rest h₁
termination_by s.size * 4

/-- An aspects declaration. -/
def aspects (s : TokenStream) : Outcome Phrase s.size :=
  match aspectsHeader s with
  | .error problem => stopped problem
  | .ok (names, name, place, ⟨rest, h₁⟩) =>
    match categories.lookup name with
    | .never => .cut (.stop .abandoned)
    | .unknown => stopped ⟨.unknownTag name, place⟩
    | .known (.sorts arity) =>
      if names.length ≠ arity then
        stopped ⟨.aspectCount name arity names.length, s.current.position⟩
      else if rest.current.kind ≠ .openParen then stopped (rest.unexpected .linkedSorts)
      else
        match tuple name arity rest with
        | .cut phrase => .cut phrase
        | .complete arguments last h₂ =>
          .complete (.aspects s.current.position name names arguments) last (by omega)
    | .known _ => stopped ⟨.linksNothing name, place⟩
termination_by s.size * 4

/-- A definition. -/
def definition (s : TokenStream) : Outcome Phrase s.size :=
  match s.expectName with
  | .error problem => stopped problem
  | .ok (name, ⟨colon, h₁⟩) =>
    match colon.expect .colon with
    | .error problem => stopped problem
    | .ok ⟨start, h₂⟩ =>
      match expression start with
      | .cut body => .cut (.definition s.current.position name body)
      | .complete body rest h₃ =>
        .complete (.definition s.current.position name body) rest (by omega)
termination_by s.size * 4

/-- The sorts in parentheses that a category of the given arity links. -/
def tuple (name : String) (arity : Nat) (s : TokenStream) : Outcome (List Phrase) s.size :=
  match s.expect .openParen with
  | .error problem => stopped problem
  | .ok ⟨inner, h₁⟩ =>
    match expression inner with
    | .cut phrase => .cut phrase
    | .complete first rest h₂ =>
      match elements s.size [first] rest (by omega) with
      | .cut phrase => .cut phrase
      | .complete arguments last h₃ =>
        if arguments.length = arity then .complete arguments last h₃
        else .cut (.fails arguments ⟨.tupleLength name arity arguments.length, s.current.position⟩)
termination_by s.size * 4

/-- The rest of a tuple of sorts, behind `done`. -/
def elements (bound : Nat) (done : List Phrase) (s : TokenStream) (shorter : s.size < bound) :
    Outcome (List Phrase) bound :=
  if comma : s.current.kind = .comma then
    match s.pass (by simp [comma]) with
    | .error problem => .cut (.fails done problem)
    | .ok ⟨behind, h₁⟩ =>
      match expression behind with
      | .cut phrase => .cut (.after done phrase)
      | .complete next rest h₂ => elements bound (done ++ [next]) rest (by omega)
  else
    match s.expect .closeParen with
    | .error problem => .cut (.fails done problem)
    | .ok ⟨rest, h₁⟩ => .complete done rest (by omega)
termination_by s.size * 4

end

/-- An item of a text. -/
def item (s : TokenStream) : Outcome Phrase s.size :=
  match s.current.kind with
  | .endOfInput => stopped (s.unexpected .definition)
  | .openParen =>
    match s.advance with
    | .error problem => stopped problem
    | .ok inner =>
      match inner.current.kind with
      | .identifier _ =>
        match inner.peek with
        | .error problem => stopped problem
        | .ok .comma => aspects categories s
        | .ok _ => expression categories s
      | _ => expression categories s
  | .identifier _ =>
    match s.peek with
    | .error problem => stopped problem
    | .ok .colon => definition categories s
    | .ok _ => expression categories s
  | _ => expression categories s

/-- The items of a text. When the text is cut short the last phrase says where. -/
def program (s : TokenStream) : List Phrase :=
  match item categories s with
  | .cut phrase => [phrase]
  | .complete phrase rest h₁ =>
    match rest.current.kind with
    | .endOfInput => [phrase]
    | .semicolon =>
      match rest.expect .semicolon with
      | .error problem => [phrase, .stop (.refused problem)]
      | .ok ⟨behind, h₂⟩ =>
        if behind.current.kind = .endOfInput then [phrase] else phrase :: program behind
    | _ => [phrase, .stop (.refused (rest.unexpected .separator))]
termination_by s.size

end Grammar

end CompositeSorts
