import CompositeSorts.Source.Problem

/-!
Phrases: definition texts as trees. Every phrase that can be refused has a place for the refusal.
A text that cannot be read to its end gives a phrase as well: the part that was read, in the order
in which it has to be evaluated, and then the reason to stop. So what a text does is what its
phrase does, and evaluating the finished parts comes before the failure.
-/

set_option autoImplicit false
set_option relaxedAutoImplicit false

namespace CompositeSorts

/-- An argument that is no tuple of sorts. -/
inductive Literal where
  | identifier (text : String)
  | bound (lexeme : String)
  | locale (language region : String)
deriving DecidableEq, Repr

/-- A literal as the argument of a sort. -/
def Literal.argument : Literal → Argument
  | identifier text => .identifier text
  | bound lexeme => .bound lexeme
  | locale language region => .locale language region

/-- The trees of definition texts. -/
inductive Phrase where
  /-- A name. -/
  | reference (position : Position) (name : String)
  /-- A primitive sort with an argument that is no tuple, or with none. -/
  | primitive (position : Position) (tag : String) (argument : Option Literal)
  /-- A primitive sort linked to a tuple of sorts. -/
  | linked (position : Position) (tag : String) (arguments : List Phrase)
  /-- A base with a weight. -/
  | weighted (position : Position) (base weight : Phrase)
  /-- A sum. -/
  | sum (position : Position) (left right : Phrase)
  /-- A name and what it is defined as. -/
  | definition (position : Position) (name : String) (body : Phrase)
  /-- The declaration of an aspects tuple. -/
  | aspects (position : Position) (tag : String) (names : List String) (arguments : List Phrase)
  /-- A phrase that comes after others. -/
  | after (earlier : List Phrase) (last : Phrase)
  /-- The point behind which the text was not read. -/
  | stop (reason : Stop Problem)

/-- A phrase that fails with a problem after others. -/
def Phrase.fails (earlier : List Phrase) (problem : Problem) : Phrase :=
  .after earlier (.stop (.refused problem))

end CompositeSorts
