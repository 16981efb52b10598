import CompositeSorts.Catalog.Rendering
import CompositeSorts.Proofs.Definition.Derivation
import Mathlib.Data.List.Forall2

/-!
Canonical texts as ways to write trees. What is put together from brackets, parentheses, words and
the signs of the operations, as canonical texts are, lays out the tokens of a tree (`Prints`): a
name is a factor, a sum in parentheses is one, a base in front of a term gives a term, and terms add
up to an expression.

A quoted text is read back only if the reader undoes every escape in it (`Restorable`). Quotes,
backslashes and line ends are escaped in a way that it undoes; tabs, carriage returns, NUL and the
characters that are written by their numbers are not.
-/

set_option autoImplicit false
set_option relaxedAutoImplicit false

namespace CompositeSorts

open Text

/-! ### Escapes that are undone -/

namespace Text

/-- The text is a word, or quoting it escapes only what the reader restores. -/
def Restorable (text : String) : Prop :=
  isIdentifier text.toList = true ∨ ∀ c ∈ text.toList, escaped c = [c] ∨ c ∈ ['"', '\\', '\n']

-- The letters of the text are gone through, not all characters that there are.
instance (text : String) : Decidable (Restorable text) :=
  @instDecidableOr _ _ _ (List.decidableBAll _ text.toList)

theorem quotes_flatMap_escaped {text : List Char}
    (restored : ∀ c ∈ text, escaped c = [c] ∨ c ∈ ['"', '\\', '\n']) :
    Quotes text (text.flatMap escaped) := by
  induction text with
  | nil => exact .nil
  | cons c text ih =>
    have behind := ih fun other inside ↦ restored other (List.mem_cons_of_mem c inside)
    rw [List.flatMap_cons]
    by_cases mark : c = '"' ∨ c = '\\'
    · have written : escaped c = ['\\', c] := by
        rcases mark with rfl | rfl <;> decide
      rw [written]
      exact .mark mark behind
    · obtain ⟨noQuote, noBackslash⟩ := not_or.mp mark
      rcases restored c List.mem_cons_self with same | special
      · rw [same]
        exact .plain noQuote noBackslash behind
      · obtain rfl : c = '\n' := by simpa [noQuote, noBackslash] using special
        exact .newline behind

end Text

/-- The reader restores the words in the argument from the way they are quoted. -/
def Argument.Restorable : Argument → Prop
  | .identifier text => Text.Restorable text
  | .locale language region => Text.Restorable language ∧ Text.Restorable region
  | _ => True

instance : DecidablePred Argument.Restorable
  | .identifier text => inferInstanceAs (Decidable (Text.Restorable text))
  | .locale language region =>
    inferInstanceAs (Decidable (Text.Restorable language ∧ Text.Restorable region))
  | .bound _ => inferInstanceAs (Decidable True)
  | .sorts _ => inferInstanceAs (Decidable True)

/-- So are those in the argument of a primitive sort. -/
def Body.Restorable : Body → Prop
  | .primitive _ (some argument) => argument.Restorable
  | _ => True

instance : DecidablePred Body.Restorable
  | .primitive _ (some argument) => inferInstanceAs (Decidable argument.Restorable)
  | .primitive _ none => inferInstanceAs (Decidable True)
  | .weighted _ _ => inferInstanceAs (Decidable True)
  | .disjunctive _ => inferInstanceAs (Decidable True)
  | .aspects _ _ _ => inferInstanceAs (Decidable True)
  | .aspect _ _ => inferInstanceAs (Decidable True)
  | .recursive _ => inferInstanceAs (Decidable True)

namespace Grammar

/-! ### Tokens one after the other -/

/-- The text consists of the tokens, with blanks and comments in front of them but none behind. -/
inductive Typesets : List TokenKind → List Char → Prop where
  | nil : Typesets [] []
  | cons {kind : TokenKind} {kinds : List TokenKind} {trivia letters text : List Char}
    (isTrivia : Trivia trivia) (writes : kind.Writes letters) (behind : Typesets kinds text) :
    Typesets (kind :: kinds) (trivia ++ (letters ++ text))

namespace Typesets

variable {kinds others : List TokenKind} {text text' : List Char}

theorem layout (h : Typesets kinds text) : Layout kinds text := by
  induction h with
  | nil => exact .nil .nil
  | cons isTrivia writes _ ih => exact .cons isTrivia writes ih

theorem append (h : Typesets kinds text) (h' : Typesets others text') :
    Typesets (kinds ++ others) (text ++ text') := by
  induction h with
  | nil => exact h'
  | cons isTrivia writes _ ih =>
    rw [List.append_assoc, List.append_assoc, List.cons_append]
    exact .cons isTrivia writes ih

theorem token {kind : TokenKind} {letters : List Char} (writes : kind.Writes letters) :
    Typesets [kind] letters := by
  have alone : Typesets [kind] ([] ++ (letters ++ [])) := .cons .nil writes .nil
  rwa [List.nil_append, List.append_nil] at alone

/-- A sign in front. -/
theorem sign {kind : TokenKind} (h : Typesets kinds text) (c : Char)
    (isSign : TokenKind.ofPunctuation c = some kind) : Typesets (kind :: kinds) (c :: text) :=
  (token (.punctuation isSign)).append h

/-- A blank in front. -/
theorem blank (h : Typesets kinds text) (some : kinds ≠ []) : Typesets kinds (' ' :: text) := by
  cases h with
  | nil => exact absurd rfl some
  | cons isTrivia writes behind =>
    rw [← List.cons_append]
    exact .cons (.blank (by decide) isTrivia) writes behind

end Typesets

/-- The text is a way to write the tree as such a part. -/
def Prints (part : Tree → Part) (tree : Tree) (text : String) : Prop :=
  ∃ kinds, Derives (part tree) kinds ∧ Typesets kinds text.toList

theorem typesets_word {name : String} (word : isIdentifier name.toList = true) :
    Typesets [.identifier name] name.toList := .token (.identifier word)

theorem typesets_tagged {tag : String} (word : isIdentifier tag.toList = true) :
    Typesets (tagged tag) ("[" ++ tag ++ "]").toList := by
  rw [String.toList_append, String.toList_append]
  exact ((Typesets.nil.sign '[' rfl).append (typesets_word word)).append (Typesets.nil.sign ']' rfl)

theorem typesets_wordOrQuoted {text : String} (restorable : Restorable text) :
    ∃ kind, IsText text kind ∧ Typesets [kind] (wordOrQuoted text).toList := by
  unfold wordOrQuoted
  split_ifs with word
  · exact ⟨_, .word, typesets_word word⟩
  · refine ⟨_, .quoted, .token ?_⟩
    unfold quoted
    rw [String.toList_ofList]
    exact .quoted (quotes_flatMap_escaped (restorable.resolve_left word))

theorem typesets_literal {c : Catalog} {literal : Literal} {text : String}
    (restorable : literal.argument.Restorable)
    (numeral : ∀ lexeme, literal = .bound lexeme → IsNumeral lexeme.toList)
    (written : c.argumentText literal.argument = .ok text) :
    ∃ kinds, DerivesLiteral literal kinds ∧ kinds ≠ [] ∧ Typesets kinds text.toList := by
  cases literal with
  | identifier word =>
    cases written
    obtain ⟨kind, isText, typeset⟩ := typesets_wordOrQuoted restorable
    exact ⟨_, .identifier isText, List.cons_ne_nil _ _, typeset⟩
  | bound lexeme =>
    cases written
    exact ⟨_, .bound _, List.cons_ne_nil _ _, .token (.number (numeral _ rfl))⟩
  | locale language region =>
    cases written
    obtain ⟨kind, isText, typeset⟩ := typesets_wordOrQuoted restorable.1
    obtain ⟨kind', isText', typeset'⟩ := typesets_wordOrQuoted restorable.2
    refine ⟨_, .locale isText isText', List.cons_ne_nil _ _, ?_⟩
    have behind := ((typeset'.append (Typesets.nil.sign ')' rfl)).blank (by simp)).sign ',' rfl
    have whole := (typeset.append behind).sign '(' rfl
    simpa [Catalog.tupleText, joined, String.toList_append,
      String.intercalate_cons_cons] using whole

/-! ### Factors -/

theorem prints_reference {name : String} (word : isIdentifier name.toList = true) :
    Prints .factor (.reference name) name := ⟨_, .reference name, typesets_word word⟩

theorem prints_bare {tag : String} (word : isIdentifier tag.toList = true) :
    Prints .factor (.primitive tag none) ("[" ++ tag ++ "]") := ⟨_, .bare tag, typesets_tagged word⟩

theorem prints_primitive {c : Catalog} {tag text : String} {literal : Literal}
    (word : isIdentifier tag.toList = true) (restorable : literal.argument.Restorable)
    (numeral : ∀ lexeme, literal = .bound lexeme → IsNumeral lexeme.toList)
    (written : c.argumentText literal.argument = .ok text) :
    Prints .factor (.primitive tag (some literal)) ("[" ++ tag ++ "] " ++ text) := by
  obtain ⟨kinds, derives, some, typeset⟩ := typesets_literal restorable numeral written
  refine ⟨_, .primitive tag derives, ?_⟩
  have split : ("[" ++ tag ++ "] " ++ text).toList =
      ("[" ++ tag ++ "]").toList ++ ' ' :: text.toList := by
    simp [String.toList_append]
  rw [split]
  exact (typesets_tagged word).append (typeset.blank some)

/-- The texts behind the first one, each behind a separator. -/
def behindSeparators (separator : String) (texts : List String) : List Char :=
  texts.flatMap fun text ↦ separator.toList ++ text.toList

theorem toList_joined (separator first : String) (others : List String) :
    (joined separator (first :: others)).toList =
      first.toList ++ behindSeparators separator others := by
  unfold joined behindSeparators
  induction others generalizing first with
  | nil => simp
  | cons next others ih =>
    rw [String.intercalate_cons_cons, String.toList_append, String.toList_append, ih,
      List.flatMap_cons]
    simp only [List.append_assoc]

theorem Derives.ne_nil {tree : Tree} {kinds : List TokenKind}
    (h : Derives (.expression tree) kinds) :
    kinds ≠ [] := by
  obtain ⟨first, others, rfl, -⟩ := h.opening.1.eq_cons
  exact List.cons_ne_nil first others

theorem typesets_arguments {trees : List Tree} {texts : List String}
    (all : List.Forall₂ (Prints .expression) trees texts) :
    ∃ kinds, Derives (.arguments trees) kinds ∧ Typesets kinds (behindSeparators ", " texts) := by
  induction all with
  | nil => exact ⟨[], .noArgument, .nil⟩
  | cons first _ ih =>
    obtain ⟨a, isExpression, typeset⟩ := first
    obtain ⟨b, areArguments, behind⟩ := ih
    refine ⟨_, .argument isExpression areArguments, ?_⟩
    exact ((typeset.append behind).blank (by simp [isExpression.ne_nil])).sign ',' rfl

/-- A primitive sort that is linked to a tuple. -/
theorem prints_linked {tag first : String} {tree : Tree} {trees : List Tree} {others : List String}
    (word : isIdentifier tag.toList = true) (argument : Prints .expression tree first)
    (arguments : List.Forall₂ (Prints .expression) trees others) :
    Prints .factor (.linked tag (tree :: trees))
      ("[" ++ tag ++ "] " ++ Catalog.tupleText (first :: others)) := by
  obtain ⟨a, isExpression, typeset⟩ := argument
  obtain ⟨b, areArguments, behind⟩ := typesets_arguments arguments
  refine ⟨_, .linked tag isExpression areArguments, ?_⟩
  have inner := typeset.append (behind.append (Typesets.nil.sign ')' rfl))
  have tuple := ((inner.sign '(' rfl).blank (by simp))
  have split : ("[" ++ tag ++ "] " ++ Catalog.tupleText (first :: others)).toList =
      ("[" ++ tag ++ "]").toList ++
        ' ' :: '(' :: (first.toList ++ (behindSeparators ", " others ++ [')'])) := by
    simp [Catalog.tupleText, String.toList_append, toList_joined]
  rw [split]
  exact (typesets_tagged word).append tuple

theorem Prints.parenthesised {tree : Tree} {text : String} (h : Prints .expression tree text) :
    Prints .factor tree ("(" ++ text ++ ")") := by
  obtain ⟨kinds, isExpression, typeset⟩ := h
  refine ⟨_, .parenthesised (.plain isExpression), ?_⟩
  rw [String.toList_append, String.toList_append, List.append_assoc]
  exact (typeset.append (Typesets.nil.sign ')' rfl)).sign '(' rfl

/-! ### Terms and expressions -/

theorem Prints.term {tree : Tree} {text : String} (h : Prints .factor tree text) :
    Prints .term tree text := by
  obtain ⟨kinds, isFactor, typeset⟩ := h
  have isTerm : Derives (.term tree) (kinds ++ []) := .term isFactor .noOperand
  exact ⟨kinds, by rwa [List.append_nil] at isTerm, typeset⟩

/-- A factor in front of a term. -/
theorem Prints.weighted {base weight : Tree} {text behind : String} (h : Prints .factor base text)
    (h' : Prints .term weight behind) : ∃ first others, weight = .chained first others ∧
      Prints .term (.chained base (first :: others)) (text ++ "^" ++ behind) := by
  obtain ⟨a, isFactor, typeset⟩ := h
  obtain ⟨b, isTerm, typeset'⟩ := h'
  cases isTerm with
  | @term first others a' b' factor operands =>
    refine ⟨first, others, rfl, _, .term isFactor (.operand factor operands), ?_⟩
    rw [String.toList_append, String.toList_append, List.append_assoc]
    exact typeset.append (typeset'.sign '^' rfl)

theorem typesets_summands {trees : List Tree} {texts : List String}
    (all : List.Forall₂ (Prints .term) trees texts) :
    ∃ kinds, Derives (.summands trees) kinds ∧ Typesets kinds (behindSeparators "+" texts) := by
  induction all with
  | nil => exact ⟨[], .noSummand, .nil⟩
  | cons first _ ih =>
    obtain ⟨a, isTerm, typeset⟩ := first
    obtain ⟨b, areSummands, behind⟩ := ih
    exact ⟨_, .summand isTerm areSummands, (typeset.append behind).sign '+' rfl⟩

/-- Terms add up to an expression. -/
theorem prints_sum {first : String} {tree : Tree} {trees : List Tree} {others : List String}
    (term : Prints .term tree first) (summands : List.Forall₂ (Prints .term) trees others) :
    Prints .expression (.summed tree trees) (joined "+" (first :: others)) := by
  obtain ⟨a, isTerm, typeset⟩ := term
  obtain ⟨b, areSummands, behind⟩ := typesets_summands summands
  refine ⟨_, .expression isTerm areSummands, ?_⟩
  rw [toList_joined]
  exact typeset.append behind

theorem Prints.expression {tree : Tree} {text : String} (h : Prints .term tree text) :
    Prints .expression tree text := by
  have sum := prints_sum h .nil
  rwa [joined, String.intercalate_singleton] at sum

end Grammar

end CompositeSorts
