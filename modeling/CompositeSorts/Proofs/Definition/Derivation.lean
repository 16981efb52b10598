import CompositeSorts.Proofs.Definition.Trees
import CompositeSorts.Proofs.Source.Layout

/-!
The ways to write trees as tokens. `Derives` is the grammar of definition texts, with one rule for
each alternative; a tree can be written in many ways, because a factor can stand in parentheses any
number of times, a word can be quoted, and a program can end with a `;`.

What is written never has two words or numbers one after the other (`Derives.keptApart`). What it
starts with tells a reader that looks two tokens ahead which alternative was taken
(`Derives.opening`).
-/

set_option autoImplicit false
set_option relaxedAutoImplicit false

namespace CompositeSorts

namespace Grammar

/-- The parts of a text, and the trees that they are to be read as. -/
inductive Part where
  /-- Items with `;` between them. -/
  | program (trees : List Tree)
  /-- A definition, an aspects declaration or an expression. -/
  | item (tree : Tree)
  /-- Terms with `+` between them. -/
  | expression (tree : Tree)
  /-- The terms behind the first one, each behind a `+`. -/
  | summands (trees : List Tree)
  /-- Factors with `^` between them. -/
  | term (tree : Tree)
  /-- The factors behind the first one, each behind a `^`. -/
  | operands (trees : List Tree)
  /-- A name, a primitive sort, or an item in parentheses. -/
  | factor (tree : Tree)
  /-- The sorts of a tuple behind the first one, each behind a comma. -/
  | arguments (trees : List Tree)

/-- A text as one token. -/
inductive IsText (text : String) : TokenKind → Prop where
  | word : IsText text (.identifier text)
  | quoted : IsText text (.quoted text)

/-- The ways to write a literal. -/
inductive DerivesLiteral : Literal → List TokenKind → Prop where
  | identifier {text : String} {kind : TokenKind} (isText : IsText text kind) :
    DerivesLiteral (.identifier text) [kind]
  | bound (lexeme : String) : DerivesLiteral (.bound lexeme) [.number lexeme]
  | locale {language region : String} {kind kind' : TokenKind} (isLanguage : IsText language kind)
    (isRegion : IsText region kind') :
    DerivesLiteral (.locale language region) [.openParen, kind, .comma, kind', .closeParen]

/-- The tag of a category in brackets. -/
def tagged (tag : String) : List TokenKind := [.openBracket, .identifier tag, .closeBracket]

/-- Names, each behind a comma. -/
def listed (names : List String) : List TokenKind :=
  names.flatMap fun name ↦ [.comma, .identifier name]

/-- The names of an aspects tuple and its category. -/
def heading (first : String) (others : List String) (tag : String) : List TokenKind :=
  .openParen :: .identifier first :: (listed others ++ .closeParen :: .colon :: tagged tag)

open TokenKind

/-- The ways to write the parts of a text. -/
inductive Derives : Part → List TokenKind → Prop where
  | lastItem {tree : Tree} {a : List TokenKind} (item : Derives (.item tree) a) :
    Derives (.program [tree]) a
  | closedItem {tree : Tree} {a : List TokenKind} (item : Derives (.item tree) a) :
    Derives (.program [tree]) (a ++ [semicolon])
  | nextItem {tree : Tree} {trees : List Tree} {a b : List TokenKind}
    (item : Derives (.item tree) a) (others : Derives (.program trees) b) :
    Derives (.program (tree :: trees)) (a ++ semicolon :: b)
  | definition {body : Tree} {a : List TokenKind} (name : String)
    (isBody : Derives (.expression body) a) :
    Derives (.item (.definition name body)) (identifier name :: colon :: a)
  | aspects {tree : Tree} {trees : List Tree} {a b : List TokenKind} (tag first : String)
    (others : List String) (several : others ≠ []) (argument : Derives (.expression tree) a)
    (arguments : Derives (.arguments trees) b) :
    Derives (.item (.aspects tag (first :: others) (tree :: trees)))
      (heading first others tag ++ openParen :: (a ++ (b ++ [closeParen])))
  | plain {tree : Tree} {a : List TokenKind} (expression : Derives (.expression tree) a) :
    Derives (.item tree) a
  | expression {first : Tree} {others : List Tree} {a b : List TokenKind}
    (term : Derives (.term first) a) (summands : Derives (.summands others) b) :
    Derives (.expression (.summed first others)) (a ++ b)
  | noSummand : Derives (.summands []) []
  | summand {tree : Tree} {trees : List Tree} {a b : List TokenKind}
    (term : Derives (.term tree) a) (others : Derives (.summands trees) b) :
    Derives (.summands (tree :: trees)) (plus :: (a ++ b))
  | term {first : Tree} {others : List Tree} {a b : List TokenKind}
    (factor : Derives (.factor first) a) (operands : Derives (.operands others) b) :
    Derives (.term (.chained first others)) (a ++ b)
  | noOperand : Derives (.operands []) []
  | operand {tree : Tree} {trees : List Tree} {a b : List TokenKind}
    (factor : Derives (.factor tree) a) (others : Derives (.operands trees) b) :
    Derives (.operands (tree :: trees)) (caret :: (a ++ b))
  | reference (name : String) : Derives (.factor (.reference name)) [identifier name]
  | bare (tag : String) : Derives (.factor (.primitive tag none)) (tagged tag)
  | primitive {literal : Literal} {a : List TokenKind} (tag : String)
    (isLiteral : DerivesLiteral literal a) :
    Derives (.factor (.primitive tag (some literal))) (tagged tag ++ a)
  | linked {tree : Tree} {trees : List Tree} {a b : List TokenKind} (tag : String)
    (argument : Derives (.expression tree) a) (arguments : Derives (.arguments trees) b) :
    Derives (.factor (.linked tag (tree :: trees)))
      (tagged tag ++ openParen :: (a ++ (b ++ [closeParen])))
  | parenthesised {tree : Tree} {a : List TokenKind} (item : Derives (.item tree) a) :
    Derives (.factor tree) (openParen :: (a ++ [closeParen]))
  | noArgument : Derives (.arguments []) []
  | argument {tree : Tree} {trees : List Tree} {a b : List TokenKind}
    (expression : Derives (.expression tree) a) (others : Derives (.arguments trees) b) :
    Derives (.arguments (tree :: trees)) (comma :: (a ++ b))

/-! ### What parts start with -/

/-- There is a token in front, and it is not the end of the input. -/
def Begins (kinds : List TokenKind) : Prop := ∃ kind ∈ kinds.head?, kind ≠ endOfInput

/-- A word in front stands alone or in front of a sign of an operation, and a word behind an opening
parenthesis does not begin an aspects declaration. -/
def Opens (kinds : List TokenKind) : Prop :=
  Begins kinds ∧
    (∀ name rest, kinds = identifier name :: rest → ∀ kind ∈ rest.head?,
      kind = plus ∨ kind = caret) ∧
    ∀ name rest, kinds = openParen :: identifier name :: rest → ∃ kind ∈ rest.head?, kind ≠ comma

/-- A word in front does not stand in front of a comma. -/
def OpensItem (kinds : List TokenKind) : Prop :=
  Begins kinds ∧ ∀ name rest, kinds = identifier name :: rest → ∀ kind ∈ rest.head?, kind ≠ comma

theorem Begins.eq_cons {kinds : List TokenKind} (h : Begins kinds) :
    ∃ first others, kinds = first :: others ∧ first ≠ endOfInput := by
  obtain ⟨first, inside, proper⟩ := h
  cases kinds with
  | nil => cases inside
  | cons kind others =>
    cases inside
    exact ⟨first, others, rfl, proper⟩

theorem Begins.append {a : List TokenKind} (h : Begins a) (b : List TokenKind) :
    Begins (a ++ b) := by
  obtain ⟨first, others, rfl, proper⟩ := h.eq_cons
  exact ⟨first, rfl, proper⟩

theorem Opens.append {a b : List TokenKind} (h : Opens a)
    (signs : ∀ kind ∈ b.head?, kind = plus ∨ kind = caret) : Opens (a ++ b) := by
  obtain ⟨begins, word, parenthesis⟩ := h
  obtain ⟨first, others, rfl, -⟩ := begins.eq_cons
  refine ⟨begins.append b, fun name rest starts ↦ ?_, fun name rest starts ↦ ?_⟩
  · rw [List.cons_append] at starts
    obtain ⟨rfl, rfl⟩ := List.cons.inj starts
    cases others with
    | nil => exact signs
    | cons second others => exact fun _ inside ↦ word name (second :: others) rfl _ inside
  · rw [List.cons_append] at starts
    obtain ⟨rfl, behind⟩ := List.cons.inj starts
    cases others with
    | nil =>
      rw [List.nil_append] at behind
      subst behind
      rcases signs _ rfl with sign | sign <;> cases sign
    | cons second others =>
      rw [List.cons_append] at behind
      obtain ⟨rfl, rfl⟩ := List.cons.inj behind
      obtain ⟨kind, inside, noComma⟩ := parenthesis name others rfl
      cases others with
      | nil => cases inside
      | cons third others => exact ⟨kind, inside, noComma⟩

theorem Opens.item {a : List TokenKind} (h : Opens a) : OpensItem a := by
  refine ⟨h.1, fun name rest starts kind inside ↦ ?_⟩
  rcases h.2.1 name rest starts kind inside with rfl | rfl <;> decide

theorem OpensItem.parenthesised {a : List TokenKind} (h : OpensItem a) :
    Opens (openParen :: (a ++ [closeParen])) := by
  obtain ⟨first, others, rfl, -⟩ := h.1.eq_cons
  refine ⟨⟨openParen, rfl, by decide⟩, by rintro _ _ ⟨⟩, fun name rest starts ↦ ?_⟩
  obtain ⟨-, starts⟩ := List.cons.inj starts
  obtain ⟨rfl, rfl⟩ := List.cons.inj starts
  cases others with
  | nil => exact ⟨closeParen, rfl, by decide⟩
  | cons second others => exact ⟨second, rfl, h.2 name _ rfl second rfl⟩

/-- What is said of the tokens that a part starts with. -/
def Part.Opening : Part → List TokenKind → Prop
  | program _, kinds => Begins kinds
  | item _, kinds => OpensItem kinds
  | expression _, kinds | term _, kinds | factor _, kinds => Opens kinds
  | summands _, kinds => ∀ kind ∈ kinds.head?, kind = plus
  | operands _, kinds => ∀ kind ∈ kinds.head?, kind = caret
  | arguments _, kinds => ∀ kind ∈ kinds.head?, kind = comma

theorem Derives.opening {part : Part} {kinds : List TokenKind} (h : Derives part kinds) :
    part.Opening kinds := by
  have bracket (rest : List TokenKind) : Opens (openBracket :: rest) :=
    ⟨⟨openBracket, rfl, by decide⟩, by rintro _ _ ⟨⟩, by rintro _ _ ⟨⟩⟩
  induction h with
  | lastItem _ item => exact item.1
  | closedItem _ item => exact item.1.append _
  | nextItem _ _ item _ => exact item.1.append _
  | definition name _ _ =>
    refine ⟨⟨identifier name, rfl, by simp⟩, ?_⟩
    rintro _ _ ⟨⟩ _ ⟨⟩
    decide
  | aspects => exact ⟨⟨openParen, rfl, by decide⟩, by rintro _ _ ⟨⟩⟩
  | plain _ ih => exact Opens.item ih
  | expression _ _ first others => exact Opens.append first fun _ inside ↦ Or.inl (others _ inside)
  | noSummand => rintro _ ⟨⟩
  | summand _ _ _ _ =>
    rintro _ ⟨⟩
    rfl
  | term _ _ first others => exact Opens.append first fun _ inside ↦ Or.inr (others _ inside)
  | noOperand => rintro _ ⟨⟩
  | operand _ _ _ _ =>
    rintro _ ⟨⟩
    rfl
  | reference name =>
    refine ⟨⟨identifier name, rfl, by simp⟩, ?_, by rintro _ _ ⟨⟩⟩
    rintro _ _ ⟨⟩ _ ⟨⟩
  | bare _ => exact bracket _
  | primitive _ _ => exact bracket _
  | linked _ _ _ _ _ => exact bracket _
  | parenthesised _ ih => exact OpensItem.parenthesised ih
  | noArgument => rintro _ ⟨⟩
  | argument _ _ _ _ =>
    rintro _ ⟨⟩
    rfl

/-! ### Words and numbers are kept apart -/

/-- What comes behind the first of several parts starts with a sign, or is missing. -/
theorem startsApart_append {b rest : List TokenKind} (signs : ∀ kind ∈ b.head?, ¬ kind.IsWord)
    (apart : StartsApart rest) : StartsApart (b ++ rest) := by
  cases b with
  | nil => exact apart
  | cons kind b => exact startsApart_cons (signs kind rfl) _

theorem keptApart_tagged {rest : List TokenKind} (h : KeptApart rest) (tag : String) :
    KeptApart (tagged tag ++ rest) :=
  KeptApart.sign (KeptApart.cons (h.sign id) fun _ ↦ startsApart_cons id _) id

theorem keptApart_listed {rest : List TokenKind} (h : KeptApart rest) (apart : StartsApart rest)
    (names : List String) :
    KeptApart (listed names ++ rest) ∧ StartsApart (listed names ++ rest) := by
  induction names with
  | nil => exact ⟨h, apart⟩
  | cons name names ih =>
    exact ⟨KeptApart.sign (KeptApart.cons ih.1 fun _ ↦ ih.2) id, startsApart_cons id _⟩

/-- What is written for a part keeps words and numbers apart, in front of anything that starts
apart. -/
theorem Derives.keptApart_append {part : Part} {kinds : List TokenKind} (h : Derives part kinds) :
    ∀ rest, KeptApart rest → StartsApart rest → KeptApart (kinds ++ rest) := by
  have sign {mark : TokenKind} {a rest : List TokenKind} (signs : ∀ kind ∈ a.head?, kind = mark)
      (isSign : ¬ mark.IsWord) (apart : StartsApart rest) : StartsApart (a ++ rest) :=
    startsApart_append (fun kind inside ↦ signs kind inside ▸ isSign) apart
  have tuple {a b rest : List TokenKind}
      (first : ∀ rest, KeptApart rest → StartsApart rest → KeptApart (a ++ rest))
      (others : ∀ rest, KeptApart rest → StartsApart rest → KeptApart (b ++ rest))
      (commas : ∀ kind ∈ b.head?, kind = comma) (kept : KeptApart rest) :
      KeptApart (openParen :: (a ++ (b ++ [closeParen])) ++ rest) := by
    rw [List.cons_append, List.append_assoc, List.append_assoc, List.singleton_append]
    have closed : KeptApart (closeParen :: rest) := kept.sign id
    exact KeptApart.sign (first _ (others _ closed (startsApart_cons id _))
      (sign commas id (startsApart_cons id _))) id
  induction h with
  | lastItem _ ih => exact ih
  | closedItem _ ih =>
    intro rest kept _
    rw [List.append_assoc]
    exact ih _ (kept.sign id) (startsApart_cons id _)
  | nextItem _ _ ih ih' =>
    intro rest kept apart
    rw [List.append_assoc]
    exact ih _ (KeptApart.sign (ih' rest kept apart) id) (startsApart_cons id _)
  | definition name _ ih =>
    intro rest kept apart
    exact KeptApart.cons (KeptApart.sign (ih rest kept apart) id) fun _ ↦ startsApart_cons id _
  | aspects tag first others _ _ arguments ih ih' =>
    intro rest kept apart
    have tupled := tuple ih ih' arguments.opening kept
    have category := keptApart_tagged tupled tag
    have named : KeptApart (closeParen :: colon :: (tagged tag ++ _)) :=
      KeptApart.sign (KeptApart.sign category id) id
    obtain ⟨list, separate⟩ := keptApart_listed named (startsApart_cons id _) others
    have head := KeptApart.sign (KeptApart.cons list
      fun isWord : (identifier first).IsWord ↦ separate)
      (id : ¬ openParen.IsWord)
    simpa only [heading, List.cons_append, List.append_assoc] using head
  | plain _ ih => exact ih
  | expression _ others ih ih' =>
    intro rest kept apart
    rw [List.append_assoc]
    exact ih _ (ih' rest kept apart) (sign others.opening id apart)
  | noSummand => exact fun _ kept _ ↦ kept
  | summand _ others ih ih' =>
    intro rest kept apart
    rw [List.cons_append, List.append_assoc]
    exact KeptApart.sign (ih _ (ih' rest kept apart) (sign others.opening id apart)) id
  | term _ others ih ih' =>
    intro rest kept apart
    rw [List.append_assoc]
    exact ih _ (ih' rest kept apart) (sign others.opening id apart)
  | noOperand => exact fun _ kept _ ↦ kept
  | operand _ others ih ih' =>
    intro rest kept apart
    rw [List.cons_append, List.append_assoc]
    exact KeptApart.sign (ih _ (ih' rest kept apart) (sign others.opening id apart)) id
  | reference name => exact fun rest kept apart ↦ KeptApart.cons kept fun _ ↦ apart
  | bare tag => exact fun rest kept _ ↦ keptApart_tagged kept tag
  | primitive tag isLiteral =>
    intro rest kept apart
    rw [List.append_assoc]
    refine keptApart_tagged ?_ tag
    cases isLiteral with
    | identifier isText => exact KeptApart.cons kept fun _ ↦ apart
    | bound lexeme => exact KeptApart.cons kept fun _ ↦ apart
    | locale isLanguage isRegion =>
      exact KeptApart.sign (KeptApart.cons (KeptApart.sign (KeptApart.cons (kept.sign id)
        fun _ ↦ startsApart_cons id _) id) fun _ ↦ startsApart_cons id _) id
  | linked tag _ arguments ih ih' =>
    intro rest kept apart
    rw [List.append_assoc]
    exact keptApart_tagged (tuple ih ih' arguments.opening kept) tag
  | parenthesised _ ih =>
    intro rest kept _
    rw [List.cons_append, List.append_assoc]
    exact KeptApart.sign (ih _ (kept.sign id) (startsApart_cons id _)) id
  | noArgument => exact fun _ kept _ ↦ kept
  | argument _ others ih ih' =>
    intro rest kept apart
    rw [List.cons_append, List.append_assoc]
    exact KeptApart.sign (ih _ (ih' rest kept apart) (sign others.opening id apart)) id

theorem Derives.keptApart {part : Part} {kinds : List TokenKind} (h : Derives part kinds) :
    KeptApart kinds := by
  rw [← List.append_nil kinds]
  exact h.keptApart_append [] .nil (by rintro _ ⟨⟩)

end Grammar

end CompositeSorts
