import CompositeSorts.Proofs.Definition.Derivation

/-!
Reading what was written. When the tokens of a stream are a way to write a tree, the readers of the
grammar give a phrase that does what the tree does (`Derives.read`, `meaningAll_program`). The
readers are gone through along the derivation; each leaves the tokens behind its part, and those
tell it where to end.

A tree can fail whatever it is evaluated on: the names of an aspects tuple may not fit its category.
Then the rest of the text is not read, and the phrase fails as the tree does (`Meaning.FailsLike`).
-/

set_option autoImplicit false
set_option relaxedAutoImplicit false

namespace CompositeSorts

/-! ### Failing alike -/

/-- Both computations fail, whatever they are run on, with the same cause and the same changes. -/
def Meaning.FailsLike {α β : Type} (m : Meaning α) (m' : Meaning β) : Prop :=
  ∀ c, ∃ reason changed, m c = .error reason changed ∧ m' c = .error reason changed

namespace Meaning.FailsLike

variable {α β γ : Type} {m : Meaning α} {m' : Meaning β}

theorem throw (reason : Stop ProblemCause) :
    FailsLike (MonadExcept.throw reason : Meaning α) (MonadExcept.throw reason : Meaning β) :=
  fun c ↦ ⟨reason, c, rfl, rfl⟩

theorem bind_left (h : FailsLike m m') (next : α → Meaning γ) : FailsLike (m >>= next) m' := by
  intro c
  obtain ⟨reason, changed, fails, fails'⟩ := h c
  refine ⟨reason, changed, ?_, fails'⟩
  change EStateM.bind m next c = _
  rw [EStateM.bind, fails]

theorem bind_right (h : FailsLike m m') (next : β → Meaning γ) : FailsLike m (m' >>= next) := by
  intro c
  obtain ⟨reason, changed, fails, fails'⟩ := h c
  refine ⟨reason, changed, fails, ?_⟩
  change EStateM.bind m' next c = _
  rw [EStateM.bind, fails']

theorem bind (first : Meaning γ) {next : γ → Meaning α} {next' : γ → Meaning β}
    (h : ∀ value, FailsLike (next value) (next' value)) :
    FailsLike (first >>= next) (first >>= next') := by
  intro c
  change ∃ reason changed, EStateM.bind first next c = _ ∧ EStateM.bind first next' c = _
  unfold EStateM.bind
  cases first c with
  | ok value changed => exact h value changed
  | error reason changed => exact ⟨reason, changed, rfl, rfl⟩

theorem eq {m m' : Meaning α} (h : FailsLike m m') : m = m' := by
  funext c
  obtain ⟨reason, changed, fails, fails'⟩ := h c
  rw [fails, fails']

end Meaning.FailsLike

open Meaning Phrase

/-! ### Tokens -/

namespace TokenStream

variable {s : TokenStream} {kind : TokenKind} {kinds : List TokenKind} {name : String}

theorem Offers.exists_pass (h : s.Offers (kind :: kinds)) (proper : s.current.kind ≠ .endOfInput) :
    ∃ next, s.pass proper = .ok next ∧ next.1.Offers kinds := by
  obtain ⟨next, moved, offers⟩ := h.advance
  unfold pass
  split
  · rename_i rest moved'
    rw [moved] at moved'
    cases moved'
    exact ⟨_, rfl, offers⟩
  · rename_i problem failed
    rw [moved] at failed
    cases failed

theorem Offers.exists_expect (h : s.Offers (kind :: kinds)) (proper : kind ≠ .endOfInput) :
    ∃ next, s.expect kind proper = .ok next ∧ next.1.Offers kinds := by
  have here : s.current.kind = kind := h.current
  unfold expect
  rw [dif_pos here]
  exact h.exists_pass _

theorem Offers.exists_expectName (h : s.Offers (.identifier name :: kinds)) :
    ∃ next, s.expectName = .ok (name, next) ∧ next.1.Offers kinds := by
  have here := h.current
  unfold expectName
  split
  · rename_i other found
    cases found.symm.trans here
    obtain ⟨next, passed, offers⟩ := h.exists_pass (by simp [found])
    rw [passed]
    exact ⟨next, rfl, offers⟩
  · rename_i other
    exact absurd here (other name)

theorem Offers.exists_expectWord {text : String} (h : s.Offers (kind :: kinds))
    (isText : Grammar.IsText text kind) :
    ∃ next, s.expectWord = .ok (text, next) ∧ next.1.Offers kinds := by
  have here := h.current
  unfold expectWord
  split
  · rename_i other found
    cases isText <;> cases found.symm.trans here
    obtain ⟨next, passed, offers⟩ := h.exists_pass (by simp [found])
    rw [passed]
    exact ⟨next, rfl, offers⟩
  · rename_i other found
    cases isText <;> cases found.symm.trans here
    obtain ⟨next, passed, offers⟩ := h.exists_pass (by simp [found])
    rw [passed]
    exact ⟨next, rfl, offers⟩
  · rename_i other other'
    cases isText
    · exact absurd here (other text)
    · exact absurd here (other' text)

theorem Offers.peek_eq (h : s.Offers (kind :: kinds)) :
    s.peek = .ok (kinds.headD .endOfInput) := by
  obtain ⟨next, moved, offers⟩ := h.advance
  unfold peek
  rw [moved]
  exact congrArg Except.ok offers.current

end TokenStream

namespace Grammar

open TokenKind TokenStream

variable {s : TokenStream} {rest kinds : List TokenKind} {name tag : String}

theorem exists_tag (h : s.Offers (tagged name ++ rest)) :
    ∃ place behind, Grammar.tag s = .ok (name, place, behind) ∧ behind.1.Offers rest := by
  obtain ⟨inner, opened, offers⟩ := h.exists_expect (by decide)
  obtain ⟨behind, named, offers⟩ := offers.exists_expectName
  obtain ⟨last, closed, offers⟩ := offers.exists_expect (by decide)
  unfold Grammar.tag
  rw [opened]
  simp only [bind, Except.bind, named, closed]
  exact ⟨_, _, rfl, offers⟩

theorem exists_moreNames (names : List String) (s : TokenStream)
    (h : s.Offers (listed names ++ closeParen :: rest)) :
    ∃ last, moreNames s = .ok (names, last) ∧ last.1.Offers (closeParen :: rest) := by
  induction names generalizing s with
  | nil =>
    have here : s.current.kind = closeParen := h.current
    have noComma : s.current.kind ≠ comma := by
      rw [here]
      decide
    rw [moreNames, if_neg noComma]
    exact ⟨_, rfl, h⟩
  | cons name names ih =>
    have here : s.current.kind = comma := h.current
    obtain ⟨behind, passed, offers⟩ := h.exists_expect (by decide)
    obtain ⟨next, named, offers⟩ := offers.exists_expectName
    obtain ⟨last, more, offers⟩ := ih next.1 offers
    rw [moreNames, if_pos here]
    simp only [bind, Except.bind, passed, named, more]
    exact ⟨_, rfl, offers⟩

theorem exists_aspectsHeader {first : String} {others : List String}
    (h : s.Offers (heading first others name ++ rest)) :
    ∃ place behind, aspectsHeader s = .ok (first :: others, name, place, behind) ∧
      behind.1.Offers rest := by
  simp only [heading, List.cons_append, List.append_assoc] at h
  obtain ⟨inner, opened, offers⟩ := h.exists_expect (by decide)
  obtain ⟨behind, named, offers⟩ := offers.exists_expectName
  obtain ⟨closing, more, offers⟩ := exists_moreNames others _ offers
  obtain ⟨outer, closed, offers⟩ := offers.exists_expect (by decide)
  obtain ⟨bracket, passed, offers⟩ := offers.exists_expect (by decide)
  obtain ⟨place, last, tagged, offers⟩ := exists_tag offers
  unfold aspectsHeader
  simp only [bind, Except.bind, opened, named, more, closed, passed, tagged]
  exact ⟨_, _, rfl, offers⟩

theorem exists_literal {given : Literal} {shape : ParamShape}
    (isLiteral : DerivesLiteral given kinds) (suits : given.argument.Suits shape)
    (h : s.Offers (kinds ++ rest)) (tag : String) :
    startsArgument s.current.kind = true ∧
      ∃ behind, literal tag shape s = .ok (given, behind) ∧ behind.1.Offers rest := by
  have here := h.current
  cases isLiteral with
  | @identifier text kind isText =>
    cases shape with
    | identifier =>
      unfold literal
      dsimp only
      cases isText with
      | word =>
        refine ⟨by rw [here]; rfl, ?_⟩
        split
        · rename_i other found
          cases found.symm.trans here
          obtain ⟨next, passed, offers⟩ := h.exists_pass (by simp [found])
          rw [passed]
          exact ⟨_, rfl, offers⟩
        · rename_i other found
          cases found.symm.trans here
        · rename_i other _
          exact absurd here (other text)
      | quoted =>
        refine ⟨by rw [here]; rfl, ?_⟩
        split
        · rename_i other found
          cases found.symm.trans here
        · rename_i other found
          cases found.symm.trans here
          obtain ⟨next, passed, offers⟩ := h.exists_pass (by simp [found])
          rw [passed]
          exact ⟨_, rfl, offers⟩
        · rename_i _ other
          exact absurd here (other text)
    | _ => exact absurd suits id
  | bound lexeme =>
    cases shape with
    | bound =>
      refine ⟨by rw [here]; rfl, ?_⟩
      unfold literal
      dsimp only
      split
      · rename_i other found
        cases found.symm.trans here
        obtain ⟨next, passed, offers⟩ := h.exists_pass (by simp [found])
        rw [passed]
        exact ⟨_, rfl, offers⟩
      · rename_i other
        exact absurd here (other lexeme)
    | _ => exact absurd suits id
  | locale isLanguage isRegion =>
    cases shape with
    | locale =>
      refine ⟨by rw [here]; rfl, ?_⟩
      unfold literal
      dsimp only
      have opens : s.current.kind = openParen := here
      rw [if_pos opens]
      obtain ⟨inner, opened, offers⟩ := h.exists_expect (by decide)
      obtain ⟨comma, first, offers⟩ := offers.exists_expectWord isLanguage
      obtain ⟨second, passed, offers⟩ := offers.exists_expect (by decide)
      obtain ⟨closing, last, offers⟩ := offers.exists_expectWord isRegion
      obtain ⟨behind, closed, offers⟩ := offers.exists_expect (by decide)
      unfold wordPair
      simp only [bind, Except.bind, opened, first, passed, last, closed]
      exact ⟨_, rfl, offers⟩
    | _ => exact absurd suits id

/-! ### Parts -/

/-- The first of the tokens is one of these, if there is one. -/
def Behind (allowed rest : List TokenKind) : Prop := ∀ kind ∈ rest.head?, kind ∈ allowed

theorem Behind.mono {allowed allowed' : List TokenKind} (h : Behind allowed rest)
    (more : allowed ⊆ allowed') : Behind allowed' rest := fun kind inside ↦ more (h kind inside)

theorem Behind.append {allowed allowed' kinds : List TokenKind} (h : Behind allowed rest)
    (signs : ∀ kind ∈ kinds.head?, kind ∈ allowed') (more : allowed ⊆ allowed') :
    Behind allowed' (kinds ++ rest) := by
  cases kinds with
  | nil => exact h.mono more
  | cons kind kinds => exact signs

/-- The reader stands on a token that is none of these. -/
theorem Behind.current_notMem {allowed : List TokenKind} (h : Behind allowed rest)
    (others : List TokenKind) (offers : s.Offers rest)
    (apart : ∀ kind ∈ endOfInput :: allowed, kind ∉ others) :
    s.current.kind ∉ others := by
  rw [offers.current]
  cases rest with
  | nil => exact apart _ List.mem_cons_self
  | cons kind rest => exact apart _ (List.mem_cons_of_mem _ (h kind rfl))

/-- The tokens that can stand behind an expression. -/
def enders : List TokenKind := [closeParen, comma, semicolon]

variable (categories : CategoryTable)

/-- What was read is good and leaves these tokens, or the text was cut short and the phrase fails
like `m`. -/
def Gets {α β : Type} {bound : Nat} (good : α → Prop) (m : Meaning β) (rest : List TokenKind) :
    Outcome α bound → Prop
  | .complete value s _ => good value ∧ s.Offers rest
  | .cut phrase => FailsLike (phrase.meaning categories) m

/-- A phrase was read that does the same as `m`. -/
abbrev GetsPhrase {bound : Nat} (m : Meaning SortId) (rest : List TokenKind) :
    Outcome Phrase bound → Prop :=
  Gets categories (fun phrase ↦ phrase.meaning categories = m) m rest

/-- How many phrases were read that do the same as `m`. -/
abbrev GetsPhrases {bound : Nat} (count : Nat) (m : Meaning (List SortId)) (rest : List TokenKind) :
    Outcome (List Phrase) bound → Prop :=
  Gets categories (fun phrases ↦ meaningAll categories phrases = m ∧ phrases.length = count) m rest

/-- What is said of the readers, given a way to write a part. -/
def Part.Read : Part → List TokenKind → Prop
  | program trees, kinds => Tree.AllFit categories trees → ∀ s : TokenStream, s.Offers kinds →
      meaningAll categories (Grammar.program categories s) = Tree.runAll categories trees
  | item tree, kinds => tree.Fits categories →
      (∀ (s : TokenStream) (rest : List TokenKind), Behind [semicolon] rest →
        s.Offers (kinds ++ rest) →
        GetsPhrase categories (tree.run categories) rest (Grammar.item categories s)) ∧
      ∀ (s : TokenStream) (rest : List TokenKind),
        s.Offers (openParen :: (kinds ++ closeParen :: rest)) →
        GetsPhrase categories (tree.run categories) rest (Grammar.factor categories s)
  | expression tree, kinds => tree.Fits categories →
      ∀ (s : TokenStream) (rest : List TokenKind), Behind enders rest → s.Offers (kinds ++ rest) →
        GetsPhrase categories (tree.run categories) rest (Grammar.expression categories s)
  | summands trees, kinds => Tree.AllFit categories trees →
      ∀ (bound : Nat) (left : Phrase) (s : TokenStream) (shorter : s.size < bound)
        (rest : List TokenKind), Behind enders rest → s.Offers (kinds ++ rest) →
        GetsPhrase categories (left.meaning categories >>= fun id ↦ Tree.addAll categories id trees)
          rest (Grammar.summands categories bound left s shorter)
  | term tree, kinds => tree.Fits categories →
      ∀ (s : TokenStream) (rest : List TokenKind), Behind (plus :: enders) rest →
        s.Offers (kinds ++ rest) →
        GetsPhrase categories (tree.run categories) rest (Grammar.term categories s)
  | operands [], kinds => kinds = []
  | operands (first :: others), kinds => Tree.AllFit categories (first :: others) →
      ∃ tail, kinds = caret :: tail ∧ ∀ (s : TokenStream) (rest : List TokenKind),
        Behind (plus :: enders) rest → s.Offers (tail ++ rest) →
        GetsPhrase categories ((Tree.chained first others).run categories) rest
          (Grammar.term categories s)
  | factor tree, kinds => tree.Fits categories →
      ∀ (s : TokenStream) (rest : List TokenKind), Behind (caret :: plus :: enders) rest →
        s.Offers (kinds ++ rest) →
        GetsPhrase categories (tree.run categories) rest (Grammar.factor categories s)
  | arguments trees, kinds => Tree.AllFit categories trees →
      ∀ (bound : Nat) (done : List Phrase) (s : TokenStream) (shorter : s.size < bound)
        (rest : List TokenKind), s.Offers (kinds ++ closeParen :: rest) →
        GetsPhrases categories (done.length + trees.length)
          (meaningAll categories done >>= fun ids ↦ Tree.runAll categories trees >>= fun more ↦
            pure (ids ++ more)) rest
          (Grammar.elements categories bound done s shorter)

variable {categories}

/-- The phrase of a text that was not read fails as what it is to do. -/
theorem gets_stop {bound : Nat} {m : Meaning Nat} (next : Nat → Meaning SortId)
    (reason : Stop Problem) (isThrow : m = MonadExcept.throw (reason.map Problem.cause)) :
    GetsPhrase categories (m >>= next) rest (.cut (.stop reason) : Outcome Phrase bound) := by
  change FailsLike ((Phrase.stop reason).meaning categories) _
  rw [meaning_stop, isThrow]
  have fails : FailsLike (MonadExcept.throw (reason.map Problem.cause) : Meaning SortId)
      (MonadExcept.throw (reason.map Problem.cause) : Meaning Nat) := FailsLike.throw _
  exact fails.bind_right next

theorem gets_complete {bound : Nat} {phrase : Phrase} {m : Meaning SortId}
    {shorter : s.size < bound} (same : phrase.meaning categories = m) (offers : s.Offers rest) :
    GetsPhrase categories m rest (.complete phrase s shorter) := ⟨same, offers⟩

/-- The closing parenthesis is read. -/
theorem gets_closing {inner : TokenStream} {bound : Nat} {outcome : Outcome Phrase inner.size}
    {m : Meaning SortId} (h : GetsPhrase categories m (closeParen :: rest) outcome)
    (shorter : inner.size < bound) :
    GetsPhrase categories m rest (closing bound outcome shorter) := by
  unfold closing
  cases outcome with
  | cut phrase => exact h
  | complete phrase behind _ =>
    obtain ⟨last, closed, offers⟩ := h.2.exists_expect (by decide)
    dsimp only
    split
    · rename_i failed
      rw [closed] at failed
      cases failed
    · rename_i found
      rw [closed] at found
      cases found
      exact ⟨h.1, offers⟩

/-! ### Expressions and terms -/

variable {a b : List TokenKind} {first tree : Tree} {others trees : List Tree}

theorem read_expression (isTerm : (Part.term first).Read categories a)
    (areSummands : (Part.summands others).Read categories b)
    (signs : ∀ kind ∈ b.head?, kind = plus) :
    (Part.expression (.summed first others)).Read categories (a ++ b) := by
  intro fits s rest behind offers
  obtain ⟨fit, fitAll⟩ := Tree.fits_summed_iff.mp fits
  rw [List.append_assoc] at offers
  have read := isTerm fit s (b ++ rest)
    (behind.append (fun kind inside ↦ by simp [signs kind inside]) (List.subset_cons_self _ _))
    offers
  rw [Grammar.expression, Tree.run_summed]
  cases outcome : Grammar.term categories s with
  | cut phrase =>
    rw [outcome] at read
    exact read.bind_right _
  | complete phrase behind' shorter =>
    rw [outcome] at read
    obtain ⟨same, offers⟩ := read
    rw [← same]
    exact areSummands fitAll s.size phrase behind' shorter rest behind offers

theorem read_noSummand : (Part.summands []).Read categories [] := by
  intro _ bound left s shorter rest behind offers
  have noPlus : s.current.kind ≠ plus := by
    simpa using behind.current_notMem [plus] offers (by decide)
  rw [Grammar.summands, dif_neg noPlus]
  exact ⟨(bind_pure _).symm, offers⟩

theorem read_summand (isTerm : (Part.term tree).Read categories a)
    (areSummands : (Part.summands trees).Read categories b)
    (signs : ∀ kind ∈ b.head?, kind = plus) :
    (Part.summands (tree :: trees)).Read categories (plus :: (a ++ b)) := by
  rintro ⟨fit, fitAll⟩ bound left s shorter rest behind offers
  have isPlus : s.current.kind = plus := offers.current
  rw [List.cons_append, List.append_assoc] at offers
  obtain ⟨next, passed, offers⟩ := offers.exists_pass (by simp [isPlus])
  have read := isTerm fit next.1 (b ++ rest)
    (behind.append (fun kind inside ↦ by simp [signs kind inside]) (List.subset_cons_self _ _))
    offers
  rw [Grammar.summands, dif_pos isPlus, passed]
  dsimp only
  cases outcome : Grammar.term categories next.1 with
  | cut phrase =>
    rw [outcome] at read
    change FailsLike ((Phrase.sum _ left phrase).meaning categories) _
    rw [meaning_sum]
    refine .bind _ fun id ↦ ?_
    rw [Tree.addAll]
    exact (read.bind_left _).bind_right _
  | complete phrase behind' shorter' =>
    rw [outcome] at read
    obtain ⟨same, offers⟩ := read
    have more := areSummands fitAll bound (.sum s.current.position left phrase) behind'
      (by have := next.2; omega) rest behind offers
    rw [meaning_sum] at more
    simp only [bind_assoc, same] at more
    simp only [Tree.addAll]
    exact more

/-- A factor and what is combined with it. -/
theorem gets_term (isFactor : (Part.factor first).Read categories a)
    (areOperands : (Part.operands others).Read categories b)
    (signs : ∀ kind ∈ b.head?, kind = caret)
    (fits : Tree.AllFit categories (first :: others)) (s : TokenStream)
    (behind : Behind (plus :: enders) rest) (offers : s.Offers (a ++ (b ++ rest))) :
    GetsPhrase categories ((Tree.chained first others).run categories) rest
      (Grammar.term categories s) := by
  have read := isFactor fits.1 s (b ++ rest)
    (behind.append (fun kind inside ↦ by simp [signs kind inside]) (List.subset_cons_self _ _))
    offers
  rw [Grammar.term]
  cases outcome : Grammar.factor categories s with
  | cut phrase =>
    rw [outcome] at read
    rw [Tree.run_chained]
    exact read.bind_right _
  | complete base behind' shorter =>
    rw [outcome] at read
    obtain ⟨same, offers⟩ := read
    cases others with
    | nil =>
      obtain rfl : b = [] := areOperands
      have noCaret : behind'.current.kind ≠ caret := by
        simpa using behind.current_notMem [caret] offers (by decide)
      dsimp only
      rw [dif_neg noCaret]
      exact ⟨same, offers⟩
    | cons next others =>
      obtain ⟨tail, rfl, readTail⟩ := areOperands fits.2
      have isCaret : behind'.current.kind = caret := offers.current
      obtain ⟨inner, passed, offers⟩ := offers.exists_pass (by simp [isCaret])
      have read := readTail inner.1 rest behind offers
      dsimp only
      rw [dif_pos isCaret, passed, Tree.run_chained_cons, ← same]
      dsimp only
      cases outcome' : Grammar.term categories inner.1 with
      | cut weight =>
        rw [outcome'] at read
        change FailsLike ((Phrase.weighted _ base weight).meaning categories) _
        rw [meaning_weighted]
        exact .bind _ fun id ↦ (read.bind_left _).bind_right _
      | complete weight last shorter' =>
        rw [outcome'] at read
        obtain ⟨same', offers⟩ := read
        refine gets_complete ?_ offers
        rw [meaning_weighted, same']

theorem read_term (isFactor : (Part.factor first).Read categories a)
    (areOperands : (Part.operands others).Read categories b)
    (signs : ∀ kind ∈ b.head?, kind = caret) :
    (Part.term (.chained first others)).Read categories (a ++ b) := by
  intro fits s rest behind offers
  rw [List.append_assoc] at offers
  exact gets_term isFactor areOperands signs (Tree.fits_chained_iff.mp fits) s behind offers

theorem read_noOperand : (Part.operands []).Read categories [] := rfl

theorem read_operand (isFactor : (Part.factor tree).Read categories a)
    (areOperands : (Part.operands trees).Read categories b)
    (signs : ∀ kind ∈ b.head?, kind = caret) :
    (Part.operands (tree :: trees)).Read categories (caret :: (a ++ b)) := by
  intro fits
  refine ⟨a ++ b, rfl, fun s rest behind offers ↦ ?_⟩
  rw [List.append_assoc] at offers
  exact gets_term isFactor areOperands signs fits s behind offers

/-! ### Factors -/

theorem read_reference (name : String) :
    (Part.factor (.reference name)).Read categories [identifier name] := by
  intro _ s rest _ offers
  have here : s.current.kind = identifier name := offers.current
  obtain ⟨next, passed, offers⟩ := offers.exists_pass (by simp [here])
  rw [Grammar.factor]
  split
  · rename_i found
    cases found.symm.trans here
  · rename_i other found
    cases found.symm.trans here
    rw [passed]
    refine gets_complete ?_ offers
    rw [meaning_reference, Tree.run]
  · rename_i found
    cases found.symm.trans here
  · rename_i other _
    exact absurd here (other name)

/-- A factor that starts with a bracket is a primitive sort. -/
theorem factor_of_bracket (here : s.current.kind = openBracket) :
    Grammar.factor categories s = Grammar.primitive categories s := by
  rw [Grammar.factor]
  split
  · rename_i found
    cases found.symm.trans here
  · rename_i found
    cases found.symm.trans here
  · rfl
  · rename_i other
    exact absurd here other

theorem read_bare (tag : String) :
    (Part.factor (.primitive tag none)).Read categories (tagged tag) := by
  rintro ⟨shape, known, -⟩ s rest behind offers
  obtain ⟨place, inner, read, offers'⟩ := exists_tag offers
  have noArgument : startsArgument inner.1.current.kind = false := by
    rw [offers'.current]
    cases rest with
    | nil => rfl
    | cons kind rest =>
      have starts : ∀ kind ∈ caret :: plus :: enders, startsArgument kind = false := by decide
      exact starts kind (behind kind rfl)
  have same : (Phrase.primitive s.current.position tag none).meaning categories =
      (Tree.primitive tag none).run categories := by
    rw [meaning_primitive, Tree.run]
  rw [factor_of_bracket offers.current, Grammar.primitive, read]
  cases shape <;> simp only [known, noArgument] <;> exact gets_complete same offers'

theorem read_primitive {given : Literal} (tag : String) (isLiteral : DerivesLiteral given a) :
    (Part.factor (.primitive tag (some given))).Read categories (tagged tag ++ a) := by
  rintro ⟨shape, known, suits⟩ s rest _ offers
  rw [List.append_assoc] at offers
  obtain ⟨place, inner, read, offers'⟩ := exists_tag offers
  obtain ⟨starts, last, given', offers'⟩ := exists_literal isLiteral (suits _ rfl) offers' tag
  have same : (Phrase.primitive s.current.position tag (some given)).meaning categories =
      (Tree.primitive tag (some given)).run categories := by
    rw [meaning_primitive, Tree.run]
  rw [factor_of_bracket offers.current, Grammar.primitive, read]
  cases shape with
  | nothing => cases isLiteral <;> exact absurd (suits _ rfl) id
  | sorts arity => cases isLiteral <;> exact absurd (suits _ rfl) id
  | _ =>
    simp only [known, starts, given']
    exact gets_complete same offers'

end Grammar

end CompositeSorts
