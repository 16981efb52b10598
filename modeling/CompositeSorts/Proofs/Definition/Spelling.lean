import CompositeSorts.Definition.Grammar
import CompositeSorts.Proofs.Source.Spelling

/-!
The wording of phrases. The names, tags and numbers of a phrase that was read from a text are tokens
of the text, the problems in it are those of the scanner or of the grammar, and its places are those
of tokens (`Phrase.Worded`); an argument is one that its category takes; and one phrase comes after
others only where the text is cut short, so that the whole is never evaluated to its end. The
readers of the grammar are gone through one by one (`worded_program`); they call each other, and
what one reads gets shorter every time.

No mark stands in a token of a text, so none stands in the names, tags and numbers of its phrases
(`spelled_program`).
-/

set_option autoImplicit false
set_option relaxedAutoImplicit false

namespace CompositeSorts

open Text

/-- A number as an argument is unmarked. -/
def Literal.Spelled : Literal → Prop
  | .bound lexeme => Unmarked lexeme
  | _ => True

/-- The evaluation of the phrase gets to a point behind which the text was not read. -/
def Phrase.Broken : Phrase → Prop
  | .weighted _ base weight => base.Broken ∨ weight.Broken
  | .sum _ left right => left.Broken ∨ right.Broken
  | .definition _ _ body => body.Broken
  | .after _ last => last.Broken
  | .stop _ => True
  | _ => False

/-- The argument is one that a category of the shape takes. -/
def Argument.Suits : Argument → ParamShape → Prop
  | .identifier _, .identifier => True
  | .bound _, .bound => True
  | .locale _ _, .locale => True
  | .sorts linked, .sorts arity => linked.length = arity
  | _, _ => False

variable {categories : CategoryTable}

mutual

/-- Names, tags and numbers are unmarked, arguments suit their categories, and nothing that can be
evaluated to its end comes after other phrases. -/
def Phrase.Spelled (categories : CategoryTable) : Phrase → Prop
  | .reference _ name => Unmarked name
  | .primitive _ tag argument => Unmarked tag ∧ ∀ literal, argument = some literal →
      literal.Spelled ∧ ∃ shape, categories.shape? tag = some shape ∧ literal.argument.Suits shape
  | .linked _ tag arguments => Unmarked tag ∧ AllSpelled categories arguments ∧
      categories.shape? tag = some (.sorts arguments.length)
  | .weighted _ base weight => base.Spelled categories ∧ weight.Spelled categories
  | .sum _ left right => left.Spelled categories ∧ right.Spelled categories
  | .definition _ name body => Unmarked name ∧ body.Spelled categories
  | .aspects _ tag names arguments =>
    Unmarked tag ∧ (∀ name ∈ names, Unmarked name) ∧ AllSpelled categories arguments
  | .after earlier last => AllSpelled categories earlier ∧ last.Spelled categories ∧ last.Broken
  | .stop _ => True

/-- Each of the phrases is spelled in this way. -/
def Phrase.AllSpelled (categories : CategoryTable) : List Phrase → Prop
  | [] => True
  | phrase :: phrases => phrase.Spelled categories ∧ AllSpelled categories phrases

end

/-- What is known of the tokens of a text, of the problems in it and of their places. The grammar
finds any problem but one: that a token is pushed back twice. -/
structure Wording where
  token : TokenKind → Prop
  problem : ProblemCause → Prop
  place : Position → Prop
  own : ∀ cause, cause ≠ .pushedTwice → problem cause

/-- The token and its place are of this wording. -/
def Wording.Has (w : Wording) (token : Token) : Prop := w.token token.kind ∧ w.place token.position

/-- The problem and its place are of this wording. -/
def Wording.Finds (w : Wording) (problem : Problem) : Prop :=
  w.problem problem.cause ∧ w.place problem.position

/-- The number of an argument is a token of this wording. -/
def Literal.Worded (w : Wording) : Literal → Prop
  | .bound lexeme => w.token (.number lexeme)
  | _ => True

mutual

/-- Names, tags, numbers, problems and places are of this wording, arguments suit their categories,
and nothing that can be evaluated to its end comes after other phrases. -/
def Phrase.Worded (w : Wording) (categories : CategoryTable) : Phrase → Prop
  | .reference position name => w.place position ∧ w.token (.identifier name)
  | .primitive position tag argument => w.place position ∧ w.token (.identifier tag) ∧
      ∀ literal, argument = some literal → literal.Worded w ∧
        ∃ shape, categories.shape? tag = some shape ∧ literal.argument.Suits shape
  | .linked position tag arguments => w.place position ∧ w.token (.identifier tag) ∧
      AllWorded w categories arguments ∧
      categories.shape? tag = some (.sorts arguments.length) ∧ arguments ≠ []
  | .weighted position base weight =>
    w.place position ∧ base.Worded w categories ∧ weight.Worded w categories
  | .sum position left right =>
    w.place position ∧ left.Worded w categories ∧ right.Worded w categories
  | .definition position name body =>
    w.place position ∧ w.token (.identifier name) ∧ body.Worded w categories
  | .aspects position tag names arguments => w.place position ∧ w.token (.identifier tag) ∧
      (∀ name ∈ names, w.token (.identifier name)) ∧ AllWorded w categories arguments
  | .after earlier last => AllWorded w categories earlier ∧ last.Worded w categories ∧ last.Broken
  | .stop reason => ∀ problem, reason = .refused problem → w.Finds problem

/-- Each of the phrases is of this wording. -/
def Phrase.AllWorded (w : Wording) (categories : CategoryTable) : List Phrase → Prop
  | [] => True
  | phrase :: phrases => phrase.Worded w categories ∧ AllWorded w categories phrases

end

/-- What comes last, the end of the input or a problem, is of this wording. -/
def Wording.Ends (w : Wording) (final : Except Problem Position) : Prop :=
  (∀ problem, final = .error problem → w.Finds problem) ∧
    ∀ position, final = .ok position → w.Has ⟨.endOfInput, position⟩

/-- The tokens and what comes last are of this wording. -/
structure TokenStream.Worded (w : Wording) (s : TokenStream) : Prop where
  current : w.Has s.current
  behind : ∀ token ∈ s.behind, w.Has token
  ends : w.Ends s.final

variable {w : Wording}

namespace Phrase

theorem allWorded_append {before after : List Phrase} :
    AllWorded w categories (before ++ after) ↔
      AllWorded w categories before ∧ AllWorded w categories after := by
  induction before with
  | nil => simp [AllWorded]
  | cons phrase before ih => simp [AllWorded, ih, and_assoc]

theorem allWorded_singleton {phrase : Phrase} (h : phrase.Worded w categories) :
    AllWorded w categories [phrase] := ⟨h, trivial⟩

theorem worded_stop {problem : Problem} (h : w.Finds problem) :
    (Phrase.stop (.refused problem)).Worded w categories := by
  rintro _ ⟨⟩
  exact h

theorem worded_fails {earlier : List Phrase} (h : AllWorded w categories earlier)
    {problem : Problem}
    (known : w.Finds problem) : (Phrase.fails earlier problem).Worded w categories ∧
      (Phrase.fails earlier problem).Broken :=
  ⟨⟨h, worded_stop known, trivial⟩, trivial⟩

end Phrase

/-- A value meets the condition, a problem is of this wording. -/
def Yields (w : Wording) {α : Type} (m : Except Problem α) (condition : α → Prop) : Prop :=
  (∀ value, m = .ok value → condition value) ∧ ∀ problem, m = .error problem → w.Finds problem

namespace Yields

variable {α β : Type} {m : Except Problem α} {condition : α → Prop}

theorem ok {value : α} (h : condition value) : Yields w (.ok value) condition := by
  refine ⟨?_, by rintro _ ⟨⟩⟩
  rintro _ ⟨⟩
  exact h

theorem error {problem : Problem} (h : w.Finds problem) :
    Yields w (.error problem) condition := by
  refine ⟨by rintro _ ⟨⟩, ?_⟩
  rintro _ ⟨⟩
  exact h

theorem bind {f : α → Except Problem β} {next : β → Prop} (h : Yields w m condition)
    (h' : ∀ value, condition value → Yields w (f value) next) : Yields w (m >>= f) next := by
  cases m with
  | error problem => exact error (h.2 problem rfl)
  | ok value => exact h' value (h.1 value rfl)

end Yields

namespace TokenStream

variable {s : TokenStream}

theorem worded_ofTokens {tokens : List Token} {final : Except Problem Position}
    (worded : ∀ token ∈ tokens, w.Has token) (ends : w.Ends final) :
    Yields w (ofTokens tokens final) fun s ↦ s.Worded w := by
  unfold ofTokens
  split
  · exact Yields.ok ⟨worded _ List.mem_cons_self, fun token inside ↦
      worded token (List.mem_cons_of_mem _ inside), ends⟩
  · cases final with
    | error problem => exact Yields.error (ends.1 problem rfl)
    | ok position => exact Yields.ok ⟨ends.2 position rfl, by simp, ends⟩

theorem yields_advance (h : s.Worded w) : Yields w s.advance fun next ↦ next.Worded w :=
  worded_ofTokens h.behind h.ends

/-- The grammar finds a problem at the current token. -/
theorem finds_unexpected (h : s.Worded w) (expected : Expectation) :
    w.Finds (s.unexpected expected) := ⟨w.own _ nofun, h.current.2⟩

theorem yields_pass (h : s.Worded w) (proper : s.current.kind ≠ .endOfInput) :
    Yields w (s.pass proper) fun rest ↦ rest.1.Worded w := by
  have moves := yields_advance h
  unfold pass
  split
  · exact Yields.ok (moves.1 _ ‹_›)
  · exact Yields.error (moves.2 _ ‹_›)

theorem yields_expect (h : s.Worded w) (kind : TokenKind) (proper : kind ≠ .endOfInput) :
    Yields w (s.expect kind proper) fun rest ↦ rest.1.Worded w := by
  unfold expect
  split_ifs
  · exact yields_pass h _
  · exact Yields.error (finds_unexpected h _)

theorem yields_expectName (h : s.Worded w) :
    Yields w s.expectName fun read ↦ w.token (.identifier read.1) ∧ read.2.1.Worded w := by
  unfold expectName
  split
  · rename_i name here
    refine Yields.bind (yields_pass h _) fun rest worded ↦ Yields.ok ⟨?_, worded⟩
    exact here ▸ h.current.1
  · exact Yields.error (finds_unexpected h _)

theorem yields_expectWord (h : s.Worded w) :
    Yields w s.expectWord fun read ↦ read.2.1.Worded w := by
  unfold expectWord
  split
  · exact Yields.bind (yields_pass h _) fun rest worded ↦ Yields.ok worded
  · exact Yields.bind (yields_pass h _) fun rest worded ↦ Yields.ok worded
  · exact Yields.error (finds_unexpected h _)

theorem known_peek (h : s.Worded w) {problem : Problem} (failed : s.peek = .error problem) :
    w.Finds problem := by
  unfold peek at failed
  cases moved : s.advance with
  | ok next =>
    rw [moved] at failed
    cases failed
  | error other =>
    rw [moved] at failed
    cases failed
    exact (yields_advance h).2 _ moved

end TokenStream

namespace Grammar

open TokenStream

variable {s : TokenStream}

theorem yields_tag (h : s.Worded w) :
    Yields w (tag s) fun read ↦
      (w.token (.identifier read.1) ∧ w.place read.2.1) ∧ read.2.2.1.Worded w := by
  refine Yields.bind (yields_expect h _ _) fun inner first ↦ ?_
  refine Yields.bind (yields_expectName first) fun named second ↦ ?_
  refine Yields.bind (yields_expect second.2 _ _) fun rest third ↦ ?_
  exact Yields.ok ⟨⟨second.1, first.current.2⟩, third⟩

theorem yields_moreNames (s : TokenStream) (h : s.Worded w) :
    Yields w (moreNames s) fun read ↦
      (∀ name ∈ read.1, w.token (.identifier name)) ∧ read.2.1.Worded w := by
  rw [moreNames]
  split_ifs
  · refine Yields.bind (yields_expect h _ _) fun behind first ↦ ?_
    refine Yields.bind (yields_expectName first) fun named second ↦ ?_
    refine Yields.bind (yields_moreNames named.2.1 second.2) fun more third ↦ ?_
    refine Yields.ok ⟨fun name inside ↦ ?_, third.2⟩
    rcases List.mem_cons.mp inside with rfl | inside
    · exact second.1
    · exact third.1 name inside
  · exact Yields.ok ⟨by simp, h⟩
termination_by s.size
decreasing_by exact Nat.lt_trans named.2.2 behind.2

theorem yields_aspectsHeader (h : s.Worded w) :
    Yields w (aspectsHeader s) fun read ↦ (∀ name ∈ read.1, w.token (.identifier name)) ∧
      (w.token (.identifier read.2.1) ∧ w.place read.2.2.1) ∧ read.2.2.2.1.Worded w := by
  refine Yields.bind (yields_expect h _ _) fun inner first ↦ ?_
  refine Yields.bind (yields_expectName first) fun named second ↦ ?_
  refine Yields.bind (yields_moreNames _ second.2) fun others third ↦ ?_
  refine Yields.bind (yields_expect third.2 _ _) fun outer fourth ↦ ?_
  refine Yields.bind (yields_expect fourth _ _) fun bracket fifth ↦ ?_
  refine Yields.bind (yields_tag fifth) fun category sixth ↦ ?_
  refine Yields.ok ⟨fun name inside ↦ ?_, sixth⟩
  rcases List.mem_cons.mp inside with rfl | inside
  · exact second.1
  · exact third.1 name inside

theorem yields_wordPair (h : s.Worded w) :
    Yields w (wordPair s) fun read ↦
      (read.1.Worded w ∧ read.1.argument.Suits .locale) ∧ read.2.1.Worded w := by
  refine Yields.bind (yields_expect h _ _) fun inner first ↦ ?_
  refine Yields.bind (yields_expectWord first) fun language second ↦ ?_
  refine Yields.bind (yields_expect second _ _) fun comma third ↦ ?_
  refine Yields.bind (yields_expectWord third) fun region fourth ↦ ?_
  refine Yields.bind (yields_expect fourth _ _) fun rest fifth ↦ ?_
  exact Yields.ok ⟨⟨trivial, trivial⟩, fifth⟩

theorem yields_literal (h : s.Worded w) (name : String) (shape : ParamShape) :
    Yields w (literal name shape s) fun read ↦
      (read.1.Worded w ∧ read.1.argument.Suits shape) ∧ read.2.1.Worded w := by
  have mismatch (shape : ParamShape) : Yields w
      (.error ⟨.mismatch name shape s.current.kind, s.current.position⟩ :
        Except Problem (Literal × s.Shorter)) fun read ↦
      (read.1.Worded w ∧ read.1.argument.Suits shape) ∧ read.2.1.Worded w :=
    Yields.error ⟨w.own _ nofun, h.current.2⟩
  unfold literal
  split
  · split
    · exact Yields.bind (yields_pass h _) fun rest worded ↦ Yields.ok ⟨⟨trivial, trivial⟩, worded⟩
    · exact Yields.bind (yields_pass h _) fun rest worded ↦ Yields.ok ⟨⟨trivial, trivial⟩, worded⟩
    · exact mismatch _
  · split
    · rename_i lexeme here
      have current : w.token (.number lexeme) := here ▸ h.current.1
      exact Yields.bind (yields_pass h _) fun rest worded ↦ Yields.ok ⟨⟨current, trivial⟩, worded⟩
    · exact mismatch _
  · split_ifs
    · exact yields_wordPair h
    · exact mismatch _
  · exact mismatch _

/-! ### The readers -/

/-- What was read meets the condition and leaves tokens of the wording, or the phrase of a text that
is cut short is of the wording and broken. -/
def Reads (w : Wording) (categories : CategoryTable) {α : Type} {bound : Nat}
    (condition : α → Prop) :
    Outcome α bound → Prop
  | .complete value rest _ => condition value ∧ rest.Worded w
  | .cut phrase => phrase.Worded w categories ∧ phrase.Broken

theorem reads_stopped {α : Type} {bound : Nat} (condition : α → Prop) {problem : Problem}
    (known : w.Finds problem) :
    Reads w categories condition (stopped problem : Outcome α bound) :=
  ⟨Phrase.worded_stop known, trivial⟩

theorem reads_abandoned {α : Type} {bound : Nat} (condition : α → Prop) :
    Reads w categories condition (.cut (.stop .abandoned) : Outcome α bound) :=
  ⟨by rintro _ ⟨⟩, trivial⟩

theorem reads_closing {inner : TokenStream} {bound : Nat} {outcome : Outcome Phrase inner.size}
    (h : Reads w categories (Phrase.Worded w categories) outcome) (shorter : inner.size < bound) :
    Reads w categories (Phrase.Worded w categories) (closing bound outcome shorter) := by
  unfold closing
  cases outcome with
  | cut phrase => exact h
  | complete phrase rest _ =>
    have closes := yields_expect h.2 .closeParen (by decide)
    dsimp only
    split
    · exact Phrase.worded_fails (Phrase.allWorded_singleton h.1) (closes.2 _ ‹_›)
    · exact ⟨h.1, closes.1 _ ‹_›⟩

variable (categories : CategoryTable)

mutual

theorem reads_expression (s : TokenStream) (h : s.Worded w) :
    Reads w categories (Phrase.Worded w categories) (expression categories s) := by
  rw [expression]
  have first := reads_term s h
  cases read : term categories s with
  | cut phrase =>
    rw [read] at first
    exact first
  | complete phrase rest shorter =>
    rw [read] at first
    exact reads_summands s.size phrase rest shorter first.1 first.2
termination_by s.size * 4 + 3

theorem reads_summands (bound : Nat) (left : Phrase) (s : TokenStream) (shorter : s.size < bound)
    (before : left.Worded w categories) (h : s.Worded w) :
    Reads w categories (Phrase.Worded w categories) (summands categories bound left s shorter) := by
  rw [summands]
  split_ifs with plus
  · have passes := yields_pass h (by simp [plus])
    split
    · exact Phrase.worded_fails (Phrase.allWorded_singleton before) (passes.2 _ ‹_›)
    · rename_i behind h₁ passed
      have next := reads_term behind (passes.1 _ passed)
      cases read : term categories behind with
      | cut right =>
        rw [read] at next
        exact ⟨⟨h.current.2, before, next.1⟩, Or.inr next.2⟩
      | complete right rest h₂ =>
        rw [read] at next
        exact reads_summands bound _ rest _ ⟨h.current.2, before, next.1⟩ next.2
  · exact ⟨before, h⟩
termination_by s.size * 4

theorem reads_term (s : TokenStream) (h : s.Worded w) :
    Reads w categories (Phrase.Worded w categories) (term categories s) := by
  rw [term]
  have first := reads_factor s h
  cases read : factor categories s with
  | cut phrase =>
    rw [read] at first
    exact first
  | complete base rest h₁ =>
    rw [read] at first
    dsimp only
    split_ifs with caret
    · have passes := yields_pass first.2 (by simp [caret])
      split
      · exact Phrase.worded_fails (Phrase.allWorded_singleton first.1) (passes.2 _ ‹_›)
      · rename_i behind h₂ passed
        have next := reads_term behind (passes.1 _ passed)
        cases read' : term categories behind with
        | cut weight =>
          rw [read'] at next
          exact ⟨⟨h.current.2, first.1, next.1⟩, Or.inr next.2⟩
        | complete weight last h₃ =>
          rw [read'] at next
          exact ⟨⟨h.current.2, first.1, next.1⟩, next.2⟩
    · exact first
termination_by s.size * 4 + 2

theorem reads_factor (s : TokenStream) (h : s.Worded w) :
    Reads w categories (Phrase.Worded w categories) (factor categories s) := by
  rw [factor]
  split
  · have opens := yields_expect h .openParen (by decide)
    split
    · exact reads_stopped _ (opens.2 _ ‹_›)
    · rename_i inner h₁ opened
      have reached := opens.1 _ opened
      split
      · split
        · exact reads_stopped _ (known_peek reached ‹_›)
        · exact reads_aspects s h
        · exact reads_closing (reads_definition inner reached) h₁
        · exact reads_closing (reads_expression inner reached) h₁
      · exact reads_closing (reads_expression inner reached) h₁
  · rename_i name here
    have passes := yields_pass h (by simp [here])
    split
    · exact reads_stopped _ (passes.2 _ ‹_›)
    · rename_i rest h₁ passed
      have current : w.token (.identifier name) := here ▸ h.current.1
      exact ⟨⟨h.current.2, current⟩, passes.1 _ passed⟩
  · exact reads_primitive s h
  · exact reads_stopped _ (finds_unexpected h _)
termination_by s.size * 4 + 1

theorem reads_primitive (s : TokenStream) (h : s.Worded w) :
    Reads w categories (Phrase.Worded w categories) (primitive categories s) := by
  rw [primitive]
  have tags := yields_tag h
  split
  · exact reads_stopped _ (tags.2 _ ‹_›)
  · rename_i name place rest h₁ tagged
    obtain ⟨⟨worded, there⟩, reached⟩ := tags.1 _ tagged
    split
    · exact reads_abandoned _
    · exact reads_stopped _ ⟨w.own _ nofun, there⟩
    · exact ⟨⟨h.current.2, worded, by simp⟩, reached⟩
    · rename_i shape _ known
      have shaped := ((categories.lookup_eq_known_iff name shape).mp known).2
      split_ifs
      · split
        · rename_i arity _ _
          have next := reads_tuple name arity rest reached
          cases read : tuple categories name arity rest with
          | cut phrase =>
            rw [read] at next
            exact next
          | complete arguments last h₂ =>
            rw [read] at next
            obtain ⟨⟨all, rfl, some⟩, behind⟩ := next
            exact ⟨⟨h.current.2, worded, all, shaped, some⟩, behind⟩
        · split
          · exact reads_stopped _ ((yields_literal reached name _).2 _ ‹_›)
          · rename_i argument last h₂ given
            obtain ⟨⟨text, suits⟩, behind⟩ := (yields_literal reached name _).1 _ given
            refine ⟨⟨h.current.2, worded, ?_⟩, behind⟩
            rintro literal ⟨⟩
            exact ⟨text, _, shaped, suits⟩
      · exact ⟨⟨h.current.2, worded, by simp⟩, reached⟩
termination_by s.size * 4

theorem reads_aspects (s : TokenStream) (h : s.Worded w) :
    Reads w categories (Phrase.Worded w categories) (aspects categories s) := by
  rw [aspects]
  have heads := yields_aspectsHeader h
  split
  · exact reads_stopped _ (heads.2 _ ‹_›)
  · rename_i names name place rest h₁ header
    obtain ⟨worded, ⟨tagged, there⟩, reached⟩ := heads.1 _ header
    split
    · exact reads_abandoned _
    · exact reads_stopped _ ⟨w.own _ nofun, there⟩
    · rename_i arity _
      split_ifs
      · exact reads_stopped _ ⟨w.own _ nofun, h.current.2⟩
      · exact reads_stopped _ (finds_unexpected reached _)
      · have next := reads_tuple name arity rest reached
        cases read : tuple categories name arity rest with
        | cut phrase =>
          rw [read] at next
          exact next
        | complete arguments last h₂ =>
          rw [read] at next
          exact ⟨⟨h.current.2, tagged, worded, next.1.1⟩, next.2⟩
    · exact reads_stopped _ ⟨w.own _ nofun, there⟩
termination_by s.size * 4

theorem reads_definition (s : TokenStream) (h : s.Worded w) :
    Reads w categories (Phrase.Worded w categories) (definition categories s) := by
  rw [definition]
  have names := yields_expectName h
  split
  · exact reads_stopped _ (names.2 _ ‹_›)
  · rename_i name colon h₁ named
    obtain ⟨worded, reached⟩ := names.1 _ named
    have colons := yields_expect reached .colon (by decide)
    split
    · exact reads_stopped _ (colons.2 _ ‹_›)
    · rename_i start h₂ passed
      have next := reads_expression start (colons.1 _ passed)
      cases read : expression categories start with
      | cut body =>
        rw [read] at next
        exact ⟨⟨h.current.2, worded, next.1⟩, next.2⟩
      | complete body rest h₃ =>
        rw [read] at next
        exact ⟨⟨h.current.2, worded, next.1⟩, next.2⟩
termination_by s.size * 4

theorem reads_tuple (name : String) (arity : Nat) (s : TokenStream) (h : s.Worded w) :
    Reads w categories (fun arguments ↦ Phrase.AllWorded w categories arguments ∧
      arguments.length = arity ∧ arguments ≠ []) (tuple categories name arity s) := by
  rw [tuple]
  have opens := yields_expect h .openParen (by decide)
  split
  · exact reads_stopped _ (opens.2 _ ‹_›)
  · rename_i inner h₁ opened
    have first := reads_expression inner (opens.1 _ opened)
    cases read : expression categories inner with
    | cut phrase =>
      rw [read] at first
      exact first
    | complete phrase rest h₂ =>
      rw [read] at first
      dsimp only
      have others := reads_elements s.size [phrase] rest (by omega) ⟨first.1, trivial⟩
        (List.cons_ne_nil _ _) first.2
      cases read' : elements categories s.size [phrase] rest (by omega) with
      | cut phrase =>
        rw [read'] at others
        exact others
      | complete arguments last h₃ =>
        rw [read'] at others
        dsimp only
        split_ifs with enough
        · exact ⟨⟨others.1.1, enough, others.1.2⟩, others.2⟩
        · exact Phrase.worded_fails others.1.1 ⟨w.own _ nofun, h.current.2⟩
termination_by s.size * 4

theorem reads_elements (bound : Nat) (done : List Phrase) (s : TokenStream)
    (shorter : s.size < bound) (before : Phrase.AllWorded w categories done) (some : done ≠ [])
    (h : s.Worded w) : Reads w categories
      (fun arguments ↦ Phrase.AllWorded w categories arguments ∧ arguments ≠ [])
      (elements categories bound done s shorter) := by
  rw [elements]
  split_ifs with comma
  · have passes := yields_pass h (by simp [comma])
    split
    · exact Phrase.worded_fails before (passes.2 _ ‹_›)
    · rename_i behind h₁ passed
      have next := reads_expression behind (passes.1 _ passed)
      cases read : expression categories behind with
      | cut phrase =>
        rw [read] at next
        exact ⟨⟨before, next.1, next.2⟩, next.2⟩
      | complete phrase rest h₂ =>
        rw [read] at next
        exact reads_elements bound _ rest _ (Phrase.allWorded_append.mpr ⟨before, next.1, trivial⟩)
          (List.append_ne_nil_of_left_ne_nil some _) next.2
  · have closes := yields_expect h .closeParen (by decide)
    split
    · exact Phrase.worded_fails before (closes.2 _ ‹_›)
    · rename_i rest h₁ closed
      exact ⟨⟨before, some⟩, closes.1 _ closed⟩
termination_by s.size * 4

end

theorem reads_item (s : TokenStream) (h : s.Worded w) :
    Reads w categories (Phrase.Worded w categories) (item categories s) := by
  unfold item
  split
  · exact reads_stopped _ (finds_unexpected h _)
  · have moves := yields_advance h
    split
    · exact reads_stopped _ (moves.2 _ ‹_›)
    · rename_i inner moved
      split
      · split
        · exact reads_stopped _ (known_peek (moves.1 _ moved) ‹_›)
        · exact reads_aspects categories s h
        · exact reads_expression categories s h
      · exact reads_expression categories s h
  · split
    · exact reads_stopped _ (known_peek h ‹_›)
    · exact reads_definition categories s h
    · exact reads_expression categories s h
  · exact reads_expression categories s h

/-- The phrases of a text are of the wording that its tokens and its problem are of. -/
theorem worded_program (s : TokenStream) (h : s.Worded w) :
    Phrase.AllWorded w categories (program categories s) := by
  rw [program]
  have first := reads_item categories s h
  cases read : item categories s with
  | cut phrase =>
    rw [read] at first
    exact ⟨first.1, trivial⟩
  | complete phrase rest h₁ =>
    rw [read] at first
    dsimp only
    split
    · exact ⟨first.1, trivial⟩
    · have passes := yields_expect first.2 .semicolon (by decide)
      split
      · exact ⟨first.1, Phrase.worded_stop (passes.2 _ ‹_›), trivial⟩
      · rename_i behind h₂ passed
        split_ifs
        · exact ⟨first.1, trivial⟩
        · exact ⟨first.1, worded_program behind (passes.1 _ passed)⟩
    · exact ⟨first.1, Phrase.worded_stop (finds_unexpected first.2 _), trivial⟩
termination_by s.size

end Grammar

/-! ### Unmarked tokens -/

/-- Tokens without marks. -/
def Wording.unmarked : Wording :=
  ⟨TokenKind.Spelled, fun _ ↦ True, fun _ ↦ True, fun _ _ ↦ trivial⟩

mutual

theorem Phrase.Worded.spelled (phrase : Phrase) (h : phrase.Worded .unmarked categories) :
    phrase.Spelled categories := by
  match phrase with
  | .reference position name => exact h.2
  | .primitive position tag argument =>
    refine ⟨h.2.1, fun literal given ↦ ⟨?_, (h.2.2 literal given).2⟩⟩
    cases literal with
    | bound lexeme => exact (h.2.2 _ given).1
    | _ => trivial
  | .linked position tag arguments =>
    exact ⟨h.2.1, Phrase.AllWorded.spelled arguments h.2.2.1, h.2.2.2.1⟩
  | .weighted position base weight =>
    exact ⟨Phrase.Worded.spelled base h.2.1, Phrase.Worded.spelled weight h.2.2⟩
  | .sum position left right =>
    exact ⟨Phrase.Worded.spelled left h.2.1, Phrase.Worded.spelled right h.2.2⟩
  | .definition position name body => exact ⟨h.2.1, Phrase.Worded.spelled body h.2.2⟩
  | .aspects position tag names arguments =>
    exact ⟨h.2.1, h.2.2.1, Phrase.AllWorded.spelled arguments h.2.2.2⟩
  | .after earlier last =>
    exact ⟨Phrase.AllWorded.spelled earlier h.1, Phrase.Worded.spelled last h.2.1, h.2.2⟩
  | .stop reason => trivial

theorem Phrase.AllWorded.spelled (phrases : List Phrase)
    (h : AllWorded .unmarked categories phrases) :
    Phrase.AllSpelled categories phrases := by
  match phrases with
  | [] => trivial
  | phrase :: phrases =>
    exact ⟨Phrase.Worded.spelled phrase h.1, Phrase.AllWorded.spelled phrases h.2⟩

end

/-- The phrases of a text have unmarked names, tags and numbers. -/
theorem Grammar.spelled_program (categories : CategoryTable) (s : TokenStream) (h : s.Spelled) :
    Phrase.AllSpelled categories (program categories s) :=
  Phrase.AllWorded.spelled _ <| worded_program categories s
    ⟨⟨h.1, trivial⟩, fun token inside ↦ ⟨h.2 token inside, trivial⟩,
      fun _ _ ↦ ⟨trivial, trivial⟩, fun _ _ ↦ ⟨trivial, trivial⟩⟩

end CompositeSorts
