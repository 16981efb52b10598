import CompositeSorts.Proofs.Definition.Items
import CompositeSorts.Proofs.Definition.Wording
import CompositeSorts.Proofs.Registry.Reachable
import CompositeSorts.Proofs.Source.Lookahead

/-!
Compiling texts. A text that a program was written as defines what the program does
(`defineAll_written`): the answer holds the same sorts and the registry has the same catalog, or
both are refused for the same cause and what was made is removed again. Blanks, comments and
parentheses make no difference, nor does anything else in which two texts of one program differ.

A reader takes a token back only behind the one that it moved over, so taking it back never fails
(`compiles_written`).
-/

set_option autoImplicit false
set_option relaxedAutoImplicit false

namespace CompositeSorts

open Grammar

namespace Registry

variable {r : Registry} {trees : List Tree} {kinds : List TokenKind} {text : String}

/-- The answer and the registry after a text that came to this outcome in a session. Where in the
text a problem is remains open. -/
def Comes (r : Registry) (outcome : EStateM.Result (Stop ProblemCause) Catalog (List SortId))
    (answer : Answer (Stop Problem) (List SortId)) : Prop :=
  match outcome with
  | .ok ids c => answer = (.ok ids, { r with catalog := c.note (.definitionsCompiled ids.length) })
  | .error .abandoned c => answer = (.error .abandoned, { r with catalog := c })
  | .error (.refused cause) c => ∃ position,
      answer = (.error (.refused ⟨cause, position⟩),
        let (removed, undone) := undo { r with catalog := c }
        { undone with
          catalog :=
            undone.catalog.note (.definitionFailed removed (Problem.text ⟨cause, position⟩)) })

/-- What a text came to, without the place of a problem, is what its answer goes by. -/
theorem comes_defineAll (r : Registry) (text : String) :
    r.Comes ((evaluateText r.categories text).placeless r.catalog.openSession)
    (r.defineAll text) := by
  unfold Evaluation.placeless defineAll
  cases evaluateText r.categories text r.catalog.openSession with
  | ok ids c => exact rfl
  | error reason c =>
    cases reason with
    | abandoned => exact rfl
    | refused problem => exact ⟨problem.position, rfl⟩

/-- A text does what the program does that it was written for. -/
theorem placeless_evaluateText {categories : CategoryTable} (fits : Tree.AllFit categories trees)
    (written : Derives (.program trees) kinds) (layout : Layout kinds text.toList) :
    (evaluateText categories text).placeless = Tree.runAll categories trees := by
  obtain ⟨s, read, offers⟩ := TokenStream.offers_ofText layout written.keptApart
  rw [evaluateText, read]
  exact meaningAll_program written fits offers

theorem defineAll_written (fits : Tree.AllFit r.categories trees)
    (written : Derives (.program trees) kinds) (layout : Layout kinds text.toList) :
    r.Comes (Tree.runAll r.categories trees r.catalog.openSession) (r.defineAll text) := by
  rw [← placeless_evaluateText fits written layout]
  exact comes_defineAll r text

/-- A text is refused for what its wording knows, where it knows it. -/
theorem finds_of_defineAll {w : Wording}
    (worded : Yields w (TokenStream.ofText text) fun s ↦ s.Worded w) {problem : Problem}
    (refused : (r.defineAll text).1 = .error (.refused problem)) : w.Finds problem := by
  have known : Evaluation.FailsWith w.Finds (evaluateText r.categories text) := by
    unfold evaluateText
    cases read : TokenStream.ofText text with
    | ok stream =>
      exact Phrase.failsWithAll _ (worded_program r.categories stream (worded.1 stream read))
    | error problem =>
      refine Evaluation.FailsWith.throw ?_
      rintro _ ⟨⟩
      exact worded.2 problem read
  unfold defineAll at refused
  cases run : evaluateText r.categories text r.catalog.openSession with
  | ok ids c =>
    rw [run] at refused
    cases refused
  | error reason c =>
    rw [run] at refused
    cases reason with
    | abandoned => cases refused
    | refused other =>
      cases refused
      exact known _ _ _ run

/-- No text is refused because a token was pushed back twice. -/
theorem defineAll_ne_pushedTwice (r : Registry) (text : String) (position : Position) :
    (r.defineAll text).1 ≠ .error (.refused ⟨.pushedTwice, position⟩) := by
  intro refused
  exact (finds_of_defineAll (TokenStream.worded_ofText text) refused).1 rfl

/-- Whatever program is written as a text, in any layout and with any parentheses, the text defines
what the program does. No text is refused because a token was pushed back twice: a reader that moves
over a token can take it back, also when it has looked ahead in between. -/
theorem compiles_written (r : Registry) :
    (∀ (trees : List Tree) (kinds : List TokenKind) (text : String),
      Tree.AllFit r.categories trees → Derives (.program trees) kinds → Layout kinds text.toList →
      r.Comes (Tree.runAll r.categories trees r.catalog.openSession) (r.defineAll text)) ∧
    (∀ (text : String) (position : Position),
      (r.defineAll text).1 ≠ .error (.refused ⟨.pushedTwice, position⟩)) ∧
    ∀ (c moved looked : Cursor) (s : TokenStream) (token : Token), c.Tracks s →
      c.current.kind ≠ .endOfInput → c.advance = (.ok token, moved) →
      (looked = moved ∨
        moved.current.kind ≠ .endOfInput ∧ ∃ seen, moved.preview = (.ok seen, looked)) →
      ∃ back, looked.pushBack token = (.ok (), back) ∧ back.Tracks s :=
  ⟨fun _ _ _ fits written layout ↦ defineAll_written fits written layout,
    defineAll_ne_pushedTwice r,
    fun _ _ _ _ _ tracks proper advanced between ↦ tracks.retreat proper advanced between⟩

/-- A definition that mentions itself. -/
def loop : Tree := .definition "x" (.sum (.reference "x") [.primitive "Flag" none])

/-- Its tokens, with parentheses around the body and a `;` behind it. -/
def loopTokens : List TokenKind :=
  [.identifier "x", .colon, .openParen, .identifier "x", .plus, .openBracket, .identifier "Flag",
    .closeBracket, .closeParen, .semicolon]

theorem derives_loop : Derives (.program [loop]) loopTokens := by
  have name : Derives (.term (.reference "x")) [.identifier "x"] :=
    .term (.reference "x") .noOperand
  have flag : Derives (.term (.primitive "Flag" none)) (tagged "Flag") :=
    .term (.bare "Flag") .noOperand
  have sum : Derives (.expression (.sum (.reference "x") [.primitive "Flag" none]))
      [.identifier "x", .plus, .openBracket, .identifier "Flag", .closeBracket] :=
    .expression name (.summand flag .noSummand)
  exact .closedItem (.definition "x" (.expression (.term (.parenthesised (.plain sum)) .noOperand)
    .noSummand))

theorem layout_loop : Layout loopTokens "x: (x + [Flag]) # end\n;".toList := by
  have blank : Trivia [' '] := .blank (by decide +kernel) .nil
  have remark : Comment "# end".toList := .hash (by decide)
  have behind : Trivia " # end\n".toList := .blank (by decide +kernel) (.comment remark .nil)
  have word (name : String) (isWord : Text.isIdentifier name.toList = true) :
      (TokenKind.identifier name).Writes name.toList := .identifier isWord
  have x := word "x" (by decide +kernel)
  have flag := word "Flag" (by decide +kernel)
  have sign (c : Char) {kind : TokenKind} (h : TokenKind.ofPunctuation c = some kind) :
      kind.Writes [c] := .punctuation h
  exact .cons .nil x (.cons .nil (sign ':' rfl) (.cons blank (sign '(' rfl) (.cons .nil x
    (.cons blank (sign '+' rfl) (.cons blank (sign '[' rfl) (.cons .nil flag
    (.cons .nil (sign ']' rfl) (.cons .nil (sign ')' rfl) (.cons behind (sign ';' rfl)
    (.nil .nil))))))))))

/-- The text, with its comment and its parentheses, defines the one sort that the program does. A
cursor on the text can take back the first token. -/
theorem compiles_loop :
    let text := "x: (x + [Flag]) # end\n;"
    sample.Comes (Tree.runAll sample.categories [loop] sample.catalog.openSession)
        (sample.defineAll text) ∧
      (sample.defineAll text).1.toOption.map List.length = some 1 ∧
      ∃ c s token moved back, Cursor.ofText text = .ok c ∧ TokenStream.ofText text = .ok s ∧
        c.advance = (.ok token, moved) ∧ moved.pushBack token = (.ok (), back) ∧
        back.Tracks s := by
  intro text
  have fits : Tree.AllFit sample.categories [loop] :=
    ⟨⟨trivial, ⟨.nothing, by decide +kernel, by rintro _ ⟨⟩⟩, trivial⟩, trivial⟩
  obtain ⟨written, -, takesBack⟩ := compiles_written sample
  refine ⟨written _ _ _ fits derives_loop layout_loop, by decide +kernel, ?_⟩
  have seen : ((Cursor.ofText text).toOption.any fun c ↦
      decide (c.current.kind ≠ .endOfInput) && c.advance.1.toOption.isSome) = true := by
    decide +kernel
  have tracks := Cursor.tracks_ofText text
  cases begun : Cursor.ofText text with
  | error problem =>
    rw [begun] at seen
    cases seen
  | ok c =>
    rw [begun] at tracks seen
    obtain ⟨s, made, tracks⟩ := tracks
    obtain ⟨proper, moves⟩ := Bool.and_eq_true_iff.mp seen
    cases advanced : c.advance with
    | mk outcome moved =>
      rw [advanced] at moves
      cases outcome with
      | error problem => cases moves
      | ok token =>
        obtain ⟨back, takenBack, same⟩ :=
          takesBack c moved moved s token tracks (of_decide_eq_true proper) advanced (.inl rfl)
        exact ⟨c, s, token, moved, back, rfl, made, advanced, takenBack, same⟩

end Registry

end CompositeSorts
