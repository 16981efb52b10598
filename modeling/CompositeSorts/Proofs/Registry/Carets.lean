import CompositeSorts.Proofs.Registry.Compiling
import CompositeSorts.Proofs.Source.Scanning

/-!
Carets. A text is refused at a place where something stands: a token, a lexeme that has a fault, or
the end of the text (`Landmark`). Shown in the text, the problem comes with the line that the place
is in and a caret below it (`rendered_of_defineAll`). The line is found by counting line feeds, as
the scanner counted them (`isSourceLine_sourceLine`), and it reaches up to the place at least, since
no blank stands there: a carriage return in front of a line feed is not shown, but it is behind the
place.
-/

set_option autoImplicit false
set_option relaxedAutoImplicit false

namespace CompositeSorts

open TokenStream

/-! ### Lines -/

/-- What is shown of a line of the text: the letters between two line feeds, or between one and an
end of the text, without a carriage return directly in front of the line feed. Lines count from
one. -/
def IsSourceLine (text : List Char) (number : Nat) (shown : List Char) : Prop :=
  ∃ front line back, text = front ++ (line ++ back) ∧ front.count '\n' + 1 = number ∧
    (∀ c ∈ front.getLast?, c = '\n') ∧ '\n' ∉ line ∧ (∀ c ∈ back.head?, c = '\n') ∧
    (shown = line ∧ (back = [] ∨ line.getLast? ≠ some '\r') ∨
      line = shown ++ ['\r'] ∧ back ≠ [])

theorem sourceLine_zero (text : List Char) : sourceLine 0 text = firstLine text := by
  cases text <;> rfl

theorem sourceLine_succ (number : Nat) (text : List Char) :
    sourceLine (number + 1) text =
      sourceLine number ((text.dropWhile (· ≠ '\n')).drop 1) := by
  cases text with
  | nil => cases number <;> rfl
  | cons c text => rfl

/-- Line feeds lead from line to line. -/
theorem sourceLine_append {front : List Char} (starts : ∀ c ∈ front.getLast?, c = '\n')
    (rest : List Char) : sourceLine (front.count '\n') (front ++ rest) = firstLine rest := by
  -- A line is left behind at each step, with its line feed; the lines in between may be empty.
  induction feeds : front.count '\n' generalizing front with
  | zero =>
    have none : front = [] := by
      by_contra some
      have last := starts _ (List.getLast_mem_getLast? some)
      exact List.count_eq_zero.mp feeds (last ▸ List.getLast_mem some)
    rw [none, List.nil_append, sourceLine_zero]
  | succ number ih =>
    have some : '\n' ∈ front := List.count_pos_iff.mp (by omega)
    obtain ⟨line, others, rfl, oneLine⟩ := List.eq_append_cons_of_mem some
    have letters : ∀ c ∈ line, decide (c ≠ '\n') = true := fun c inside ↦
      decide_eq_true (ne_of_mem_of_not_mem inside oneLine)
    have drops : ((line ++ '\n' :: others ++ rest).dropWhile (· ≠ '\n')).drop 1 =
        others ++ rest := by
      rw [List.append_assoc, dropWhile_exact letters (by rintro c ⟨⟩; rfl)]
      rfl
    rw [sourceLine_succ, drops]
    refine ih (fun c last ↦ starts c ?_) ?_
    · rw [Option.mem_def] at last ⊢
      rw [List.getLast?_append, List.getLast?_cons, last]
      rfl
    · rw [List.count_append, List.count_cons_self, List.count_eq_zero.mpr oneLine] at feeds
      omega

/-- What stands behind a line feed, or at the start of the text, begins with a line of it. -/
theorem isSourceLine_firstLine {front : List Char} (starts : ∀ c ∈ front.getLast?, c = '\n')
    (rest : List Char) :
    IsSourceLine (front ++ rest) (front.count '\n' + 1) (firstLine rest) := by
  have whole : rest.takeWhile (· ≠ '\n') ++ rest.dropWhile (· ≠ '\n') = rest :=
    List.takeWhile_append_dropWhile
  have oneLine : '\n' ∉ rest.takeWhile (· ≠ '\n') := fun inside ↦ by
    simpa using List.mem_takeWhile_imp inside
  have ends : ∀ c ∈ (rest.dropWhile (· ≠ '\n')).head?, c = '\n' := fun c first ↦ by
    simpa using head?_dropWhile c first
  have length := congrArg List.length whole
  rw [List.length_append] at length
  refine ⟨front, _, _, congrArg (front ++ ·) whole.symm, rfl, starts, oneLine, ends, ?_⟩
  unfold firstLine
  dsimp only
  split_ifs with cut
  · refine Or.inr ⟨?_, fun none ↦ ?_⟩
    · exact (List.dropLast_append_getLast? _ cut.2).symm
    · rw [none, List.length_nil] at length
      omega
  · refine Or.inl ⟨rfl, ?_⟩
    by_contra both
    rw [not_or, not_not] at both
    have some := List.length_pos_iff.mpr both.1
    exact cut ⟨by omega, both.2⟩

/-! ### Places -/

/-- A place is in the line behind the last line feed in front of it. -/
theorem Position.exists_line (before : List Char) :
    ∃ front start, before = front ++ start ∧ (∀ c ∈ front.getLast?, c = '\n') ∧ '\n' ∉ start ∧
      Position.behind before = ⟨front.count '\n' + 1, start.length + 1⟩ := by
  have whole : before.rdropWhile (· ≠ '\n') ++ before.rtakeWhile (· ≠ '\n') = before :=
    List.rdropWhile_append_rtakeWhile
  have oneLine : '\n' ∉ before.rtakeWhile (· ≠ '\n') := fun inside ↦ by
    simpa using List.mem_rtakeWhile_imp inside
  refine ⟨_, _, whole.symm, fun c last ↦ ?_, oneLine, ?_⟩
  · obtain ⟨some, rfl⟩ := List.mem_getLast?_eq_getLast last
    simpa using List.rdropWhile_last_not _ _ some
  · have feeds := congrArg (List.count '\n') whole
    rw [List.count_append, List.count_eq_zero.mpr oneLine] at feeds
    unfold behind
    rw [← feeds, Nat.add_zero]

/-- The line of a place goes on up to the place, if no line feed stands there. -/
theorem prefix_firstLine {start behind : List Char} (oneLine : '\n' ∉ start)
    (bare : ∀ c ∈ behind.head?, c ≠ '\n') : start <+: firstLine (start ++ behind) := by
  have letters : ∀ c ∈ start, decide (c ≠ '\n') = true := fun c inside ↦
    decide_eq_true (ne_of_mem_of_not_mem inside oneLine)
  unfold firstLine
  rw [List.takeWhile_append_of_pos letters]
  dsimp only
  split_ifs with cut
  -- A carriage return is left out here, and it stands behind the place: a line feed is next to it.
  · cases behind with
    | nil => simp at cut
    | cons c others =>
      have goesOn : (c :: others).takeWhile (· ≠ '\n') = c :: others.takeWhile (· ≠ '\n') :=
        List.takeWhile_cons_of_pos (decide_eq_true (bare c rfl))
      rw [goesOn, List.dropLast_append_of_ne_nil (List.cons_ne_nil _ _)]
      exact List.prefix_append _ _
  · exact List.prefix_append _ _

/-- A problem is shown with the line that its place is in and a caret below the place, if no line
feed stands there. -/
theorem Problem.render_eq {problem : Problem} {text : String} {before behind : List Char}
    (split : text.toList = before ++ behind) (place : problem.position = .behind before)
    (bare : ∀ c ∈ behind.head?, c ≠ '\n') :
    ∃ shown padding, IsSourceLine text.toList problem.position.line shown ∧
      problem.position.column - 1 ≤ shown.length ∧
      padding.length = problem.position.column - 1 ∧
      (∀ i < padding.length, padding[i]? = some (if shown[i]? = some '\t' then '\t' else ' ')) ∧
      problem.render text = problem.text ++ "\n  " ++ String.ofList shown ++ "\n  " ++
        String.ofList padding ++ "^" := by
  obtain ⟨front, start, rfl, starts, oneLine, position⟩ := Position.exists_line before
  have line : sourceLine (problem.position.line - 1) text.toList = firstLine (start ++ behind) := by
    rw [place, position, split, List.append_assoc]
    exact sourceLine_append starts _
  have reaches : problem.position.column - 1 ≤ (firstLine (start ++ behind)).length := by
    rw [place, position]
    exact (prefix_firstLine oneLine bare).length_le
  refine ⟨_, padding problem.position (firstLine (start ++ behind)), ?_, reaches, ?_, ?_, ?_⟩
  · rw [place, position, split, List.append_assoc]
    exact isSourceLine_firstLine starts _
  · rw [padding, List.length_map, List.length_take, Nat.min_eq_left reaches]
  · intro i inside
    rw [padding, List.length_map, List.length_take, Nat.min_eq_left reaches] at inside
    have here : i < (firstLine (start ++ behind)).length := Nat.lt_of_lt_of_le inside reaches
    rw [padding, List.getElem?_map, List.getElem?_take_of_lt inside, List.getElem?_eq_getElem here]
    simp
  · rw [render, line]

/-! ### What a problem points at -/

/-- What stands behind the letters `before` of the text: the first letter of one of its tokens, the
first letter of the lexeme that has a fault, or nothing. -/
inductive Landmark (text : String) (before : List Char) : List Char → Prop where
  | token {kind : TokenKind} {letters behind : List Char} (writes : kind.Writes letters)
    (scanned : ⟨kind, .behind before⟩ ∈ (scanAll (.ofText text)).1) :
    Landmark text before (letters ++ behind)
  | fault {fault : LexicalFault} {behind : List Char} (spoils : fault.Spoils behind)
    (scanned : (scanAll (.ofText text)).2 = .error ⟨.lexical fault, .behind before⟩) :
    Landmark text before behind
  | ending : Landmark text before []

/-- The place is one of the text where a problem can be. -/
def Located (text : String) (position : Position) : Prop :=
  ∃ before behind, text.toList = before ++ behind ∧ position = .behind before ∧
    Landmark text before behind

theorem StartsBare.ne_lineFeed {text : List Char} (bare : StartsBare text) :
    ∀ c ∈ text.head?, c ≠ '\n' := by
  rintro c first rfl
  obtain ⟨rest, rfl⟩ := List.head?_eq_some_iff.mp first
  have feed : Text.isBlank '\n' = true := by decide
  unfold StartsBare at bare
  rw [splitTrivia, if_pos feed] at bare
  cases bare

/-- No line feed stands where a token or a fault begins. -/
theorem Landmark.bare {text : String} {before behind : List Char}
    (landmark : Landmark text before behind) : ∀ c ∈ behind.head?, c ≠ '\n' := by
  cases landmark with
  | token writes _ => exact (writes.startsBare _).ne_lineFeed
  | fault spoils _ =>
    cases spoils with
    | missingDigits _ =>
      rintro c ⟨⟩
      decide
    | missingFraction numeral _ _ =>
      exact ((Lexeme.writes_number numeral).startsBare _).ne_lineFeed
    | unclosedQuote _ =>
      rintro c ⟨⟩
      decide
    | strayCharacter _ _ _ _ noBlank _ =>
      rintro c ⟨⟩ rfl
      have feed : Text.isBlank '\n' = true := by decide
      rw [feed] at noBlank
      cases noBlank
  | ending => rintro c ⟨⟩

/-- Whatever is found in a text has its place there. -/
theorem located_of_scans {text : String} {before rest : List Char} {tokens : List Token}
    {final : Except Problem Position} (scans : Scans before rest tokens final)
    (split : text.toList = before ++ rest)
    (all : ∀ token ∈ tokens, token ∈ (scanAll (.ofText text)).1)
    (last : (scanAll (.ofText text)).2 = final) :
    (∀ token ∈ tokens, Located text token.position) ∧
      (∀ problem, final = .error problem → Located text problem.position) ∧
      ∀ position, final = .ok position → Located text position := by
  induction scans with
  | ends _ =>
    refine ⟨by simp, by rintro _ ⟨⟩, ?_⟩
    rintro _ ⟨⟩
    exact ⟨_, [], by rw [split, List.append_nil], rfl, .ending⟩
  | comment _ _ =>
    refine ⟨by simp, by rintro _ ⟨⟩, ?_⟩
    rintro _ ⟨⟩
    exact ⟨_, [], by rw [split, List.append_nil], rfl, .ending⟩
  | fault _ spoils =>
    refine ⟨by simp, ?_, by rintro _ ⟨⟩⟩
    rintro _ ⟨⟩
    exact ⟨_, _, by rw [split, List.append_assoc], rfl, .fault spoils last⟩
  | token _ writes _ _ ih =>
    obtain ⟨others, ends⟩ := ih (by rw [split]; simp)
      (fun token inside ↦ all token (List.mem_cons_of_mem _ inside)) last
    refine ⟨fun token inside ↦ ?_, ends⟩
    rcases List.mem_cons.mp inside with rfl | inside
    · exact ⟨_, _, by rw [split, List.append_assoc], rfl, .token writes (all _ inside)⟩
    · exact others token inside

/-- The places of a text where a problem can be. -/
def Wording.located (text : String) : Wording :=
  ⟨fun _ ↦ True, fun _ ↦ True, Located text, fun _ _ ↦ trivial⟩

theorem worded_located (text : String) :
    Yields (.located text) (TokenStream.ofText text) fun s ↦ s.Worded (.located text) := by
  obtain ⟨tokens, problem, position⟩ := located_of_scans (scans_scanAll text) rfl
    (fun _ inside ↦ inside) rfl
  exact worded_ofTokens (fun token inside ↦ ⟨trivial, tokens token inside⟩)
    ⟨fun other last ↦ ⟨trivial, problem other last⟩,
      fun other last ↦ ⟨trivial, position other last⟩⟩

namespace Registry

/-- A text that is refused is refused at a token, at a lexeme that has a fault or at its end. Shown
in the text, the problem comes with the line that this place is in and, in another line, a caret
below the place, behind as many blanks as there are letters in front of it, or tabs where these are
tabs. -/
theorem rendered_of_defineAll {r r' : Registry} {text : String} {problem : Problem}
    (refused : r.defineAll text = (.error (.refused problem), r')) :
    Located text problem.position ∧
      ∃ shown padding, IsSourceLine text.toList problem.position.line shown ∧
        problem.position.column - 1 ≤ shown.length ∧
        padding.length = problem.position.column - 1 ∧
        (∀ i < padding.length,
          padding[i]? = some (if shown[i]? = some '\t' then '\t' else ' ')) ∧
        problem.render text = problem.text ++ "\n  " ++ String.ofList shown ++ "\n  " ++
          String.ofList padding ++ "^" := by
  have located : Located text problem.position :=
    (finds_of_defineAll (worded_located text) (congrArg Prod.fst refused)).2
  obtain ⟨before, behind, split, place, landmark⟩ := located
  exact ⟨⟨before, behind, split, place, landmark⟩, Problem.render_eq split place landmark.bare⟩

/-- A category is unknown in the second line, behind a tab; the carriage return that ends this line
is not shown. -/
theorem rendered_of_defineAll_sample :
    let text := "x: [Flag];\r\n\ty: [Nope]\r\n"
    let problem : Problem := ⟨.unknownTag "Nope", ⟨2, 6⟩⟩
    (sample.defineAll text).1 = .error (.refused problem) ∧ Located text problem.position ∧
      (∃ shown padding, IsSourceLine text.toList 2 shown ∧ padding.length = 5 ∧
        problem.render text = problem.text ++ "\n  " ++ String.ofList shown ++ "\n  " ++
          String.ofList padding ++ "^") ∧
      problem.render text =
        "unknown category at 2:6: unknown category [Nope]\n  \ty: [Nope]\n  \t    ^" := by
  intro text problem
  have refused : (sample.defineAll text).1 = .error (.refused problem) := by decide +kernel
  obtain ⟨located, shown, padding, line, -, length, -, rendered⟩ :=
    rendered_of_defineAll (Prod.ext refused rfl)
  exact ⟨refused, located, ⟨shown, padding, line, length, rendered⟩, by decide +kernel⟩

end Registry

end CompositeSorts
