import CompositeSorts.Source.Cursor
import CompositeSorts.Source.TokenStream
import Mathlib.Tactic.Common

/-!
Cursors and token streams. A cursor scans its text bit by bit, and remembers a token that it looked
ahead at and one that was pushed back; a token stream has all tokens of the text at once. A cursor
tracks a stream when it stands on the same token and the same tokens are to come (`Cursor.Tracks`).
On the first token of a text it does, and it goes on to do so when both move on or look ahead; then
both fail with the same problem or none does.

A reader that has moved on, and has looked ahead any number of times since, can take back the token
that it moved over (`Cursor.Tracks.pushBack`).
-/

set_option autoImplicit false
set_option relaxedAutoImplicit false

namespace CompositeSorts

open TokenStream

/-- A token and what comes behind it. Nothing comes behind the end of the input. -/
def Token.before (token : Token) (rest : List Token × Except Problem Position) :
    List Token × Except Problem Position :=
  if token.kind = .endOfInput then ([], .ok token.position) else (token :: rest.1, rest.2)

theorem exists_ofTokens_before (token : Token) (rest : List Token × Except Problem Position) :
    ∃ s, ofTokens (token.before rest).1 (token.before rest).2 = .ok s ∧ s.current = token ∧
      token.before (s.behind, s.final) = token.before rest ∧
      (token.kind ≠ .endOfInput → rest = (s.behind, s.final)) := by
  unfold Token.before
  split_ifs with ends
  · refine ⟨_, rfl, ?_, rfl, fun proper ↦ absurd ends proper⟩
    obtain ⟨kind, position⟩ := token
    subst ends
    rfl
  · exact ⟨_, rfl, rfl, rfl, fun _ ↦ rfl⟩

theorem scanAll_of_ok {scanner behind : Scanner} {token : Token}
    (next : scanner.next = (.ok token, behind)) :
    scanAll scanner = token.before (scanAll behind) := by
  rw [scanAll]
  split
  · rename_i outcome
    rw [next] at outcome
    cases outcome
  · rename_i outcome
    rw [next] at outcome
    cases outcome
    unfold Token.before
    split_ifs
    · rfl
    · rw [next]

theorem scanAll_of_error {scanner behind : Scanner} {fault : LexicalFault × Position}
    (next : scanner.next = (.error fault, behind)) :
    scanAll scanner = ([], .error (.ofLexical fault)) := by
  rw [scanAll]
  split
  · rename_i outcome
    rw [next] at outcome
    cases outcome
    rfl
  · rename_i outcome
    rw [next] at outcome
    cases outcome

namespace Cursor

variable {c : Cursor} {s : TokenStream}

/-- The tokens behind the one that the cursor stands on, and what comes last. -/
def upcoming (c : Cursor) : List Token × Except Problem Position :=
  (c.pushed.toList ++ c.ahead.toList).foldr Token.before (scanAll c.scanner)

/-- The cursor stands on the same token as the stream, and the same tokens are to come. -/
structure Tracks (c : Cursor) (s : TokenStream) : Prop where
  current : c.current = s.current
  upcoming : c.current.kind ≠ .endOfInput → c.upcoming = (s.behind, s.final)

/-- A cursor on a token tracks the stream on it. -/
theorem exists_tracks {token : Token} {rest : List Token × Except Problem Position}
    (here : c.current = token) (behind : c.upcoming = rest) :
    ∃ s, ofTokens (token.before rest).1 (token.before rest).2 = .ok s ∧
      c.current.before (s.behind, s.final) = token.before rest ∧ c.Tracks s := by
  obtain ⟨s, made, current, same, upcoming⟩ := exists_ofTokens_before token rest
  refine ⟨s, made, here ▸ same, here.trans current.symm, fun proper ↦ ?_⟩
  rw [behind]
  exact upcoming (here ▸ proper)

/-- A cursor can be set on a text if a stream can, and it tracks the stream. -/
theorem tracks_ofText (text : String) :
    match ofText text with
    | .ok c => ∃ s, TokenStream.ofText text = .ok s ∧ c.Tracks s
    | .error problem => TokenStream.ofText text = .error problem := by
  unfold ofText TokenStream.ofText
  cases next : (Scanner.ofText text).next with
  | mk outcome behind =>
    cases outcome with
    | ok token =>
      rw [scanAll_of_ok next]
      obtain ⟨s, made, -, tracks⟩ := exists_tracks (c := ⟨behind, token, none, none⟩) rfl rfl
      exact ⟨s, made, tracks⟩
    | error fault =>
      rw [scanAll_of_error next]
      rfl

/-- A cursor moves on if the stream does. Behind it nothing is pushed back. -/
theorem Tracks.advance (h : c.Tracks s) (proper : c.current.kind ≠ .endOfInput) :
    match c.advance with
    | (.ok token, c') => token = c.current ∧ c'.pushed = none ∧
        ∃ s', s.advance = .ok s' ∧ c'.current.before (s'.behind, s'.final) = (s.behind, s.final) ∧
          c'.Tracks s'
    | (.error problem, _) => s.advance = .error problem := by
  have behind := h.upcoming proper
  obtain ⟨scanner, current, ahead, pushed⟩ := c
  have moves {token : Token} {rest : List Token × Except Problem Position}
      (shown : token.before rest = (s.behind, s.final)) {c' : Cursor} (here : c'.current = token)
      (left : c'.upcoming = rest) : ∃ s', s.advance = .ok s' ∧
        c'.current.before (s'.behind, s'.final) = (s.behind, s.final) ∧ c'.Tracks s' := by
    unfold TokenStream.advance
    have made := exists_tracks here left
    rw [shown] at made
    exact made
  cases pushed with
  | some token => exact ⟨rfl, rfl, moves behind rfl rfl⟩
  | none =>
    cases ahead with
    | some token => exact ⟨rfl, rfl, moves behind rfl rfl⟩
    | none =>
      unfold Cursor.advance
      cases next : scanner.next with
      | mk outcome left =>
        cases outcome with
        | ok token =>
          change scanAll scanner = _ at behind
          rw [scanAll_of_ok next] at behind
          exact ⟨rfl, rfl, moves behind rfl rfl⟩
        | error fault =>
          change scanAll scanner = _ at behind
          rw [scanAll_of_error next] at behind
          obtain ⟨none, final⟩ := Prod.mk.inj behind
          dsimp only
          unfold TokenStream.advance ofTokens
          rw [← none, ← final]
          rfl

/-- A cursor looks ahead at the token that comes next. It stays where it is, and so does what was
pushed back. -/
theorem Tracks.preview (h : c.Tracks s) (proper : c.current.kind ≠ .endOfInput) :
    match c.preview with
    | (.ok token, c') => s.peek = .ok token.kind ∧ c'.pushed = c.pushed ∧ c'.Tracks s
    | (.error problem, _) => s.peek = .error problem := by
  have behind := h.upcoming proper
  obtain ⟨scanner, current, ahead, pushed⟩ := c
  have looks {token : Token} {rest : List Token × Except Problem Position}
      (shown : token.before rest = (s.behind, s.final)) : s.peek = .ok token.kind := by
    obtain ⟨next, made, here, -, -⟩ := exists_ofTokens_before token rest
    rw [shown] at made
    unfold peek TokenStream.advance
    rw [made, ← here]
    rfl
  cases pushed with
  | some token => exact ⟨looks behind, rfl, h⟩
  | none =>
    cases ahead with
    | some token => exact ⟨looks behind, rfl, h⟩
    | none =>
      unfold Cursor.preview
      change scanAll scanner = _ at behind
      cases next : scanner.next with
      | mk outcome left =>
        cases outcome with
        | ok token =>
          rw [scanAll_of_ok next] at behind
          exact ⟨looks behind, rfl, h.current, fun _ ↦ behind⟩
        | error fault =>
          rw [scanAll_of_error next] at behind
          obtain ⟨none, final⟩ := Prod.mk.inj behind
          dsimp only
          unfold peek TokenStream.advance ofTokens
          rw [← none, ← final]
          rfl

/-- Where nothing is pushed back, the token in front can be taken back. -/
theorem Tracks.pushBack {next : TokenStream} (h : c.Tracks next) (free : c.pushed = none)
    (behind : c.current.before (next.behind, next.final) = (s.behind, s.final)) :
    ∃ c', c.pushBack s.current = (.ok (), c') ∧ c'.Tracks s := by
  obtain ⟨scanner, current, ahead, pushed⟩ := c
  subst free
  refine ⟨_, rfl, rfl, fun _ ↦ ?_⟩
  rw [← behind]
  change current.before (ahead.toList.foldr Token.before (scanAll scanner)) = _
  by_cases ends : current.kind = .endOfInput
  · unfold Token.before
    rw [if_pos ends, if_pos ends]
  · exact congrArg current.before (h.upcoming ends)

/-- A reader that moves over a token can take it back, also when it has looked ahead in between, and
is then where it was. -/
theorem Tracks.retreat (h : c.Tracks s) (proper : c.current.kind ≠ .endOfInput) {token : Token}
    {moved looked : Cursor} (advanced : c.advance = (.ok token, moved))
    (between : looked = moved ∨
      moved.current.kind ≠ .endOfInput ∧ ∃ seen, moved.preview = (.ok seen, looked)) :
    ∃ back, looked.pushBack token = (.ok (), back) ∧ back.Tracks s := by
  have steps := h.advance proper
  rw [advanced] at steps
  obtain ⟨rfl, free, next, -, behind, tracks⟩ := steps
  rw [h.current]
  rcases between with rfl | ⟨proper', seen, previewed⟩
  · exact tracks.pushBack free behind
  · have looks := tracks.preview proper'
    rw [previewed] at looks
    obtain ⟨-, still, tracks'⟩ := looks
    have same : looked.current = moved.current := tracks'.current.trans tracks.current.symm
    exact tracks'.pushBack (still.trans free) (same ▸ behind)

end Cursor

end CompositeSorts
