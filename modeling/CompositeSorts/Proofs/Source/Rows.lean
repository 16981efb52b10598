import CompositeSorts.Proofs.Source.Scanning

/-!
Cursors on a row of tokens. Where a text is scanned without a fault, its tokens are the beginning of
an endless row: behind them comes the end of the input, again and again (`rowOf`). Asking a cursor
on the text is asking a place in this row (`Place.serve`): moving on gives the token at the place
and goes one further, looking ahead gives the one behind it, and taking a token back goes one back.
A token can be taken back unless one has been since the cursor last moved on; then everything stays
as it is (`exchange_eq_of_scanned`).

The reader has to push back what it was given last: `Rightful` says so of an exchange of requests
and replies.
-/

set_option autoImplicit false
set_option relaxedAutoImplicit false

namespace CompositeSorts

open TokenStream

/-! ### Requests and replies -/

/-- What can be asked of a cursor. -/
inductive Request where
  | current
  | preview
  | advance
  | pushBack (token : Token)

/-- The reply to a request: a token, or nothing where a token was taken back, or a problem. -/
abbrev Reply := Except Problem (Option Token)

/-- The requests with the replies to them, and the state that is reached. -/
def exchange {σ : Type} (serve : σ → Request → Reply × σ) (s : σ) :
    List Request → List (Request × Reply) × σ
  | [] => ([], s)
  | request :: requests =>
    let (reply, behind) := serve s request
    let (others, last) := exchange serve behind requests
    ((request, reply) :: others, last)

/-- How a cursor replies. -/
def Cursor.serve (c : Cursor) : Request → Reply × Cursor
  | .current => (.ok (some c.current), c)
  | .preview => (c.preview.1.map some, c.preview.2)
  | .advance => (c.advance.1.map some, c.advance.2)
  | .pushBack token => ((c.pushBack token).1.map fun _ ↦ none, (c.pushBack token).2)

/-- A place in a row of tokens. The flag says that the last step was one back. -/
structure Place where
  index : Nat
  retreated : Bool

/-- How a place in a row of tokens replies. -/
def Place.serve (row : Nat → Token) (place : Place) : Request → Reply × Place
  | .current => (.ok (some (row place.index)), place)
  | .preview => (.ok (some (row (place.index + 1))), place)
  | .advance => (.ok (some (row place.index)), ⟨place.index + 1, false⟩)
  | .pushBack token =>
    if place.retreated then (.error ⟨.pushedTwice, token.position⟩, place)
    else (.ok none, ⟨place.index - 1, true⟩)

/-- The tokens of a text, and then the end of the input at its place, again and again. -/
def rowOf (tokens : List Token) (final : Position) (index : Nat) : Token :=
  tokens.getD index ⟨.endOfInput, final⟩

/-- The tokens that were returned by `advance` and not pushed back yet, the last one first, after
another request and its reply. -/
def keepTrack (returned : List Token) : Request × Reply → List Token
  | (.advance, .ok (some token)) => token :: returned
  | (.pushBack _, .ok _) => returned.tail
  | (.advance, .ok none) | (.advance, .error _) | (.pushBack _, .error _) => returned
  | (.current, _) | (.preview, _) => returned

/-- Only the token that was returned last and not pushed back yet may be pushed back. -/
def Request.Allowed (returned : List Token) : Request → Prop
  | .pushBack token => returned.head? = some token
  | _ => True

instance (returned : List Token) : (request : Request) → Decidable (request.Allowed returned)
  | .pushBack token => inferInstanceAs (Decidable (returned.head? = some token))
  | .current | .preview | .advance => .isTrue trivial

/-- Each token that is pushed back is the one that was returned last and not pushed back yet. -/
def Rightful (returned : List Token) : List (Request × Reply) → Prop
  | [] => True
  | (request, reply) :: others =>
    request.Allowed returned ∧ Rightful (keepTrack returned (request, reply)) others

instance Rightful.decidable :
    (returned : List Token) → (seen : List (Request × Reply)) → Decidable (Rightful returned seen)
  | _, [] => .isTrue trivial
  | returned, (request, reply) :: others =>
    have := Rightful.decidable (keepTrack returned (request, reply)) others
    inferInstanceAs (Decidable (request.Allowed returned ∧ _))

/-- A token was pushed back and no `advance` has followed. -/
def Unfollowed (requests : List Request) : Prop :=
  ∃ before token behind, requests = before ++ .pushBack token :: behind ∧ .advance ∉ behind

/-! ### Rows -/

/-- The scanner goes on with the tokens of the row from the index on. -/
def Scanner.Yields (row : Nat → Token) (s : Scanner) (index : Nat) : Prop :=
  ∀ steps, (((fun s : Scanner ↦ s.next.2)^[steps]) s).next.1 = .ok (row (index + steps))

theorem Scanner.yields_iff {row : Nat → Token} {s : Scanner} {index : Nat} :
    s.Yields row index ↔ s.next.1 = .ok (row index) ∧ s.next.2.Yields row (index + 1) := by
  constructor
  · intro yields
    refine ⟨yields 0, fun steps ↦ ?_⟩
    have later := yields (steps + 1)
    rwa [Function.iterate_succ_apply, Nat.add_comm steps, ← Nat.add_assoc] at later
  · rintro ⟨first, others⟩ (_ | steps)
    · exact first
    · have later := others steps
      rwa [Nat.add_assoc, Nat.add_comm 1] at later

/-- The end of the input is scanned again and again. -/
theorem Scanner.next_of_endOfInput {s : Scanner} {token : Token} (next : s.next.1 = .ok token)
    (ends : token.kind = .endOfInput) : s.next.2.next.1 = .ok token := by
  have skipped := (skipped_splitTrivia s.rest).1
  -- Only a text without lexemes ends: no lexeme is written as the end of the input.
  unfold Scanner.next at next ⊢
  generalize splitTrivia false s.rest = split at skipped next
  obtain ⟨trivia, text⟩ := split
  cases text with
  | nil =>
    cases next
    rfl
  | cons c text =>
    have bare := (skipped.resolve_right fun atEnd ↦ List.cons_ne_nil _ _ atEnd.1).2
    have sound := Lexeme.sound_ofCharacters bare
    unfold Lexeme.Sound at sound
    dsimp only at next
    split at next <;> cases next
    rename_i made
    rw [made] at sound
    exact absurd ends sound.1.ne_endOfInput

theorem Scanner.iterate_next_of_endOfInput {s : Scanner} {token : Token}
    (next : s.next.1 = .ok token) (ends : token.kind = .endOfInput) (steps : Nat) :
    (((fun s : Scanner ↦ s.next.2)^[steps]) s).next.1 = .ok token := by
  induction steps generalizing s with
  | zero => exact next
  | succ steps ih =>
    rw [Function.iterate_succ_apply]
    exact ih (next_of_endOfInput next ends)

/-- A scanner in front of no fault has a next token: the first one, or the end of the input. -/
theorem Scanner.next_of_scanAll {s : Scanner} {tokens : List Token} {final : Position}
    (scanned : scanAll s = (tokens, .ok final)) :
    (tokens = [] ∧ s.next.1 = .ok ⟨.endOfInput, final⟩) ∨
      ∃ token others, tokens = token :: others ∧ s.next.1 = .ok token ∧
        scanAll s.next.2 = (others, .ok final) := by
  cases next : s.next with
  | mk outcome behind =>
    cases outcome with
    | error fault =>
      rw [scanAll_of_error next] at scanned
      cases scanned
    | ok token =>
      rw [scanAll_of_ok next] at scanned
      unfold Token.before at scanned
      split_ifs at scanned with ends
      · cases scanned
        exact Or.inl ⟨rfl, congrArg _ (congrArg (Token.mk · token.position) ends)⟩
      · obtain ⟨rfl, last⟩ := Prod.mk.inj scanned
        exact Or.inr ⟨token, _, rfl, rfl, Prod.ext rfl last⟩

/-- A scanner goes on with the tokens that all of its text is scanned into. -/
theorem Scanner.yields_of_scanAll {row : Nat → Token} {tokens : List Token} {final : Position}
    {s : Scanner} {index : Nat} (scanned : scanAll s = (tokens, .ok final))
    (same : ∀ steps, row (index + steps) = rowOf tokens final steps) : s.Yields row index := by
  induction tokens generalizing s index with
  | nil =>
    obtain ⟨-, next⟩ | ⟨_, _, none, -⟩ := next_of_scanAll scanned
    · intro steps
      rw [iterate_next_of_endOfInput next rfl, same]
      rfl
    · cases none
  | cons token tokens ih =>
    obtain ⟨none, -⟩ | ⟨_, _, ⟨⟩, next, others⟩ := next_of_scanAll scanned
    · cases none
    · refine yields_iff.mpr ⟨next.trans (congrArg _ (same 0).symm), ih others fun steps ↦ ?_⟩
      rw [Nat.add_assoc, Nat.add_comm 1, same]
      rfl

/-! ### Cursors -/

/-- The tokens are those of the row from the index on, and the scanner goes on behind them. -/
def Scanner.Awaits (row : Nat → Token) (s : Scanner) : List Token → Nat → Prop
  | [], index => s.Yields row index
  | token :: tokens, index => token = row index ∧ s.Awaits row tokens (index + 1)

/-- The cursor stands on the place of the row. -/
structure Cursor.On (row : Nat → Token) (c : Cursor) (place : Place) : Prop where
  current : c.current = row place.index
  awaits : c.scanner.Awaits row (c.pushed.toList ++ c.ahead.toList) (place.index + 1)
  pushed : c.pushed.isSome = place.retreated

/-- The tokens of the row in front of the index, the last one first. -/
def inFront (row : Nat → Token) (index : Nat) : List Token := ((List.range index).map row).reverse

theorem inFront_succ (row : Nat → Token) (index : Nat) :
    inFront row (index + 1) = row index :: inFront row index := by
  simp [inFront, List.range_succ]

namespace Cursor.On

variable {row : Nat → Token} {c : Cursor} {place : Place}

/-- The token behind is the one that was pushed back, the one looked ahead at, or the next one that
is scanned. -/
theorem preview (on : c.On row place) :
    c.preview.1 = .ok (row (place.index + 1)) ∧ c.preview.2.On row place := by
  have awaits := on.awaits
  have pushed := on.pushed
  obtain ⟨scanner, current, ahead, pushedBack⟩ := c
  cases pushedBack with
  | some token => exact ⟨congrArg _ awaits.1, on⟩
  | none =>
    cases ahead with
    | some token => exact ⟨congrArg _ awaits.1, on⟩
    | none =>
      obtain ⟨next, behind⟩ := Scanner.yields_iff.mp awaits
      unfold Cursor.preview
      cases scan : scanner.next with
      | mk outcome left =>
        rw [scan] at next behind
        cases next
        exact ⟨rfl, on.current, ⟨rfl, behind⟩, pushed⟩

theorem advance (on : c.On row place) :
    c.advance.1 = .ok (row place.index) ∧ c.advance.2.On row ⟨place.index + 1, false⟩ := by
  have awaits := on.awaits
  have here := on.current
  obtain ⟨scanner, current, ahead, pushedBack⟩ := c
  cases pushedBack with
  | some token => exact ⟨congrArg _ here, awaits.1, awaits.2, rfl⟩
  | none =>
    cases ahead with
    | some token => exact ⟨congrArg _ here, awaits.1, awaits.2, rfl⟩
    | none =>
      obtain ⟨next, behind⟩ := Scanner.yields_iff.mp awaits
      unfold Cursor.advance
      cases scan : scanner.next with
      | mk outcome left =>
        rw [scan] at next behind
        cases next
        exact ⟨congrArg _ here, rfl, behind, rfl⟩

theorem pushBack_of_retreated (on : c.On row place) (retreated : place.retreated = true)
    (token : Token) : c.pushBack token = (.error ⟨.pushedTwice, token.position⟩, c) := by
  obtain ⟨other, full⟩ := Option.isSome_iff_exists.mp (on.pushed.trans retreated)
  unfold Cursor.pushBack
  rw [full]

theorem pushBack_of_free (on : c.On row place) (free : place.retreated = false) (token : Token) :
    c.pushBack token = (.ok (), { c with current := token, pushed := some c.current }) := by
  have none : c.pushed = none := by simpa [free] using on.pushed
  unfold Cursor.pushBack
  rw [none]

/-- A token can be pushed back unless one has been, and then nothing changes. -/
theorem pushBack_refused_iff (on : c.On row place) (token : Token) :
    ((∃ problem, (c.pushBack token).1 = .error problem) ↔ place.retreated = true) ∧
      ∀ problem after, c.pushBack token = (.error problem, after) → after = c := by
  cases retreated : place.retreated with
  | true =>
    rw [on.pushBack_of_retreated retreated]
    refine ⟨⟨fun _ ↦ rfl, fun _ ↦ ⟨_, rfl⟩⟩, fun problem after refused ↦ ?_⟩
    cases refused
    rfl
  | false =>
    rw [on.pushBack_of_free retreated]
    refine ⟨⟨?_, nofun⟩, fun problem after refused ↦ ?_⟩
    · rintro ⟨problem, refused⟩
      cases refused
    · cases refused

/-- The token in front of the place can be pushed back, and then the cursor stands there. -/
theorem pushBack (on : c.On row place) (free : place.retreated = false) {index : Nat}
    (behind : place.index = index + 1) :
    (c.pushBack (row index)).1 = .ok () ∧ (c.pushBack (row index)).2.On row ⟨index, true⟩ := by
  have awaits := on.awaits
  have here := on.current
  have none : c.pushed = none := by simpa [free] using on.pushed
  rw [none, Option.toList_none, List.nil_append, behind] at awaits
  rw [behind] at here
  rw [on.pushBack_of_free free]
  exact ⟨rfl, rfl, ⟨here, awaits⟩, rfl⟩

/-- A cursor replies as its place does, and stands on the place that is reached then. -/
theorem serve (on : c.On row place) {request : Request}
    (allowed : request.Allowed (inFront row place.index)) :
    (c.serve request).1 = (place.serve row request).1 ∧
      (c.serve request).2.On row (place.serve row request).2 ∧
      keepTrack (inFront row place.index) (request, (place.serve row request).1) =
        inFront row (place.serve row request).2.index := by
  cases request with
  | current => exact ⟨congrArg (Except.ok ∘ some) on.current, on, rfl⟩
  | preview =>
    obtain ⟨shown, still⟩ := on.preview
    exact ⟨congrArg (Except.map some) shown, still, rfl⟩
  | advance =>
    obtain ⟨returned, behind⟩ := on.advance
    exact ⟨congrArg (Except.map some) returned, behind, (inFront_succ row place.index).symm⟩
  | pushBack token =>
    have last : (inFront row place.index).head? = some token := allowed
    unfold Cursor.serve Place.serve
    cases retreated : place.retreated with
    | true =>
      dsimp only
      rw [on.pushBack_of_retreated retreated]
      exact ⟨rfl, on, rfl⟩
    | false =>
      cases behind : place.index with
      -- Nothing was returned yet, so nothing may be pushed back.
      | zero =>
        rw [behind] at last
        cases last
      | succ index =>
        rw [behind, inFront_succ] at last
        cases last
        obtain ⟨taken, back⟩ := on.pushBack retreated behind
        rw [inFront_succ]
        exact ⟨congrArg (Except.map fun _ ↦ none) taken, back, rfl⟩

end Cursor.On

/-- A cursor can be set on the first token of a row. -/
theorem Cursor.exists_on {row : Nat → Token} {text : String}
    (yields : (Scanner.ofText text).Yields row 0) :
    ∃ c, Cursor.ofText text = .ok c ∧ c.On row ⟨0, false⟩ := by
  obtain ⟨first, others⟩ := Scanner.yields_iff.mp yields
  unfold Cursor.ofText
  cases scan : (Scanner.ofText text).next with
  | mk outcome behind =>
    rw [scan] at first others
    cases first
    exact ⟨_, rfl, rfl, others, rfl⟩

/-! ### Exchanges -/

/-- A cursor replies to all requests as its place does. -/
theorem exchange_eq {row : Nat → Token} {c : Cursor} {place : Place} (on : c.On row place)
    {requests : List Request}
    (rightful : Rightful (inFront row place.index) (exchange Cursor.serve c requests).1) :
    (exchange Cursor.serve c requests).1 = (exchange (Place.serve row) place requests).1 ∧
      (exchange Cursor.serve c requests).2.On row
        (exchange (Place.serve row) place requests).2 := by
  induction requests generalizing c place with
  | nil => exact ⟨rfl, on⟩
  | cons request requests ih =>
    obtain ⟨same, behind, track⟩ := on.serve rightful.1
    have others : Rightful (keepTrack (inFront row place.index) (request, (c.serve request).1))
        (exchange Cursor.serve (c.serve request).2 requests).1 := rightful.2
    rw [same, track] at others
    obtain ⟨replies, last⟩ := ih behind others
    exact ⟨congrArg₂ List.cons (congrArg (Prod.mk request) same) replies, last⟩

theorem unfollowed_cons_iff {request : Request} {requests : List Request} :
    Unfollowed (request :: requests) ↔
      Unfollowed requests ∨ (∃ token, request = .pushBack token) ∧ .advance ∉ requests := by
  constructor
  · rintro ⟨before, token, behind, same, still⟩
    cases before with
    | nil =>
      cases same
      exact Or.inr ⟨⟨token, rfl⟩, still⟩
    | cons first before =>
      cases same
      exact Or.inl ⟨before, token, behind, rfl, still⟩
  · rintro (⟨before, token, behind, rfl, still⟩ | ⟨⟨token, rfl⟩, still⟩)
    · exact ⟨request :: before, token, behind, rfl, still⟩
    · exact ⟨[], token, requests, rfl, still⟩

theorem retreated_exchange_iff {row : Nat → Token} {place : Place} {requests : List Request} :
    (exchange (Place.serve row) place requests).2.retreated = true ↔
      Unfollowed requests ∨ place.retreated = true ∧ .advance ∉ requests := by
  induction requests generalizing place with
  | nil => simp [exchange, Unfollowed]
  | cons request requests ih =>
    have step : (exchange (Place.serve row) place (request :: requests)).2 =
        (exchange (Place.serve row) (place.serve row request).2 requests).2 := rfl
    rw [step, ih, unfollowed_cons_iff]
    cases request with
    | current => simp [Place.serve]
    | preview => simp [Place.serve]
    | advance => simp [Place.serve]
    | pushBack token =>
      have back : (place.serve row (.pushBack token)).2.retreated = true := by
        unfold Place.serve
        split_ifs with retreated
        · exact retreated
        · rfl
      simp only [back, List.mem_cons, not_or, reduceCtorEq, not_false_eq_true, true_and]
      tauto

/-- A text without a fault can be read with a cursor. To a reader who pushes back what was returned
last, the cursor replies as a place in the row of the tokens does, which begins at the first one.
Taking a token back fails exactly if one was taken back and the cursor has not moved on since, and
then it leaves the cursor as it is. -/
theorem exchange_eq_of_scanned {text : String} {tokens : List Token} {final : Position}
    (scanned : scanAll (.ofText text) = (tokens, .ok final)) :
    ∃ c, Cursor.ofText text = .ok c ∧ ∀ requests,
      Rightful [] (exchange Cursor.serve c requests).1 →
        (exchange Cursor.serve c requests).1 =
          (exchange (Place.serve (rowOf tokens final)) ⟨0, false⟩ requests).1 ∧
        ∀ token,
          ((∃ problem, ((exchange Cursor.serve c requests).2.pushBack token).1 = .error problem) ↔
            Unfollowed requests) ∧
          ∀ problem after, (exchange Cursor.serve c requests).2.pushBack token =
            (.error problem, after) → after = (exchange Cursor.serve c requests).2 := by
  have yields : (Scanner.ofText text).Yields (rowOf tokens final) 0 :=
    Scanner.yields_of_scanAll scanned fun steps ↦ congrArg _ (Nat.zero_add steps)
  obtain ⟨c, made, on⟩ := Cursor.exists_on yields
  refine ⟨c, made, fun requests rightful ↦ ?_⟩
  obtain ⟨same, reached⟩ := exchange_eq on rightful
  have retreated := @retreated_exchange_iff (rowOf tokens final) ⟨0, false⟩ requests
  rw [or_iff_left fun starts ↦ Bool.false_ne_true starts.1] at retreated
  refine ⟨same, fun token ↦ ?_⟩
  rw [← retreated]
  exact reached.pushBack_refused_iff token

/-- A name and a comma are moved over; the comma is pushed back, the name cannot be. The cursor
moves on to the end of the input, and stays there. -/
theorem exchange_eq_of_scanned_sample :
    scanAll (.ofText "x , y") = ([⟨.identifier "x", ⟨1, 1⟩⟩, ⟨.comma, ⟨1, 3⟩⟩,
      ⟨.identifier "y", ⟨1, 5⟩⟩], .ok ⟨1, 6⟩) ∧
    ∃ c, Cursor.ofText "x , y" = .ok c ∧
      (exchange Cursor.serve c [.preview, .advance, .preview, .advance, .pushBack ⟨.comma, ⟨1, 3⟩⟩,
        .preview, .pushBack ⟨.identifier "x", ⟨1, 1⟩⟩, .current, .advance, .advance, .advance,
        .preview, .advance]).1.map Prod.snd =
          [.ok (some ⟨.comma, ⟨1, 3⟩⟩), .ok (some ⟨.identifier "x", ⟨1, 1⟩⟩),
            .ok (some ⟨.identifier "y", ⟨1, 5⟩⟩), .ok (some ⟨.comma, ⟨1, 3⟩⟩), .ok none,
            .ok (some ⟨.identifier "y", ⟨1, 5⟩⟩), .error ⟨.pushedTwice, ⟨1, 1⟩⟩,
            .ok (some ⟨.comma, ⟨1, 3⟩⟩), .ok (some ⟨.comma, ⟨1, 3⟩⟩),
            .ok (some ⟨.identifier "y", ⟨1, 5⟩⟩), .ok (some ⟨.endOfInput, ⟨1, 6⟩⟩),
            .ok (some ⟨.endOfInput, ⟨1, 6⟩⟩), .ok (some ⟨.endOfInput, ⟨1, 6⟩⟩)] := by
  have scanned : scanAll (.ofText "x , y") = ([⟨.identifier "x", ⟨1, 1⟩⟩, ⟨.comma, ⟨1, 3⟩⟩,
      ⟨.identifier "y", ⟨1, 5⟩⟩], .ok ⟨1, 6⟩) := by decide +kernel
  obtain ⟨c, made, all⟩ := exchange_eq_of_scanned scanned
  have start : Cursor.ofText "x , y" =
      .ok ⟨⟨[' ', ',', ' ', 'y'], ⟨1, 2⟩⟩, ⟨.identifier "x", ⟨1, 1⟩⟩, none, none⟩ := by rfl
  obtain rfl := Except.ok.inj (made.symm.trans start)
  refine ⟨scanned, _, made, ?_⟩
  rw [(all _ ?_).1]
  · rfl
  · decide +kernel

end CompositeSorts
