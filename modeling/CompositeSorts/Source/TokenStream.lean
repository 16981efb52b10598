import CompositeSorts.Source.Problem

/-!
All tokens of a text at once. A token stream stands on a token; what is behind it ends either with
the end of the input or where the scanner finds a fault. Moving onto the fault is what fails.

Main definitions: `TokenStream`, `TokenStream.ofText`, `TokenStream.advance`, `TokenStream.peek`,
and `TokenStream.size`, the number of tokens left.
-/

set_option autoImplicit false
set_option relaxedAutoImplicit false

namespace CompositeSorts

/-- A place between the tokens of a text: the token there, the tokens behind it, and what comes
last, the place of the end of the input or a problem. -/
structure TokenStream where
  current : Token
  behind : List Token
  final : Except Problem Position

namespace TokenStream

/-- The tokens in front of the end of the text or of the first fault, and what comes then. -/
def scanAll (scanner : Scanner) : List Token × Except Problem Position :=
  match _outcome : scanner.next.1 with
  | .error fault => ([], .error (.ofLexical fault))
  | .ok token =>
    if _final : token.kind = .endOfInput then ([], .ok token.position)
    else
      let (tokens, final) := scanAll scanner.next.2
      (token :: tokens, final)
termination_by scanner.rest.length
decreasing_by exact Scanner.next_rest_length_lt _outcome _final

/-- The stream on the first of the tokens, or on the end of the input when there is none. -/
def ofTokens (tokens : List Token) (final : Except Problem Position) : Except Problem TokenStream :=
  match tokens with
  | current :: behind => .ok ⟨current, behind, final⟩
  | [] => final.map fun position ↦ ⟨⟨.endOfInput, position⟩, [], final⟩

/-- The stream on the first token of a text. -/
def ofText (text : String) : Except Problem TokenStream :=
  let (tokens, final) := scanAll (.ofText text)
  ofTokens tokens final

/-- Moves on by one token. The end of the input is never left. -/
def advance (s : TokenStream) : Except Problem TokenStream := ofTokens s.behind s.final

/-- The kind of the token behind the current one. -/
def peek (s : TokenStream) : Except Problem TokenKind := s.advance.map fun next ↦ next.current.kind

/-- The number of tokens that are left, the end of the input not counted. -/
def size (s : TokenStream) : Nat :=
  if s.current.kind = .endOfInput then 0 else s.behind.length + 1

/-- The problem that the current token is not what the grammar asks for. -/
def unexpected (s : TokenStream) (expected : Expectation) : Problem :=
  ⟨.unexpected expected s.current.kind, s.current.position⟩

theorem size_lt_of_advance {s next : TokenStream} (h : s.advance = .ok next)
    (proper : s.current.kind ≠ .endOfInput) : next.size < s.size := by
  unfold advance ofTokens at h
  split at h
  · rename_i current behind eq
    simp only [Except.ok.injEq] at h
    subst h
    simp only [size, eq, proper, if_false, List.length_cons]
    split <;> omega
  · cases final : s.final with
    | error problem => simp [final, Except.map] at h
    | ok position =>
      simp only [final, Except.map, Except.ok.injEq] at h
      subst h
      simp [size, proper]

end TokenStream

end CompositeSorts
