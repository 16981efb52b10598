import CompositeSorts.Proofs.Definition.Reading

/-!
Tuples, items and programs are read as they were written, and with them every part of a text
(`Derives.read`). A text that starts a definition, an aspects declaration or an expression is told
apart by its first tokens (`Derives.opening`); the same holds behind an opening parenthesis.
-/

set_option autoImplicit false
set_option relaxedAutoImplicit false

namespace CompositeSorts

open Meaning Phrase

namespace Grammar

open TokenKind TokenStream

variable {categories : CategoryTable} {s : TokenStream} {rest kinds a b : List TokenKind}
  {name tag first : String} {others : List String} {tree : Tree} {trees : List Tree}

/-- An expression ends in front of a closing parenthesis. -/
theorem behind_closing : Behind enders (closeParen :: rest) := by
  rintro _ ⟨⟩
  decide

/-! ### Tuples -/

theorem read_noArgument : (Part.arguments []).Read categories [] := by
  intro _ bound done s shorter rest offers
  have here : s.current.kind = closeParen := offers.current
  have noComma : s.current.kind ≠ comma := by
    rw [here]
    decide
  obtain ⟨last, closed, offers⟩ := offers.exists_expect (by decide)
  rw [Grammar.elements, dif_neg noComma]
  split
  · rename_i failed
    rw [closed] at failed
    cases failed
  · rename_i found
    rw [closed] at found
    cases found
    refine ⟨⟨?_, rfl⟩, offers⟩
    simp only [Tree.runAll, pure_bind, List.append_nil, bind_pure]

theorem read_argument (isExpression : (Part.expression tree).Read categories a)
    (areArguments : (Part.arguments trees).Read categories b)
    (signs : ∀ kind ∈ b.head?, kind = comma) :
    (Part.arguments (tree :: trees)).Read categories (comma :: (a ++ b)) := by
  rintro ⟨fit, fitAll⟩ bound done s shorter rest offers
  have isComma : s.current.kind = comma := offers.current
  rw [List.cons_append, List.append_assoc] at offers
  obtain ⟨next, passed, offers⟩ := offers.exists_pass (by simp [isComma])
  have read := isExpression fit next.1 (b ++ closeParen :: rest)
    (behind_closing.append (fun kind inside ↦ by simp [signs kind inside, enders])
      (List.Subset.refl _)) offers
  rw [Grammar.elements, dif_pos isComma, passed]
  dsimp only
  cases outcome : Grammar.expression categories next.1 with
  | cut phrase =>
    rw [outcome] at read
    change FailsLike ((Phrase.after done phrase).meaning categories) _
    rw [meaning_after, Tree.runAll]
    refine .bind _ fun ids ↦ ?_
    exact (read.bind_right _).bind_right _
  | complete phrase behind shorter' =>
    rw [outcome] at read
    obtain ⟨same, offers⟩ := read
    have more := areArguments fitAll bound (done ++ [phrase]) behind (by have := next.2; omega) rest
      offers
    rw [meaningAll_append, meaningAll_cons, meaningAll_nil, same, List.length_append] at more
    simp only [bind_assoc, pure_bind, List.append_assoc, List.singleton_append,
      List.length_singleton,
      Nat.add_assoc, Nat.add_comm 1] at more
    simp only [Tree.runAll, bind_assoc, pure_bind, List.length_cons]
    exact more

/-- Refuses a tuple of another length. -/
def Meaning.checkLength (tag : String) (arity length : Nat) : Meaning Unit :=
  if length ≠ arity then fail (.tupleLength tag arity length) else pure ()

/-- The sorts of a tuple are read, and they are counted when all of them are evaluated. -/
theorem gets_tuple (isExpression : (Part.expression tree).Read categories a)
    (areArguments : (Part.arguments trees).Read categories b)
    (signs : ∀ kind ∈ b.head?, kind = comma) (fits : Tree.AllFit categories (tree :: trees))
    (tag : String) (arity : Nat) (offers : s.Offers
      (openParen :: (a ++ (b ++ closeParen :: rest)))) :
    Gets categories
      (fun phrases ↦ meaningAll categories phrases = Tree.runAll categories (tree :: trees) ∧
        (tree :: trees).length = arity)
      (Tree.runAll categories (tree :: trees) >>= fun ids ↦
        Meaning.checkLength tag arity (tree :: trees).length >>= fun _ ↦ pure ids)
      rest (Grammar.tuple categories tag arity s) := by
  obtain ⟨fit, fitAll⟩ := fits
  obtain ⟨⟨inner, h₁⟩, opened, offers⟩ := offers.exists_expect (by decide)
  have read := isExpression fit inner (b ++ closeParen :: rest)
    (behind_closing.append (fun kind inside ↦ by simp [signs kind inside, enders])
      (List.Subset.refl _)) offers
  rw [Grammar.tuple]
  split
  · rename_i failed
    rw [opened] at failed
    cases failed
  · rename_i found
    rw [opened] at found
    cases found
    cases outcome : Grammar.expression categories inner with
    | cut phrase =>
      rw [outcome] at read
      rw [Tree.runAll]
      exact (read.bind_right _).bind_right _
    | complete phrase behind shorter =>
      rw [outcome] at read
      obtain ⟨same, offers⟩ := read
      have more := areArguments fitAll s.size [phrase] behind (by omega) rest offers
      have together : (meaningAll categories [phrase] >>= fun ids ↦
          Tree.runAll categories trees >>= fun more ↦ pure (ids ++ more)) =
          Tree.runAll categories (tree :: trees) := by
        rw [meaningAll_cons, meaningAll_nil, same, Tree.runAll]
        simp only [bind_assoc, pure_bind, List.singleton_append]
      rw [together] at more
      dsimp only
      cases outcome' : Grammar.elements categories s.size [phrase] behind (by omega) with
      | cut phrase =>
        rw [outcome'] at more
        exact more.bind_right _
      | complete arguments last shorter' =>
        rw [outcome'] at more
        obtain ⟨⟨same, length⟩, offers⟩ := more
        have count : arguments.length = (tree :: trees).length := by
          rw [length, List.length_singleton, List.length_cons, Nat.add_comm]
        dsimp only
        split_ifs with fitting
        · exact ⟨⟨same, count ▸ fitting⟩, offers⟩
        · change FailsLike ((Phrase.after arguments (.stop _)).meaning categories) _
          rw [meaning_after, same, meaning_stop, Meaning.checkLength,
            if_pos (count ▸ fitting), count]
          exact .bind _ fun _ ↦ (FailsLike.throw _).bind_right _

theorem read_linked (tag : String) (isExpression : (Part.expression tree).Read categories a)
    (areArguments : (Part.arguments trees).Read categories b)
    (signs : ∀ kind ∈ b.head?, kind = comma) :
    (Part.factor (.linked tag (tree :: trees))).Read categories
      (tagged tag ++ openParen :: (a ++ (b ++ [closeParen]))) := by
  rintro ⟨known, fits⟩ s rest _ offers
  have here : s.current.kind = openBracket := offers.current
  simp only [List.append_assoc, List.cons_append] at offers
  obtain ⟨place, inner, read, offers⟩ := exists_tag offers
  have opens : inner.1.current.kind = openParen := offers.current
  have read' := gets_tuple isExpression areArguments signs fits tag (tree :: trees).length offers
  rw [Meaning.checkLength, if_neg (by simp)] at read'
  simp only [pure_bind, bind_pure] at read'
  rw [factor_of_bracket here, Grammar.primitive, read]
  simp only [known, opens, startsArgument, if_true]
  cases outcome : Grammar.tuple categories tag (tree :: trees).length inner.1 with
  | cut phrase =>
    rw [outcome] at read'
    rw [Tree.run]
    exact read'.bind_right _
  | complete arguments last shorter =>
    rw [outcome] at read'
    obtain ⟨⟨same, -⟩, offers⟩ := read'
    refine gets_complete ?_ offers
    rw [meaning_linked, Tree.run, same]

/-! ### Aspects declarations -/

theorem Tree.run_aspects (tag : String) (names : List String) (trees : List Tree) :
    (Tree.aspects tag names trees).run categories =
      aspectArity categories tag names >>= fun arity ↦ Tree.runAll categories trees >>= fun ids ↦
        Meaning.checkLength tag arity trees.length >>= fun _ ↦
          (Op.declareAspects categories tag names ids).meaning := by
  rw [Tree.run]
  refine congrArg _ (funext fun arity ↦ congrArg _ (funext fun ids ↦ ?_))
  unfold Meaning.checkLength
  split_ifs <;> simp only [pure_bind]

theorem gets_aspects (isExpression : (Part.expression tree).Read categories a)
    (areArguments : (Part.arguments trees).Read categories b)
    (signs : ∀ kind ∈ b.head?, kind = comma) (fits : Tree.AllFit categories (tree :: trees))
    (offers : s.Offers
      (heading first others tag ++ openParen :: (a ++ (b ++ closeParen :: rest)))) :
    GetsPhrase categories ((Tree.aspects tag (first :: others) (tree :: trees)).run categories) rest
      (Grammar.aspects categories s) := by
  obtain ⟨place, inner, read, offers⟩ := exists_aspectsHeader offers
  have opens : inner.1.current.kind = openParen := offers.current
  rw [Grammar.aspects, read, Tree.run_aspects]
  dsimp only
  cases known : categories.lookup tag with
  | never => exact gets_stop _ .abandoned (by rw [aspectArity, known]; rfl)
  | unknown => exact gets_stop _ (.refused _) (by rw [aspectArity, known]; rfl)
  | known shape =>
    cases shape with
    | sorts arity =>
      dsimp only
      by_cases count : (first :: others).length = arity
      · rw [if_neg (not_not.mpr count), if_neg (not_not.mpr opens)]
        have header : aspectArity categories tag (first :: others) = pure arity := by
          rw [aspectArity, known]
          exact if_pos count
        have read' := gets_tuple isExpression areArguments signs fits tag arity offers
        rw [header, pure_bind]
        cases outcome : Grammar.tuple categories tag arity inner.1 with
        | cut phrase =>
          rw [outcome] at read'
          have fails := FailsLike.bind_right read' fun ids ↦
            (Op.declareAspects categories tag (first :: others) ids).meaning
          simp only [bind_assoc, pure_bind] at fails
          exact fails
        | complete arguments last shorter =>
          rw [outcome] at read'
          obtain ⟨⟨same, length⟩, offers⟩ := read'
          refine gets_complete ?_ offers
          rw [meaning_aspects, same, Meaning.checkLength, if_neg (not_not.mpr length)]
          simp only [pure_bind]
      · rw [if_pos count]
        exact gets_stop _ (.refused _) (by rw [aspectArity, known]; exact if_neg count)
    | _ => exact gets_stop _ (.refused _) (by rw [aspectArity, known]; rfl)

/-! ### Items -/

/-- What stands behind an opening parenthesis decides what is read. -/
theorem factor_of_parenthesis (categories : CategoryTable)
    (offers : s.Offers (openParen :: kinds)) :
    ∃ (inner : TokenStream) (shorter : inner.size < s.size), inner.Offers kinds ∧
      Grammar.factor categories s =
        match inner.current.kind with
        | .identifier _ =>
          match inner.peek with
          | .error problem => stopped problem
          | .ok .comma => Grammar.aspects categories s
          | .ok .colon => closing s.size (Grammar.definition categories inner) shorter
          | .ok _ => closing s.size (Grammar.expression categories inner) shorter
        | _ => closing s.size (Grammar.expression categories inner) shorter := by
  have here : s.current.kind = openParen := offers.current
  obtain ⟨⟨inner, shorter⟩, opened, offers⟩ := offers.exists_expect (by decide)
  refine ⟨inner, shorter, offers, ?_⟩
  rw [Grammar.factor]
  split
  · exact opened ▸ rfl
  · rename_i found
    cases found.symm.trans here
  · rename_i found
    cases found.symm.trans here
  · rename_i other _ _
    exact absurd here other

/-- Where no definition and no aspects declaration begins, an expression is read. -/
theorem factor_of_expression (categories : CategoryTable)
    (offers : s.Offers (openParen :: kinds))
    (plain : ∀ name rest, kinds = identifier name :: rest →
      rest.headD endOfInput ≠ comma ∧ rest.headD endOfInput ≠ colon) :
    ∃ (inner : TokenStream) (shorter : inner.size < s.size), inner.Offers kinds ∧
      Grammar.factor categories s =
        closing s.size (Grammar.expression categories inner) shorter := by
  obtain ⟨inner, shorter, offers, read⟩ := factor_of_parenthesis categories offers
  refine ⟨inner, shorter, offers, read.trans ?_⟩
  split
  · rename_i name found
    cases kinds with
    | nil => cases found.symm.trans offers.current
    | cons kind rest =>
      cases found.symm.trans offers.current
      have noSign := plain name rest rfl
      rw [offers.peek_eq]
      split
      · rename_i failed
        cases failed
      · rename_i found'
        exact absurd (Except.ok.inj found') noSign.1
      · rename_i found'
        exact absurd (Except.ok.inj found') noSign.2
      · rfl
  · rfl

/-- Where no definition and no aspects declaration begins, an expression is an item. -/
theorem item_of_opens (opens : Opens kinds) (behind : Behind [semicolon] rest)
    (offers : s.Offers (kinds ++ rest)) :
    Grammar.item categories s = Grammar.expression categories s := by
  obtain ⟨begins, word, parenthesis⟩ := opens
  obtain ⟨kind, kinds, rfl, proper⟩ := begins.eq_cons
  have here : s.current.kind = kind := offers.current
  obtain ⟨next, moved, offers'⟩ := offers.advance
  have apart {others : List TokenKind} {sign : TokenKind}
      (noSign : ∀ kind ∈ others.head?, kind ≠ sign) (other : sign ≠ endOfInput ∧ sign ≠ semicolon) :
      (others ++ rest).headD endOfInput ≠ sign := by
    cases others with
    | cons kind others => exact noSign kind rfl
    | nil =>
      cases rest with
      | nil => exact other.1.symm
      | cons kind rest =>
        have only : kind = semicolon := by simpa using behind kind rfl
        exact only ▸ other.2.symm
  rw [Grammar.item]
  split
  · rename_i found
    exact absurd (here.symm.trans found) proper
  · rename_i found
    obtain rfl := here.symm.trans found
    rw [moved]
    dsimp only
    split
    · rename_i name found'
      cases kinds with
      | nil =>
        cases rest with
        | nil => cases found'.symm.trans offers'.current
        | cons kind rest =>
          have only : kind = semicolon := by simpa using behind kind rfl
          subst only
          cases found'.symm.trans offers'.current
      | cons second others =>
        cases found'.symm.trans offers'.current
        obtain ⟨kind, inside, noComma⟩ := parenthesis name others rfl
        rw [offers'.peek_eq]
        split
        · rename_i failed
          cases failed
        · rename_i found''
          refine absurd (Except.ok.inj found'') (apart (fun kind' inside' ↦ ?_) (by decide))
          cases inside.symm.trans inside'
          exact noComma
        · rfl
    · rfl
  · rename_i name found
    obtain rfl := here.symm.trans found
    rw [offers.peek_eq]
    split
    · rename_i failed
      cases failed
    · rename_i found'
      refine absurd (Except.ok.inj found') (apart (fun kind inside ↦ ?_) (by decide))
      rcases word name kinds rfl kind inside with rfl | rfl <;> decide
    · rfl
  · rfl

theorem read_plain (isExpression : (Part.expression tree).Read categories a) (opens : Opens a) :
    (Part.item tree).Read categories a := by
  intro fits
  refine ⟨fun s rest behind offers ↦ ?_, fun s rest offers ↦ ?_⟩
  · rw [item_of_opens opens behind offers]
    exact isExpression fits s rest (behind.mono (by decide)) offers
  · have plain (name : String) (behind : List TokenKind)
        (starts : a ++ closeParen :: rest = identifier name :: behind) :
        behind.headD endOfInput ≠ comma ∧ behind.headD endOfInput ≠ colon := by
      obtain ⟨begins, word, -⟩ := opens
      obtain ⟨kind, others, rfl, -⟩ := begins.eq_cons
      obtain ⟨rfl, rfl⟩ := List.cons.inj starts
      cases others with
      | nil => exact ⟨by simp, by simp⟩
      | cons second others =>
        rcases word name _ rfl second rfl with rfl | rfl <;> exact ⟨by simp, by simp⟩
    obtain ⟨inner, shorter, offers, read⟩ := factor_of_expression categories offers plain
    rw [read]
    exact gets_closing (isExpression fits inner _ behind_closing offers) shorter

theorem gets_definition (isExpression : (Part.expression tree).Read categories a)
    (fits : tree.Fits categories) (behind : Behind enders rest)
    (offers : s.Offers (identifier name :: colon :: (a ++ rest))) :
    GetsPhrase categories ((Tree.definition name tree).run categories) rest
      (Grammar.definition categories s) := by
  obtain ⟨next, named, offers⟩ := offers.exists_expectName
  obtain ⟨start, passed, offers⟩ := offers.exists_expect (by decide)
  have read := isExpression fits start.1 rest behind offers
  rw [Grammar.definition, named]
  dsimp only
  rw [passed, Tree.run]
  dsimp only
  cases outcome : Grammar.expression categories start.1 with
  | cut phrase =>
    rw [outcome] at read
    change FailsLike ((Phrase.definition _ name phrase).meaning categories) _
    rw [meaning_definition]
    exact .bind _ fun _ ↦ (read.bind_left _).bind_right _
  | complete phrase last shorter =>
    rw [outcome] at read
    obtain ⟨same, offers⟩ := read
    refine gets_complete ?_ offers
    rw [meaning_definition, same]

theorem read_definition (name : String) (isExpression : (Part.expression tree).Read categories a) :
    (Part.item (.definition name tree)).Read categories (identifier name :: colon :: a) := by
  intro fits
  refine ⟨fun s rest behind offers ↦ ?_, fun s rest offers ↦ ?_⟩
  · have here : s.current.kind = identifier name := offers.current
    have ahead : s.peek = .ok colon := offers.peek_eq
    have reads : Grammar.item categories s = Grammar.definition categories s := by
      rw [Grammar.item]
      simp only [here, ahead]
    rw [reads]
    exact gets_definition isExpression fits (behind.mono (by decide)) offers
  · obtain ⟨inner, shorter, offers, read⟩ := factor_of_parenthesis categories offers
    have here : inner.current.kind = identifier name := offers.current
    have ahead : inner.peek = .ok colon := offers.peek_eq
    simp only [here, ahead] at read
    rw [read]
    exact gets_closing (gets_definition isExpression fits behind_closing offers) shorter

/-- An aspects declaration can stand for a factor without parentheses, except at the beginning of an
item. -/
theorem read_heading (tag first : String) (several : others ≠ [])
    (isExpression : (Part.expression tree).Read categories a)
    (areArguments : (Part.arguments trees).Read categories b)
    (signs : ∀ kind ∈ b.head?, kind = comma) :
    (Part.factor (.aspects tag (first :: others) (tree :: trees))).Read categories
      (heading first others tag ++ openParen :: (a ++ (b ++ [closeParen]))) := by
  intro fits s rest _ offers
  obtain ⟨second, others, rfl⟩ := List.exists_cons_of_ne_nil several
  obtain ⟨inner, shorter, offers', read⟩ := factor_of_parenthesis categories offers
  have here : inner.current.kind = identifier first := offers'.current
  have ahead : inner.peek = .ok comma := offers'.peek_eq
  simp only [here, ahead] at read
  rw [read]
  simp only [List.append_assoc, List.cons_append, List.nil_append] at offers
  exact gets_aspects isExpression areArguments signs fits offers

theorem read_aspects (several : others ≠ [])
    (isExpression : (Part.expression tree).Read categories a)
    (areArguments : (Part.arguments trees).Read categories b)
    (signs : ∀ kind ∈ b.head?, kind = comma) :
    (Part.item (.aspects tag (first :: others) (tree :: trees))).Read categories
      (heading first others tag ++ openParen :: (a ++ (b ++ [closeParen]))) := by
  intro fits
  refine ⟨fun s rest behind offers ↦ ?_, fun s rest offers ↦ ?_⟩
  · obtain ⟨second, others, rfl⟩ := List.exists_cons_of_ne_nil several
    have here : s.current.kind = openParen := offers.current
    obtain ⟨next, moved, offers'⟩ := offers.advance
    have here' : next.current.kind = identifier first := offers'.current
    have ahead : next.peek = .ok comma := offers'.peek_eq
    have reads : Grammar.item categories s = Grammar.aspects categories s := by
      rw [Grammar.item]
      simp only [here, moved, here', ahead]
    rw [reads]
    simp only [List.append_assoc, List.cons_append, List.nil_append] at offers
    exact gets_aspects isExpression areArguments signs fits offers
  · have isFactor := read_heading tag first several isExpression areArguments signs
    have isTerm := read_term isFactor read_noOperand (by rintro _ ⟨⟩)
    have whole := read_expression isTerm read_noSummand (by rintro _ ⟨⟩)
    simp only [List.append_nil] at whole
    obtain ⟨inner, shorter, offers, read⟩ := factor_of_expression categories offers
      (by rintro _ _ ⟨⟩)
    rw [read]
    exact gets_closing (whole fits inner _ behind_closing offers) shorter

theorem read_parenthesised (isItem : (Part.item tree).Read categories a) :
    (Part.factor tree).Read categories (openParen :: (a ++ [closeParen])) := by
  intro fits s rest _ offers
  rw [List.cons_append, List.append_assoc] at offers
  exact (isItem fits).2 s rest offers

/-! ### Programs -/

/-- The last item of a text can be closed. -/
theorem read_lastItem (isItem : (Part.item tree).Read categories a) {last : List TokenKind}
    (closed : last = [] ∨ last = [semicolon]) :
    (Part.program [tree]).Read categories (a ++ last) := by
  rintro ⟨fit, -⟩ s offers
  have behind : Behind [semicolon] last := by
    rcases closed with rfl | rfl
    · rintro _ ⟨⟩
    · rintro _ ⟨⟩
      exact List.mem_singleton_self _
  have read := (isItem fit).1 s last behind offers
  rw [Grammar.program]
  cases outcome : Grammar.item categories s with
  | cut phrase =>
    rw [outcome] at read
    dsimp only
    rw [meaningAll_cons, Tree.runAll]
    exact ((read.bind_left _).bind_right _).eq
  | complete phrase rest shorter =>
    rw [outcome] at read
    obtain ⟨same, offers⟩ := read
    have once : meaningAll categories [phrase] = Tree.runAll categories [tree] := by
      rw [meaningAll_cons, meaningAll_nil, same, Tree.runAll, Tree.runAll]
    rcases closed with rfl | rfl
    · have here : rest.current.kind = endOfInput := offers.current
      simp only [here]
      exact once
    · have here : rest.current.kind = semicolon := offers.current
      obtain ⟨next, passed, offers⟩ := offers.exists_expect (by decide)
      have here' : next.1.current.kind = endOfInput := offers.current
      simp only [here, passed, here', if_true]
      exact once

theorem read_nextItem (isItem : (Part.item tree).Read categories a)
    (areItems : (Part.program trees).Read categories b) (begins : Begins b) :
    (Part.program (tree :: trees)).Read categories (a ++ semicolon :: b) := by
  rintro ⟨fit, fitAll⟩ s offers
  have read := (isItem fit).1 s (semicolon :: b)
    (by rintro _ ⟨⟩; exact List.mem_singleton_self _) offers
  rw [Grammar.program]
  cases outcome : Grammar.item categories s with
  | cut phrase =>
    rw [outcome] at read
    dsimp only
    rw [meaningAll_cons, Tree.runAll]
    exact ((read.bind_left _).bind_right _).eq
  | complete phrase rest shorter =>
    rw [outcome] at read
    obtain ⟨same, offers⟩ := read
    have here : rest.current.kind = semicolon := offers.current
    obtain ⟨next, passed, offers⟩ := offers.exists_expect (by decide)
    obtain ⟨kind, others, rfl, proper⟩ := begins.eq_cons
    have here' : next.1.current.kind ≠ endOfInput :=
      fun found ↦ proper (offers.current.symm.trans found)
    simp only [here, passed, if_neg here']
    rw [meaningAll_cons, same, areItems fitAll next.1 offers, Tree.runAll]

/-! ### All parts -/

/-- What was written is read. -/
theorem Derives.read {part : Part} (h : Derives part kinds) : part.Read categories kinds := by
  induction h with
  | lastItem _ ih => simpa using read_lastItem ih (.inl rfl)
  | closedItem _ ih => exact read_lastItem ih (.inr rfl)
  | nextItem _ others ih ih' => exact read_nextItem ih ih' others.opening
  | definition name _ ih => exact read_definition name ih
  | aspects _ _ _ several _ arguments ih ih' => exact read_aspects several ih ih' arguments.opening
  | plain expression ih => exact read_plain ih expression.opening
  | expression _ summands ih ih' => exact read_expression ih ih' summands.opening
  | noSummand => exact read_noSummand
  | summand _ others ih ih' => exact read_summand ih ih' others.opening
  | term _ operands ih ih' => exact read_term ih ih' operands.opening
  | noOperand => exact read_noOperand
  | operand _ others ih ih' => exact read_operand ih ih' others.opening
  | reference name => exact read_reference name
  | bare tag => exact read_bare tag
  | primitive tag isLiteral => exact read_primitive tag isLiteral
  | linked tag _ arguments ih ih' => exact read_linked tag ih ih' arguments.opening
  | parenthesised _ ih => exact read_parenthesised ih
  | noArgument => exact read_noArgument
  | argument _ others ih ih' => exact read_argument ih ih' others.opening

/-- A text does what the trees do that it was written for. -/
theorem meaningAll_program (written : Derives (.program trees) kinds)
    (fits : Tree.AllFit categories trees) (offers : s.Offers kinds) :
    meaningAll categories (Grammar.program categories s) = Tree.runAll categories trees :=
  written.read fits s offers

end Grammar

end CompositeSorts
