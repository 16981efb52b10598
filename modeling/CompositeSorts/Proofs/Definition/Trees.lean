import CompositeSorts.Definition.Evaluation
import CompositeSorts.Proofs.Definition.Spelling

/-!
Programs and what they mean. A program is a list of definitions, aspects declarations and
expressions. Its trees say nothing of where in a text they stand, nor of blanks, comments and
redundant parentheses.

What a tree does to a catalog is said by `Tree.run`. A name denotes the recursive sort that stands
for it while it is under definition, and otherwise the sort registered under it. The operands of a
chain are evaluated from left to right and then combined from the right; summands are added from the
left, each when it is evaluated. A definition is bound or copied, and registered, when its body is
complete.

A phrase that was read from a text does what a tree does if it runs in the same way when the places
of problems are left out of account, which is what `Evaluation.placeless` is for.
-/

set_option autoImplicit false
set_option relaxedAutoImplicit false

namespace CompositeSorts

/-- The trees of programs. -/
inductive Tree where
  /-- A name. -/
  | reference (name : String)
  /-- A primitive sort with an argument that is no tuple, or with none. -/
  | primitive (tag : String) (argument : Option Literal)
  /-- A primitive sort linked to a tuple of sorts. -/
  | linked (tag : String) (arguments : List Tree)
  /-- A chain of operands with `^` between them. -/
  | chain (first : Tree) (others : List Tree)
  /-- Summands with `+` between them. -/
  | sum (first : Tree) (others : List Tree)
  /-- A name and what it is defined as. -/
  | definition (name : String) (body : Tree)
  /-- The declaration of an aspects tuple. -/
  | aspects (tag : String) (names : List String) (arguments : List Tree)

/-! ### Meaning -/

/-- A computation on a catalog that can fail, at no place in particular. What it changed stays. -/
abbrev Meaning (α : Type) := EStateM (Stop ProblemCause) Catalog α

/-- An operation: a refusal is a cause of failure. -/
def Op.meaning {α : Type} (operation : Op α) : Meaning α := fun c ↦
  match operation c with
  | .ok value changed => .ok value changed
  | .error reason changed => .error (reason.map ProblemCause.refused) changed

namespace Meaning

/-- Ends with a cause. -/
def fail {α : Type} (cause : ProblemCause) : Meaning α := throw (.refused cause)

/-- The sort that a name denotes. -/
def lookUp (name : String) : Meaning SortId := do
  match ← (Op.mention name).meaning with
  | some placeholder => pure placeholder
  | none =>
    match (← get).sortOf name with
    | some id => pure id
    | none => fail (.undefinedName name)

/-- Combines sorts from the right. -/
def combineAll (base : SortId) : List SortId → Meaning SortId
  | [] => pure base
  | next :: others => do
    let weight ← combineAll next others
    (Op.combine base weight).meaning

/-- Gives the finished body of a definition its name. If the name was mentioned in the body, what
stands for it is bound to the body; otherwise the body is copied under the name. -/
def complete (name : String) (body : SortId) : Meaning SortId := do
  let concluded ← Op.conclude.meaning
  match concluded.bind Pending.placeholder with
  | some placeholder =>
    if placeholder = body then fail (.selfDefined name)
    (Op.bind placeholder body).meaning
    (Op.register placeholder).meaning
    pure placeholder
  | none =>
    match Evaluation.unboundDisplay (← get) body with
    | some outer => fail (.pendingBody name outer)
    | none =>
      let named ← (Op.duplicate body name).meaning
      (Op.register named).meaning
      pure named

/-- The number of sorts that an aspects tuple of these names links. -/
def aspectArity (categories : CategoryTable) (tag : String) (names : List String) : Meaning Nat :=
  match categories.lookup tag with
  | .never => throw .abandoned
  | .unknown => fail (.unknownTag tag)
  | .known (.sorts arity) =>
    if names.length = arity then pure arity else fail (.aspectCount tag arity names.length)
  | .known _ => fail (.linksNothing tag)

end Meaning

namespace Tree

open Meaning

variable (categories : CategoryTable)

mutual

/-- What a tree does to a catalog, and the sort that it denotes. -/
def run : Tree → Meaning SortId
  | .reference name => lookUp name
  | .primitive tag argument => (Op.primitive categories tag (argument.map Literal.argument)).meaning
  | .linked tag arguments => do
    let ids ← runAll arguments
    (Op.primitive categories tag (some (.sorts ids))).meaning
  | .chain first others => do
    let base ← first.run
    let weights ← runAll others
    combineAll base weights
  | .sum first others => do
    let left ← first.run
    addAll left others
  | .definition name body => do
    (Op.announce name).meaning
    let body ← body.run
    complete name body
  | .aspects tag names arguments => do
    let arity ← aspectArity categories tag names
    let ids ← runAll arguments
    if arguments.length ≠ arity then fail (.tupleLength tag arity arguments.length)
    (Op.declareAspects categories tag names ids).meaning

/-- What trees do one after the other. -/
def runAll : List Tree → Meaning (List SortId)
  | [] => pure []
  | tree :: trees => do
    let id ← tree.run
    let ids ← runAll trees
    pure (id :: ids)

/-- Adds what trees denote to a sort, from the left. -/
def addAll (left : SortId) : List Tree → Meaning SortId
  | [] => pure left
  | tree :: trees => do
    let right ← tree.run
    let added ← (Op.sum left right).meaning
    addAll added trees

end

mutual

/-- The arguments of primitive sorts are such as their categories take. -/
def Fits : Tree → Prop
  | .reference _ => True
  | .primitive tag argument => ∃ shape, categories.lookup tag = .known shape ∧
      ∀ literal, argument = some literal → literal.argument.Suits shape
  | .linked tag arguments =>
    categories.lookup tag = .known (.sorts arguments.length) ∧ AllFit arguments
  | .chain first others => first.Fits ∧ AllFit others
  | .sum first others => first.Fits ∧ AllFit others
  | .definition _ body => body.Fits
  | .aspects _ _ arguments => AllFit arguments

/-- All of the trees fit. -/
def AllFit : List Tree → Prop
  | [] => True
  | tree :: trees => tree.Fits ∧ AllFit trees

end

/-- The sum of terms, which is the term itself if there is but one. -/
def summed (first : Tree) : List Tree → Tree
  | [] => first
  | next :: others => .sum first (next :: others)

/-- The chain of factors, which is the factor itself if there is but one. -/
def chained (first : Tree) : List Tree → Tree
  | [] => first
  | next :: others => .chain first (next :: others)

variable {categories} {first : Tree} {others : List Tree}

theorem run_summed (first : Tree) (others : List Tree) :
    (summed first others).run categories =
      first.run categories >>= fun left ↦ addAll categories left others := by
  cases others with
  | nil =>
    rw [summed]
    exact (bind_pure _).symm
  | cons next others => rw [summed, run]

theorem run_chained (first : Tree) (others : List Tree) :
    (chained first others).run categories =
      first.run categories >>= fun base ↦ runAll categories others >>= fun weights ↦
        combineAll base weights := by
  cases others with
  | nil =>
    rw [chained]
    simp only [runAll, pure_bind, combineAll, bind_pure]
  | cons next others => rw [chained, run]

/-- A chain is combined from the right. -/
theorem run_chained_cons (first next : Tree) (others : List Tree) :
    (chained first (next :: others)).run categories =
      first.run categories >>= fun base ↦ (chained next others).run categories >>= fun weight ↦
        (Op.combine base weight).meaning := by
  rw [run_chained, run_chained, runAll]
  simp only [bind_assoc, pure_bind, combineAll]

theorem fits_summed_iff :
    (summed first others).Fits categories ↔ AllFit categories (first :: others) := by
  cases others with
  | nil => simp [summed, AllFit]
  | cons next others => simp [summed, Fits, AllFit]

theorem fits_chained_iff :
    (chained first others).Fits categories ↔ AllFit categories (first :: others) := by
  cases others with
  | nil => simp [chained, AllFit]
  | cons next others => simp [chained, Fits, AllFit]

end Tree

/-! ### Phrases without their places -/

namespace Evaluation

variable {α β : Type}

/-- The computation without the places of problems. -/
def placeless (evaluation : Evaluation α) : Meaning α := fun c ↦
  match evaluation c with
  | .ok value changed => .ok value changed
  | .error reason changed => .error (reason.map Problem.cause) changed

@[simp] theorem placeless_pure (value : α) : placeless (pure value) = pure value := rfl

@[simp] theorem placeless_throw (reason : Stop Problem) :
    placeless (throw reason : Evaluation α) = throw (reason.map Problem.cause) := rfl

@[simp] theorem placeless_fail (cause : ProblemCause) (position : Position) :
    placeless (fail cause position : Evaluation α) = Meaning.fail cause := rfl

@[simp] theorem placeless_get : placeless get = get := rfl

@[simp] theorem placeless_bind (first : Evaluation α) (next : α → Evaluation β) :
    placeless (first >>= next) = placeless first >>= fun value ↦ placeless (next value) := by
  funext c
  change (match EStateM.bind first next c with
    | .ok value changed => .ok value changed
    | .error reason changed => .error (reason.map Problem.cause) changed) =
      EStateM.bind (placeless first) (fun value ↦ placeless (next value)) c
  unfold EStateM.bind placeless
  cases first c <;> rfl

@[simp] theorem placeless_at (operation : Op α) (position : Position) :
    placeless (operation.at position) = operation.meaning := by
  funext c
  unfold placeless Op.at Op.meaning
  cases operation c with
  | ok value changed => rfl
  | error reason changed => cases reason <;> rfl

@[simp] theorem placeless_lookUp (position : Position) (name : String) :
    placeless (lookUp position name) = Meaning.lookUp name := by
  unfold lookUp Meaning.lookUp
  rw [placeless_bind, placeless_at]
  refine congrArg _ (funext fun placeholder ↦ ?_)
  cases placeholder with
  | some placeholder => rfl
  | none =>
    rw [placeless_bind, placeless_get]
    refine congrArg _ (funext fun c ↦ ?_)
    cases c.sortOf name <;> rfl

@[simp] theorem placeless_complete (position : Position) (name : String) (body : SortId) :
    placeless (complete position name body) = Meaning.complete name body := by
  unfold complete Meaning.complete
  rw [placeless_bind, placeless_at]
  refine congrArg _ (funext fun concluded ↦ ?_)
  cases concluded.bind Pending.placeholder with
  | some placeholder =>
    dsimp only
    split_ifs with itself
    · rfl
    · simp only [placeless_bind, placeless_at, placeless_pure]
  | none =>
    dsimp only
    rw [placeless_bind, placeless_get]
    refine congrArg _ (funext fun c ↦ ?_)
    cases unboundDisplay c body with
    | some outer => rfl
    | none => simp only [placeless_bind, placeless_at, placeless_pure]

end Evaluation

namespace Phrase

/-- What a phrase does, without the places of problems. -/
def meaning (categories : CategoryTable) (phrase : Phrase) : Meaning SortId :=
  (phrase.evaluate categories).placeless

/-- What phrases do one after the other. -/
def meaningAll (categories : CategoryTable) (phrases : List Phrase) : Meaning (List SortId) :=
  (evaluateAll categories phrases).placeless

variable {categories : CategoryTable} {position : Position} {name tag : String}

open Evaluation

theorem meaningAll_nil : meaningAll categories [] = pure [] := placeless_pure []

theorem meaningAll_cons (phrase : Phrase) (phrases : List Phrase) :
    meaningAll categories (phrase :: phrases) =
      phrase.meaning categories >>= fun id ↦ meaningAll categories phrases >>= fun ids ↦
        pure (id :: ids) := by
  refine (placeless_bind (phrase.evaluate categories) _).trans ?_
  simp only [placeless_bind, placeless_pure]
  rfl

theorem meaningAll_append (phrases others : List Phrase) :
    meaningAll categories (phrases ++ others) =
      meaningAll categories phrases >>= fun ids ↦ meaningAll categories others >>= fun more ↦
        pure (ids ++ more) := by
  induction phrases with
  | nil => simp only [List.nil_append, meaningAll_nil, pure_bind, bind_pure]
  | cons phrase phrases ih =>
    rw [List.cons_append, meaningAll_cons, meaningAll_cons, ih]
    simp only [bind_assoc, pure_bind, List.cons_append]

theorem meaning_reference :
    (reference position name).meaning categories = Meaning.lookUp name :=
  placeless_lookUp position name

theorem meaning_primitive (argument : Option Literal) :
    (primitive position tag argument).meaning categories =
      (Op.primitive categories tag (argument.map Literal.argument)).meaning :=
  placeless_at _ position

theorem meaning_linked (arguments : List Phrase) :
    (linked position tag arguments).meaning categories =
      meaningAll categories arguments >>= fun linked ↦
        (Op.primitive categories tag (some (.sorts linked))).meaning := by
  refine (placeless_bind (evaluateAll categories arguments) _).trans ?_
  simp only [placeless_at]
  rfl

theorem meaning_weighted (base weight : Phrase) :
    (weighted position base weight).meaning categories =
      base.meaning categories >>= fun base ↦ weight.meaning categories >>= fun weight ↦
        (Op.combine base weight).meaning := by
  refine (placeless_bind (base.evaluate categories) _).trans ?_
  simp only [placeless_bind, placeless_at]
  rfl

theorem meaning_sum (left right : Phrase) :
    (sum position left right).meaning categories =
      left.meaning categories >>= fun left ↦ right.meaning categories >>= fun right ↦
        (Op.sum left right).meaning := by
  refine (placeless_bind (left.evaluate categories) _).trans ?_
  simp only [placeless_bind, placeless_at]
  rfl

theorem meaning_definition (body : Phrase) :
    (definition position name body).meaning categories =
      (Op.announce name).meaning >>= fun _ ↦ body.meaning categories >>= fun body ↦
        Meaning.complete name body := by
  refine (placeless_bind ((Op.announce name).at position) _).trans ?_
  simp only [placeless_bind, placeless_at, placeless_complete]
  rfl

theorem meaning_aspects (names : List String) (arguments : List Phrase) :
    (aspects position tag names arguments).meaning categories =
      meaningAll categories arguments >>= fun linked ↦
        (Op.declareAspects categories tag names linked).meaning := by
  refine (placeless_bind (evaluateAll categories arguments) _).trans ?_
  simp only [placeless_at]
  rfl

theorem meaning_after (earlier : List Phrase) (last : Phrase) :
    (after earlier last).meaning categories =
      meaningAll categories earlier >>= fun _ ↦ last.meaning categories :=
  placeless_bind (evaluateAll categories earlier) fun _ ↦ last.evaluate categories

theorem meaning_stop (reason : Stop Problem) :
    (stop reason).meaning categories = throw (reason.map Problem.cause) := placeless_throw reason

end Phrase

end CompositeSorts
