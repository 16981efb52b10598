import CompositeSorts.SortRecord

/-!
Why an operation of the algebra is refused. Every refusal is of one of three kinds: it would
overwrite something, an argument is of no use to the operation, or a handle leads to no sort.
-/

set_option autoImplicit false
set_option relaxedAutoImplicit false

namespace CompositeSorts

/-- The kinds of refusals. -/
inductive RefusalKind where
  | illegalOverwrite
  | illegalArgument
  | unknownSort
deriving DecidableEq, Repr

/-- The words for a kind of refusal. -/
def RefusalKind.text : RefusalKind → String
  | illegalOverwrite => "illegal overwrite"
  | illegalArgument => "illegal argument"
  | unknownSort => "unknown sort"

/-- The places where an aspects tuple cannot stand. -/
inductive OperandPlace where
  | primitiveArgument
  | aspectArgument
  | weighted
  | disjunction
deriving DecidableEq, Repr

/-- The words for a place. -/
def OperandPlace.text : OperandPlace → String
  | primitiveArgument => "a primitive argument"
  | aspectArgument => "an aspect argument"
  | weighted => "an attribute"
  | disjunction => "a disjunction"

/-- The causes of refusals. Sorts appear by their display. -/
inductive Refusal where
  /-- The handle belongs to another registry. -/
  | foreign (id : SortId)
  /-- The handle leads to no sort, or no longer. -/
  | dead (id : SortId)
  /-- A sort without a name cannot be registered. -/
  | unnamed (display : String)
  | alreadyDefined (name : String)
  | beingDefined (name : String)
  | unknownCategory (tag : String)
  /-- An aspects tuple needs as many names and as many arguments as its category links sorts. -/
  | linkCount (tag : String) (arity names arguments : Nat)
  | repeatedAspect (name : String)
  /-- An aspects tuple where none can stand. -/
  | aspectsOperand (display : String) (place : OperandPlace)
  /-- Aspects tuples and aspects have no copies. -/
  | notDuplicable (variant : Variant) (display : String)
  /-- The base of an attribute has to be simple. -/
  | compositeBase (display : String) (variant : Variant)
  /-- A recursive sort cannot stand for itself. -/
  | ownInstance (id : SortId)
  /-- A recursive sort cannot stand for an aspects tuple. -/
  | aspectsInstance
  | alreadyBound (display : String)
  | notRecursive (display : String)
  | unbound (display : String)
  /-- The instances of a recursive sort lead around in a circle. -/
  | unresolvable (display : String)
  | notAspect (display : String)
  /-- The owner of an aspect has no argument at its position. -/
  | noArgument (display : String)
  /-- An aspects tuple can only be matched with an aspects tuple. -/
  | unrelatable (left right : String) (variant : Variant)
  /-- There is no match of that number. -/
  | unknownMatch (index : Nat)
  /-- A refusal in the words of its caller. -/
  | stated (kind : RefusalKind) (words : String)
deriving DecidableEq, Repr

namespace Refusal

/-- The kind of a refusal. -/
def kind : Refusal → RefusalKind
  | alreadyDefined _ | beingDefined _ | repeatedAspect _ | alreadyBound _ => .illegalOverwrite
  | dead _ | noArgument _ => .unknownSort
  | stated kind _ => kind
  | _ => .illegalArgument

/-- The words for a refusal, without its kind. -/
def message : Refusal → String
  | foreign id => id.text ++ " belongs to another registry"
  | dead id => id.text
  | unnamed display => "cannot register unnamed sort `" ++ display ++ "`"
  | alreadyDefined name => "`" ++ name ++ "` is already defined"
  | beingDefined name => "`" ++ name ++ "` is already being defined"
  | unknownCategory tag => "unknown category `" ++ tag ++ "`"
  | linkCount tag arity names arguments =>
    "[" ++ tag ++ "] links " ++ toString arity ++ " sorts; got " ++ toString names ++
      " names and " ++ toString arguments ++ " arguments"
  | repeatedAspect name => "`" ++ name ++ "` appears twice in one aspects tuple"
  | aspectsOperand display place =>
    "aspects sort `" ++ display ++ "` cannot be used in " ++ place.text
  | notDuplicable variant display =>
    variant.text ++ " sort `" ++ display ++ "` cannot be duplicated"
  | compositeBase display variant =>
    "attribute base `" ++ display ++ "` must be simple, not a " ++ variant.text ++ " sort"
  | ownInstance id => id.text ++ " cannot be its own instance"
  | aspectsInstance => "an aspects sort cannot be the instance of a recursive sort"
  | alreadyBound display => "recursive sort `" ++ display ++ "` is already bound"
  | notRecursive display => "`" ++ display ++ "` is not a recursive sort"
  | unbound display => "recursive sort `" ++ display ++ "` is not bound"
  | unresolvable display => "recursive sort `" ++ display ++ "` does not resolve"
  | notAspect display => "`" ++ display ++ "` is not an aspect"
  | noArgument display => "argument of `" ++ display ++ "`"
  | unrelatable left right variant =>
    "cannot relate `" ++ left ++ "` to `" ++ right ++
      "`: an aspects sort only relates to aspects sorts, not to " ++ variant.text ++ " sorts"
  | unknownMatch index => "unknown match m" ++ toString index
  | stated _ words => words

/-- A refusal in full: its kind and its message. -/
def text (refusal : Refusal) : String := refusal.kind.text ++ ": " ++ refusal.message

end Refusal

/-- How a computation ends early: refused for a reason, or abandoned on the spot because a
question about a category was never answered. -/
inductive Stop (ε : Type) where
  | refused (reason : ε)
  | abandoned
deriving DecidableEq, Repr

/-- Gives the reason another form. -/
def Stop.map {ε δ : Type} (f : ε → δ) : Stop ε → Stop δ
  | refused reason => refused (f reason)
  | abandoned => abandoned

end CompositeSorts
