import CompositeSorts.Cbor.Codec

/-!
Reading values from data items. What is asked for decides what an item means: a name may be given
by its text, by its bytes or by its number; a record is a map from field names or a list of its
fields in order. Items are read in the order of their bytes, and the first thing that is wrong is
the fault.

Main definitions: `Cbor.Reading`, the readers for simple values, `Cbor.variant` for one of several
names, `Cbor.Fields.read` for records.
-/

set_option autoImplicit false
set_option relaxedAutoImplicit false

namespace CompositeSorts.Cbor

/-- A value, or the first thing that is wrong. -/
abbrev Reading (α : Type) := Except Fault α

/-- What an item is when it is not what was asked for. -/
def unfit {α : Type} : Item → Reading α
  | .broken fault => .error fault
  | _ => .error .mismatch

/-- A text, given in characters or in bytes. -/
def string (item : Item) : Reading String :=
  match item.untagged with
  | .text text => .ok text
  | .bytes content =>
    match Bytes.text? content with
    | some text => .ok text
    | none => .error .mismatch
  | other => unfit other

/-- A truth value. -/
def boolean (item : Item) : Reading Bool :=
  match item.untagged with
  | .bool value => .ok value
  | other => unfit other

/-- A number below the limit. -/
def natural (limit : Nat) (item : Item) : Reading Nat :=
  match item.untagged with
  | .unsigned n => if n < limit then .ok n else .error .mismatch
  | other => unfit other

/-- The absence of a value. -/
def unit (item : Item) : Reading Unit :=
  match item.untagged with
  | .null => .ok ()
  | other => unfit other

/-- An item that does not matter; but it has to be whole. -/
def ignored (item : Item) : Reading Unit :=
  match item.fault? with
  | some fault => .error fault
  | none => .ok ()

/-- The position of a name among several, `none` when it is not one of them. -/
def nameIndex (names : List String) (item : Item) : Reading (Option Nat) :=
  match item.untagged with
  | .unsigned n => .ok (if n < names.length then some n else none)
  | .text text => .ok (names.idxOf? text)
  | .bytes content => .ok ((names.map Bytes.ofText).idxOf? content)
  | other => unfit other

/-- The position of a name that has to be one of several. -/
def knownIndex (names : List String) (item : Item) : Reading Nat := do
  match ← nameIndex names item with
  | some index => pure index
  | none => .error .mismatch

/-- One of several names: by itself, as the first of two elements of a list, or as the key of a map
in short form. What stands behind the name in a list or map is a value that is absent. -/
def variant (names : List String) (item : Item) : Reading Nat :=
  match item with
  | .array [] cutShort => .error (if cutShort then .truncated else .malformed)
  | .array [name] cutShort => do
    let _ ← knownIndex names name
    .error (if cutShort then .truncated else .malformed)
  | .array [name, value] cutShort => do
    let index ← knownIndex names name
    unit value
    if cutShort then .error .truncated else pure index
  | .array (name :: value :: _) _ => do
    let _ ← knownIndex names name
    unit value
    .error .malformed
  | .map true (name :: value :: _) => do
    let index ← knownIndex names name
    unit value
    pure index
  | .map true [name] => do
    let _ ← knownIndex names name
    .error .truncated
  | other => knownIndex names other

/-! ### Records -/

/-- The fields of a record: their names, whether a partly read record has the field at a position,
and how the field at a position is read. -/
structure Fields (ρ : Type) where
  names : List String
  has : ρ → Nat → Bool
  read : ρ → Nat → Item → Reading ρ

namespace Fields

variable {ρ : Type}

/-- Reads keys and values. Unknown fields are ignored, a field that is given twice is not. -/
def readNamed (fields : Fields ρ) (found : ρ) : List Item → Reading ρ
  | [] => .ok found
  | [key] => do
    let _ ← nameIndex fields.names key
    .error .truncated
  | key :: value :: others => do
    match ← nameIndex fields.names key with
    | none =>
      ignored value
      fields.readNamed found others
    | some index =>
      if fields.has found index then .error .mismatch
      else fields.readNamed (← fields.read found index value) others

/-- Reads fields in order, from a position on. -/
def readInOrder (fields : Fields ρ) (found : ρ) (index : Nat) (cutShort : Bool) :
    List Item → Reading ρ
  | [] => if cutShort then .error .truncated else .ok found
  | value :: others => do
    if fields.names.length ≤ index then .error .malformed
    else fields.readInOrder (← fields.read found index value) (index + 1) cutShort others

/-- Reads a record of which nothing is known yet but `start`. -/
def readRecord (fields : Fields ρ) (start : ρ) (item : Item) : Reading ρ :=
  match item.untagged with
  | .map _ entries => fields.readNamed start entries
  | .array elements cutShort => fields.readInOrder start 0 cutShort elements
  | other => unfit other

end Fields

/-- Reads the value that the bytes are. Bytes behind it are not well-formed. -/
def readAll {α : Type} (codec : Codec) (read : Item → Reading α) (bytes : Bytes) : Reading α := do
  let (item, rest) := codec.decode bytes
  let value ← read item
  if rest.isEmpty then pure value else .error .malformed

end CompositeSorts.Cbor
