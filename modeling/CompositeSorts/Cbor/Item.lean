import CompositeSorts.Bytes

/-!
Data items of the Concise Binary Object Representation. An item is a number, a string of bytes or
characters, a list, a map, a tagged item or a simple value. Bytes that do not hold a whole item
give an item as well: what could be read of it, up to a fault that stands where reading broke off.

An item is written behind a head, which says what it is and holds its number or its length, in the
fewest bytes that can; lists and maps are written with their lengths.

Main definitions: `Cbor.Item`, `Cbor.Fault`, `Cbor.Item.fault?`, the first fault inside an item,
`Cbor.head`, `Cbor.Item.encode`.
-/

set_option autoImplicit false
set_option relaxedAutoImplicit false

namespace CompositeSorts.Cbor

/-- Why bytes cannot be read: they end too early, they are not well-formed, or what they hold is not
what was asked for. -/
inductive Fault where
  | truncated
  | malformed
  | mismatch
deriving DecidableEq, Repr

/-- A data item. The keys and values of a map stand one after the other. -/
inductive Item where
  | unsigned (n : Nat)
  /-- The number `-1 - n`. -/
  | negative (n : Nat)
  | bytes (content : Bytes)
  | text (content : String)
  /-- A list. A list that is cut short ends where another element could stand. -/
  | array (elements : List Item) (cutShort : Bool)
  /-- A map. The short form is that of a map with one entry, counted in its first byte. -/
  | map (shortForm : Bool) (entries : List Item)
  | tagged (content : Item)
  | bool (value : Bool)
  | null
  | float
  /-- The place where reading broke off. -/
  | broken (fault : Fault)

namespace Item

mutual

/-- The first fault inside an item. -/
def fault? : Item → Option Fault
  | .array elements cutShort =>
    (firstFault elements).or (if cutShort then some .truncated else none)
  | .map _ entries => firstFault entries
  | .tagged content => content.fault?
  | .broken fault => some fault
  | _ => none

/-- The first fault inside several items. -/
def firstFault : List Item → Option Fault
  | [] => none
  | item :: items => item.fault?.or (firstFault items)

end

/-- The item without the tags around it. -/
def untagged : Item → Item
  | .tagged content => content.untagged
  | item => item

end Item

/-! ### Writing -/

/-- The head of an item: its major type and its number. -/
def head (major n : Nat) : Bytes :=
  let first (information : Nat) : UInt8 := UInt8.ofNat (32 * major + information)
  if n < 24 then [first n]
  else if n < 256 then first 24 :: Bytes.bigEndian 1 n
  else if n < 65536 then first 25 :: Bytes.bigEndian 2 n
  else if n < 4294967296 then first 26 :: Bytes.bigEndian 4 n
  else first 27 :: Bytes.bigEndian 8 n

namespace Item

mutual

/-- The bytes of an item that is whole. A tag is written as tag zero, and a floating-point number
as zero in two bytes. -/
def encode : Item → Bytes
  | .unsigned n => head 0 n
  | .negative n => head 1 n
  | .bytes content => head 2 content.length ++ content
  | .text content => head 3 (Bytes.ofText content).length ++ Bytes.ofText content
  | .array elements _ => head 4 elements.length ++ encodeAll elements
  | .map _ entries => head 5 (entries.length / 2) ++ encodeAll entries
  | .tagged content => head 6 0 ++ content.encode
  | .bool false => [0xf4]
  | .bool true => [0xf5]
  | .null => [0xf6]
  | .float => [0xf9, 0, 0]
  | .broken _ => []

/-- The bytes of several items, one after the other. -/
def encodeAll : List Item → Bytes
  | [] => []
  | item :: items => item.encode ++ encodeAll items

end

end Item

end CompositeSorts.Cbor
