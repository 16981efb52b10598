import CompositeSorts.Cbor.Item

/-!
Codecs. Values are stored as items; a codec writes an item as bytes and reads the item that some
bytes hold. Which bytes these are does not matter to what is stored, so the codec is a parameter
wherever something is written or read. What can be relied on is that it is *faithful*: it reads back
the items that it writes, as long as no more than a certain number of containers stand inside each
other, and it never reads more of them.

Main definitions: `Cbor.Codec`, `Cbor.Codec.Faithful`.
-/

set_option autoImplicit false
set_option relaxedAutoImplicit false

namespace CompositeSorts.Cbor

/-- Writes items and reads them. What is read of bytes that hold no whole item is an item with a
fault in it; with the item come the bytes behind it. -/
structure Codec where
  encode : Item → Bytes
  decode : Bytes → Item × Bytes

/-- Lengths are below this number. -/
def lengthLimit : Nat := UInt64.size

namespace Item

mutual

/-- How many lists, maps and tags stand inside each other in an item. -/
def depth : Item → Nat
  | .array elements _ => depthAll elements + 1
  | .map _ entries => depthAll entries + 1
  | .tagged content => content.depth + 1
  | _ => 0

/-- The largest depth among several items. -/
def depthAll : List Item → Nat
  | [] => 0
  | item :: items => max item.depth (depthAll items)

end

mutual

/-- Writing loses nothing of the item: it is whole, its numbers fit into a head, and it is marked
as short just when its bytes are. -/
def Regular : Item → Prop
  | .unsigned n => n < lengthLimit
  | .negative n => n < lengthLimit
  | .array elements cutShort => cutShort = false ∧ RegularAll elements
  | .map shortForm entries =>
    shortForm = decide (entries.length = 2) ∧ entries.length % 2 = 0 ∧ RegularAll entries
  | .tagged content => content.Regular
  | .broken _ => False
  | _ => True

/-- Writing loses nothing of the items. -/
def RegularAll : List Item → Prop
  | [] => True
  | item :: items => item.Regular ∧ RegularAll items

end

end Item

/-- The codec reads back what it writes, and at most `limit` containers stand inside each other in
what it reads. -/
structure Codec.Faithful (codec : Codec) (limit : Nat) : Prop where
  decode_encode : ∀ item : Item, item.Regular → item.depth ≤ limit →
    (codec.encode item).length < lengthLimit → codec.decode (codec.encode item) = (item, [])
  depth_decode_le : ∀ bytes, (codec.decode bytes).1.depth ≤ limit

end CompositeSorts.Cbor
