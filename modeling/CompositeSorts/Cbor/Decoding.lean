import CompositeSorts.Cbor.Codec

/-!
Reading data items. Numbers and lengths may be written longer than necessary, strings and
containers may be of indefinite length, and at most `nestingLimit` lists, maps and tags may stand
inside each other. Every item takes at least one byte, which is why reading ends.

Main definitions: `Cbor.scan`, the item at the front of some bytes, `Cbor.Item.decode`, the item
that some bytes are, and `Cbor.Codec.standard`, the codec that writes and reads like this.
-/

set_option autoImplicit false
set_option relaxedAutoImplicit false

namespace CompositeSorts.Cbor

/-- How many lists, maps and tags may stand inside each other. -/
def nestingLimit : Nat := 127

/-- A value read from bytes, with the rest, which is shorter than `bound`; or the part of it in
front of a fault. -/
inductive Scanned (α : Type) (bound : Nat) where
  | whole (value : α) (rest : Bytes) (shorter : rest.length < bound)
  | part (value : α)

/-- What a head says after its major type: a number, an indefinite length or a fault. -/
inductive HeadNumber (bound : Nat) where
  | definite (n : Nat) (rest : Bytes) (shorter : rest.length ≤ bound)
  | indefinite
  | fault (fault : Fault)

/-- The number in the next `width` bytes. -/
def numberIn (width : Nat) (bytes : Bytes) : HeadNumber bytes.length :=
  if bytes.length < width then .fault .truncated
  else .definite (Bytes.ofBigEndian (bytes.take width)) (bytes.drop width) (by simp)

/-- The number of a head with the given additional information. -/
def headNumber (information : Nat) (bytes : Bytes) : HeadNumber bytes.length :=
  if information < 24 then .definite information bytes (Nat.le_refl _)
  else match information with
    | 24 => numberIn 1 bytes
    | 25 => numberIn 2 bytes
    | 26 => numberIn 4 bytes
    | 27 => numberIn 8 bytes
    | 31 => .indefinite
    | _ => .fault .malformed

/-- The major type of an item that starts with the byte. -/
def majorType (byte : UInt8) : Nat := byte.toNat / 32

/-- The additional information in the first byte of an item. -/
def information (byte : UInt8) : Nat := byte.toNat % 32

/-- The chunks of a string of indefinite length, put together. -/
def chunks (major : Nat) (bytes : Bytes) : Except Fault (Bytes × Bytes) :=
  match bytes with
  | [] => .error .truncated
  | first :: behind =>
    if first = 0xff then .ok ([], behind)
    else if majorType first ≠ major then .error .malformed
    else
      match headNumber (information first) behind with
      | .fault fault => .error fault
      | .indefinite => .error .malformed
      | .definite n rest _ =>
        if rest.length < n then .error .truncated
        else do
          let (others, last) ← chunks major (rest.drop n)
          pure (rest.take n ++ others, last)
termination_by bytes.length
decreasing_by simp only [List.length_drop, List.length_cons]; omega

/-- What chunks leave is shorter than what they were cut from. -/
theorem chunks_length_lt {major : Nat} {bytes content rest : Bytes}
    (h : chunks major bytes = .ok (content, rest)) : rest.length < bytes.length := by
  fun_induction chunks major bytes generalizing content rest with
  | case1 => simp at h
  | case2 behind => simp_all
  | case3 => simp at h
  | case4 => simp at h
  | case5 => simp at h
  | case6 => simp at h
  | case7 first behind notEnd _ n rest' shorter _ _ ih =>
    cases inner : chunks major (rest'.drop n) with
    | error fault => simp [inner, bind, Except.bind] at h
    | ok found =>
      obtain ⟨others, last⟩ := found
      simp only [inner, bind, Except.bind, pure, Except.pure, Except.ok.injEq, Prod.mk.injEq] at h
      have := ih inner
      simp only [List.length_drop] at this
      simp only [List.length_cons, ← h.2]
      omega

/-- A text from its bytes. -/
def textItem (bytes : Bytes) : Item :=
  match Bytes.text? bytes with
  | some text => .text text
  | none => .broken .malformed

/-- A value that the given number of bytes were used for. -/
def simpleAfter (value : Item) (width : Nat) (bytes : Bytes) : Scanned Item (bytes.length + 1) :=
  if bytes.length < width then .part (.broken .truncated)
  else .whole value (bytes.drop width) (by simp only [List.length_drop]; omega)

/-- An item that is a fault, or is whole. -/
def settled {bound : Nat} (item : Item) (rest : Bytes) (shorter : rest.length < bound) :
    Scanned Item bound :=
  match item with
  | .broken fault => .part (.broken fault)
  | item => .whole item rest shorter

/-- A string of characters or bytes, made from its content by `make`. The flag says whether the
length is limited by the length of everything that was read, `total`. -/
def stringItem (make : Bytes → Item) (limited : Bool) (total major information : Nat)
    (bytes : Bytes) : Scanned Item (bytes.length + 1) :=
  match headNumber information bytes with
  | .fault fault => .part (.broken fault)
  | .indefinite =>
    match found : chunks major bytes with
    | .error fault => .part (.broken fault)
    | .ok (content, rest) =>
      settled (make content) rest (Nat.lt_succ_of_lt (chunks_length_lt found))
  | .definite n rest shorter =>
    if limited && lengthLimit ≤ total - rest.length + n then .part (.broken .malformed)
    else if rest.length < n then .part (.broken .truncated)
    else settled (make (rest.take n)) (rest.drop n) (by simp only [List.length_drop]; omega)

mutual

/-- The item at the front of the bytes. `levels` more items may stand inside each other, and
`total` bytes were there at first. -/
def scan (total levels : Nat) (bytes : Bytes) : Scanned Item bytes.length :=
  match bytes with
  | [] => .part (.broken .truncated)
  | first :: behind =>
    match majorType first with
    | 0 =>
      match headNumber (information first) behind with
      | .fault fault => .part (.broken fault)
      | .indefinite => .part (.broken .malformed)
      | .definite n rest shorter => .whole (.unsigned n) rest (Nat.lt_succ_of_le shorter)
    | 1 =>
      match headNumber (information first) behind with
      | .fault fault => .part (.broken fault)
      | .indefinite => .part (.broken .malformed)
      | .definite n rest shorter => .whole (.negative n) rest (Nat.lt_succ_of_le shorter)
    | 2 => stringItem .bytes false total 2 (information first) behind
    | 3 => stringItem textItem true total 3 (information first) behind
    | 4 =>
      match headNumber (information first) behind with
      | .fault fault => .part (.broken fault)
      | .indefinite =>
        match levels with
        | 0 => .part (.broken .malformed)
        | levels + 1 =>
          match scanElements total levels none behind with
          | .whole (elements, cutShort) rest shorter =>
            .whole (.array elements cutShort) rest shorter
          | .part (elements, cutShort) => .part (.array elements cutShort)
      | .definite n rest shorter =>
        match levels with
        | 0 => .part (.broken .malformed)
        | levels + 1 =>
          match scanElements total levels (some n) rest with
          | .whole (elements, cutShort) last shorter' =>
            .whole (.array elements cutShort) last
              (Nat.lt_of_lt_of_le shorter' (Nat.succ_le_succ shorter))
          | .part (elements, cutShort) => .part (.array elements cutShort)
    | 5 =>
      match headNumber (information first) behind with
      | .fault fault => .part (.broken fault)
      | .indefinite =>
        match levels with
        | 0 => .part (.broken .malformed)
        | levels + 1 =>
          match scanEntries total levels none behind with
          | .whole entries rest shorter => .whole (.map false entries) rest shorter
          | .part entries => .part (.map false entries)
      | .definite n rest shorter =>
        match levels with
        | 0 => .part (.broken .malformed)
        | levels + 1 =>
          match scanEntries total levels (some n) rest with
          | .whole entries last shorter' =>
            .whole (.map (first = 0xa1) entries) last
              (Nat.lt_of_lt_of_le shorter' (Nat.succ_le_succ shorter))
          | .part entries => .part (.map (first = 0xa1) entries)
    | 6 =>
      match headNumber (information first) behind with
      | .fault fault => .part (.broken fault)
      | .indefinite => .part (.broken .malformed)
      | .definite _ rest shorter =>
        match levels with
        | 0 => .part (.broken .malformed)
        | levels + 1 =>
          match scan total levels rest with
          | .whole content last shorter' =>
            .whole (.tagged content) last
              (Nat.lt_of_lt_of_le shorter' (Nat.le_succ_of_le shorter))
          | .part content => .part (.tagged content)
    | _ =>
      match information first with
      | 20 => simpleAfter (.bool false) 0 behind
      | 21 => simpleAfter (.bool true) 0 behind
      | 22 => simpleAfter .null 0 behind
      | 23 => simpleAfter .null 0 behind
      | 25 => simpleAfter .float 2 behind
      | 26 => simpleAfter .float 4 behind
      | 27 => simpleAfter .float 8 behind
      | _ => .part (.broken .malformed)
termination_by bytes.length * 2
decreasing_by all_goals simp only [List.length_cons]; omega

/-- The elements of a list: so many, or all up to the byte that ends the list. The flag says that
the bytes end before the list does. -/
def scanElements (total levels : Nat) (count : Option Nat) (bytes : Bytes) :
    Scanned (List Item × Bool) (bytes.length + 1) :=
  if count = some 0 then .whole ([], false) bytes (Nat.lt_succ_self _)
  else if count = none ∧ bytes.head? = some 0xff then
    .whole ([], false) bytes.tail (by simp only [List.length_tail]; omega)
  else if count = none ∧ bytes.isEmpty then .part ([], true)
  else
    match scan total levels bytes with
    | .part item => .part ([item], false)
    | .whole item rest shorter =>
      match scanElements total levels (count.map (· - 1)) rest with
      | .whole (items, cutShort) last shorter' =>
        .whole (item :: items, cutShort) last (by omega)
      | .part (items, cutShort) => .part (item :: items, cutShort)
termination_by bytes.length * 2 + 1

/-- The keys and values of a map: so many pairs, or all up to the byte that ends the map. -/
def scanEntries (total levels : Nat) (count : Option Nat) (bytes : Bytes) :
    Scanned (List Item) (bytes.length + 1) :=
  if count = some 0 then .whole [] bytes (Nat.lt_succ_self _)
  else if count = none ∧ bytes.head? = some 0xff then
    .whole [] bytes.tail (by simp only [List.length_tail]; omega)
  else
    match scan total levels bytes with
    | .part key => .part [key]
    | .whole key behindKey shorter₁ =>
      match scan total levels behindKey with
      | .part value => .part [key, value]
      | .whole value rest shorter₂ =>
        match scanEntries total levels (count.map (· - 1)) rest with
        | .whole items last shorter₃ => .whole (key :: value :: items) last (by omega)
        | .part items => .part (key :: value :: items)
termination_by bytes.length * 2 + 1

end

/-- The item that the bytes are, and the bytes behind it. -/
def Item.decode (bytes : Bytes) : Item × Bytes :=
  match scan bytes.length nestingLimit bytes with
  | .whole item rest _ => (item, rest)
  | .part item => (item, [])

/-- Writes items in the fewest bytes, and reads them as far as `nestingLimit` allows. -/
def Codec.standard : Codec := ⟨Item.encode, Item.decode⟩

end CompositeSorts.Cbor
