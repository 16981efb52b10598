import CompositeSorts.Cbor.Reading
import CompositeSorts.Matching.Report

/-!
Reports as data: a map with the parts of a report by name, in a fixed order. Parts and alternatives
are left out when there are none.
-/

set_option autoImplicit false
set_option relaxedAutoImplicit false

namespace CompositeSorts

open Cbor

/-! ### Tallies -/

namespace Tally

/-- The names of the counters in data. -/
def fieldNames : List String :=
  ["excess", "omits", "skipped", "swapped", "augs", "dims", "by_name", "by_definition",
    "by_argument"]

/-- The tally as an item. -/
def item (t : Tally) : Item :=
  .map false [
    .text "excess", .unsigned t.excess.value,
    .text "omits", .unsigned t.omits.value,
    .text "skipped", .unsigned t.skipped.value,
    .text "swapped", .unsigned t.swapped.value,
    .text "augs", .unsigned t.augs.value,
    .text "dims", .unsigned t.dims.value,
    .text "by_name", .unsigned t.byName.value,
    .text "by_definition", .unsigned t.byDefinition.value,
    .text "by_argument", .unsigned t.byArgument.value]

/-- Counters are below this number. -/
def counterLimit : Nat := UInt32.size

/-- How counters are read: each into its place in a list. -/
def fields : Fields (List (Option Nat)) where
  names := fieldNames
  has found index := (found[index]?.join).isSome
  read found index item := do pure (found.set index (some (← natural counterLimit item)))

/-- The tally with these counters. None may be missing. -/
def ofCounters : List (Option Nat) → Reading Tally
  | [some excess, some omits, some skipped, some swapped, some augs, some dims, some byName,
      some byDefinition, some byArgument] =>
    .ok ⟨excess, omits, skipped, swapped, augs, dims, byName, byDefinition, byArgument⟩
  | _ => .error .mismatch

/-- The tally that an item is. -/
def ofItem (item : Item) : Reading Tally := do
  ofCounters (← fields.readRecord (List.replicate 9 Option.none) item)

end Tally

/-! ### Reports -/

namespace Report

/-- The names of the parts of a report in data. -/
def fieldNames : List String :=
  ["lhs", "rhs", "level", "grade", "stats", "numerator", "denominator", "parts", "alternatives"]

mutual

/-- The report as an item. -/
def item : Report → Item
  | ⟨left, right, level, grade, tally, score, parts, alternatives⟩ =>
    .map false ([
      .text "lhs", .text left,
      .text "rhs", .text right,
      .text "level", .text level.tag,
      .text "grade", .text grade.tag,
      .text "stats", tally.item,
      .text "numerator", .unsigned score.numerator,
      .text "denominator", .unsigned score.denominator] ++
      (if parts.isEmpty then [] else [.text "parts", .array (itemAll parts) false]) ++
      (if alternatives.isEmpty then []
        else [.text "alternatives", .array (itemAll alternatives) false]))

/-- Several reports as items. -/
def itemAll : List Report → List Item
  | [] => []
  | report :: reports => report.item :: itemAll reports

end

/-- The report as bytes. -/
def toCbor (codec : Codec) (report : Report) : Bytes := codec.encode report.item

/-- The parts of a report that were read. -/
structure Given where
  left : Option String := none
  right : Option String := none
  level : Option Level := none
  grade : Option Grade := none
  tally : Option Tally := none
  numerator : Option Nat := none
  denominator : Option Nat := none
  parts : Option (List Report) := none
  alternatives : Option (List Report) := none

namespace Given

/-- Whether the part at a position was read. -/
def has (given : Given) : Nat → Bool
  | 0 => given.left.isSome
  | 1 => given.right.isSome
  | 2 => given.level.isSome
  | 3 => given.grade.isSome
  | 4 => given.tally.isSome
  | 5 => given.numerator.isSome
  | 6 => given.denominator.isSome
  | 7 => given.parts.isSome
  | _ => given.alternatives.isSome

/-- One of several values, by the name it has in data. -/
def choice {α : Type} (values : List α) (tag : α → String) (item : Item) : Reading α := do
  match values[← variant (values.map tag) item]? with
  | some value => pure value
  | none => .error .mismatch

/-- Reads a part that is no list of reports. -/
def readFlat (given : Given) (index : Nat) (item : Item) : Reading Given := do
  match index with
  | 0 => pure { given with left := some (← string item) }
  | 1 => pure { given with right := some (← string item) }
  | 2 => pure { given with level := some (← choice Level.all Level.tag item) }
  | 3 => pure { given with grade := some (← choice Grade.all Grade.tag item) }
  | 4 => pure { given with tally := some (← Tally.ofItem item) }
  | 5 => pure { given with numerator := some (← natural lengthLimit item) }
  | _ => pure { given with denominator := some (← natural lengthLimit item) }

/-- The report with the parts that were read. Only the lists may be missing. -/
def report (given : Given) : Reading Report :=
  match given with
  | ⟨some left, some right, some level, some grade, some tally, some numerator, some denominator,
      parts, alternatives⟩ =>
    .ok ⟨left, right, level, grade, tally, ⟨numerator, denominator⟩, parts.getD [],
      alternatives.getD []⟩
  | _ => .error .mismatch

end Given

/-- Reads a part of a report. `asList` is what the item gives as a list of reports. -/
def readPart (given : Given) (index : Nat) (item : Item) (asList : Reading (List Report)) :
    Reading Given := do
  match index with
  | 7 => pure { given with parts := some (← asList) }
  | 8 => pure { given with alternatives := some (← asList) }
  | _ => given.readFlat index item

mutual

/-- The report that an item is. -/
def ofItem : Item → Reading Report
  | .tagged content => ofItem content
  | .map _ entries => do (← readNamed {} entries).report
  | .array elements cutShort => do (← readInOrder {} 0 cutShort elements).report
  | other => unfit other

/-- Reads keys and values. -/
def readNamed (given : Given) : List Item → Reading Given
  | [] => .ok given
  | [key] => do
    let _ ← nameIndex fieldNames key
    .error .truncated
  | key :: value :: others => do
    match ← nameIndex fieldNames key with
    | none =>
      ignored value
      readNamed given others
    | some index =>
      if given.has index then .error .mismatch
      else readNamed (← readPart given index value (ofList value)) others

/-- Reads parts of a report in order, from a position on. -/
def readInOrder (given : Given) (index : Nat) (cutShort : Bool) : List Item → Reading Given
  | [] => if cutShort then .error .truncated else .ok given
  | value :: others => do
    if fieldNames.length ≤ index then .error .malformed
    else readInOrder (← readPart given index value (ofList value)) (index + 1) cutShort others

/-- The reports that an item lists. -/
def ofList : Item → Reading (List Report)
  | .tagged content => ofList content
  | .array elements cutShort => ofElements cutShort elements
  | other => unfit other

/-- The reports that items are. -/
def ofElements (cutShort : Bool) : List Item → Reading (List Report)
  | [] => if cutShort then .error .truncated else .ok []
  | element :: elements => do
    let report ← ofItem element
    let reports ← ofElements cutShort elements
    pure (report :: reports)

end

/-- The report that the bytes are. -/
def ofCbor (codec : Codec) (bytes : Bytes) : Reading Report := readAll codec ofItem bytes

end Report

end CompositeSorts
