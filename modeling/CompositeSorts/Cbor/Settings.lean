import CompositeSorts.Cbor.Reading
import CompositeSorts.Configuration

/-!
Configurations as data: a map with the settings by name. Settings that are not given have their
default.
-/

set_option autoImplicit false
set_option relaxedAutoImplicit false

namespace CompositeSorts.Configuration

open Cbor

/-- The names of the settings in data. -/
def fieldNames : List String := ["label", "keep_alternatives", "max_alternatives"]

/-- The configuration as an item. -/
def item (config : Configuration) : Item :=
  .map false [
    .text "label", .text config.label,
    .text "keep_alternatives", .bool config.keepAlternatives,
    .text "max_alternatives", .unsigned config.maxAlternatives]

/-- The configuration as bytes. -/
def toCbor (codec : Codec) (config : Configuration) : Bytes := codec.encode config.item

/-- The settings that were read. -/
structure Given where
  label : Option String := none
  keepAlternatives : Option Bool := none
  maxAlternatives : Option Nat := none

/-- How settings are read. -/
def fields : Fields Given where
  names := fieldNames
  has given index :=
    match index with
    | 0 => given.label.isSome
    | 1 => given.keepAlternatives.isSome
    | _ => given.maxAlternatives.isSome
  read given index item :=
    match index with
    | 0 => do pure { given with label := some (← string item) }
    | 1 => do pure { given with keepAlternatives := some (← boolean item) }
    | _ => do pure { given with maxAlternatives := some (← natural lengthLimit item) }

/-- The settings that were read, with defaults for the others. -/
def ofGiven (given : Given) : Configuration :=
  let standard : Configuration := {}
  { label := given.label.getD standard.label
    keepAlternatives := given.keepAlternatives.getD standard.keepAlternatives
    maxAlternatives := given.maxAlternatives.getD standard.maxAlternatives }

/-- The configuration that an item is. -/
def ofItem (item : Item) : Reading Configuration := do
  pure (ofGiven (← fields.readRecord {} item))

/-- The configuration that the bytes are. -/
def ofCbor (codec : Codec) (bytes : Bytes) : Reading Configuration :=
  readAll codec ofItem bytes

end CompositeSorts.Configuration
