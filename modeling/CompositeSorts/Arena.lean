import CompositeSorts.SlotMap

/-!
A slot map as it lies in memory. The slots are in one row, and the empty ones among them make up
the list of free slots: each holds the number of the slot freed before it, and the store holds the
number of the one freed last. Slots are named by numbers of 32 bits.

Main definitions: `Arena.allocate`, `Arena.deallocate`, `Arena.get?`, `Arena.update`,
`Arena.nextKey`, and `Arena.run`, which makes a row of calls and writes down what each replied.
Where a call would stop the program, it gives `none`: a number in the list of free slots that no
slot has, a free slot that holds a value, a count of live slots that falls below zero.
-/

set_option autoImplicit false
set_option relaxedAutoImplicit false

namespace CompositeSorts

namespace Arena

/-- A slot in memory: its value, its generation, and while it is empty the number of the slot that
was freed before it. -/
structure Cell (α : Type) where
  content : Option α
  generation : UInt32
  next : Option UInt32

namespace Cell

variable {α : Type}

/-- The slot with a value for its first or its next life. -/
def fill (value : α) (cell : Cell α) : Cell α := { cell with content := some value, next := none }

/-- The slot with another value in the place of the one it holds. -/
def replace (value : α) (cell : Cell α) : Cell α := { cell with content := some value }

/-- The slot without its value, under the next generation, which wraps around after `2 ^ 32 - 1`. -/
def vacate (next : Option UInt32) (cell : Cell α) : Cell α := ⟨none, cell.generation + 1, next⟩

end Cell

end Arena

/-- The slots, the number of the one freed last, and the count of the slots that hold a value. -/
structure Arena (α : Type) where
  cells : Array (Arena.Cell α)
  head : Option UInt32
  liveCount : Nat

namespace Arena

variable {α : Type}

/-- The number of a slot with a generation of that slot, as the store hands them out. -/
structure Key where
  number : UInt32
  generation : UInt32
deriving DecidableEq, Repr

/-- The store without slots. -/
def new : Arena α := ⟨#[], none, 0⟩

/-- The key that the next allocation hands out. -/
def nextKey (arena : Arena α) : Option Key :=
  match arena.head with
  | some number => arena.cells[number.toNat]?.map fun cell ↦ ⟨number, cell.generation⟩
  | none => some ⟨.ofNat arena.cells.size, 0⟩

/-- Puts `value` into the slot freed last, or into a new one when none is free, and gives the key
of the value. -/
def allocate (arena : Arena α) (value : α) : Option (Arena α × Key) :=
  match arena.head with
  | some number =>
    match arena.cells[number.toNat]? with
    | some ⟨none, generation, next⟩ =>
      let filled := arena.cells.modify number.toNat (Cell.fill value)
      some (⟨filled, next, arena.liveCount + 1⟩, ⟨number, generation⟩)
    | _ => none
  | none =>
    let opened := arena.cells.push ⟨some value, 0, none⟩
    some (⟨opened, none, arena.liveCount + 1⟩, ⟨.ofNat arena.cells.size, 0⟩)

/-- The value at `key`, if the slot is in that generation and holds one. -/
def get? (arena : Arena α) (key : Key) : Option α :=
  match arena.cells[key.number.toNat]? with
  | some cell => if cell.generation = key.generation then cell.content else none
  | none => none

/-- Writes to the value at `key`, if there is one, and gives the value as it was. -/
def update (arena : Arena α) (key : Key) (write : α → α) : Arena α × Option α :=
  match arena.get? key with
  | some value =>
    let written := arena.cells.modify key.number.toNat (Cell.replace (write value))
    ({ arena with cells := written }, some value)
  | none => (arena, none)

/-- Takes the value at a live key out of its slot, which becomes the one freed last and goes on
under the next generation. A dead key changes nothing. -/
def deallocate (arena : Arena α) (key : Key) : Option (Arena α × Option α) :=
  match arena.get? key with
  | some value =>
    let emptied := arena.cells.modify key.number.toNat (Cell.vacate arena.head)
    if 0 < arena.liveCount then
      some (⟨emptied, some key.number, arena.liveCount - 1⟩, some value)
    else
      none
  | none => some (arena, none)

/-! ### Calls in a row -/

/-- A call to the store. -/
inductive Call (α : Type) where
  | allocate (value : α)
  | deallocate (key : Key)
  | get (key : Key)
  | update (key : Key) (write : α → α)
  | clear

/-- What a call gives back. -/
inductive Reply (α : Type) where
  | handed (key : Key)
  | found (value : Option α)
  | done

/-- A call with the reply it got. -/
structure Event (α : Type) where
  call : Call α
  reply : Reply α

/-- Makes one call. -/
def perform (arena : Arena α) : Call α → Option (Arena α × Reply α)
  | .allocate value => do
    let (after, key) ← arena.allocate value
    return (after, .handed key)
  | .deallocate key => do
    let (after, value) ← arena.deallocate key
    return (after, .found value)
  | .get key => some (arena, .found (arena.get? key))
  | .update key write =>
    let (after, value) := arena.update key write
    some (after, .found value)
  | .clear => some (new, .done)

/-- Makes the calls one after the other. What happened is listed with the last event first. -/
def run (arena : Arena α) (past : List (Event α)) :
    List (Call α) → Option (Arena α × List (Event α))
  | [] => some (arena, past)
  | call :: calls => do
    let (after, reply) ← arena.perform call
    run after (⟨call, reply⟩ :: past) calls

end Arena

end CompositeSorts
