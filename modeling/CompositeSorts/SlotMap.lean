/-!
Slots that are reused under a new generation. A `SlotMap` hands out a key for every value put
into it: a slot number and the generation the slot is in. Removing the value raises the
generation, so the key stays dead when the slot is used again. Slots that were freed are used
again before new ones are opened, the one freed last first.

Main definitions: `SlotMap.allocate`, `SlotMap.deallocate`, `SlotMap.get?`, `SlotMap.set` and
`SlotMap.nextKey`, the key that the next allocation hands out.
-/

set_option autoImplicit false
set_option relaxedAutoImplicit false

namespace CompositeSorts

/-- A slot number with a generation of that slot. -/
structure SlotKey where
  index : Nat
  generation : UInt32
deriving DecidableEq, Repr

/-- One slot: the generation it is in and the value it holds, if it holds one. -/
structure Slot (α : Type) where
  generation : UInt32
  content : Option α
deriving Repr

/-- The slots in order, and the numbers of the free ones, the one freed last first. -/
structure SlotMap (α : Type) where
  slots : Array (Slot α)
  free : List Nat

namespace SlotMap

variable {α : Type}

/-- The map without slots. -/
def empty : SlotMap α := ⟨#[], []⟩

/-- The number of slots that hold a value. -/
def live (m : SlotMap α) : Nat := m.slots.size - m.free.length

/-- The key that the next allocation hands out. -/
def nextKey (m : SlotMap α) : SlotKey :=
  match m.free with
  | [] => ⟨m.slots.size, 0⟩
  | index :: _ => ⟨index, (m.slots[index]?.map Slot.generation).getD 0⟩

/-- Puts `value` into the slot freed last, or into a new one when none is free. The key of the
value is `nextKey`. -/
def allocate (m : SlotMap α) (value : α) : SlotMap α :=
  match m.free with
  | [] => ⟨m.slots.push ⟨0, some value⟩, []⟩
  | index :: rest => ⟨m.slots.modify index fun slot ↦ { slot with content := some value }, rest⟩

/-- The value at `key`, if the slot is in that generation and holds one. -/
def get? (m : SlotMap α) (key : SlotKey) : Option α :=
  match m.slots[key.index]? with
  | some slot => if slot.generation = key.generation then slot.content else none
  | none => none

/-- Puts `value` in the place of the value at `key`, if there is one. -/
def set (m : SlotMap α) (key : SlotKey) (value : α) : SlotMap α :=
  match m.get? key with
  | some _ =>
    { m with slots := m.slots.modify key.index fun slot ↦ { slot with content := some value } }
  | none => m

/-- Frees the slot of a live key and raises its generation, which wraps around after
`2 ^ 32 - 1`. A dead key changes nothing. -/
def deallocate (m : SlotMap α) (key : SlotKey) : SlotMap α :=
  match m.get? key with
  | some _ =>
    ⟨m.slots.modify key.index fun slot ↦ ⟨slot.generation + 1, none⟩, key.index :: m.free⟩
  | none => m

/-- The values in the order of their slots. -/
def values (m : SlotMap α) : List α := m.slots.toList.filterMap Slot.content

/-- The keys of the values, in the order of their slots. -/
def keys (m : SlotMap α) : List SlotKey :=
  m.slots.toList.zipIdx.filterMap fun (slot, index) ↦
    slot.content.map fun _ ↦ ⟨index, slot.generation⟩

/-! ### Elementary facts -/

theorem get?_empty (key : SlotKey) : (empty : SlotMap α).get? key = none := by
  simp [empty, get?]

theorem mem_values_of_get? {m : SlotMap α} {key : SlotKey} {value : α}
    (h : m.get? key = some value) : value ∈ m.values := by
  unfold get? at h
  split at h
  · rename_i slot found
    split at h
    · have inside : slot ∈ m.slots.toList := by
        rw [Array.getElem?_eq_some_iff] at found
        obtain ⟨bound, rfl⟩ := found
        simp
      exact List.mem_filterMap.2 ⟨slot, inside, h⟩
    · simp at h
  · simp at h

theorem mem_keys_of_get? {m : SlotMap α} {key : SlotKey} {value : α}
    (h : m.get? key = some value) : key ∈ m.keys := by
  unfold get? at h
  split at h
  · rename_i slot found
    split at h
    · rename_i same
      rw [Array.getElem?_eq_some_iff] at found
      obtain ⟨bound, rfl⟩ := found
      have inside : (m.slots[key.index], key.index) ∈ m.slots.toList.zipIdx := by
        rw [List.mem_zipIdx_iff_getElem?]
        simp
      refine List.mem_filterMap.2 ⟨_, inside, ?_⟩
      simp [h, same]
    · simp at h
  · simp at h

theorem set_of_get?_eq_none {m : SlotMap α} {key : SlotKey} (h : m.get? key = none) (value : α) :
    m.set key value = m := by
  simp [set, h]

theorem deallocate_of_get?_eq_none {m : SlotMap α} {key : SlotKey} (h : m.get? key = none) :
    m.deallocate key = m := by
  simp [deallocate, h]

end SlotMap

end CompositeSorts
