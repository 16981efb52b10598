import CompositeSorts.Proofs.Slots
import Mathlib.Algebra.Group.Nat.Defs

/-!
Generations of slots. A key fits as long as its slot is in the generation of the key. Nothing but
removing a value changes a generation, so it counts how often the slot was freed (`Numbered`), and a
key whose value was removed never fits again, until a slot has been freed so often that the count
has wrapped around.
-/

set_option autoImplicit false
set_option relaxedAutoImplicit false

namespace CompositeSorts.SlotMap

variable {α : Type} {m : SlotMap α} {key : SlotKey} {value : α} {gone : List SlotKey} {index : Nat}

/-- The generation that a slot is in. A slot that is not there yet will begin with it. -/
def generation (m : SlotMap α) (index : Nat) : UInt32 :=
  (m.slots[index]?.map Slot.generation).getD 0

theorem generation_of_get? (found : m.get? key = some value) :
    key.generation = m.generation key.index := by
  obtain ⟨slot, there, same, -⟩ := exists_slot found
  rw [generation, there, Option.map_some, Option.getD_some, same]

/-- Filling a slot leaves it in its generation. -/
theorem generation_fill (place : Nat) (content : Option α) (free : List Nat) (index : Nat) :
    (⟨m.slots.modify place fun slot ↦ { slot with content }, free⟩ : SlotMap α).generation index =
      m.generation index := by
  unfold generation
  by_cases here : place = index
  · subst here
    cases found : m.slots[place]? <;> simp [Array.getElem?_modify, found]
  · simp [Array.getElem?_modify, here]

theorem generation_allocate (value : α) (index : Nat) :
    (m.allocate value).generation index = m.generation index := by
  unfold allocate
  split
  · unfold generation
    by_cases last : index = m.slots.size
    · simp [last]
    · simp [Array.getElem?_push, last]
  · exact generation_fill _ _ _ index

theorem generation_set (key : SlotKey) (value : α) (index : Nat) :
    (m.set key value).generation index = m.generation index := by
  unfold set
  split
  · exact generation_fill _ _ _ index
  · rfl

theorem generation_deallocate (found : m.get? key = some value) (index : Nat) :
    (m.deallocate key).generation index =
      if key.index = index then m.generation index + 1 else m.generation index := by
  obtain ⟨slot, there, -, -⟩ := exists_slot found
  unfold deallocate generation
  rw [found]
  split_ifs with here
  · subst here
    simp [Array.getElem?_modify, there]
  · simp [Array.getElem?_modify, here]

/-- How many of the keys are of a slot. -/
def ofSlot (keys : List SlotKey) (index : Nat) : Nat := keys.countP (·.index = index)

/-- These keys were removed, the earlier ones first: the generation of each slot is their number
there, and each was in a generation before. -/
structure Numbered (gone : List SlotKey) (m : SlotMap α) : Prop where
  counted : ∀ index, m.generation index = .ofNat (ofSlot gone index)
  older : ∀ key ∈ gone, ∃ number < ofSlot gone key.index, key.generation = .ofNat number

theorem numbered_empty : (empty : SlotMap α).Numbered [] where
  counted index := by simp [generation, empty, ofSlot]
  older key inside := absurd inside List.not_mem_nil

theorem ofSlot_append (gone more : List SlotKey) (index : Nat) :
    ofSlot (gone ++ more) index = ofSlot gone index + ofSlot more index := List.countP_append

theorem Numbered.congr {m' : SlotMap α} (h : m.Numbered gone)
    (same : ∀ index, m'.generation index = m.generation index) : m'.Numbered gone where
  counted index := (same index).trans (h.counted index)
  older := h.older

theorem Numbered.deallocate (h : m.Numbered gone) (found : m.get? key = some value) :
    (m.deallocate key).Numbered (gone ++ [key]) where
  counted index := by
    rw [generation_deallocate found, ofSlot_append, h.counted]
    split_ifs with here
    · rw [UInt32.ofNat_add]
      simp [ofSlot, here]
    · simp [ofSlot, here]
  older other inside := by
    rw [ofSlot_append]
    rcases List.mem_append.mp inside with before | last
    · obtain ⟨number, less, generation⟩ := h.older other before
      exact ⟨number, Nat.lt_add_right _ less, generation⟩
    · obtain rfl := List.mem_singleton.mp last
      refine ⟨ofSlot gone other.index, ?_, ?_⟩
      · simp [ofSlot]
      · rw [generation_of_get? found, h.counted]

/-- A key that was removed fits no more, as long as its slot was not freed `2 ^ 32` times. -/
theorem Numbered.get?_eq_none (h : m.Numbered gone) (inside : key ∈ gone)
    (few : ofSlot gone key.index < 2 ^ 32) : m.get? key = none := by
  cases found : m.get? key with
  | none => rfl
  | some value =>
    obtain ⟨number, less, generation⟩ := h.older key inside
    rw [generation_of_get? found, h.counted] at generation
    have same := congrArg UInt32.toNat generation
    rw [UInt32.toNat_ofNat_of_lt' few, UInt32.toNat_ofNat_of_lt' (Nat.lt_trans less few)] at same
    exact absurd same (Nat.ne_of_gt less)

end CompositeSorts.SlotMap
