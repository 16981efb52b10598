import CompositeSorts.SlotMap
import Mathlib.Data.List.Nodup
import Mathlib.Data.List.Perm.Subperm

/-!
Slot maps through their look-up. The free list of a consistent map names its empty slots, each
once, so a new value gets a key that is dead until then, and no other key is touched. Removing a
value kills its key and no other: the slot goes on under a generation that holds nothing.
-/

set_option autoImplicit false
set_option relaxedAutoImplicit false

namespace CompositeSorts.SlotMap

variable {α : Type} {m : SlotMap α} {key other : SlotKey} {value : α}

/-- The free list names the empty slots, each of them once. -/
structure Consistent (m : SlotMap α) : Prop where
  nodup : m.free.Nodup
  mem_free : ∀ index, index ∈ m.free ↔ ∃ slot, m.slots[index]? = some slot ∧ slot.content = none

theorem get?_eq_some_iff : m.get? key = some value ↔
    ∃ slot, m.slots[key.index]? = some slot ∧ slot.generation = key.generation ∧
      slot.content = some value := by
  unfold get?
  cases found : m.slots[key.index]? with
  | none => simp
  | some slot =>
    by_cases same : slot.generation = key.generation
    · simp [same]
    · simp [same]

/-- A value is in the slot of its key, in the generation that the key names. -/
theorem exists_slot (found : m.get? key = some value) :
    ∃ slot, m.slots[key.index]? = some slot ∧ slot.generation = key.generation ∧
      slot.content = some value := get?_eq_some_iff.mp found

theorem get?_of_index_ne {m' : SlotMap α} (same : m'.slots[key.index]? = m.slots[key.index]?) :
    m'.get? key = m.get? key := by
  unfold get?
  rw [same]

theorem consistent_empty : (empty : SlotMap α).Consistent where
  nodup := List.nodup_nil
  mem_free index := by simp [empty]

/-- There are no more live keys than slots that hold a value. -/
theorem length_le_live (h : m.Consistent) {keys : List SlotKey} (nodup : keys.Nodup)
    (live : ∀ key ∈ keys, (m.get? key).isSome) : keys.length ≤ m.live := by
  have used : ∀ key ∈ keys, ∃ slot value, m.slots[key.index]? = some slot ∧
      slot.generation = key.generation ∧ slot.content = some value := by
    intro key inside
    obtain ⟨value, found⟩ := Option.isSome_iff_exists.mp (live key inside)
    obtain ⟨slot, there, same, full⟩ := exists_slot found
    exact ⟨slot, value, there, same, full⟩
  have apart : (keys.map SlotKey.index).Nodup := by
    refine nodup.map_on fun a insideA b insideB same ↦ ?_
    obtain ⟨slot, _, found, generation, _⟩ := used a insideA
    obtain ⟨slot', _, found', generation', _⟩ := used b insideB
    rw [same, found'] at found
    cases found
    have generations : a.generation = b.generation := generation.symm.trans generation'
    cases a
    cases b
    cases same
    cases generations
    rfl
  have all : (keys.map SlotKey.index ++ m.free).Nodup := by
    refine apart.append h.nodup fun index inside free ↦ ?_
    obtain ⟨key, among, rfl⟩ := List.mem_map.mp inside
    obtain ⟨slot, value, found, _, full⟩ := used key among
    obtain ⟨slot', found', hollow⟩ := (h.mem_free key.index).mp free
    rw [found] at found'
    cases found'
    rw [full] at hollow
    cases hollow
  have bounded : keys.map SlotKey.index ++ m.free ⊆ List.range m.slots.size := by
    intro index inside
    rw [List.mem_range]
    rcases List.mem_append.mp inside with live | free
    · obtain ⟨key, among, rfl⟩ := List.mem_map.mp live
      obtain ⟨slot, _, found, _, _⟩ := used key among
      exact (Array.getElem?_eq_some_iff.mp found).1
    · obtain ⟨slot, found, _⟩ := (h.mem_free index).mp free
      exact (Array.getElem?_eq_some_iff.mp found).1
  have fewer := (all.subperm bounded).length_le
  rw [List.length_append, List.length_map, List.length_range] at fewer
  unfold SlotMap.live
  omega

/-- Every slot that holds a value has a live key. -/
theorem live_le_length (h : m.Consistent) {keys : List SlotKey}
    (all : ∀ key, (m.get? key).isSome → key ∈ keys) : m.live ≤ keys.length := by
  have bounded : List.range m.slots.size ⊆ keys.map SlotKey.index ++ m.free := by
    intro index inside
    have bound := List.mem_range.mp inside
    have found : m.slots[index]? = some m.slots[index] := Array.getElem?_eq_getElem bound
    rw [List.mem_append]
    cases content : m.slots[index].content with
    | none => exact .inr ((h.mem_free index).mpr ⟨_, found, content⟩)
    | some value =>
      have live : m.get? ⟨index, m.slots[index].generation⟩ = some value :=
        get?_eq_some_iff.mpr ⟨_, found, rfl, content⟩
      exact .inl (List.mem_map.mpr ⟨_, all _ (Option.isSome_iff_exists.mpr ⟨value, live⟩), rfl⟩)
  have fewer := (List.nodup_range.subperm bounded).length_le
  rw [List.length_append, List.length_map, List.length_range] at fewer
  unfold SlotMap.live
  omega

/-! ### Allocation -/

theorem get?_nextKey (h : m.Consistent) : m.get? m.nextKey = none := by
  unfold nextKey
  split
  · simp [get?]
  · rename_i index rest eq
    have free : index ∈ m.free := by simp [eq]
    obtain ⟨slot, found, hollow⟩ := (h.mem_free index).mp free
    simp [get?, found, hollow]

theorem get?_allocate_nextKey (h : m.Consistent) (value : α) :
    (m.allocate value).get? m.nextKey = some value := by
  rw [get?_eq_some_iff]
  unfold allocate nextKey
  split
  · exact ⟨⟨0, some value⟩, by simp, rfl, rfl⟩
  · rename_i index rest eq
    have free : index ∈ m.free := by simp [eq]
    obtain ⟨slot, found, -⟩ := (h.mem_free index).mp free
    refine ⟨{ slot with content := some value }, ?_, ?_, rfl⟩
    · simp [Array.getElem?_modify, found]
    · simp [found]

theorem get?_allocate_of_ne (h : m.Consistent) (ne : key ≠ m.nextKey) :
    (m.allocate value).get? key = m.get? key := by
  unfold nextKey at ne
  unfold allocate
  split at ne
  · by_cases last : key.index = m.slots.size
    · have other : (0 : UInt32) ≠ key.generation := by
        intro same
        exact ne (by rw [← last, same])
      simp [get?, last, other]
    · apply get?_of_index_ne
      simp [Array.getElem?_push, last]
  · rename_i index rest eq
    by_cases here : key.index = index
    · have free : index ∈ m.free := by simp [eq]
      obtain ⟨slot, found, hollow⟩ := (h.mem_free index).mp free
      have other : slot.generation ≠ key.generation := by
        intro same
        apply ne
        rw [found, Option.map_some, Option.getD_some, same, ← here]
      simp [get?, here, Array.getElem?_modify, found, other]
    · apply get?_of_index_ne
      simp [Array.getElem?_modify, Ne.symm here]

theorem Consistent.allocate (h : m.Consistent) (value : α) : (m.allocate value).Consistent := by
  unfold SlotMap.allocate
  split
  · rename_i eq
    refine ⟨List.nodup_nil, fun index ↦ ?_⟩
    have full := h.mem_free index
    rw [eq] at full
    by_cases last : index = m.slots.size
    · subst last
      simp
    · simpa [Array.getElem?_push, last] using full
  · rename_i index rest eq
    have nodup := h.nodup
    rw [eq] at nodup
    obtain ⟨new, nodup⟩ := List.nodup_cons.mp nodup
    refine ⟨nodup, fun other ↦ ?_⟩
    have before := h.mem_free other
    rw [eq] at before
    by_cases here : other = index
    · subst here
      obtain ⟨slot, found, -⟩ := before.mp (by simp)
      simp [Array.getElem?_modify, found, new]
    · rw [List.mem_cons, or_iff_right here] at before
      simpa [Array.getElem?_modify, Ne.symm here] using before

/-! ### Replacement and removal -/

theorem get?_set_self (live : (m.get? key).isSome) (value : α) :
    (m.set key value).get? key = some value := by
  obtain ⟨old, found⟩ := Option.isSome_iff_exists.mp live
  obtain ⟨slot, inside, same, -⟩ := exists_slot found
  rw [get?_eq_some_iff]
  refine ⟨{ slot with content := some value }, ?_, same, rfl⟩
  simp [set, found, Array.getElem?_modify, inside]

theorem get?_set_of_ne (ne : other ≠ key) (value : α) :
    (m.set key value).get? other = m.get? other := by
  unfold set
  split
  · rename_i found
    obtain ⟨slot, inside, same, -⟩ := exists_slot found
    by_cases here : other.index = key.index
    · have differs : slot.generation ≠ other.generation := by
        intro h
        apply ne
        cases other
        cases key
        simp_all
      simp [get?, here, Array.getElem?_modify, inside, differs]
    · apply get?_of_index_ne
      simp [Array.getElem?_modify, Ne.symm here]
  · rfl

theorem Consistent.set (h : m.Consistent) (key : SlotKey) (value : α) :
    (m.set key value).Consistent := by
  unfold SlotMap.set
  split
  · rename_i old found
    obtain ⟨slot, inside, -, full⟩ := exists_slot found
    refine ⟨h.nodup, fun index ↦ ?_⟩
    rw [h.mem_free index]
    by_cases here : index = key.index
    · subst here
      simp [Array.getElem?_modify, inside, full]
    · simp [Array.getElem?_modify, Ne.symm here]
  · exact h

theorem get?_deallocate_self : (m.deallocate key).get? key = none := by
  unfold deallocate
  split
  · rename_i found
    obtain ⟨slot, inside, -⟩ := exists_slot found
    simp [get?, Array.getElem?_modify, inside]
  · assumption

theorem get?_deallocate_of_ne (ne : other ≠ key) :
    (m.deallocate key).get? other = m.get? other := by
  unfold deallocate
  split
  · rename_i found
    obtain ⟨slot, inside, same, -⟩ := exists_slot found
    by_cases here : other.index = key.index
    · have differs : slot.generation ≠ other.generation := by
        intro h
        apply ne
        cases other
        cases key
        simp_all
      simp [get?, here, Array.getElem?_modify, inside, differs]
    · apply get?_of_index_ne
      simp [Array.getElem?_modify, Ne.symm here]
  · rfl

theorem Consistent.deallocate (h : m.Consistent) (key : SlotKey) :
    (m.deallocate key).Consistent := by
  unfold SlotMap.deallocate
  split
  · rename_i old found
    obtain ⟨slot, inside, -, full⟩ := exists_slot found
    have used : key.index ∉ m.free := by
      rw [h.mem_free]
      simp [inside, full]
    refine ⟨List.nodup_cons.mpr ⟨used, h.nodup⟩, fun index ↦ ?_⟩
    rw [List.mem_cons, h.mem_free index]
    by_cases here : index = key.index
    · subst here
      simp [Array.getElem?_modify, inside]
    · simp [Array.getElem?_modify, Ne.symm here, here]
  · exact h

end CompositeSorts.SlotMap
