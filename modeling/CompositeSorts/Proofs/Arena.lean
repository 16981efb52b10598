import CompositeSorts.Arena
import CompositeSorts.Proofs.Slots
import Mathlib.Algebra.Group.Nat.Defs

/-!
The store in memory keeps a map with a stack of free slots. Following the links from its head gives
the stack (`Threads`), and what the cells hold gives the map (`Represents`); every call keeps the
two together, so each reply is the one that the map gives. What a history of calls says about the
stack and the live keys is kept beside them (`Recorded`): which slot was freed later, and which keys
were handed out and not taken back.

Nothing here rests on generations that do not wrap around: a key that is handed out a second time is
outstanding again. Slot numbers have 32 bits, and slots beyond the first `2 ^ 32` share theirs, so
only of stores with no more slots than that it is said that an outstanding key finds its value.
-/

set_option autoImplicit false
set_option relaxedAutoImplicit false

namespace CompositeSorts.Arena

variable {α : Type} {arena after : Arena α} {m : SlotMap α} {cells cells' : Array (Cell α)}
  {head : Option UInt32} {stack rest : List UInt32} {number : UInt32} {key other : Key}
  {value : α} {history : List (Event α)} {event : Event α}

/-! ### Keys of 32 bits and slots without bound -/

/-- The key in the map. -/
def Key.long (key : Key) : SlotKey := ⟨key.number.toNat, key.generation⟩

/-- The key in the store, with as much of the slot as a number of 32 bits can name. -/
def ofLong (key : SlotKey) : Key := ⟨.ofNat key.index, key.generation⟩

theorem ofLong_long (key : Key) : ofLong key.long = key := by
  simp [ofLong, Key.long]

theorem long_injective : Function.Injective Key.long := fun a b same ↦ by
  rw [← ofLong_long a, same, ofLong_long]

theorem long_ofLong {key : SlotKey} (numbered : key.index < 2 ^ 32) : (ofLong key).long = key := by
  simp only [ofLong, Key.long, UInt32.toNat_ofNat_of_lt' numbered]

/-! ### The list of free slots -/

/-- Following the links from a head visits these slots, one after the other, and then ends. -/
inductive Threads (cells : Array (Cell α)) : Option UInt32 → List UInt32 → Prop
  | done : Threads cells none []
  | visit {number : UInt32} {cell : Cell α} {rest : List UInt32}
      (there : cells[number.toNat]? = some cell) (onward : Threads cells cell.next rest) :
      Threads cells (some number) (number :: rest)

/-- The links lead on over the cells on the way as long as these are as they were. -/
theorem Threads.congr (threads : Threads cells head stack)
    (same : ∀ number ∈ stack, cells'[number.toNat]? = cells[number.toNat]?) :
    Threads cells' head stack := by
  induction threads with
  | done => exact .done
  | visit there _ onward =>
    refine .visit ((same _ List.mem_cons_self).trans there) (onward fun number inside ↦ ?_)
    exact same number (List.mem_cons_of_mem _ inside)

theorem Threads.modify (threads : Threads cells head stack) (apart : number ∉ stack)
    (write : Cell α → Cell α) : Threads (cells.modify number.toNat write) head stack := by
  refine threads.congr fun visited inside ↦ ?_
  have ne : number.toNat ≠ visited.toNat := fun same ↦
    apart (UInt32.toNat_inj.mp same ▸ inside)
  rw [Array.getElem?_modify, if_neg ne]

/-- The links lead one way only. -/
theorem Threads.unique {stack' : List UInt32} (threads : Threads cells head stack)
    (again : Threads cells head stack') : stack' = stack := by
  induction threads generalizing stack' with
  | done =>
    cases again
    rfl
  | visit there _ onward =>
    cases again with
    | visit there' onward' =>
      rw [there] at there'
      cases there'
      rw [onward onward']

/-! ### The store and the map -/

/-- What a cell holds, without its link. -/
def slotOf (cell : Cell α) : Slot α := ⟨cell.generation, cell.content⟩

/-- The number of slots that hold a value. -/
def occupied (cells : Array (Cell α)) : Nat := cells.countP (·.content.isSome)

theorem occupied_push (cell : Cell α) :
    occupied (cells.push cell) = occupied cells + if cell.content.isSome then 1 else 0 :=
  Array.countP_push

/-- Writing to one cell changes the count by that cell alone. -/
theorem occupied_modify {index : Nat} {cell : Cell α} (there : cells[index]? = some cell)
    (write : Cell α → Cell α) :
    occupied (cells.modify index write) + (if cell.content.isSome then 1 else 0) =
      occupied cells + if (write cell).content.isSome then 1 else 0 := by
  obtain ⟨bound, rfl⟩ := Array.getElem?_eq_some_iff.mp there
  obtain ⟨before, found, behind, split, rfl, written⟩ :=
    List.exists_of_modify write (l := cells.toList) (i := index) (by simpa using bound)
  have here : cells[before.length] = found := by
    rw [← Array.getElem_toList]
    simp [split]
  unfold occupied
  rw [← Array.countP_toList, ← Array.countP_toList, Array.toList_modify, written, split, here]
  simp only [List.countP_append, List.countP_cons]
  omega

/-- The cells hold what the map holds, the links lead through its free slots, and the count is
right. -/
structure Represents (arena : Arena α) (m : SlotMap α) (stack : List UInt32) : Prop where
  slots : arena.cells.map slotOf = m.slots
  threads : Threads arena.cells arena.head stack
  free : stack.map UInt32.toNat = m.free
  liveCount : arena.liveCount = occupied arena.cells

theorem represents_new : Represents (new : Arena α) .empty [] where
  slots := by simp [new, SlotMap.empty]
  threads := .done
  free := rfl
  liveCount := by simp [new, occupied]

theorem Represents.slot (h : Represents arena m stack) (index : Nat) :
    m.slots[index]? = arena.cells[index]?.map slotOf := by
  rw [← h.slots, Array.getElem?_map]

theorem Represents.size (h : Represents arena m stack) : m.slots.size = arena.cells.size := by
  rw [← h.slots, Array.size_map]

/-- Writing to a cell is seen in its slot. -/
theorem Represents.map_modify (h : Represents arena m stack) (index : Nat)
    (write : Cell α → Cell α) (put : Slot α → Slot α)
    (same : ∀ cell, slotOf (write cell) = put (slotOf cell)) :
    (arena.cells.modify index write).map slotOf = m.slots.modify index put := by
  apply Array.ext_getElem?
  intro place
  by_cases here : index = place
  · subst here
    cases there : arena.cells[index]? with
    | none => simp [Array.getElem?_modify, h.slot, there]
    | some cell => simp [Array.getElem?_modify, h.slot, there, same cell]
  · simp [Array.getElem?_modify, h.slot, here]

theorem Represents.nodup (h : Represents arena m stack) (consistent : m.Consistent) :
    stack.Nodup := by
  have nodup := consistent.nodup
  rw [← h.free] at nodup
  exact nodup.of_map _

theorem Represents.get? (h : Represents arena m stack) (key : Key) :
    arena.get? key = m.get? key.long := by
  unfold Arena.get? SlotMap.get?
  rw [h.slot]
  simp only [Key.long]
  cases arena.cells[key.number.toNat]? with
  | none => rfl
  | some cell =>
    by_cases same : cell.generation = key.generation
    · simp [slotOf, same]
    · simp [slotOf, same]

/-- A live key leads to a cell in its generation that holds the value. -/
theorem exists_cell (found : arena.get? key = some value) :
    ∃ cell, arena.cells[key.number.toNat]? = some cell ∧ cell.generation = key.generation ∧
      cell.content = some value := by
  unfold Arena.get? at found
  split at found
  · rename_i cell there
    split at found
    · rename_i same
      exact ⟨cell, there, same, found⟩
    · cases found
  · cases found

theorem Represents.notMem_of_get? (h : Represents arena m stack) (consistent : m.Consistent)
    (found : arena.get? key = some value) : key.number ∉ stack := by
  intro inside
  obtain ⟨cell, there, -, full⟩ := exists_cell found
  have free : key.number.toNat ∈ m.free := h.free ▸ List.mem_map_of_mem inside
  obtain ⟨slot, found, hollow⟩ := (consistent.mem_free _).mp free
  rw [h.slot, there, Option.map_some, Option.some.injEq] at found
  subst found
  rw [slotOf, full] at hollow
  cases hollow

/-- The slot freed last is there and holds nothing. -/
theorem Represents.exists_cell_of_cons (h : Represents arena m (number :: rest))
    (consistent : m.Consistent) :
    arena.head = some number ∧ ∃ generation next,
      arena.cells[number.toNat]? = some ⟨none, generation, next⟩ ∧
      Threads arena.cells next rest := by
  have free : number.toNat ∈ m.free := by
    rw [← h.free]
    exact List.mem_map_of_mem List.mem_cons_self
  obtain ⟨slot, found, hollow⟩ := (consistent.mem_free _).mp free
  have threads := h.threads
  cases head : arena.head with
  | none =>
    rw [head] at threads
    cases threads
  | some first =>
    rw [head] at threads
    cases threads with
    | visit there onward =>
      rename_i cell
      rw [h.slot, there, Option.map_some, Option.some.injEq] at found
      subst found
      obtain ⟨content, generation, next⟩ := cell
      obtain rfl : content = none := hollow
      exact ⟨rfl, generation, next, there, onward⟩

theorem Represents.head_eq_none (h : Represents arena m []) : arena.head = none := by
  have threads := h.threads
  cases head : arena.head with
  | none => rfl
  | some first =>
    rw [head] at threads
    cases threads

theorem Represents.nextKey (h : Represents arena m stack) (consistent : m.Consistent) :
    arena.nextKey = some (ofLong m.nextKey) := by
  unfold Arena.nextKey SlotMap.nextKey
  rw [← h.free]
  cases stack with
  | nil => simp [h.head_eq_none, ofLong, h.size]
  | cons number rest =>
    obtain ⟨head, generation, next, there, -⟩ := h.exists_cell_of_cons consistent
    simp [head, there, h.slot, slotOf, ofLong]

/-- An allocation takes the top off the stack, or opens a slot when there is none. -/
theorem Represents.allocate (h : Represents arena m stack) (consistent : m.Consistent)
    (value : α) : ∃ after, arena.allocate value = some (after, ofLong m.nextKey) ∧
      after.Represents (m.allocate value) stack.tail := by
  unfold Arena.allocate SlotMap.allocate SlotMap.nextKey
  rw [← h.free]
  cases stack with
  | nil =>
    rw [h.head_eq_none]
    refine ⟨_, by simp only [List.map_nil, ofLong, h.size]; rfl, ?_, .done, rfl, ?_⟩
    · simp [Array.map_push, h.slots, slotOf]
    · simp [occupied_push, h.liveCount]
  | cons number rest =>
    obtain ⟨head, generation, next, there, onward⟩ := h.exists_cell_of_cons consistent
    rw [head]
    have same : (ofLong ⟨number.toNat, generation⟩) = ⟨number, generation⟩ := ofLong_long ⟨_, _⟩
    simp only [there, List.map_cons, h.slot, Option.map_some, Option.getD_some, slotOf, same]
    have nodup := h.nodup consistent
    refine ⟨_, rfl, ?_, ?_, rfl, ?_⟩
    · exact h.map_modify _ (Cell.fill value) (fun slot ↦ { slot with content := some value })
        fun _ ↦ rfl
    · exact onward.modify (List.nodup_cons.mp nodup).1 (Cell.fill value)
    · have counted := occupied_modify there (Cell.fill value)
      simpa [h.liveCount, Cell.fill] using counted.symm

/-- A removal under a live key puts its slot on top of the stack. -/
theorem Represents.deallocate (h : Represents arena m stack) (consistent : m.Consistent)
    (found : arena.get? key = some value) :
    ∃ after, arena.deallocate key = some (after, some value) ∧
      after.Represents (m.deallocate key.long) (key.number :: stack) := by
  obtain ⟨cell, there, same, full⟩ := exists_cell found
  have live : m.get? key.long = some value := h.get? key ▸ found
  have used := h.notMem_of_get? consistent found
  -- The slot was one of those counted, so the count does not fall below zero.
  have counted := occupied_modify there (Cell.vacate arena.head)
  simp only [full, Cell.vacate, Option.isSome_some, Option.isSome_none, if_true, Bool.false_eq_true,
    if_false, ← h.liveCount] at counted
  unfold Arena.deallocate SlotMap.deallocate
  rw [found, live]
  refine ⟨_, if_pos (by omega), ?_, ?_, ?_, ?_⟩
  · exact h.map_modify _ (Cell.vacate arena.head) (fun slot ↦ ⟨slot.generation + 1, none⟩)
      fun _ ↦ rfl
  · have top : (arena.cells.modify key.number.toNat (Cell.vacate arena.head))[key.number.toNat]? =
        some (cell.vacate arena.head) := by
      simp [Array.getElem?_modify, there]
    exact .visit top (h.threads.modify used (Cell.vacate arena.head))
  · exact congrArg _ h.free
  · exact Nat.sub_eq_of_eq_add counted.symm

/-- Writing to a live value keeps the links. -/
theorem Represents.update (h : Represents arena m stack) (consistent : m.Consistent)
    (found : arena.get? key = some value) (write : α → α) :
    (arena.update key write).1.Represents (m.set key.long (write value)) stack := by
  obtain ⟨cell, there, same, full⟩ := exists_cell found
  have live : m.get? key.long = some value := h.get? key ▸ found
  unfold Arena.update SlotMap.set
  rw [found, live]
  refine ⟨?_, ?_, h.free, ?_⟩
  · exact h.map_modify _ (Cell.replace (write value))
      (fun slot ↦ { slot with content := some (write value) }) fun _ ↦ rfl
  · exact h.threads.modify (h.notMem_of_get? consistent found) (Cell.replace (write value))
  · have counted := occupied_modify there (Cell.replace (write value))
    simpa [full, Cell.replace, ← h.liveCount] using counted.symm

/-! ### What a history says

Histories have the last event first. -/

/-- The slot that the event freed, if it freed one. -/
def Event.freed : Event α → Option UInt32
  | ⟨.deallocate key, .found (some _)⟩ => some key.number
  | _ => none

/-- When a slot was freed last: how many events there were up to then, or zero. -/
def lastFreed (number : UInt32) : List (Event α) → Nat
  | [] => 0
  | event :: past => if event.freed = some number then past.length + 1 else lastFreed number past

/-- The event is the end of the key: the value was taken out under it, or all slots were dropped. -/
def Event.Ends (event : Event α) (key : Key) : Prop :=
  event.call = .clear ∨ ∃ value, event = ⟨.deallocate key, .found (some value)⟩

/-- An allocation handed out the key, and nothing after it was the end of the key. -/
def Outstanding (history : List (Event α)) (key : Key) : Prop :=
  ∃ later value earlier, history = later ++ ⟨.allocate value, .handed key⟩ :: earlier ∧
    ∀ event ∈ later, ¬event.Ends key

theorem outstanding_cons : Outstanding (event :: history) key ↔
    (∃ value, event = ⟨.allocate value, .handed key⟩) ∨
      ¬event.Ends key ∧ Outstanding history key := by
  constructor
  · rintro ⟨later, value, earlier, eq, quiet⟩
    cases later with
    | nil =>
      cases eq
      exact .inl ⟨value, rfl⟩
    | cons first later =>
      cases eq
      exact .inr ⟨quiet _ List.mem_cons_self, later, value, earlier, rfl,
        fun event inside ↦ quiet event (List.mem_cons_of_mem _ inside)⟩
  · rintro (⟨value, rfl⟩ | ⟨lasting, later, value, earlier, rfl, quiet⟩)
    · exact ⟨[], value, history, rfl, by simp⟩
    · exact ⟨event :: later, value, earlier, rfl, List.forall_mem_cons.mpr ⟨lasting, quiet⟩⟩

theorem lastFreed_le (number : UInt32) (history : List (Event α)) :
    lastFreed number history ≤ history.length := by
  induction history with
  | nil => exact Nat.le_refl _
  | cons event past ih =>
    unfold lastFreed
    split
    · exact Nat.le_refl _
    · exact Nat.le_succ_of_le ih

theorem lastFreed_of_freed_ne (ne : event.freed ≠ some number) :
    lastFreed number (event :: history) = lastFreed number history := if_neg ne

/-- The stack and the live keys are as the history says. -/
structure Recorded (history : List (Event α)) (m : SlotMap α) (stack : List UInt32) : Prop where
  order : stack.Pairwise fun newer older ↦ lastFreed older history < lastFreed newer history
  handed : ∀ key : Key, (m.get? key.long).isSome → Outstanding history key
  live : m.slots.size ≤ 2 ^ 32 → ∀ key, Outstanding history key → (m.get? key.long).isSome

theorem recorded_empty (history : List (Event α)) (none : ∀ key, ¬Outstanding history key) :
    Recorded history (.empty : SlotMap α) [] where
  order := .nil
  handed key live := by simp [SlotMap.get?_empty] at live
  live _ key handed := absurd handed (none key)

/-- The event freed no slot, was the end of no key and handed none out. -/
structure Event.Quiet (event : Event α) : Prop where
  freed : event.freed = none
  lasting : ∀ key, ¬event.Ends key
  handed : ∀ value key, event ≠ ⟨.allocate value, .handed key⟩

theorem quiet_get (key : Key) (found : Option α) : Event.Quiet ⟨.get key, .found found⟩ :=
  ⟨rfl, by simp [Event.Ends], by simp⟩

theorem quiet_update (key : Key) (write : α → α) (found : Option α) :
    Event.Quiet ⟨.update key write, .found found⟩ :=
  ⟨rfl, by simp [Event.Ends], by simp⟩

theorem quiet_deallocate_none (key : Key) :
    Event.Quiet (⟨.deallocate key, .found none⟩ : Event α) :=
  ⟨rfl, by simp [Event.Ends], by simp⟩

/-- A call that keeps the live keys, where the event is quiet. -/
theorem Recorded.quiet (h : Recorded history m stack) {m' : SlotMap α} (quiet : event.Quiet)
    (size : m'.slots.size = m.slots.size)
    (same : ∀ key : Key, (m'.get? key.long).isSome = (m.get? key.long).isSome) :
    Recorded (event :: history) m' stack := by
  have outstanding (key : Key) : Outstanding (event :: history) key ↔ Outstanding history key := by
    rw [outstanding_cons]
    simp [quiet.lasting, quiet.handed]
  have freed (number : UInt32) : event.freed ≠ some number := by simp [quiet.freed]
  refine ⟨h.order.imp fun less ↦ ?_, fun key live ↦ ?_, fun small key given ↦ ?_⟩
  · rwa [lastFreed_of_freed_ne (freed _), lastFreed_of_freed_ne (freed _)]
  · rw [same] at live
    exact (outstanding key).mpr (h.handed key live)
  · rw [same]
    exact h.live (size ▸ small) key ((outstanding key).mp given)

theorem nextKey_index_lt (consistent : m.Consistent) :
    m.nextKey.index < (m.allocate value).slots.size := by
  obtain ⟨slot, there, -⟩ := SlotMap.exists_slot (SlotMap.get?_allocate_nextKey consistent value)
  exact (Array.getElem?_eq_some_iff.mp there).1

theorem size_le_allocate : m.slots.size ≤ (m.allocate value).slots.size := by
  unfold SlotMap.allocate
  split <;> simp

theorem size_deallocate (key : SlotKey) : (m.deallocate key).slots.size = m.slots.size := by
  unfold SlotMap.deallocate
  split <;> simp

theorem size_set (key : SlotKey) : (m.set key value).slots.size = m.slots.size := by
  unfold SlotMap.set
  split <;> simp

theorem Recorded.allocate (h : Recorded history m stack) (consistent : m.Consistent) (value : α) :
    Recorded (⟨.allocate value, .handed (ofLong m.nextKey)⟩ :: history) (m.allocate value)
      stack.tail where
  order := by
    refine (h.order.sublist (List.tail_sublist stack)).imp fun less ↦ ?_
    rwa [lastFreed_of_freed_ne (by simp [Event.freed]),
      lastFreed_of_freed_ne (by simp [Event.freed])]
  handed key live := by
    rw [outstanding_cons]
    by_cases here : key.long = m.nextKey
    · exact .inl ⟨value, by rw [← here, ofLong_long]⟩
    · rw [SlotMap.get?_allocate_of_ne consistent here] at live
      exact .inr ⟨by simp [Event.Ends], h.handed key live⟩
  live small key given := by
    by_cases here : key.long = m.nextKey
    · rw [here, SlotMap.get?_allocate_nextKey consistent]
      rfl
    · rw [SlotMap.get?_allocate_of_ne consistent here]
      rcases outstanding_cons.mp given with ⟨_, eq⟩ | ⟨-, before⟩
      -- The key that was handed out is that of the new slot only if its number was not cut off.
      · cases eq
        exact absurd (long_ofLong (Nat.lt_of_lt_of_le (nextKey_index_lt consistent) small)) here
      · exact h.live (Nat.le_trans size_le_allocate small) key before

theorem Recorded.deallocate (h : Recorded history m stack) (used : key.number ∉ stack)
    (value : α) : Recorded (⟨.deallocate key, .found (some value)⟩ :: history) (m.deallocate key.long)
      (key.number :: stack) where
  order := by
    -- The slot was in use, so none on the stack is freed a second time here.
    have older {number : UInt32} (inside : number ∈ stack) :
        lastFreed number (⟨.deallocate key, .found (some value)⟩ :: history) =
          lastFreed number history :=
      lastFreed_of_freed_ne fun same ↦ used (Option.some.inj same ▸ inside)
    refine List.pairwise_cons.mpr ⟨fun number inside ↦ ?_, ?_⟩
    · rw [older inside, lastFreed, if_pos (by rfl)]
      exact Nat.lt_succ_of_le (lastFreed_le _ _)
    · refine h.order.imp_of_mem fun newer less before ↦ ?_
      rwa [older newer, older less]
  handed other live := by
    by_cases here : other = key
    · rw [here, SlotMap.get?_deallocate_self] at live
      cases live
    · rw [SlotMap.get?_deallocate_of_ne (long_injective.ne here)] at live
      refine outstanding_cons.mpr (.inr ⟨?_, h.handed other live⟩)
      rintro (clear | ⟨_, eq⟩)
      · cases clear
      · cases eq
        exact here rfl
  live small other given := by
    rw [size_deallocate] at small
    obtain ⟨_, eq⟩ | ⟨lasting, before⟩ := outstanding_cons.mp given
    · cases eq
    · have here : other ≠ key := fun same ↦ lasting (.inr ⟨value, same ▸ rfl⟩)
      rw [SlotMap.get?_deallocate_of_ne (long_injective.ne here)]
      exact h.live small other before

/-! ### Every row of calls -/

/-- One call to the map, with the reply in numbers of 32 bits. -/
def mirror (m : SlotMap α) : Call α → SlotMap α × Reply α
  | .allocate value => (m.allocate value, .handed (ofLong m.nextKey))
  | .deallocate key => (m.deallocate key.long, .found (m.get? key.long))
  | .get key => (m, .found (m.get? key.long))
  | .update key write =>
    match m.get? key.long with
    | some value => (m.set key.long (write value), .found (some value))
    | none => (m, .found none)
  | .clear => (.empty, .done)

/-- The calls to the map one after the other, as `run` makes them to the store. -/
def mirrorAll (m : SlotMap α) (past : List (Event α)) :
    List (Call α) → SlotMap α × List (Event α)
  | [] => (m, past)
  | call :: calls => mirrorAll (mirror m call).1 (⟨call, (mirror m call).2⟩ :: past) calls

/-- The store, the map and the history belong together. -/
structure Tracks (arena : Arena α) (m : SlotMap α) (stack : List UInt32)
    (history : List (Event α)) : Prop where
  represents : arena.Represents m stack
  consistent : m.Consistent
  recorded : Recorded history m stack

/-- A call that leaves the store as it is. -/
theorem Tracks.still (h : Tracks arena m stack history) (quiet : event.Quiet) :
    Tracks arena m stack (event :: history) :=
  ⟨h.represents, h.consistent, h.recorded.quiet quiet rfl fun _ ↦ rfl⟩

theorem Tracks.deallocate (h : Tracks arena m stack history) (key : Key) :
    ∃ after stack', arena.deallocate key = some (after, m.get? key.long) ∧
      Tracks after (m.deallocate key.long) stack'
        (⟨.deallocate key, .found (m.get? key.long)⟩ :: history) := by
  have looked := h.represents.get? key
  cases found : arena.get? key with
  | some value =>
    have used := h.represents.notMem_of_get? h.consistent found
    obtain ⟨after, eq, represents⟩ := h.represents.deallocate h.consistent found
    rw [← looked, found]
    exact ⟨after, key.number :: stack, eq, represents, h.consistent.deallocate _,
      h.recorded.deallocate used value⟩
  | none =>
    have same : m.deallocate key.long = m :=
      SlotMap.deallocate_of_get?_eq_none (looked ▸ found)
    rw [← looked, found, same]
    refine ⟨arena, stack, ?_, h.still (quiet_deallocate_none key)⟩
    simp [Arena.deallocate, found]

theorem Tracks.update (h : Tracks arena m stack history) (key : Key) (write : α → α) :
    (arena.update key write).2 = m.get? key.long ∧
      Tracks (arena.update key write).1 (mirror m (.update key write)).1 stack
        (⟨.update key write, .found (m.get? key.long)⟩ :: history) := by
  have looked := h.represents.get? key
  cases found : arena.get? key with
  | some value =>
    have live : m.get? key.long = some value := looked ▸ found
    refine ⟨by simp [Arena.update, found, live], ?_, ?_, ?_⟩
    · simpa only [mirror, live] using h.represents.update h.consistent found write
    · simpa only [mirror, live] using h.consistent.set _ _
    · simp only [mirror, live]
      refine h.recorded.quiet (quiet_update _ _ _) (size_set _) fun other ↦ ?_
      by_cases here : other = key
      · rw [here, SlotMap.get?_set_self (by simp [live]), live, Option.isSome_some,
          Option.isSome_some]
      · rw [SlotMap.get?_set_of_ne (long_injective.ne here)]
  | none =>
    have dead : m.get? key.long = none := looked ▸ found
    simp only [mirror, Arena.update, found, dead, true_and]
    exact h.still (quiet_update _ _ _)

/-- Every call gets the reply of the map. -/
theorem Tracks.perform (h : Tracks arena m stack history) (call : Call α) :
    ∃ after stack', arena.perform call = some (after, (mirror m call).2) ∧
      Tracks after (mirror m call).1 stack' (⟨call, (mirror m call).2⟩ :: history) := by
  cases call with
  | allocate value =>
    obtain ⟨after, eq, represents⟩ := h.represents.allocate h.consistent value
    refine ⟨after, stack.tail, ?_, represents, h.consistent.allocate value,
      h.recorded.allocate h.consistent value⟩
    simp [Arena.perform, eq, mirror]
  | deallocate key =>
    obtain ⟨after, stack', eq, tracks⟩ := h.deallocate key
    exact ⟨after, stack', by simp [Arena.perform, eq, mirror], tracks⟩
  | get key =>
    refine ⟨arena, stack, ?_, h.still (quiet_get _ _)⟩
    simp [Arena.perform, h.represents.get?, mirror]
  | update key write =>
    obtain ⟨eq, tracks⟩ := h.update key write
    have reply : (mirror m (.update key write)).2 = .found (m.get? key.long) := by
      cases found : m.get? key.long <;> simp [mirror, found]
    refine ⟨(arena.update key write).1, stack, ?_, reply ▸ tracks⟩
    simp [Arena.perform, eq, reply]
  | clear =>
    refine ⟨new, [], rfl, represents_new, SlotMap.consistent_empty, recorded_empty _ fun key ↦ ?_⟩
    simp [outstanding_cons, Event.Ends, mirror]

theorem Tracks.run (h : Tracks arena m stack history) (calls : List (Call α)) :
    ∃ after stack', arena.run history calls = some (after, (mirrorAll m history calls).2) ∧
      Tracks after (mirrorAll m history calls).1 stack' (mirrorAll m history calls).2 := by
  induction calls generalizing arena m stack history with
  | nil => exact ⟨arena, stack, rfl, h⟩
  | cons call calls ih =>
    obtain ⟨after, stack', eq, tracks⟩ := h.perform call
    obtain ⟨last, stack'', ran, tracks⟩ := ih tracks
    exact ⟨last, stack'', by simp only [Arena.run, eq]; exact ran, tracks⟩

/-- The slots but this one hold what they held, in the generation they were in. -/
def KeepsOthers (arena after : Arena α) (number : UInt32) : Prop :=
  ∀ index cell, index ≠ number.toNat → arena.cells[index]? = some cell →
    ∃ cell', after.cells[index]? = some cell' ∧ cell'.content = cell.content ∧
      cell'.generation = cell.generation

theorem keepsOthers_modify {write : Cell α → Cell α} {liveCount : Nat} :
    KeepsOthers arena ⟨arena.cells.modify number.toNat write, head, liveCount⟩ number := by
  intro index cell ne there
  refine ⟨cell, ?_, rfl, rfl⟩
  rw [Array.getElem?_modify, if_neg (Ne.symm ne), there]

theorem keepsOthers_allocate (done : arena.allocate value = some (after, key)) :
    KeepsOthers arena after key.number := by
  unfold Arena.allocate at done
  split at done
  · split at done
    · cases done
      exact keepsOthers_modify
    · cases done
  · cases done
    intro index cell _ there
    have bound := (Array.getElem?_eq_some_iff.mp there).1
    refine ⟨cell, ?_, rfl, rfl⟩
    rw [Array.getElem?_push, if_neg (Nat.ne_of_lt bound), there]

theorem keepsOthers_deallocate {found : Option α}
    (done : arena.deallocate key = some (after, found)) : KeepsOthers arena after key.number := by
  unfold Arena.deallocate at done
  split at done
  · split at done
    · cases done
      exact keepsOthers_modify
    · cases done
  · cases done
    exact fun index cell _ there ↦ ⟨cell, there, rfl, rfl⟩

/-- What holds of a store after the calls of its history, whatever they were. -/
structure Lawful (arena : Arena α) (history : List (Event α)) : Prop where
  /-- The list of free slots ends. It visits the slots that hold nothing, each of them once, and
  the one freed last first. -/
  free : ∃ stack, Threads arena.cells arena.head stack ∧ stack.Nodup ∧
    (∀ index, (∃ number ∈ stack, number.toNat = index) ↔
      ∃ cell, arena.cells[index]? = some cell ∧ cell.content = none) ∧
    stack.Pairwise fun newer older ↦ lastFreed older history < lastFreed newer history
  /-- The count is the number of slots that hold a value. -/
  liveCount : arena.liveCount = arena.cells.countP (·.content.isSome)
  /-- An allocation succeeds with the key that was announced, and touches no other slot. -/
  allocate : ∀ value, ∃ after key, arena.allocate value = some (after, key) ∧
    arena.nextKey = some key ∧ arena.KeepsOthers after key.number
  /-- A removal gives the value at the key and touches no other slot. It changes nothing where
  there is no value. -/
  deallocate : ∀ key, ∃ after, arena.deallocate key = some (after, arena.get? key) ∧
    arena.KeepsOthers after key.number ∧ (arena.get? key = none → after = arena)
  /-- Writing gives the value at the key as well. -/
  update : ∀ key write, (arena.update key write).2 = arena.get? key
  /-- A key that finds a value was handed out, and not taken back since. -/
  outstanding : ∀ key, (arena.get? key).isSome → Outstanding history key
  /-- Such a key finds a value. -/
  found : arena.cells.size ≤ 2 ^ 32 → ∀ key, Outstanding history key → (arena.get? key).isSome

theorem Tracks.lawful (h : Tracks arena m stack history) : arena.Lawful history where
  free := by
    refine ⟨stack, h.represents.threads, h.represents.nodup h.consistent, fun index ↦ ?_,
      h.recorded.order⟩
    rw [← List.mem_map, h.represents.free, h.consistent.mem_free, h.represents.slot]
    constructor
    · rintro ⟨slot, found, hollow⟩
      obtain ⟨cell, there, rfl⟩ := Option.map_eq_some_iff.mp found
      exact ⟨cell, there, hollow⟩
    · rintro ⟨cell, there, hollow⟩
      exact ⟨slotOf cell, by rw [there, Option.map_some], hollow⟩
  liveCount := h.represents.liveCount
  allocate value := by
    obtain ⟨after, eq, -⟩ := h.represents.allocate h.consistent value
    exact ⟨after, _, eq, h.represents.nextKey h.consistent, keepsOthers_allocate eq⟩
  deallocate key := by
    obtain ⟨after, _, eq, -⟩ := h.deallocate key
    rw [← h.represents.get?] at eq
    refine ⟨after, eq, keepsOthers_deallocate eq, fun dead ↦ ?_⟩
    rw [Arena.deallocate, dead] at eq
    cases eq
    rfl
  update key write := by
    rw [(h.update key write).1, h.represents.get?]
  outstanding key found := h.recorded.handed key (h.represents.get? key ▸ found)
  found small key given := by
    rw [h.represents.get?]
    exact h.recorded.live (h.represents.size ▸ small) key given

/-- No row of calls stops the program. The store is lawful after each, and it is the map with its
stack of free slots: each reply was the reply of the map. -/
theorem run_refines (calls : List (Call α)) :
    ∃ arena history, run new [] calls = some (arena, history) ∧ arena.Lawful history ∧
      ∃ m stack, mirrorAll .empty [] calls = (m, history) ∧ arena.Represents m stack := by
  have start : Tracks (new : Arena α) .empty [] [] := by
    refine ⟨represents_new, SlotMap.consistent_empty, recorded_empty _ fun key ↦ ?_⟩
    rintro ⟨later, value, earlier, eq, -⟩
    simp at eq
  obtain ⟨arena, stack, ran, tracks⟩ := start.run calls
  exact ⟨arena, _, ran, tracks.lawful, _, stack, rfl, tracks.represents⟩

example : ((run new [] [.allocate 'a', .allocate 'b', .allocate 'c', .deallocate ⟨0, 0⟩,
    .deallocate ⟨2, 0⟩]).bind fun (arena, _) ↦ arena.nextKey) = some ⟨2, 1⟩ := by decide

end CompositeSorts.Arena
