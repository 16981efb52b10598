import CompositeSorts.Proofs.Catalog.Removal
import Mathlib.Data.List.Basic

/-!
Growth. A text only ever adds to a catalog: the sorts that were live before stay as they are, and
every new entry of a table leads to a sort that was not. Growth is stated relative to a catalog in
the past, so a change to a sort is harmless as long as the sort is younger than that catalog. When
a session only made its catalog grow, rolling back gives the catalog at its beginning.
-/

set_option autoImplicit false
set_option relaxedAutoImplicit false

namespace CompositeSorts.Catalog

variable {a c d : Catalog} {id : SortId} {sort old : SortRecord} {name : Option String}
  {canonical text : String} {counts : ComponentCounts} {body : Body}

/-- What `a` held is in `c` as it was, and what else is in `c` is new. -/
structure Growth (a c : Catalog) : Prop where
  home : c.home = a.home
  later : a.clock ≤ c.clock
  stays : ∀ {id sort}, a.get id = .ok sort → c.get id = .ok sort
  made : ∃ new, c.history = new ++ a.history ∧ c.fresh = new ++ a.fresh ∧ ∀ id ∈ new, ¬ a.Live id
  keepsName : ∀ {name : String} {id : SortId}, a.names[name]? = some id →
    c.names[name]? = some id
  newName : ∀ {name : String} {id : SortId}, c.names[name]? = some id →
    a.names[name]? = some id ∨ ¬ a.Live id
  keepsText : ∀ {text : String} {id : SortId}, a.interned[text]? = some id →
    c.interned[text]? = some id
  newText : ∀ {text : String} {id : SortId}, c.interned[text]? = some id →
    a.interned[text]? = some id ∨ ¬ a.Live id

namespace Growth

theorem live (h : Growth a c) (found : a.Live id) : c.Live id := by
  obtain ⟨sort, found⟩ := found
  exact ⟨sort, h.stays found⟩

theorem refl (c : Catalog) : Growth c c where
  home := rfl
  later := Nat.le_refl _
  stays found := found
  made := ⟨[], rfl, rfl, by simp⟩
  keepsName entry := entry
  newName entry := Or.inl entry
  keepsText entry := entry
  newText entry := Or.inl entry

theorem trans (h : Growth a c) (h' : Growth c d) : Growth a d where
  home := h'.home.trans h.home
  later := Nat.le_trans h.later h'.later
  stays found := h'.stays (h.stays found)
  made := by
    obtain ⟨new, history, fresh, apart⟩ := h.made
    obtain ⟨newer, history', fresh', apart'⟩ := h'.made
    refine ⟨newer ++ new, ?_, ?_, ?_⟩
    · rw [history', history, List.append_assoc]
    · rw [fresh', fresh, List.append_assoc]
    · intro id inside
      rcases List.mem_append.mp inside with later | before
      · exact fun live ↦ apart' id later (h.live live)
      · exact apart id before
  keepsName entry := h'.keepsName (h.keepsName entry)
  newName entry := by
    rcases h'.newName entry with before | new
    · exact h.newName before
    · exact Or.inr fun live ↦ new (h.live live)
  keepsText entry := h'.keepsText (h.keepsText entry)
  newText entry := by
    rcases h'.newText entry with before | new
    · exact h.newText before
    · exact Or.inr fun live ↦ new (h.live live)

/-- Growth is about the tables; journal and pending definitions do not count. -/
theorem congr (h : Growth a c) (home : d.home = c.home) (clock : d.clock = c.clock)
    (store : d.store = c.store)
    (names : d.names = c.names) (interned : d.interned = c.interned)
    (history : d.history = c.history) (fresh : d.fresh = c.fresh) : Growth a d where
  home := home.trans h.home
  later := clock ▸ h.later
  stays found := by
    rw [get_congr home (by rw [store])]
    exact h.stays found
  made := by
    rw [history, fresh]
    exact h.made
  keepsName entry := names ▸ h.keepsName entry
  newName entry := h.newName (names ▸ entry)
  keepsText entry := interned ▸ h.keepsText entry
  newText entry := h.newText (interned ▸ entry)

/-! ### Elementary changes -/

theorem not_live_nextId (h : Growth a c) (sound : c.Rooted) : ¬ a.Live c.nextId :=
  fun live ↦ Catalog.not_live_nextId sound (h.live live)

theorem add (h : Growth a c) (sound : c.Rooted) :
    Growth a (c.add name canonical counts body) where
  home := h.home
  later := Nat.le_succ_of_le h.later
  stays found := get_add_of_live sound (h.stays found)
  made := by
    obtain ⟨new, history, fresh, apart⟩ := h.made
    refine ⟨c.nextId :: new, ?_, ?_, ?_⟩
    · exact congrArg (c.nextId :: ·) history
    · exact congrArg (c.nextId :: ·) fresh
    · intro id inside
      rcases List.mem_cons.mp inside with rfl | before
      · exact h.not_live_nextId sound
      · exact apart id before
  keepsName := h.keepsName
  newName := h.newName
  keepsText := h.keepsText
  newText := h.newText

theorem replace (h : Growth a c) (found : c.get sort.id = .ok old) (new : ¬ a.Live sort.id) :
    Growth a (c.replace sort) where
  home := h.home
  later := h.later
  stays {id record} there := by
    have differs : id ≠ sort.id := by
      rintro rfl
      exact new ⟨record, there⟩
    rw [get_replace_of_ne found differs]
    exact h.stays there
  made := h.made
  keepsName := h.keepsName
  newName := h.newName
  keepsText := h.keepsText
  newText := h.newText

theorem insertName (h : Growth a c) (new : ¬ a.Live id) (open_ : c.names[text]? = none) :
    Growth a { c with names := c.names.insert text id } where
  home := h.home
  later := h.later
  stays := h.stays
  made := h.made
  keepsName entry := getElem?_insert_of_free open_ (h.keepsName entry)
  newName {name known} entry := by
    rw [Std.ExtTreeMap.getElem?_insert] at entry
    split at entry
    · cases entry
      exact Or.inr new
    · exact h.newName entry
  keepsText := h.keepsText
  newText := h.newText

theorem insertKept (h : Growth a c) (new : ¬ a.Live id) (open_ : c.interned[text]? = none) :
    Growth a { c with interned := c.interned.insert text id } where
  home := h.home
  later := h.later
  stays := h.stays
  made := h.made
  keepsName := h.keepsName
  newName := h.newName
  keepsText entry := getElem?_insert_of_free open_ (h.keepsText entry)
  newText {other known} entry := by
    rw [Std.ExtTreeMap.getElem?_insert] at entry
    split at entry
    · cases entry
      exact Or.inr new
    · exact h.newText entry

end Growth

/-! ### Back to the beginning -/

/-- Two catalogs hold the same sorts under the same handles and the same entries in their tables.
Slots, clock, journal and the sorts of the session may differ. -/
structure SameSorts (a c : Catalog) : Prop where
  get : ∀ id, c.get id = a.get id
  history : c.history = a.history
  names : c.names = a.names
  interned : c.interned = a.interned

/-- The sorts in the order they were made are the same. -/
theorem SameSorts.sorts (h : SameSorts a c) (sound : a.Sound) : c.sorts = a.sorts := by
  unfold Catalog.sorts
  rw [h.history]
  apply List.filterMap_congr
  intro id inside
  obtain ⟨sort, found⟩ := (sound.listed id).mp (List.mem_reverse.mp inside)
  have found' := (h.get id).trans found
  rw [(get_eq_ok_iff.mp found).2, (get_eq_ok_iff.mp found').2]

/-- A session that only made the catalog grow is undone by rolling back. -/
theorem Growth.sameSorts_rollBack (h : Growth a c) (before : a.Sound) (after : c.Sound)
    (begun : a.fresh = []) : SameSorts a c.rollBack := by
  obtain ⟨new, history, fresh, apart⟩ := h.made
  rw [begun, List.append_nil] at fresh
  have old_notMem : ∀ {id}, a.Live id → id ∉ c.fresh := by
    intro id live inside
    exact apart id (fresh ▸ inside) live
  have new_mem : ∀ {id}, c.Live id → ¬ a.Live id → id ∈ c.fresh := by
    intro id live dead
    have listed := (after.listed id).mpr live
    rw [history] at listed
    rcases List.mem_append.mp listed with inside | inside
    · exact fresh ▸ inside
    · exact absurd ((before.listed id).mp inside) dead
  have ours := after.ours_of_fresh
  refine ⟨?_, ?_, ?_, ?_⟩
  · intro id
    by_cases live : a.Live id
    · obtain ⟨sort, found⟩ := live
      rw [get_rollBack, get_removeAll_of_notMem ours (old_notMem ⟨sort, found⟩), h.stays found,
        found]
    · refine get_eq_of_not_live ((home_removeAll c.fresh).trans h.home) live ?_
      rw [after.live_rollBack]
      exact fun ⟨there, out⟩ ↦ out (new_mem there live)
  · change c.history.filter (· ∉ c.fresh) = a.history
    rw [history, List.filter_append, List.filter_eq_nil_iff.mpr, List.nil_append,
      List.filter_eq_self.mpr]
    · intro id inside
      simpa using old_notMem ((before.listed id).mp inside)
    · intro id inside
      simpa using (fresh ▸ inside : id ∈ c.fresh)
  · apply Std.ExtTreeMap.ext_getElem?
    intro name
    apply Option.ext
    intro known
    change (c.removeAll c.fresh).names[name]? = some known ↔ _
    rw [getElem?_names_removeAll_iff after.toRooted ours]
    constructor
    · rintro ⟨entry, out⟩
      obtain ⟨sort, found, -⟩ := after.named entry
      rcases h.newName entry with entry | dead
      · exact entry
      · exact absurd (new_mem ⟨sort, found⟩ dead) out
    · intro entry
      obtain ⟨sort, found, -⟩ := before.named entry
      exact ⟨h.keepsName entry, old_notMem ⟨sort, found⟩⟩
  · apply Std.ExtTreeMap.ext_getElem?
    intro text
    apply Option.ext
    intro known
    change (c.removeAll c.fresh).interned[text]? = some known ↔ _
    rw [getElem?_interned_removeAll_iff after.toRooted ours]
    constructor
    · rintro ⟨entry, out⟩
      obtain ⟨sort, found, -⟩ := after.kept entry
      rcases h.newText entry with entry | dead
      · exact entry
      · exact absurd (new_mem ⟨sort, found⟩ dead) out
    · intro entry
      obtain ⟨sort, found, -⟩ := before.kept entry
      exact ⟨h.keepsText entry, old_notMem ⟨sort, found⟩⟩

end CompositeSorts.Catalog
