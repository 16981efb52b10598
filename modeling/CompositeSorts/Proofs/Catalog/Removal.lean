import CompositeSorts.Proofs.Catalog.Sound

/-!
Removal. A sort that is removed leaves no trace: its handle is dead, no name and no kept text leads
to it, and every other look-up answers as before. Rolling back removes the sorts of the session in
this way, whatever was done to them.
-/

set_option autoImplicit false
set_option relaxedAutoImplicit false

namespace CompositeSorts.Catalog

variable {c : Catalog} {id other : SortId} {ids : List SortId}

/-- The entry of a key is taken out when it leads to the handle, and no other entry is. -/
theorem getElem?_eraseEntry_iff {entries : Std.ExtTreeMap String SortId} {key : String}
    (only : ∀ text, entries[text]? = some id → text = key) (text : String) (known : SortId) :
    (eraseEntry entries key id)[text]? = some known ↔
      entries[text]? = some known ∧ known ≠ id := by
  unfold eraseEntry
  split
  · rename_i leads
    rw [Std.ExtTreeMap.getElem?_erase]
    split
    · rename_i same
      rw [Std.LawfulEqOrd.compare_eq_iff_eq] at same
      subst same
      rw [leads]
      constructor
      · intro h
        cases h
      · rintro ⟨h, apart⟩
        cases h
        exact absurd rfl apart
    · rename_i differs
      refine ⟨fun entry ↦ ⟨entry, ?_⟩, And.left⟩
      rintro rfl
      exact differs (by rw [only text entry, Std.LawfulEqOrd.compare_eq_iff_eq])
  · rename_i elsewhere
    refine ⟨fun entry ↦ ⟨entry, ?_⟩, And.left⟩
    rintro rfl
    exact elsewhere (only text entry ▸ entry)

theorem home_remove : (c.remove id).home = c.home := by
  unfold remove
  split <;> rfl

theorem clock_remove : (c.remove id).clock = c.clock := by
  unfold remove
  split <;> rfl

theorem store_remove : (c.remove id).store = c.store.deallocate id.key := by
  unfold remove
  split
  · rename_i hollow
    exact (SlotMap.deallocate_of_get?_eq_none hollow).symm
  · rfl

theorem get_remove_self (ours : id.registry = c.home) :
    (c.remove id).get id = .error (.dead id) := by
  apply get_of_get?_eq_none
  · rw [home_remove, ours]
  · rw [store_remove, SlotMap.get?_deallocate_self]

theorem get_remove_of_ne (ours : id.registry = c.home) (ne : other ≠ id) :
    (c.remove id).get other = c.get other := by
  by_cases here : other.registry = c.home
  · refine get_congr home_remove ?_
    rw [store_remove, SlotMap.get?_deallocate_of_ne]
    intro same
    apply ne
    cases other
    cases id
    simp_all
  · exact get_eq_of_foreign home_remove here

/-- Names lead to the sorts that carry them, so the name of a sort is the only one to go. -/
theorem getElem?_names_remove_iff (h : c.Rooted) (text : String) (known : SortId) :
    (c.remove id).names[text]? = some known ↔ c.names[text]? = some known ∧ known ≠ id := by
  have leads : ∀ text, c.names[text]? = some id →
      ∃ sort, c.store.get? id.key = some sort ∧ sort.name = some text := by
    intro text entry
    obtain ⟨sort, found, carries⟩ := h.named entry
    exact ⟨sort, (get_eq_ok_iff.mp found).2, carries⟩
  unfold remove
  split
  · rename_i hollow
    refine ⟨fun entry ↦ ⟨entry, ?_⟩, And.left⟩
    rintro rfl
    obtain ⟨sort, inside, -⟩ := leads text entry
    rw [hollow] at inside
    cases inside
  · rename_i sort inside
    cases named : sort.name with
    | none =>
      refine ⟨fun entry ↦ ⟨entry, ?_⟩, And.left⟩
      rintro rfl
      obtain ⟨record, there, carries⟩ := leads text entry
      rw [inside] at there
      cases there
      rw [named] at carries
      cases carries
    | some name =>
      apply getElem?_eraseEntry_iff
      intro text entry
      obtain ⟨record, there, carries⟩ := leads text entry
      rw [inside] at there
      cases there
      rw [named] at carries
      exact (Option.some.inj carries).symm

theorem getElem?_interned_remove_iff (h : c.Rooted) (text : String) (known : SortId) :
    (c.remove id).interned[text]? = some known ↔ c.interned[text]? = some known ∧ known ≠ id := by
  have leads : ∀ text, c.interned[text]? = some id →
      ∃ sort, c.store.get? id.key = some sort ∧ sort.canonical = text := by
    intro text entry
    obtain ⟨sort, found, -, -, carries⟩ := h.kept entry
    exact ⟨sort, (get_eq_ok_iff.mp found).2, carries⟩
  unfold remove
  split
  · rename_i hollow
    refine ⟨fun entry ↦ ⟨entry, ?_⟩, And.left⟩
    rintro rfl
    obtain ⟨sort, inside, -⟩ := leads text entry
    rw [hollow] at inside
    cases inside
  · rename_i sort inside
    apply getElem?_eraseEntry_iff
    intro text entry
    obtain ⟨record, there, carries⟩ := leads text entry
    rw [inside] at there
    cases there
    exact carries.symm

theorem Rooted.remove (h : c.Rooted) (ours : id.registry = c.home) : (c.remove id).Rooted where
  slots := by
    rw [store_remove]
    exact h.slots.deallocate _
  placed {other sort} found := by
    by_cases same : other = id
    · rw [same, get_remove_self ours] at found
      cases found
    · rw [get_remove_of_ne ours same] at found
      exact h.placed found
  named {name known} entry := by
    obtain ⟨entry, apart⟩ := (getElem?_names_remove_iff h name known).mp entry
    rw [get_remove_of_ne ours apart]
    exact h.named entry
  kept {text known} entry := by
    obtain ⟨entry, apart⟩ := (getElem?_interned_remove_iff h text known).mp entry
    rw [get_remove_of_ne ours apart]
    exact h.kept entry

/-! ### Several sorts -/

/-- Removes several sorts, one after the other. -/
def removeAll (c : Catalog) (ids : List SortId) : Catalog := ids.foldl remove c

theorem removeAll_cons : c.removeAll (id :: ids) = (c.remove id).removeAll ids := rfl

theorem home_removeAll (ids : List SortId) : (c.removeAll ids).home = c.home := by
  induction ids generalizing c with
  | nil => rfl
  | cons id ids ih => rw [removeAll_cons, ih, home_remove]

theorem clock_removeAll (ids : List SortId) : (c.removeAll ids).clock = c.clock := by
  induction ids generalizing c with
  | nil => rfl
  | cons id ids ih => rw [removeAll_cons, ih, clock_remove]

/-- What is asked of the handles to be removed goes on to hold of the others when one is gone. -/
theorem ours_of_cons (ours : ∀ other ∈ id :: ids, other.registry = c.home) :
    id.registry = c.home ∧ ∀ other ∈ ids, other.registry = (c.remove id).home := by
  refine ⟨ours id List.mem_cons_self, fun other inside ↦ ?_⟩
  rw [home_remove]
  exact ours other (List.mem_cons_of_mem _ inside)

theorem Rooted.removeAll (h : c.Rooted) (ours : ∀ id ∈ ids, id.registry = c.home) :
    (c.removeAll ids).Rooted := by
  induction ids generalizing c with
  | nil => exact h
  | cons id ids ih =>
    obtain ⟨here, others⟩ := ours_of_cons ours
    exact ih (h.remove here) others

theorem get_removeAll_of_notMem (ours : ∀ id ∈ ids, id.registry = c.home) (out : id ∉ ids) :
    (c.removeAll ids).get id = c.get id := by
  induction ids generalizing c with
  | nil => rfl
  | cons first ids ih =>
    obtain ⟨here, others⟩ := ours_of_cons ours
    obtain ⟨apart, out⟩ := not_or.mp (mt List.mem_cons.mpr out)
    rw [removeAll_cons, ih others out, get_remove_of_ne here apart]

theorem get_removeAll_of_mem (ours : ∀ id ∈ ids, id.registry = c.home) (inside : id ∈ ids) :
    (c.removeAll ids).get id = .error (.dead id) := by
  induction ids generalizing c with
  | nil => simp at inside
  | cons first ids ih =>
    obtain ⟨here, others⟩ := ours_of_cons ours
    rw [removeAll_cons]
    by_cases later : id ∈ ids
    · exact ih others later
    · obtain rfl : id = first := by simpa [later] using inside
      rw [get_removeAll_of_notMem others later, get_remove_self here]

theorem getElem?_names_removeAll_iff (h : c.Rooted) (ours : ∀ id ∈ ids, id.registry = c.home)
    (text : String) (known : SortId) :
    (c.removeAll ids).names[text]? = some known ↔ c.names[text]? = some known ∧ known ∉ ids := by
  induction ids generalizing c with
  | nil => simp [removeAll]
  | cons id ids ih =>
    obtain ⟨here, others⟩ := ours_of_cons ours
    rw [removeAll_cons, ih (h.remove here) others, getElem?_names_remove_iff h,
      List.mem_cons, not_or,
      and_assoc]

theorem getElem?_interned_removeAll_iff (h : c.Rooted) (ours : ∀ id ∈ ids, id.registry = c.home)
    (text : String) (known : SortId) :
    (c.removeAll ids).interned[text]? = some known ↔
      c.interned[text]? = some known ∧ known ∉ ids := by
  induction ids generalizing c with
  | nil => simp [removeAll]
  | cons id ids ih =>
    obtain ⟨here, others⟩ := ours_of_cons ours
    rw [removeAll_cons, ih (h.remove here) others, getElem?_interned_remove_iff h,
      List.mem_cons, not_or, and_assoc]

/-! ### Rolling back -/

theorem Sound.ours_of_fresh (h : c.Sound) : ∀ id ∈ c.fresh, id.registry = c.home := by
  intro id inside
  exact (live_iff.mp (h.recent id inside)).1

/-- Rolling back is removing the sorts of the session. -/
theorem get_rollBack (id : SortId) : c.rollBack.get id = (c.removeAll c.fresh).get id := rfl

/-- The sorts that remain are as they were. -/
theorem Sound.get_rollBack_eq_ok_iff (h : c.Sound) {sort : SortRecord} :
    c.rollBack.get id = .ok sort ↔ c.get id = .ok sort ∧ id ∉ c.fresh := by
  rw [get_rollBack]
  by_cases inside : id ∈ c.fresh
  · simp [get_removeAll_of_mem h.ours_of_fresh inside, inside]
  · simp [get_removeAll_of_notMem h.ours_of_fresh inside, inside]

theorem Sound.live_rollBack (h : c.Sound) : c.rollBack.Live id ↔ c.Live id ∧ id ∉ c.fresh := by
  unfold Live
  simp only [h.get_rollBack_eq_ok_iff, exists_and_right]

theorem Sound.rollBack (h : c.Sound) : c.rollBack.Sound where
  toRooted := by
    have rooted := h.toRooted.removeAll h.ours_of_fresh
    exact ⟨rooted.slots, rooted.placed, rooted.named, rooted.kept⟩
  listed id := by
    rw [h.live_rollBack, ← h.listed id]
    exact List.mem_filter.trans (by simp)
  recent id inside := absurd inside List.not_mem_nil

end CompositeSorts.Catalog
