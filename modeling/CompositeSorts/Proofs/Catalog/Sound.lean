import CompositeSorts.Catalog.Basic
import CompositeSorts.Proofs.Slots
import Mathlib.Tactic.Common

/-!
Sound catalogs. Whatever is done to a catalog, its tables agree: a sort carries the handle it is
found under, a name and a kept text lead to the sort that carries them, and the history lists the
live sorts. The laws here say what each elementary change does to a look-up, and that it keeps the
catalog sound; everything that operations do is put together from these changes.
-/

set_option autoImplicit false
set_option relaxedAutoImplicit false

namespace CompositeSorts.Catalog

variable {c : Catalog} {id other : SortId} {sort old record : SortRecord} {name : Option String}
  {canonical : String} {counts : ComponentCounts} {body : Body}

/-- The handle leads to a sort. -/
def Live (c : Catalog) (id : SortId) : Prop := ∃ sort, c.get id = .ok sort

/-- The tables lead to sorts that carry what they are found under. -/
structure Rooted (c : Catalog) : Prop where
  slots : c.store.Consistent
  placed : ∀ {id sort}, c.get id = .ok sort → sort.id = id
  named : ∀ {name id}, c.names[name]? = some id →
    ∃ sort, c.get id = .ok sort ∧ sort.name = some name
  kept : ∀ {text id}, c.interned[text]? = some id →
    ∃ sort, c.get id = .ok sort ∧ sort.name = none ∧ sort.variant = .weighted ∧
      sort.canonical = text

/-- The tables are rooted, the history lists the live sorts, and those of the session are live. -/
structure Sound (c : Catalog) : Prop extends Rooted c where
  listed : ∀ id, id ∈ c.history ↔ c.Live id
  recent : ∀ id ∈ c.fresh, c.Live id

theorem live_iff : c.Live id ↔ id.registry = c.home ∧ (c.store.get? id.key).isSome := by
  simp only [Live, get_eq_ok_iff, Option.isSome_iff_exists]
  exact ⟨fun ⟨sort, h, found⟩ ↦ ⟨h, sort, found⟩, fun ⟨h, sort, found⟩ ↦ ⟨sort, h, found⟩⟩

theorem registry_of_get (h : c.get id = .ok sort) : id.registry = c.home :=
  (get_eq_ok_iff.mp h).1

/-- There are not more different live sorts than the size says. -/
theorem Rooted.length_le_size (h : c.Rooted) {ids : List SortId} (nodup : ids.Nodup)
    (live : ∀ id ∈ ids, c.Live id) : ids.length ≤ c.size := by
  have apart : (ids.map SortId.key).Nodup := by
    refine nodup.map_on fun a insideA b insideB same ↦ ?_
    have home := (live_iff.mp (live a insideA)).1.trans (live_iff.mp (live b insideB)).1.symm
    cases a
    cases b
    simp_all
  have bounded := SlotMap.length_le_live h.slots apart fun key inside ↦ by
    obtain ⟨id, among, rfl⟩ := List.mem_map.mp inside
    exact (live_iff.mp (live id among)).2
  rwa [List.length_map] at bounded

/-- A look-up depends only on the slot and on the registry. -/
theorem get_congr {c' : Catalog} (home : c'.home = c.home)
    (same : c'.store.get? id.key = c.store.get? id.key) : c'.get id = c.get id := by
  unfold get
  rw [home, same]

/-- A handle of another registry leads nowhere, whatever the catalog holds. -/
theorem get_eq_of_foreign {c' : Catalog} (home : c'.home = c.home)
    (foreign : id.registry ≠ c.home) :
    c'.get id = c.get id := by
  rw [get_of_foreign foreign, get_of_foreign (home ▸ foreign)]

theorem get_of_get?_eq_none (ours : id.registry = c.home) (h : c.store.get? id.key = none) :
    c.get id = .error (.dead id) := by
  simp [get, ours, h]

/-- All that is known of a handle that leads nowhere is whether it is ours. -/
theorem get_eq_of_not_live {c' : Catalog} (home : c'.home = c.home) (dead : ¬ c.Live id)
    (dead' : ¬ c'.Live id) : c'.get id = c.get id := by
  rw [live_iff] at dead dead'
  by_cases ours : id.registry = c.home
  · have gone : c.store.get? id.key = none := by simpa [ours] using dead
    have gone' : c'.store.get? id.key = none := by simpa [ours, home] using dead'
    exact get_congr home (gone'.trans gone.symm)
  · exact get_eq_of_foreign home ours

/-- A sort is found under the handle it carries. -/
theorem Rooted.get_id (h : c.Rooted) (found : c.get id = .ok sort) : c.get sort.id = .ok sort := by
  rw [h.placed found]
  exact found

/-- Where only one sort is new or changed, any that is found is that one, or was found before. -/
theorem changed_cases {c' : Catalog} (here : c'.get id = .ok record)
    (kept : ∀ other, other ≠ id → c'.get other = c.get other) (found : c'.get other = .ok sort) :
    id = other ∧ record = sort ∨ other ≠ id ∧ c.get other = .ok sort := by
  by_cases same : other = id
  · rw [same, here] at found
    exact Or.inl ⟨same.symm, Except.ok.inj found⟩
  · exact Or.inr ⟨same, (kept other same).symm.trans found⟩

theorem rooted_empty (home : RegistryId) : (empty home).Rooted where
  slots := SlotMap.consistent_empty
  placed h := by simp [get_eq_ok_iff, empty, SlotMap.get?_empty] at h
  named h := by simp [empty] at h
  kept h := by simp [empty] at h

theorem sound_empty (home : RegistryId) : (empty home).Sound where
  toRooted := rooted_empty home
  listed id := by simp [live_iff, empty, SlotMap.get?_empty]
  recent id h := by simp [empty] at h

/-! ### A new sort -/

theorem not_live_nextId (h : c.Rooted) : ¬ c.Live c.nextId := by
  rw [live_iff]
  simp [nextId, SlotMap.get?_nextKey h.slots]

theorem get_add_nextId (h : c.Rooted) : (c.add name canonical counts body).get c.nextId =
    .ok ⟨c.nextId, name, canonical, c.clock, counts, body⟩ :=
  get_eq_ok_iff.mpr ⟨rfl, SlotMap.get?_allocate_nextKey h.slots _⟩

theorem get_add_of_ne (h : c.Rooted) (ne : id ≠ c.nextId) :
    (c.add name canonical counts body).get id = c.get id := by
  by_cases ours : id.registry = c.home
  · refine get_congr rfl (SlotMap.get?_allocate_of_ne h.slots fun same ↦ ne ?_)
    cases id
    simp_all [nextId]
  · exact get_eq_of_foreign rfl ours

theorem get_add_of_live (h : c.Rooted) (found : c.get id = .ok sort) :
    (c.add name canonical counts body).get id = .ok sort := by
  rw [get_add_of_ne h, found]
  rintro rfl
  exact not_live_nextId h ⟨sort, found⟩

/-- A sort that is found once one was added is that one, or was found before. -/
theorem get_add_cases (h : c.Rooted)
    (found : (c.add name canonical counts body).get id = .ok sort) :
    c.nextId = id ∧ ⟨c.nextId, name, canonical, c.clock, counts, body⟩ = sort ∨
      id ≠ c.nextId ∧ c.get id = .ok sort :=
  changed_cases (get_add_nextId h) (fun _ ne ↦ get_add_of_ne h ne) found

theorem Rooted.add (h : c.Rooted) : (c.add name canonical counts body).Rooted where
  slots := h.slots.allocate _
  placed {id sort} found := by
    rcases get_add_cases h found with ⟨rfl, rfl⟩ | ⟨-, before⟩
    · rfl
    · exact h.placed before
  named known := by
    obtain ⟨sort, found, carries⟩ := h.named known
    exact ⟨sort, get_add_of_live h found, carries⟩
  kept known := by
    obtain ⟨sort, found, carries⟩ := h.kept known
    exact ⟨sort, get_add_of_live h found, carries⟩

theorem live_add (h : c.Rooted) :
    (c.add name canonical counts body).Live id ↔ id = c.nextId ∨ c.Live id := by
  by_cases new : id = c.nextId
  · simp only [new, true_or, iff_true]
    exact ⟨_, get_add_nextId h⟩
  · simp only [new, false_or]
    unfold Live
    rw [get_add_of_ne h new]

theorem Sound.add (h : c.Sound) : (c.add name canonical counts body).Sound where
  toRooted := h.toRooted.add
  listed id := by
    rw [live_add h.toRooted, ← h.listed id]
    exact List.mem_cons
  recent id inside := by
    rw [live_add h.toRooted]
    rcases List.mem_cons.mp inside with new | before
    · exact Or.inl new
    · exact Or.inr (h.recent id before)

/-! ### A sort in the place of another -/

theorem get_replace_self (found : c.get sort.id = .ok old) :
    (c.replace sort).get sort.id = .ok sort := by
  obtain ⟨ours, inside⟩ := get_eq_ok_iff.mp found
  exact get_eq_ok_iff.mpr ⟨ours, SlotMap.get?_set_self (by simp [inside]) _⟩

theorem get_replace_of_ne (found : c.get sort.id = .ok old) (ne : id ≠ sort.id) :
    (c.replace sort).get id = c.get id := by
  have home := registry_of_get found
  by_cases ours : id.registry = c.home
  · refine get_congr rfl (SlotMap.get?_set_of_ne (fun same ↦ ne ?_) _)
    cases id
    cases h : sort.id
    simp_all
  · exact get_eq_of_foreign rfl ours

/-- A sort that is found once one was replaced is the one in its place, or was found before. -/
theorem get_replace_cases (found : c.get sort.id = .ok old)
    (there : (c.replace sort).get id = .ok record) :
    sort.id = id ∧ sort = record ∨ id ≠ sort.id ∧ c.get id = .ok record :=
  changed_cases (get_replace_self found) (fun _ ne ↦ get_replace_of_ne found ne) there

/-- A sort that was found before one was replaced is the one that was, or is found still. -/
theorem replaced_cases (found : c.get sort.id = .ok old) (there : c.get id = .ok record) :
    sort.id = id ∧ old = record ∧ (c.replace sort).get id = .ok sort ∨
      id ≠ sort.id ∧ (c.replace sort).get id = .ok record := by
  by_cases same : id = sort.id
  · rw [same, found] at there
    exact Or.inl ⟨same.symm, Except.ok.inj there, same ▸ get_replace_self found⟩
  · rw [← get_replace_of_ne found same] at there
    exact Or.inr ⟨same, there⟩

theorem live_replace (found : c.get sort.id = .ok old) :
    (c.replace sort).Live id ↔ c.Live id := by
  by_cases same : id = sort.id
  · subst same
    exact ⟨fun _ ↦ ⟨old, found⟩, fun _ ↦ ⟨sort, get_replace_self found⟩⟩
  · unfold Live
    rw [get_replace_of_ne found same]

/-- Names stay, and a kept attribute is never replaced. -/
theorem Rooted.replace (h : c.Rooted) (found : c.get sort.id = .ok old)
    (sameName : sort.name = old.name) (loose : old.variant ≠ .weighted) :
    (c.replace sort).Rooted where
  slots := h.slots.set _ _
  placed {id record} there := by
    rcases get_replace_cases found there with ⟨rfl, rfl⟩ | ⟨-, before⟩
    · rfl
    · exact h.placed before
  named {name id} known := by
    obtain ⟨record, there, carries⟩ := h.named known
    rcases replaced_cases found there with ⟨rfl, rfl, here⟩ | ⟨-, here⟩
    · exact ⟨sort, here, sameName.trans carries⟩
    · exact ⟨record, here, carries⟩
  kept {text id} known := by
    obtain ⟨record, there, nameless, weighted, carries⟩ := h.kept known
    have differs : id ≠ sort.id := by
      rintro rfl
      rw [found] at there
      cases there
      exact loose weighted
    exact ⟨record, (get_replace_of_ne found differs).trans there, nameless, weighted, carries⟩

theorem Sound.replace (h : c.Sound) (found : c.get sort.id = .ok old)
    (sameName : sort.name = old.name) (loose : old.variant ≠ .weighted) :
    (c.replace sort).Sound where
  toRooted := h.toRooted.replace found sameName loose
  listed id := by
    rw [live_replace found, ← h.listed id]
    rfl
  recent id inside := (live_replace found).mpr (h.recent id inside)

/-! ### A new entry -/

/-- A new entry under a free key leaves the other entries. -/
theorem getElem?_insert_of_free {entries : Std.ExtTreeMap String SortId} {text key : String}
    {known : SortId} (free : entries[text]? = none) (entry : entries[key]? = some known) :
    (entries.insert text id)[key]? = some known := by
  rw [Std.ExtTreeMap.getElem?_insert, if_neg]
  · exact entry
  · rw [Std.LawfulEqOrd.compare_eq_iff_eq]
    rintro rfl
    rw [free] at entry
    cases entry

theorem Sound.insertName (h : c.Sound) {text : String} (found : c.get id = .ok sort)
    (carries : sort.name = some text) : { c with names := c.names.insert text id }.Sound where
  slots := h.slots
  placed := h.placed
  named {name known} entry := by
    rw [Std.ExtTreeMap.getElem?_insert] at entry
    split at entry
    · rename_i same
      cases entry
      rw [Std.LawfulEqOrd.compare_eq_iff_eq] at same
      exact ⟨sort, found, same ▸ carries⟩
    · exact h.named entry
  kept := h.kept
  listed := h.listed
  recent := h.recent

theorem Sound.insertKept (h : c.Sound) {text : String} (found : c.get id = .ok sort)
    (nameless : sort.name = none) (weighted : sort.variant = .weighted)
    (carries : sort.canonical = text) :
    { c with interned := c.interned.insert text id }.Sound where
  slots := h.slots
  placed := h.placed
  named := h.named
  kept {other known} entry := by
    rw [Std.ExtTreeMap.getElem?_insert] at entry
    split at entry
    · rename_i same
      cases entry
      rw [Std.LawfulEqOrd.compare_eq_iff_eq] at same
      exact ⟨sort, found, nameless, weighted, same ▸ carries⟩
    · exact h.kept entry
  listed := h.listed
  recent := h.recent

end CompositeSorts.Catalog
