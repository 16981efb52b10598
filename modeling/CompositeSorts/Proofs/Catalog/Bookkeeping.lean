import CompositeSorts.Proofs.Catalog.Walks

/-!
The books of a catalog. Beside its slots a catalog keeps the history, the sorts of the session, the
names and the kept attributes, each for itself. They never disagree (`Accounted`): besides being
sound, the history has the sorts in the order in which they were made, those of the session come
last, and an attribute without a name is kept as long as it is live. Each edit leaves these three in
order (`Edit.orderly`), and so does rolling back.
-/

set_option autoImplicit false
set_option relaxedAutoImplicit false

namespace CompositeSorts.Catalog

variable {may : Touch → Prop} {c d : Catalog} {id : SortId} {sort old : SortRecord}
  {name : Option String} {canonical text : String} {counts : ComponentCounts} {body : Body}

/-- The sort at the first handle was made after the one at the second. -/
def MadeLater (c : Catalog) (newer older : SortId) : Prop :=
  ∀ sort sort', c.get newer = .ok sort → c.get older = .ok sort' → sort'.created < sort.created

/-- The history goes back in time and begins with the sorts of the session, and attributes without
names are kept. -/
structure Orderly (c : Catalog) : Prop where
  ordered : c.history.Pairwise c.MadeLater
  undoable : c.fresh <+: c.history
  attributes : ∀ {id sort}, c.get id = .ok sort → sort.name = none → sort.variant = .weighted →
    c.interned[sort.canonical]? = some id

/-- The books of a catalog agree with each other and with its slots. -/
structure Accounted (c : Catalog) : Prop where
  /-- The history has exactly the live sorts, ... -/
  listed : ∀ id, id ∈ c.history ↔ c.Live id
  /-- ... each of them once, ... -/
  once : c.history.Nodup
  /-- ... so all of them are sorts of the catalog, ... -/
  sorts : c.sorts.map SortRecord.id = c.history.reverse
  /-- ... in the order in which they were made, ... -/
  ordered : c.sorts.Pairwise fun earlier later ↦ earlier.created < later.created
  /-- ... and the size of the catalog is their number. -/
  counted : c.size = c.history.length
  placed : ∀ id sort, c.get id = .ok sort → sort.id = id
  named : ∀ name id, c.sortOf name = some id → ∃ sort, c.get id = .ok sort ∧ sort.name = some name
  kept : ∀ (text : String) (id : SortId), c.interned[text]? = some id ↔
    ∃ sort, c.get id = .ok sort ∧ sort.name = none ∧ sort.variant = .weighted ∧
    sort.canonical = text
  /-- The sorts of the session are the last ones that were made. -/
  undoable : c.fresh.reverse <:+ c.history.reverse

namespace Orderly

theorem empty (home : RegistryId) : (Catalog.empty home).Orderly where
  ordered := List.Pairwise.nil
  undoable := List.nil_prefix
  attributes found := by simp [get_eq_ok_iff, Catalog.empty, SlotMap.get?_empty] at found

theorem of_same (h : c.Orderly) (get : ∀ id, d.get id = c.get id) (history : d.history = c.history)
    (fresh : d.fresh = c.fresh) (interned : d.interned = c.interned) : d.Orderly where
  ordered := by
    rw [history]
    refine h.ordered.imp fun later sort sort' found found' ↦ ?_
    rw [get] at found found'
    exact later sort sort' found found'
  undoable := by
    rw [history, fresh]
    exact h.undoable
  attributes found nameless weighted := by
    rw [interned]
    exact h.attributes ((get _).symm.trans found) nameless weighted

/-- A new sort is the latest one. -/
theorem ordered_add (h : c.Orderly) (sound : c.Sound) (weighed : c.Weighed) :
    (c.add name canonical counts body).history.Pairwise
      (c.add name canonical counts body).MadeLater := by
  have old : ∀ id ∈ c.history, (c.add name canonical counts body).get id = c.get id := by
    intro id inside
    refine get_add_of_ne sound.toRooted ?_
    rintro rfl
    exact not_live_nextId sound.toRooted ((sound.listed _).mp inside)
  refine List.pairwise_cons.mpr ⟨fun other inside sort sort' found found' ↦ ?_, ?_⟩
  · rw [get_add_nextId sound.toRooted] at found
    rw [old other inside] at found'
    cases found
    exact weighed.stamped found'
  · refine h.ordered.imp_of_mem fun insideA insideB later sort sort' found found' ↦ ?_
    rw [old _ insideA] at found
    rw [old _ insideB] at found'
    exact later sort sort' found found'

theorem add (h : c.Orderly) (sound : c.Sound) (weighed : c.Weighed)
    (loose : name ≠ none ∨ body.variant ≠ .weighted) :
    (c.add name canonical counts body).Orderly where
  ordered := h.ordered_add sound weighed
  undoable := List.cons_prefix_cons.mpr ⟨rfl, h.undoable⟩
  attributes {id sort} found nameless weighted := by
    rcases get_add_cases sound.toRooted found with ⟨rfl, rfl⟩ | ⟨-, before⟩
    · exact loose.elim (absurd nameless) (absurd weighted)
    · exact h.attributes before nameless weighted

/-- A new attribute is kept under a text that was free, so those that were kept go on to be. -/
theorem attach {base weight : SortId} (h : c.Orderly) (sound : c.Sound) (weighed : c.Weighed)
    (free : c.interned[text]? = none) :
    { c.add none text counts (.weighted base weight) with
      interned := c.interned.insert text c.nextId }.Orderly where
  ordered := by
    have ordered : (c.add none text counts (.weighted base weight)).history.Pairwise
        (c.add none text counts (.weighted base weight)).MadeLater := h.ordered_add sound weighed
    exact ordered
  undoable := List.cons_prefix_cons.mpr ⟨rfl, h.undoable⟩
  attributes {id sort} found nameless weighted := by
    change (c.add none text counts (.weighted base weight)).get id = .ok sort at found
    rcases get_add_cases sound.toRooted found with ⟨rfl, rfl⟩ | ⟨-, before⟩
    · exact Std.ExtTreeMap.getElem?_insert_self
    · exact getElem?_insert_of_free free (h.attributes before nameless weighted)

theorem replace (h : c.Orderly) (found : c.get sort.id = .ok old)
    (created : sort.created = old.created) (loose : sort.variant ≠ .weighted) :
    (c.replace sort).Orderly where
  ordered := by
    have same : ∀ {id record}, (c.replace sort).get id = .ok record →
        ∃ before, c.get id = .ok before ∧ before.created = record.created := by
      intro id record there
      rcases get_replace_cases found there with ⟨rfl, rfl⟩ | ⟨-, before⟩
      · exact ⟨old, found, created.symm⟩
      · exact ⟨record, before, rfl⟩
    refine h.ordered.imp fun later record record' there there' ↦ ?_
    obtain ⟨before, was, stamp⟩ := same there
    obtain ⟨before', was', stamp'⟩ := same there'
    rw [← stamp, ← stamp']
    exact later before before' was was'
  undoable := h.undoable
  attributes {id record} there nameless weighted := by
    rcases get_replace_cases found there with ⟨rfl, rfl⟩ | ⟨-, before⟩
    · exact absurd weighted loose
    · exact h.attributes before nameless weighted

theorem openSession (h : c.Orderly) : c.openSession.Orderly where
  ordered := h.ordered
  undoable := List.nil_prefix
  attributes := h.attributes

/-- What is rolled back leaves gaps in the history and takes its kept texts along. -/
theorem rollBack (h : c.Orderly) (sound : c.Sound) : c.rollBack.Orderly where
  ordered := by
    refine (h.ordered.sublist List.filter_sublist).imp fun later sort sort' found found' ↦ ?_
    exact later sort sort' (sound.get_rollBack_eq_ok_iff.mp found).1
      (sound.get_rollBack_eq_ok_iff.mp found').1
  undoable := List.nil_prefix
  attributes found nameless weighted := by
    obtain ⟨found, out⟩ := sound.get_rollBack_eq_ok_iff.mp found
    exact (getElem?_interned_removeAll_iff sound.toRooted sound.ours_of_fresh _ _).mpr
      ⟨h.attributes found nameless weighted, out⟩

theorem clear (c : Catalog) : c.clear.Orderly := by
  have fresh := Orderly.empty c.home
  exact ⟨fresh.ordered, fresh.undoable, fresh.attributes⟩

/-- No sort was made after itself, so none is twice in the history. -/
theorem nodup_history (h : c.Orderly) (sound : c.Sound) : c.history.Nodup := by
  refine h.ordered.imp_of_mem fun {id other} inside _ later same ↦ ?_
  obtain ⟨sort, found⟩ := (sound.listed id).mp inside
  exact Nat.lt_irrefl _ (later sort sort found (same ▸ found))

end Orderly

/-- An edit leaves the books in order. -/
theorem Edit.orderly (h : Edit may c d) (sound : c.Sound) (weighed : c.Weighed)
    (orderly : c.Orderly) : d.Orderly := by
  cases h with
  | log journal => exact orderly.of_same (fun _ ↦ rfl) rfl rfl rfl
  | await pending => exact orderly.of_same (fun _ ↦ rfl) rfl rfl rfl
  | add name canonical counts body _ loose => exact orderly.add sound weighed loose
  | attach text counts base weight _ free => exact orderly.attach sound weighed free
  | extend _ _ _ found => exact orderly.replace found rfl (by rintro ⟨⟩)
  | bind _ _ _ found => exact orderly.replace found rfl (by rintro ⟨⟩)
  | own _ found => exact orderly.replace found rfl (by rintro ⟨⟩)
  | name => exact orderly.of_same (fun _ ↦ rfl) rfl rfl rfl

theorem Edits.orderly (h : Edits may c d) (sound : c.Sound) (weighed : c.Weighed)
    (orderly : c.Orderly) : d.Orderly := by
  induction h with
  | refl => exact orderly
  | tail before edit orderly =>
    exact edit.orderly (Edits.sound before sound) (Edits.weighed before sound weighed) orderly

/-! ### The account -/

/-- A handle in the history leads to the sort in its slot. -/
theorem get?_of_mem_history (sound : c.Sound) (inside : id ∈ c.history) :
    ∃ sort, c.store.get? id.key = some sort ∧ c.get id = .ok sort := by
  obtain ⟨sort, found⟩ := (sound.listed id).mp inside
  exact ⟨sort, (get_eq_ok_iff.mp found).2, found⟩

/-- A catalog has as many sorts as its history. -/
theorem size_eq_length_history (sound : c.Sound) (nodup : c.history.Nodup) :
    c.size = c.history.length := by
  have ours : ∀ id ∈ c.history, id.registry = c.home := fun id inside ↦
    (live_iff.mp ((sound.listed id).mp inside)).1
  have keys : (c.history.map SortId.key).Nodup := by
    refine nodup.map_on fun a insideA b insideB same ↦ ?_
    have registry := (ours a insideA).trans (ours b insideB).symm
    cases a
    cases b
    simp_all
  refine Nat.le_antisymm ?_ ?_
  · rw [← List.length_map SortId.key]
    refine SlotMap.live_le_length sound.slots fun key there ↦ ?_
    have live : c.Live ⟨c.home, key⟩ := live_iff.mpr ⟨rfl, there⟩
    exact List.mem_map.mpr ⟨_, (sound.listed _).mpr live, rfl⟩
  · rw [← List.length_map SortId.key]
    refine SlotMap.length_le_live sound.slots keys fun key inside ↦ ?_
    obtain ⟨id, among, rfl⟩ := List.mem_map.mp inside
    exact (live_iff.mp ((sound.listed id).mp among)).2

/-- Sound catalogs whose history is in order are accounted for. -/
theorem Orderly.accounted (h : c.Orderly) (sound : c.Sound) : c.Accounted where
  listed := sound.listed
  once := h.nodup_history sound
  sorts := by
    have each : ∀ id ∈ c.history.reverse,
        (c.store.get? id.key).map SortRecord.id = some id := by
      intro id inside
      obtain ⟨sort, stored, found⟩ := get?_of_mem_history sound (List.mem_reverse.mp inside)
      rw [stored, Option.map_some, sound.placed found]
    rw [Catalog.sorts, List.map_filterMap, List.filterMap_congr each, List.filterMap_some]
  ordered := by
    refine List.pairwise_filterMap.mpr ((List.pairwise_reverse.mpr h.ordered).imp_of_mem ?_)
    intro older newer insideOlder insideNewer later sort there sort' there'
    obtain ⟨_, stored, found⟩ := get?_of_mem_history sound (List.mem_reverse.mp insideOlder)
    obtain ⟨_, stored', found'⟩ := get?_of_mem_history sound (List.mem_reverse.mp insideNewer)
    rw [there] at stored
    rw [there'] at stored'
    cases stored
    cases stored'
    exact later sort' sort found' found
  counted := size_eq_length_history sound (h.nodup_history sound)
  placed id sort found := sound.placed found
  named name id entry := sound.named entry
  kept text id := by
    refine ⟨fun entry ↦ sound.kept entry, ?_⟩
    rintro ⟨sort, found, nameless, weighted, rfl⟩
    exact h.attributes found nameless weighted
  undoable := List.reverse_suffix.mpr h.undoable

end CompositeSorts.Catalog
