import CompositeSorts.Proofs.Catalog.Formed

/-!
What a text can get hold of. A text starts from the sorts that are registered or kept and from what
these hold; everything else that it works with it makes itself. So the new sorts hold nothing but
new sorts and what was there to be had (`Sealed`), and each of them is finished, that is bound and
registered, unless it stands for a name under definition or is being worked on. Operations keep to
this whatever the catalog was like before, even if definitions were abandoned in it.
-/

set_option autoImplicit false
set_option relaxedAutoImplicit false

namespace CompositeSorts.Catalog

variable {a c d : Catalog} {id other part : SortId} {sort old new : SortRecord}
  {name : Option String} {canonical text : String} {counts : ComponentCounts} {body : Body}
  {waiting waiting' : List SortId}

/-- The sort has the handle in its body: as a component, base, weight, linked sort, instance, aspect
or owner. -/
def Holds (c : Catalog) (id part : SortId) : Prop :=
  ∃ sort, c.get id = .ok sort ∧ part ∈ sort.body.handles

/-- The sort holds the other one, over any number of sorts between. -/
abbrev Comprises (c : Catalog) : SortId → SortId → Prop := Relation.ReflTransGen c.Holds

/-- A text can name the sort, or meet it as the attribute that it writes. -/
def Offered (c : Catalog) (id : SortId) : Prop :=
  (∃ name : String, c.names[name]? = some id) ∨ ∃ text : String, c.interned[text]? = some id

/-- The sort can be had in the catalog. -/
def Available (c : Catalog) (id : SortId) : Prop := ∃ root, c.Offered root ∧ c.Comprises root id

/-- The sort could be had in `a`, or it is one that was made since. -/
def Accessible (a c : Catalog) (id : SortId) : Prop := a.Available id ∨ c.Live id ∧ ¬ a.Live id

/-- The sort is no open recursive sort, and if it has a name it is the one registered under it. -/
def Finished (c : Catalog) (id : SortId) : Prop :=
  ∃ sort, c.get id = .ok sort ∧ sort.body ≠ .recursive none ∧
    ∀ name, sort.name = some name → c.names[name]? = some id

/-- The sorts that were made since `a` hold nothing but each other and what could be had in `a`.
They are finished, apart from those that wait for it and those that stand for a name under
definition. -/
structure Sealed (a : Catalog) (waiting : List SortId) (c : Catalog) : Prop where
  linked : ∀ {id sort}, c.get id = .ok sort → ¬ a.Live id → ∀ part ∈ sort.body.handles,
    Accessible a c part
  finished : ∀ {id}, c.Live id → ¬ a.Live id → c.Finished id ∨ id ∈ waiting ∨ c.StandsIn id
  names : ∀ {name : String} {id : SortId}, c.names[name]? = some id → Accessible a c id
  kept : ∀ {text : String} {id : SortId}, c.interned[text]? = some id → Accessible a c id
  standing : ∀ {id}, c.StandsIn id → ¬ a.Live id

theorem Available.comprises (h : c.Available id) (path : c.Comprises id part) :
    c.Available part := by
  obtain ⟨root, offered, before⟩ := h
  exact ⟨root, offered, before.trans path⟩

theorem Accessible.grow (h : Accessible a c id) (grown : Growth c d) : Accessible a d id :=
  h.imp_right (And.imp_left grown.live)

theorem Accessible.congr (h : Accessible a c id) (live : ∀ id, c.Live id → d.Live id) :
    Accessible a d id := h.imp_right (And.imp_left (live id))

/-- What is finished stays so as long as it is as it was and its name leads to it. -/
theorem Finished.of_get_eq (h : c.Finished id) (get : d.get id = c.get id)
    (names : ∀ {name : String}, c.names[name]? = some id → d.names[name]? = some id) :
    d.Finished id := by
  obtain ⟨sort, found, bound, registered⟩ := h
  exact ⟨sort, get.trans found, bound, fun name named ↦ names (registered name named)⟩

theorem Finished.grow (h : c.Finished id) (grown : Growth c d) : d.Finished id := by
  obtain ⟨sort, found, bound, registered⟩ := h
  exact ⟨sort, grown.stays found, bound, fun name named ↦ grown.keepsName (registered name named)⟩

namespace Sealed

/-- A text begins. -/
theorem start (c : Catalog) (idle : c.pending = []) : Sealed c [] c where
  linked found new := absurd ⟨_, found⟩ new
  finished live new := absurd live new
  names entry := .inl ⟨_, .inl ⟨_, entry⟩, .refl⟩
  kept entry := .inl ⟨_, .inr ⟨_, entry⟩, .refl⟩
  standing := by
    rintro id ⟨pending, inside, -⟩
    rw [idle] at inside
    cases inside

/-- What an accessible sort holds is accessible. -/
theorem accessible (h : Sealed a waiting c) (grown : Growth a c) (access : Accessible a c id)
    (found : c.get id = .ok sort) : ∀ part ∈ sort.body.handles, Accessible a c part := by
  intro part inside
  by_cases live : a.Live id
  · obtain ⟨record, there⟩ := live
    rw [grown.stays there] at found
    cases found
    rcases access with available | ⟨-, new⟩
    · exact .inl (available.comprises (.single ⟨sort, there, inside⟩))
    · exact absurd ⟨sort, there⟩ new
  · exact h.linked found live part inside

/-- Names, kept texts and definitions under way change, the sorts do not. -/
theorem congr (h : Sealed a waiting c) (get : ∀ id, d.get id = c.get id)
    (finished : ∀ {id}, ¬ a.Live id → c.Finished id ∨ id ∈ waiting ∨ c.StandsIn id →
      d.Finished id ∨ id ∈ waiting' ∨ d.StandsIn id)
    (names : ∀ {name : String} {id : SortId}, d.names[name]? = some id →
      c.names[name]? = some id ∨ Accessible a c id)
    (kept : ∀ {text : String} {id : SortId}, d.interned[text]? = some id →
      c.interned[text]? = some id ∨ Accessible a c id)
    (standing : ∀ {id}, d.StandsIn id → ¬ a.Live id) : Sealed a waiting' d := by
  have live : ∀ id, c.Live id → d.Live id := fun id ⟨sort, found⟩ ↦ ⟨sort, (get id).trans found⟩
  refine ⟨fun found new part inside ↦ ?_, fun there new ↦ ?_, fun entry ↦ ?_,
    fun entry ↦ ?_, standing⟩
  · exact (h.linked ((get _).symm.trans found) new part inside).congr live
  · obtain ⟨sort, found⟩ := there
    exact finished new (h.finished ⟨sort, (get _).symm.trans found⟩ new)
  · exact ((names entry).elim h.names id).congr live
  · exact ((kept entry).elim h.kept id).congr live

theorem note (h : Sealed a waiting c) (event : Event) : Sealed a waiting (c.note event) :=
  h.congr (fun _ ↦ rfl) (fun _ state ↦ state) .inl .inl h.standing

/-- Handles can be added to those that wait. -/
theorem wait (h : Sealed a waiting c) (wait : ∀ id ∈ waiting, id ∈ waiting') :
    Sealed a waiting' c :=
  h.congr (fun _ ↦ rfl) (fun _ ↦ Or.imp_right (Or.imp_left (wait _))) .inl .inl h.standing

/-- A sort that is finished need not wait any more. -/
theorem done (h : Sealed a (id :: waiting) c) (finished : c.Finished id) : Sealed a waiting c := by
  refine h.congr (fun _ ↦ rfl) (fun _ state ↦ ?_) .inl .inl h.standing
  rcases state with ready | waits | stands
  · exact .inl ready
  · rcases List.mem_cons.mp waits with rfl | waits
    · exact .inl finished
    · exact .inr (.inl waits)
  · exact .inr (.inr stands)

/-- Only those that wait or stand for a name under definition may still be open. -/
theorem insertName (h : Sealed a waiting c) (access : Accessible a c id)
    (free : c.names[text]? = none) :
    Sealed a waiting { c with names := c.names.insert text id } := by
  refine h.congr (fun _ ↦ rfl) (fun _ ↦ Or.imp_left fun ready ↦ ?_) (fun entry ↦ ?_) .inl h.standing
  · exact ready.of_get_eq rfl (getElem?_insert_of_free free)
  · rw [Std.ExtTreeMap.getElem?_insert] at entry
    split at entry
    · cases entry
      exact .inr access
    · exact .inl entry

theorem insertKept (h : Sealed a waiting c) (access : Accessible a c id) (text : String) :
    Sealed a waiting { c with interned := c.interned.insert text id } := by
  refine h.congr (fun _ ↦ rfl) (fun _ ↦ Or.imp_left fun ready ↦ ?_) .inl (fun entry ↦ ?_) h.standing
  · exact ready.of_get_eq rfl fun entry ↦ entry
  · rw [Std.ExtTreeMap.getElem?_insert] at entry
    split at entry
    · cases entry
      exact .inr access
    · exact .inl entry

/-- A new sort waits for what is done with it. -/
theorem add (h : Sealed a waiting c) (rooted : c.Rooted)
    (access : ∀ part ∈ body.handles, Accessible a c part) :
    Sealed a (c.nextId :: waiting) (c.add name canonical counts body) := by
  have live : ∀ id, c.Live id → (c.add name canonical counts body).Live id :=
    fun _ there ↦ (live_add rooted).mpr (.inr there)
  refine ⟨fun {id sort} found new part inside ↦ ?_, fun {id} there new ↦ ?_,
    fun entry ↦ (h.names entry).congr live, fun entry ↦ (h.kept entry).congr live, h.standing⟩
  · rcases get_add_cases rooted found with ⟨rfl, rfl⟩ | ⟨-, before⟩
    · exact (access part inside).congr live
    · exact (h.linked before new part inside).congr live
  · by_cases same : id = c.nextId
    · exact .inr (.inl (same ▸ List.mem_cons_self))
    · rcases h.finished (((live_add rooted).mp there).resolve_left same)
        new with ready | waits | stands
      · exact .inl (ready.of_get_eq (get_add_of_ne rooted same) fun entry ↦ entry)
      · exact .inr (.inl (List.mem_cons_of_mem _ waits))
      · exact .inr (.inr stands)

/-- What is put in the place of a sort is finished, or the sort was waiting. -/
theorem replace (h : Sealed a waiting c) (found : c.get new.id = .ok old)
    (access : ∀ part ∈ new.body.handles, Accessible a c part)
    (settled : (c.replace new).Finished new.id ∨ new.id ∈ waiting) :
    Sealed a waiting (c.replace new) := by
  have live : ∀ id, c.Live id → (c.replace new).Live id := fun _ ↦ (live_replace found).mpr
  refine ⟨fun {id sort} there isNew part inside ↦ ?_, fun {id} there isNew ↦ ?_,
    fun entry ↦ (h.names entry).congr live, fun entry ↦ (h.kept entry).congr live, h.standing⟩
  · rcases get_replace_cases found there with ⟨rfl, rfl⟩ | ⟨-, before⟩
    · exact (access part inside).congr live
    · exact (h.linked before isNew part inside).congr live
  · by_cases same : id = new.id
    · rw [same]
      exact settled.imp_right .inl
    · refine (h.finished ((live_replace found).mp there) isNew).imp_left fun ready ↦ ?_
      exact ready.of_get_eq (get_replace_of_ne found same) fun entry ↦ entry

end Sealed

end CompositeSorts.Catalog
