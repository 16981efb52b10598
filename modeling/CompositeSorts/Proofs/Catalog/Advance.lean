import CompositeSorts.Proofs.Catalog.Growth
import CompositeSorts.Proofs.Catalog.Operations
import Mathlib.Data.List.Forall2

/-!
What operations do within a definition text. A steady catalog is one in which a disjunction has two
components at least and a definition under way is awaited under its name. Whatever a text obtains
is either new, or a name leads to it, or it has no name and will not be changed; that is why the
operations applied to what was obtained make a catalog grow, even where they change sorts in place.
-/

set_option autoImplicit false
set_option relaxedAutoImplicit false

namespace CompositeSorts.Catalog

variable {a c d : Catalog} {id other : SortId} {sort old : SortRecord} {name : Option String}
  {canonical text : String} {counts : ComponentCounts} {body : Body}

/-- A sound catalog without trivial disjunctions, in which the recursive sorts that stand for
names under definition carry these names. -/
structure Steady (c : Catalog) : Prop extends Sound c where
  several : ∀ {id sort components}, c.get id = .ok sort → sort.body = .disjunctive components →
    2 ≤ components.length
  awaited : ∀ pending ∈ c.pending, ∀ id, pending.placeholder = some id →
    ∃ sort, c.get id = .ok sort ∧ sort.name = some pending.name

namespace Steady

theorem note (h : c.Steady) (event : Event) : (c.note event).Steady where
  slots := h.slots
  placed := h.placed
  named := h.named
  kept := h.kept
  listed := h.listed
  recent := h.recent
  several := h.several
  awaited := h.awaited

theorem empty (home : RegistryId) : (Catalog.empty home).Steady where
  toSound := sound_empty home
  several {id sort components} found := by
    have live : (Catalog.empty home).Live id := ⟨sort, found⟩
    simp [live_iff, Catalog.empty, SlotMap.get?_empty] at live
  awaited pending inside := by simp [Catalog.empty] at inside

theorem add (h : c.Steady) (several : ∀ components, body = .disjunctive components →
    2 ≤ components.length) : (c.add name canonical counts body).Steady where
  toSound := h.toSound.add
  several {id sort components} found made := by
    rcases get_add_cases h.toRooted found with ⟨rfl, rfl⟩ | ⟨-, before⟩
    · exact several components made
    · exact h.several before made
  awaited pending inside id stands := by
    obtain ⟨sort, found, carries⟩ := h.awaited pending inside id stands
    exact ⟨sort, get_add_of_live h.toRooted found, carries⟩

theorem replace (h : c.Steady) (found : c.get sort.id = .ok old) (sameName : sort.name = old.name)
    (loose : old.variant ≠ .weighted)
    (several : ∀ components, sort.body = .disjunctive components → 2 ≤ components.length) :
    (c.replace sort).Steady where
  toSound := h.toSound.replace found sameName loose
  several {id record components} there made := by
    rcases get_replace_cases found there with ⟨rfl, rfl⟩ | ⟨-, before⟩
    · exact several components made
    · exact h.several before made
  awaited pending inside id stands := by
    obtain ⟨record, there, carries⟩ := h.awaited pending inside id stands
    rcases replaced_cases found there with ⟨rfl, rfl, here⟩ | ⟨-, here⟩
    · exact ⟨sort, here, sameName.trans carries⟩
    · exact ⟨record, here, carries⟩

theorem insertName (h : c.Steady) (found : c.get id = .ok sort) (carries : sort.name = some text) :
    { c with names := c.names.insert text id }.Steady where
  toSound := h.toSound.insertName found carries
  several := h.several
  awaited := h.awaited

theorem insertKept (h : c.Steady) (found : c.get id = .ok sort) (nameless : sort.name = none)
    (weighted : sort.variant = .weighted) (carries : sort.canonical = text) :
    { c with interned := c.interned.insert text id }.Steady where
  toSound := h.toSound.insertKept found nameless weighted carries
  several := h.several
  awaited := h.awaited

theorem withPending (h : c.Steady) {pending : List Pending}
    (awaited : ∀ p ∈ pending, ∀ id, p.placeholder = some id →
      ∃ sort, c.get id = .ok sort ∧ sort.name = some p.name) :
    { c with pending := pending }.Steady where
  slots := h.slots
  placed := h.placed
  named := h.named
  kept := h.kept
  listed := h.listed
  recent := h.recent
  several := h.several
  awaited := awaited

theorem openSession (h : c.Steady) : c.openSession.Steady where
  slots := h.slots
  placed := h.placed
  named := h.named
  kept := h.kept
  listed := h.listed
  recent _ inside := absurd inside List.not_mem_nil
  several := h.several
  awaited _ inside := absurd inside List.not_mem_nil

theorem rollBack (h : c.Steady) : c.rollBack.Steady where
  toSound := h.toSound.rollBack
  several {id sort components} found made := by
    have out : id ∉ c.fresh := (h.toSound.live_rollBack.mp ⟨sort, found⟩).2
    rw [get_rollBack, get_removeAll_of_notMem h.toSound.ours_of_fresh out] at found
    exact h.several found made
  awaited _ inside := absurd inside List.not_mem_nil

theorem clear (c : Catalog) : c.clear.Steady := by
  have fresh := empty c.home
  exact ⟨⟨⟨fresh.slots, fresh.placed, fresh.named, fresh.kept⟩, fresh.listed, fresh.recent⟩,
    fresh.several, fresh.awaited⟩

end Steady

/-- A sum that is a single component is the sort on the left. -/
theorem Steady.eq_of_merged {left right : SortRecord} {only : SortId} (h : c.Steady)
    (found : c.get id = .ok left)
    (joined : Op.merged c left.summands right.summands = .ok [only]) : only = id := by
  obtain ⟨appended, eq, -⟩ := Op.merged_eq_append joined
  unfold SortRecord.summands at eq
  split at eq
  · rename_i components made _
    have two := h.several found made
    have one := congrArg List.length eq
    rw [List.length_append, List.length_singleton] at one
    omega
  · rw [List.singleton_append, List.cons.injEq] at eq
    exact eq.1.trans (h.placed found)

/-- What a sum is made of are two components at least. -/
theorem Steady.two_le_length_of_summed {left right : SortRecord} {l r : SortId}
    {components : List SortId} {parts : List SortRecord} (h : c.Steady)
    (summed : Op.Summed c l r left right components parts) : 2 ≤ components.length := by
  obtain ⟨appended, eq, -⟩ := Op.merged_eq_append summed.joined
  unfold SortRecord.summands at eq
  split at eq
  · rename_i former made _
    have two := h.several summed.foundLeft made
    rw [eq, List.length_append]
    omega
  · cases appended with
    | nil => exact absurd eq (summed.several _)
    | cons other others =>
      rw [eq]
      simp

/-- A steady catalog that has grown from an earlier one. -/
structure Advance (a c : Catalog) : Prop extends Growth a c, Steady c

namespace Advance

theorem refl (h : c.Steady) : Advance c c := ⟨Growth.refl c, h⟩

theorem trans (h : Advance a c) (h' : Advance c d) : Advance a d :=
  ⟨h.toGrowth.trans h'.toGrowth, h'.toSteady⟩

theorem note (h : Advance a c) (event : Event) : Advance a (c.note event) :=
  ⟨h.toGrowth.congr rfl rfl rfl rfl rfl rfl rfl, h.toSteady.note event⟩

theorem add (h : Advance a c) (several : ∀ components, body = .disjunctive components →
    2 ≤ components.length) : Advance a (c.add name canonical counts body) :=
  ⟨h.toGrowth.add h.toRooted, h.toSteady.add several⟩

theorem replace (h : Advance a c) (new : ¬ a.Live sort.id) (found : c.get sort.id = .ok old)
    (sameName : sort.name = old.name) (loose : old.variant ≠ .weighted)
    (several : ∀ components, sort.body = .disjunctive components → 2 ≤ components.length) :
    Advance a (c.replace sort) :=
  ⟨h.toGrowth.replace found new, h.toSteady.replace found sameName loose several⟩

theorem withPending (h : Advance a c) {pending : List Pending}
    (awaited : ∀ p ∈ pending, ∀ id, p.placeholder = some id →
      ∃ sort, c.get id = .ok sort ∧ sort.name = some p.name) :
    Advance a { c with pending := pending } :=
  ⟨h.toGrowth.congr rfl rfl rfl rfl rfl rfl rfl, h.toSteady.withPending awaited⟩

end Advance

/-- What has become of a catalog in which a sort was registered. -/
structure Registered (c : Catalog) (id : SortId) (d : Catalog) : Prop where
  get : ∀ other, d.get other = c.get other
  pending : d.pending = c.pending
  known : ∃ sort name, c.get id = .ok sort ∧ sort.name = some name ∧ d.names[name]? = some id

/-- Registering adds a name for a new sort, unless the name leads to the sort already. -/
theorem Advance.register (h : Advance a c) (new : ∀ sort name, c.get id = .ok sort →
    sort.name = some name → c.names[name]? = none → ¬ a.Live id) :
    Ends (Op.register id) c (fun _ d ↦ Advance a d ∧ Registered c id d) (Advance a) := by
  refine Op.ends_register h ?_ ?_
  · intro sort name found named entry
    exact ⟨h, fun _ ↦ rfl, rfl, sort, name, found, named, entry⟩
  · intro sort name found named entry
    refine ⟨?_, fun _ ↦ rfl, rfl, sort, name, found, named, ?_⟩
    · exact Advance.note ⟨h.toGrowth.insertName (new sort name found named entry) entry,
        h.toSteady.insertName found named⟩ _
    · exact Std.ExtTreeMap.getElem?_insert_self

/-! ### What a text obtains -/

/-- A definition under way goes on under its name. If its name is mentioned for the first time, a
new sort stands for it from then on. -/
def GoesOn (a : Catalog) (before now : Pending) : Prop :=
  now.name = before.name ∧ (now.placeholder = before.placeholder ∨
    before.placeholder = none ∧ ∀ id, now.placeholder = some id → ¬ a.Live id)

/-- The definitions under way all go on. -/
def Awaits (a c : Catalog) : Prop := List.Forall₂ (GoesOn a) a.pending c.pending

/-- The handle leads to a sort that is new, or is known by its name, or stands for a name under
definition, or has no name and will stay as it is. -/
def Obtained (a c : Catalog) (id : SortId) : Prop :=
  ∃ sort, c.get id = .ok sort ∧
    (sort.name = none → sort.variant = .disjunctive → ¬ a.Live id) ∧
    ∀ name, sort.name = some name → c.names[name]? = some id ∨ ¬ a.Live id ∨
      ∃ pending ∈ c.pending, pending.placeholder = some id

theorem GoesOn.trans {before between now : Pending} (grown : Growth a c)
    (h : GoesOn a before between) (h' : GoesOn c between now) : GoesOn a before now := by
  refine ⟨h'.1.trans h.1, ?_⟩
  rcases h'.2 with same' | ⟨open', new'⟩
  · rcases h.2 with same | ⟨open_, new⟩
    · exact Or.inl (same'.trans same)
    · exact Or.inr ⟨open_, fun id stands ↦ new id (same' ▸ stands)⟩
  · refine Or.inr ⟨?_, fun id stands live ↦ new' id stands (grown.live live)⟩
    rcases h.2 with same | ⟨open_, -⟩
    · exact same ▸ open'
    · exact open_

theorem Awaits.refl (c : Catalog) : Awaits c c :=
  List.forall₂_same.mpr fun _ _ ↦ ⟨rfl, Or.inl rfl⟩

theorem Awaits.trans (grown : Growth a c) (h : Awaits a c) (h' : Awaits c d) : Awaits a d := by
  unfold Awaits at h h' ⊢
  generalize a.pending = before at h
  generalize c.pending = between at h h'
  generalize d.pending = now at h'
  induction h generalizing now with
  | nil =>
    cases h'
    exact List.Forall₂.nil
  | cons first rest ih =>
    cases h' with
    | cons first' rest' => exact List.Forall₂.cons (first.trans grown first') (ih _ rest')

/-- A sort that stands for a name goes on to do so. -/
theorem Awaits.mem (h : Awaits a c) {pending : Pending} (inside : pending ∈ a.pending)
    (stands : pending.placeholder = some id) : ∃ now ∈ c.pending, now.placeholder = some id := by
  unfold Awaits at h
  generalize a.pending = before at h inside
  generalize c.pending = now at h
  induction h with
  | nil => simp at inside
  | cons first rest ih =>
    rcases List.mem_cons.mp inside with rfl | inside
    · rcases first.2 with same | ⟨open_, -⟩
      · exact ⟨_, List.mem_cons_self, same.trans stands⟩
      · rw [stands] at open_
        cases open_
    · obtain ⟨later, among, still⟩ := ih inside
      exact ⟨later, List.mem_cons_of_mem _ among, still⟩

theorem Awaits.names_eq (h : Awaits a c) :
    c.pending.map Pending.name = a.pending.map Pending.name := by
  unfold Awaits at h
  generalize a.pending = before at h
  generalize c.pending = now at h
  induction h with
  | nil => rfl
  | cons first _ ih => rw [List.map_cons, List.map_cons, ih, first.1]

theorem Obtained.grow (h : Obtained a c id) (grown : Growth c d) (awaits : Awaits c d) :
    Obtained a d id := by
  obtain ⟨sort, found, nameless, named⟩ := h
  refine ⟨sort, grown.stays found, nameless, fun name carries ↦ ?_⟩
  rcases named name carries with known | new | ⟨pending, inside, stands⟩
  · exact Or.inl (grown.keepsName known)
  · exact Or.inr (Or.inl new)
  · exact Or.inr (Or.inr (awaits.mem inside stands))

/-- What is obtained on from a later catalog is obtained on from an earlier one. -/
theorem Obtained.since (h : Obtained c d id) (grown : Growth a c) : Obtained a d id := by
  obtain ⟨sort, found, nameless, named⟩ := h
  refine ⟨sort, found, fun none_ loose live ↦ nameless none_ loose (grown.live live),
    fun name carries ↦ ?_⟩
  rcases named name carries with known | new | stands
  · exact Or.inl known
  · exact Or.inr (Or.inl fun live ↦ new (grown.live live))
  · exact Or.inr (Or.inr stands)

theorem Obtained.of_new (found : c.get id = .ok sort) (new : ¬ a.Live id) : Obtained a c id :=
  ⟨sort, found, fun _ _ ↦ new, fun _ _ ↦ Or.inr (Or.inl new)⟩

/-- An answer obtained from a catalog that has grown from `a`. -/
structure Yields (a : Catalog) (id : SortId) (c : Catalog) : Prop extends Advance a c where
  awaits : Awaits a c
  obtained : Obtained a c id

end CompositeSorts.Catalog
