import CompositeSorts.Proofs.Catalog.Settled
import Mathlib.Algebra.Order.BigOperators.Group.List
import Mathlib.Algebra.Order.Group.Nat

/-!
Formed catalogs. In a formed catalog every sort fits, no sort is made of itself, every bound
recursive sort settles, an unbound one stands for a name under definition, and names and kept texts
lead to the sorts that carry them (`Catalog.Formed`). An operation breaks this for the sorts it
works on: these are waiting, and leave the list when they are bound, registered or kept.

The elementary changes keep a catalog formed: a new sort that fits (`Formed.add`), and a sort in
the place of another when the other is not used or looks the same (`Formed.replace`).
-/

set_option autoImplicit false
set_option relaxedAutoImplicit false

namespace CompositeSorts.Catalog

open Text

variable {c d : Catalog} {id other : SortId} {sort old new : SortRecord} {name : Option String}
  {canonical text : String} {counts : ComponentCounts} {body : Body} {waiting : List SortId}

/-- Sorts are ranked above the sorts they are made of. -/
def Ranked (c : Catalog) : Prop :=
  ∃ rank : SortId → Nat, ∀ {id : SortId} {sort : SortRecord}, c.get id = .ok sort →
    ∀ part ∈ sort.body.parts, rank part < rank id

/-- The sort stands for a name under definition. -/
def StandsIn (c : Catalog) (id : SortId) : Prop :=
  ∃ pending ∈ c.pending, pending.placeholder = some id

/-- A steady catalog whose sorts fit, up to those that wait to be bound, registered or kept. -/
structure Formed (waiting : List SortId) (c : Catalog) : Prop extends Steady c where
  stamped : ∀ {id sort}, c.get id = .ok sort → sort.created < c.clock
  fits : ∀ {id sort}, c.get id = .ok sort → c.Fits sort
  ranked : c.Ranked
  settled : ∀ {id sort target}, c.get id = .ok sort → sort.body = .recursive (some target) →
    ∃ steps, c.Settles id sort.canonical sort.counts steps
  standing : ∀ {id sort}, c.get id = .ok sort → sort.body = .recursive none →
    id ∈ waiting ∨ c.StandsIn id
  known : ∀ {id sort name}, c.get id = .ok sort → sort.name = some name →
    c.names[name]? = some id ∨ id ∈ waiting ∨ c.StandsIn id
  unique : ∀ {id sort}, c.get id = .ok sort → sort.name = none → sort.variant = .weighted →
    c.interned[sort.canonical]? = some id ∨ id ∈ waiting
  apart : (c.pending.map Pending.name).Nodup
  announced : ∀ pending ∈ c.pending, Unmarked pending.name

/-! ### Ranks -/

/-- A sort that no sort is made of can change freely. -/
theorem Ranked.of_change (h : c.Ranked) (changed : SortId)
    (same : ∀ id sort, d.get id = .ok sort → id ≠ changed → c.get id = .ok sort)
    (free : ∀ id sort, d.get id = .ok sort → changed ∉ sort.body.parts) : d.Ranked := by
  obtain ⟨rank, above⟩ := h
  let top : Nat :=
    (d.get changed).toOption.elim 0 fun sort ↦ (sort.body.parts.map rank).sum + 1
  refine ⟨fun id ↦ if id = changed then top else rank id, fun {id sort} found part inside ↦ ?_⟩
  have differs : part ≠ changed := by
    rintro rfl
    exact free id sort found inside
  dsimp only
  by_cases here : id = changed
  · rw [if_neg differs, if_pos here]
    have eq : top = (sort.body.parts.map rank).sum + 1 := by
      simp only [top]
      rw [← here, found]
      rfl
    rw [eq]
    exact Nat.lt_succ_of_le (List.le_sum_of_mem (List.mem_map_of_mem inside))
  · rw [if_neg differs, if_neg here]
    exact above (same id sort found here) part inside

theorem Ranked.of_parts_eq (h : c.Ranked) (same : ∀ id sort, d.get id = .ok sort →
    ∃ before, c.get id = .ok before ∧ before.body.parts = sort.body.parts) : d.Ranked := by
  obtain ⟨rank, above⟩ := h
  refine ⟨rank, fun {id sort} found part inside ↦ ?_⟩
  obtain ⟨before, there, eq⟩ := same id sort found
  exact above there part (eq ▸ inside)

/-- The sort `part` is one of those that the sort `whole` is made of. -/
def MadeOf (c : Catalog) (part whole : SortId) : Prop :=
  ∃ sort, c.get whole = .ok sort ∧ part ∈ sort.body.parts

/-- No sort is made of itself, over any number of sorts between. -/
theorem Ranked.acyclic (h : c.Ranked) (id : SortId) : ¬ Relation.TransGen c.MadeOf id id := by
  obtain ⟨rank, above⟩ := h
  have descends : ∀ part whole, Relation.TransGen c.MadeOf part whole → rank part < rank whole := by
    intro part whole path
    induction path with
    | single link =>
      obtain ⟨sort, found, inside⟩ := link
      exact above found _ inside
    | tail _ link lower =>
      obtain ⟨sort, found, inside⟩ := link
      exact lower.trans (above found _ inside)
  exact fun path ↦ lt_irrefl _ (descends id id path)

/-! ### Elementary changes -/

namespace Formed

theorem empty (home : RegistryId) : Formed [] (Catalog.empty home) := by
  have hollow : ∀ {id sort}, (Catalog.empty home).get id ≠ .ok sort := by
    intro id sort found
    have live : (Catalog.empty home).Live id := ⟨sort, found⟩
    simp [live_iff, Catalog.empty, SlotMap.get?_empty] at live
  exact {
    toSteady := Steady.empty home
    stamped := fun found ↦ absurd found hollow
    fits := fun found ↦ absurd found hollow
    ranked := ⟨fun _ ↦ 0, fun found ↦ absurd found hollow⟩
    settled := fun found ↦ absurd found hollow
    standing := fun found ↦ absurd found hollow
    known := fun found ↦ absurd found hollow
    unique := fun found ↦ absurd found hollow
    apart := List.nodup_nil
    announced := fun _ inside ↦ absurd inside List.not_mem_nil }

/-- The handles in a live sort lead to live sorts. -/
theorem live_of_used (h : Formed waiting c) (used : c.Used id) : c.Live id := by
  obtain ⟨user, sort, found, inside⟩ := used
  exact (h.fits found).linked id inside

/-- The sorts of a formed catalog are as good in a catalog that has the same sorts, if they go on
to be known, kept and awaited there. -/
theorem congr {waiting' : List SortId} (h : Formed waiting c) (steady : d.Steady)
    (get : ∀ id, d.get id = c.get id) (clock : c.clock ≤ d.clock)
    (wait : ∀ id ∈ waiting, id ∈ waiting')
    (stands : ∀ id, c.StandsIn id → id ∈ waiting' ∨ d.StandsIn id)
    (names : ∀ {name : String} {id : SortId}, c.names[name]? = some id →
      d.names[name]? = some id)
    (kept : ∀ {text : String} {id : SortId}, c.interned[text]? = some id →
      d.interned[text]? = some id)
    (apart : (d.pending.map Pending.name).Nodup)
    (announced : ∀ pending ∈ d.pending, Unmarked pending.name) : Formed waiting' d := by
  have firm : ∀ {id}, c.Live id → Firm c d id := by
    rintro id ⟨sort, found⟩
    exact .of_get_eq found ((get id).trans found)
  have waits : ∀ id, id ∈ waiting ∨ c.StandsIn id → id ∈ waiting' ∨ d.StandsIn id := by
    rintro id (waits | standing)
    · exact Or.inl (wait id waits)
    · exact stands id standing
  refine ⟨steady, ?_, ?_, ?_, ?_, ?_, ?_, ?_, apart, announced⟩
  · intro id sort found
    exact (h.stamped ((get id).symm.trans found)).trans_le clock
  · intro id sort found
    have fits := h.fits ((get id).symm.trans found)
    exact fits.frame fun other inside ↦ firm (fits.linked other inside)
  · exact h.ranked.of_parts_eq fun id sort found ↦ ⟨sort, (get id).symm.trans found, rfl⟩
  · intro id sort target found bound
    obtain ⟨steps, settles⟩ := h.settled ((get id).symm.trans found) bound
    exact ⟨steps, settles.frame (firm settles.live) fun _ used ↦ firm (h.live_of_used used)⟩
  · intro id sort found unbound
    exact waits id (h.standing ((get id).symm.trans found) unbound)
  · intro id sort name found named
    rcases h.known ((get id).symm.trans found) named with entry | pending
    · exact Or.inl (names entry)
    · exact Or.inr (waits id pending)
  · intro id sort found nameless weighted
    rcases h.unique ((get id).symm.trans found) nameless weighted with entry | pending
    · exact Or.inl (kept entry)
    · exact Or.inr (wait id pending)

theorem note (h : Formed waiting c) (event : Event) : Formed waiting (c.note event) :=
  h.congr (h.toSteady.note event) (fun _ ↦ rfl) (Nat.le_refl _) (fun _ inside ↦ inside)
    (fun _ ↦ Or.inr) (fun entry ↦ entry) (fun entry ↦ entry) h.apart h.announced

/-- Definitions begin and end, and those under way are awaited. -/
theorem withPending {waiting' : List SortId} (h : Formed waiting c) {pending : List Pending}
    (awaited : ∀ p ∈ pending, ∀ id, p.placeholder = some id →
      ∃ sort, c.get id = .ok sort ∧ sort.name = some p.name)
    (wait : ∀ id ∈ waiting, id ∈ waiting')
    (stands : ∀ id, c.StandsIn id → id ∈ waiting' ∨ ∃ p ∈ pending, p.placeholder = some id)
    (apart : (pending.map Pending.name).Nodup) (announced : ∀ p ∈ pending, Unmarked p.name) :
    Formed waiting' { c with pending := pending } :=
  h.congr (h.toSteady.withPending awaited) (fun _ ↦ rfl) (Nat.le_refl _) wait stands
    (fun entry ↦ entry) (fun entry ↦ entry) apart announced

theorem insertName (h : Formed waiting c) (found : c.get id = .ok sort)
    (carries : sort.name = some text) (free : c.names[text]? = none) :
    Formed waiting { c with names := c.names.insert text id } :=
  h.congr (h.toSteady.insertName found carries) (fun _ ↦ rfl) (Nat.le_refl _)
    (fun _ inside ↦ inside) (fun _ ↦ Or.inr) (fun entry ↦ getElem?_insert_of_free free entry)
    (fun entry ↦ entry) h.apart h.announced

theorem insertKept (h : Formed waiting c) (found : c.get id = .ok sort)
    (nameless : sort.name = none) (weighted : sort.variant = .weighted)
    (carries : sort.canonical = text)
    (free : c.interned[text]? = none) :
    Formed waiting { c with interned := c.interned.insert text id } :=
  h.congr (h.toSteady.insertKept found nameless weighted carries) (fun _ ↦ rfl) (Nat.le_refl _)
    (fun _ inside ↦ inside) (fun _ ↦ Or.inr) (fun entry ↦ entry)
    (fun entry ↦ getElem?_insert_of_free free entry) h.apart h.announced

/-- A sort that is bound, registered and kept need not wait. -/
theorem done (h : Formed (id :: waiting) c) (found : c.get id = .ok sort)
    (bound : sort.body ≠ .recursive none)
    (registered : ∀ name, sort.name = some name → c.names[name]? = some id)
    (kept : sort.name = none → sort.variant = .weighted →
      c.interned[sort.canonical]? = some id) : Formed waiting c := by
  have others : ∀ {other}, other ≠ id → other ∈ id :: waiting → other ∈ waiting := by
    intro other differs inside
    exact (List.mem_cons.mp inside).resolve_left differs
  refine { h with standing := ?_, known := ?_, unique := ?_ }
  · intro other record there unbound
    by_cases same : other = id
    · rw [same, found] at there
      cases there
      exact absurd unbound bound
    · exact (h.standing there unbound).imp_left (others same)
  · intro other record name there named
    by_cases same : other = id
    · rw [same, found] at there
      cases there
      exact Or.inl (same ▸ registered name named)
    · exact (h.known there named).imp_right (Or.imp_left (others same))
  · intro other record there nameless weighted
    by_cases same : other = id
    · rw [same, found] at there
      cases there
      exact Or.inl (same ▸ kept nameless weighted)
    · exact (h.unique there nameless weighted).imp_right (others same)

/-- A named sort that stands for a name under definition need not wait. -/
theorem stand (h : Formed (id :: waiting) c) (found : c.get id = .ok sort)
    (named : sort.name ≠ none) (stands : c.StandsIn id) : Formed waiting c := by
  have waits : ∀ {other}, other ∈ id :: waiting ∨ c.StandsIn other →
      other ∈ waiting ∨ c.StandsIn other := by
    rintro other (inside | standing)
    · rcases List.mem_cons.mp inside with rfl | inside
      · exact Or.inr stands
      · exact Or.inl inside
    · exact Or.inr standing
  refine { h with standing := ?_, known := ?_, unique := ?_ }
  · intro other record there unbound
    exact waits (h.standing there unbound)
  · intro other record name there carries
    exact (h.known there carries).imp_right waits
  · intro other record there nameless weighted
    refine (h.unique there nameless weighted).imp_right fun inside ↦ ?_
    rcases List.mem_cons.mp inside with rfl | inside
    · rw [found] at there
      cases there
      exact absurd nameless named
    · exact inside

/-! ### A new sort, and a sort in the place of another -/

/-- A new sort that fits waits for what is done with it. -/
theorem add (h : Formed waiting c)
    (fits : c.Fits ⟨c.nextId, name, canonical, c.clock, counts, body⟩)
    (several : ∀ components, body = .disjunctive components → 2 ≤ components.length)
    (settled : ∀ target, body = .recursive (some target) →
      ∃ steps, c.Settles target canonical counts steps) :
    Formed (c.nextId :: waiting) (c.add name canonical counts body) := by
  have rooted := h.toRooted
  have firm : ∀ {id}, c.Live id → Firm c (c.add name canonical counts body) id := by
    rintro id ⟨sort, found⟩
    exact .of_get_eq found (get_add_of_live rooted found)
  have firms : ∀ id, c.Used id → Firm c (c.add name canonical counts body) id :=
    fun _ used ↦ firm (h.live_of_used used)
  have new : (c.add name canonical counts body).get c.nextId =
      .ok ⟨c.nextId, name, canonical, c.clock, counts, body⟩ := get_add_nextId rooted
  have fits' : (c.add name canonical counts body).Fits
      ⟨c.nextId, name, canonical, c.clock, counts, body⟩ :=
    fits.frame fun id inside ↦ firm (fits.linked id inside)
  have out : ∀ {sort}, c.Fits sort → c.nextId ∉ sort.body.handles := fun fits inside ↦
    not_live_nextId rooted (fits.linked _ inside)
  refine ⟨h.toSteady.add several, ?_, ?_, ?_, ?_, ?_, ?_, ?_, h.apart, h.announced⟩
  · intro id sort found
    rcases get_add_cases rooted found with ⟨rfl, rfl⟩ | ⟨-, before⟩
    · exact Nat.lt_succ_self _
    · exact (h.stamped before).trans (Nat.lt_succ_self _)
  · intro id sort found
    rcases get_add_cases rooted found with ⟨rfl, rfl⟩ | ⟨-, before⟩
    · exact fits'
    · have earlier := h.fits before
      exact earlier.frame fun id inside ↦ firm (earlier.linked id inside)
  · refine h.ranked.of_change c.nextId
      (fun id sort found differs ↦ (get_add_of_ne rooted differs).symm.trans found) ?_
    intro id sort found inside
    rcases get_add_cases rooted found with ⟨rfl, rfl⟩ | ⟨-, before⟩
    · exact out fits (Body.mem_handles_of_mem_parts inside)
    · exact out (h.fits before) (Body.mem_handles_of_mem_parts inside)
  · intro id sort target found bound
    rcases get_add_cases rooted found with ⟨rfl, rfl⟩ | ⟨-, before⟩
    · obtain ⟨steps, settles⟩ := settled target bound
      exact ⟨steps + 1, .through found bound (settles.frame (firm settles.live) firms)⟩
    · obtain ⟨steps, settles⟩ := h.settled before bound
      exact ⟨steps, settles.frame (firm settles.live) firms⟩
  · intro id sort found unbound
    rcases get_add_cases rooted found with ⟨rfl, -⟩ | ⟨-, before⟩
    · exact Or.inl List.mem_cons_self
    · exact (h.standing before unbound).imp_left (List.mem_cons_of_mem _)
  · intro id sort name found named
    rcases get_add_cases rooted found with ⟨rfl, -⟩ | ⟨-, before⟩
    · exact Or.inr (Or.inl List.mem_cons_self)
    · exact (h.known before named).imp_right (Or.imp_left (List.mem_cons_of_mem _))
  · intro id sort found nameless weighted
    rcases get_add_cases rooted found with ⟨rfl, -⟩ | ⟨-, before⟩
    · exact Or.inr List.mem_cons_self
    · exact (h.unique before nameless weighted).imp_right (List.mem_cons_of_mem _)

/-- A sort that is not used can change as long as it fits; one that is used has to look the same. -/
theorem replace (h : Formed waiting c) (found : c.get new.id = .ok old)
    (sameName : new.name = old.name) (sameTime : new.created = old.created)
    (sameVariant : new.variant = old.variant) (loose : old.variant ≠ .weighted)
    (several : ∀ components, new.body = .disjunctive components → 2 ≤ components.length)
    (free : ¬ c.Used new.id ∨ Alike old new ∧ new.body.parts = old.body.parts) (fits : c.Fits new)
    (selfless : new.id ∉ new.body.handles) (bound : new.body ≠ .recursive none)
    (settled : ∀ target, new.body = .recursive (some target) →
      ∃ steps, c.Settles target new.canonical new.counts steps) :
    Formed waiting (c.replace new) := by
  have here : (c.replace new).get new.id = .ok new := get_replace_self found
  have kept : ∀ {id}, id ≠ new.id → (c.replace new).get id = c.get id :=
    fun differs ↦ get_replace_of_ne found differs
  have firm : ∀ {id}, c.Live id → id ≠ new.id → Firm c (c.replace new) id := by
    rintro id ⟨sort, there⟩ differs
    exact .of_get_eq there ((kept differs).trans there)
  have firms : ∀ id, c.Used id → Firm c (c.replace new) id := by
    intro id used
    by_cases same : id = new.id
    · subst same
      rcases free with unused | ⟨alike, -⟩
      · exact absurd used unused
      · exact ⟨old, new, found, here, alike⟩
    · exact firm (h.live_of_used used) same
  have apart : ∀ {id}, id ∈ new.body.handles → Firm c (c.replace new) id := by
    intro id inside
    refine firm (fits.linked id inside) ?_
    rintro rfl
    exact selfless inside
  refine ⟨h.toSteady.replace found sameName loose several, ?_, ?_, ?_, ?_, ?_, ?_, ?_, h.apart,
    h.announced⟩
  · intro id sort there
    rcases get_replace_cases found there with ⟨rfl, rfl⟩ | ⟨-, before⟩
    · exact sameTime ▸ h.stamped found
    · exact h.stamped before
  · intro id sort there
    rcases get_replace_cases found there with ⟨rfl, rfl⟩ | ⟨-, before⟩
    · exact fits.frame fun _ inside ↦ apart inside
    · exact (h.fits before).frame fun other inside ↦ firms other ⟨id, sort, before, inside⟩
  · rcases free with unused | ⟨-, parts⟩
    · refine h.ranked.of_change new.id (fun id sort there differs ↦ (kept differs).symm.trans there)
        fun id sort there inside ↦ ?_
      rcases get_replace_cases found there with ⟨rfl, rfl⟩ | ⟨-, before⟩
      · exact selfless (Body.mem_handles_of_mem_parts inside)
      · exact unused ⟨id, sort, before, Body.mem_handles_of_mem_parts inside⟩
    · refine h.ranked.of_parts_eq fun id sort there ↦ ?_
      rcases get_replace_cases found there with ⟨rfl, rfl⟩ | ⟨-, before⟩
      · exact ⟨old, found, parts.symm⟩
      · exact ⟨sort, before, rfl⟩
  · intro id sort target there bound
    rcases get_replace_cases found there with ⟨rfl, rfl⟩ | ⟨differs, before⟩
    · obtain ⟨steps, settles⟩ := settled target bound
      have next := settles.frame (apart (SortRecord.target_mem_handles bound)) firms
      exact ⟨steps + 1, .through here bound next⟩
    · obtain ⟨steps, settles⟩ := h.settled before bound
      exact ⟨steps, settles.frame (firm settles.live differs) firms⟩
  · intro id sort there unbound
    rcases get_replace_cases found there with ⟨rfl, rfl⟩ | ⟨-, before⟩
    · exact absurd unbound bound
    · exact h.standing before unbound
  · intro id sort name there named
    rcases get_replace_cases found there with ⟨rfl, rfl⟩ | ⟨-, before⟩
    · exact h.known found (sameName ▸ named)
    · exact h.known before named
  · intro id sort there nameless weighted
    rcases get_replace_cases found there with ⟨rfl, rfl⟩ | ⟨-, before⟩
    · exact absurd (sameVariant ▸ weighted) loose
    · exact h.unique before nameless weighted

end Formed

end CompositeSorts.Catalog
