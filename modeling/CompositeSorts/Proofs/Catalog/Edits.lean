import CompositeSorts.Proofs.Catalog.Operations
import CompositeSorts.Proofs.Catalog.Removal
import Mathlib.Logic.Relation

/-!
Edits. Whatever an operation does to a catalog is a row of elementary edits. Most of them are
harmless to a sort that is older than the session; the three that are not, growing a disjunction in
place, binding a recursive sort and registering a name, have to be allowed for older sorts
(`Touch`).
-/

set_option autoImplicit false
set_option relaxedAutoImplicit false

namespace CompositeSorts.Catalog

/-- What can be done to a sort that is older than the session: in a certain catalog, it can grow in
place by the summands of another sort, or be bound to one; and it can be registered under its
name. -/
inductive Touch where
  | extend (c : Catalog) (id right : SortId)
  | bind (c : Catalog) (id target : SortId)
  | name (id : SortId)

variable {may : Touch → Prop} {c d : Catalog} {id : SortId}
  {sort old : SortRecord} {name : Option String} {canonical text : String}
  {counts : ComponentCounts} {body : Body}

/-- An elementary change of a catalog, in which sorts that are older than the session are touched
only where that is allowed. An attribute without a name is kept from the moment it is made. -/
inductive Edit (may : Touch → Prop) (c : Catalog) : Catalog → Prop where
  | log (journal : List Event) : Edit may c { c with journal := journal }
  | await (pending : List Pending) : Edit may c { c with pending := pending }
  | add (name : Option String) (canonical : String) (counts : ComponentCounts) (body : Body)
    (weighed : ∀ base weight, body = .weighted base weight →
      c.Live weight ∨ ∃ id source, c.get id = .ok source ∧ source.body = body)
    (loose : name ≠ none ∨ body.variant ≠ .weighted) :
    Edit may c (c.add name canonical counts body)
  | attach (text : String) (counts : ComponentCounts) (base weight : SortId)
    (weighed : c.Live weight) (free : c.interned[text]? = none) :
    Edit may c { c.add none text counts (.weighted base weight) with
      interned := c.interned.insert text c.nextId }
  | extend {old : SortRecord} {components : List SortId} (canonical : String)
    (counts : ComponentCounts) (more : List SortId) (found : c.get old.id = .ok old)
    (made : old.body = .disjunctive components) (nameless : old.name = none)
    (allowed : old.id ∈ c.fresh ∨ ∃ right, may (.extend c old.id right)) :
    Edit may c (c.replace { old with canonical, counts, body := .disjunctive (components ++ more) })
  | bind {old : SortRecord} (canonical : String) (counts : ComponentCounts) (target : SortId)
    (found : c.get old.id = .ok old) (unbound : old.body = .recursive none)
    (allowed : old.id ∈ c.fresh ∨ may (.bind c old.id target)) :
    Edit may c (c.replace { old with canonical, counts, body := .recursive (some target) })
  | own {old : SortRecord} {tag : String} {arguments : List SortId} (aspects : List SortId)
    (found : c.get old.id = .ok old) (made : old.body = .aspects tag [] arguments)
    (new : old.id ∈ c.fresh) :
    Edit may c (c.replace { old with body := .aspects tag aspects arguments })
  | name {id : SortId} {sort : SortRecord} {text : String} (found : c.get id = .ok sort)
    (carries : sort.name = some text) (free : c.names[text]? = none)
    (allowed : id ∈ c.fresh ∨ may (.name id)) :
    Edit may c { c with names := c.names.insert text id }

/-- One edit after another. -/
abbrev Edits (may : Touch → Prop) : Catalog → Catalog → Prop := Relation.ReflTransGen (Edit may)

theorem Sound.of_same (h : c.Sound) (home : d.home = c.home) (store : d.store = c.store)
    (names : d.names = c.names) (interned : d.interned = c.interned)
    (history : d.history = c.history) (fresh : d.fresh = c.fresh) : d.Sound := by
  have same (id : SortId) : d.get id = c.get id := get_congr home (by rw [store])
  refine ⟨⟨store ▸ h.slots, fun {id sort} found ↦ h.placed ((same id).symm.trans found), ?_, ?_⟩,
    ?_, ?_⟩
  · intro name id entry
    obtain ⟨sort, found, carries⟩ := h.named (names ▸ entry)
    exact ⟨sort, (same id).trans found, carries⟩
  · intro text id entry
    obtain ⟨sort, found, carries⟩ := h.kept (interned ▸ entry)
    exact ⟨sort, (same id).trans found, carries⟩
  · intro id
    unfold Live
    rw [history, same]
    exact h.listed id
  · intro id inside
    unfold Live
    rw [same]
    exact h.recent id (fresh ▸ inside)

/-- An edit keeps a catalog sound. -/
theorem Edit.sound (h : Edit may c d) (sound : c.Sound) : d.Sound := by
  cases h with
  | log journal => exact sound.of_same rfl rfl rfl rfl rfl rfl
  | await pending => exact sound.of_same rfl rfl rfl rfl rfl rfl
  | add name canonical counts body _ _ => exact sound.add
  | attach text counts base weight _ _ =>
    exact (sound.add (c := c)).insertKept (get_add_nextId sound.toRooted) rfl rfl rfl
  | extend canonical counts more found made nameless _ =>
    refine sound.replace found rfl ?_
    unfold SortRecord.variant
    rw [made]
    rintro ⟨⟩
  | bind canonical counts target found unbound _ =>
    refine sound.replace found rfl ?_
    unfold SortRecord.variant
    rw [unbound]
    rintro ⟨⟩
  | own aspects found made _ =>
    refine sound.replace found rfl ?_
    unfold SortRecord.variant
    rw [made]
    rintro ⟨⟩
  | name found carries _ _ => exact sound.insertName found carries

theorem Edits.sound (h : Edits may c d) (sound : c.Sound) : d.Sound := by
  induction h with
  | refl => exact sound
  | tail _ edit sound => exact edit.sound sound

/-- What is new stays new. -/
theorem Edit.fresh (h : Edit may c d) (new : id ∈ c.fresh) : id ∈ d.fresh := by
  cases h with
  | add => exact List.mem_cons_of_mem _ new
  | attach => exact List.mem_cons_of_mem _ new
  | _ => exact new

theorem Edits.fresh (h : Edits may c d) (new : id ∈ c.fresh) : id ∈ d.fresh := by
  induction h with
  | refl => exact new
  | tail _ edit new => exact edit.fresh new

end CompositeSorts.Catalog
