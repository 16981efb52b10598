import CompositeSorts.Proofs.Catalog.Common
import CompositeSorts.Proofs.Catalog.Walks

/-!
Arrangements. Two texts that define the same sorts, but for the order in which some sums are
written, give catalogs with corresponding sorts. The handles differ, for sorts are numbered as they
are met; the names, the canonical texts and the counts are the same, and the bodies have
corresponding parts, where the components of a disjunction may be listed in another order. A
relation that pairs the sorts of two catalogs like this is an *arrangement* (`Catalog.Arrangement`).
It need not pair all sorts, only those that are made of paired ones.

Chains of weights and arguments of aspects correspond then, in the same order.
-/

set_option autoImplicit false
set_option relaxedAutoImplicit false

namespace CompositeSorts

/-- The bodies have corresponding parts, as far as these are matched. Components are in any
order. -/
inductive Body.Rearranged (alike : SortId → SortId → Prop) : Body → Body → Prop where
  | primitive (category : String) (argument argument' : Option Argument) :
    Rearranged alike (.primitive category argument) (.primitive category argument')
  | weighted {base base' weight weight' : SortId} (bases : alike base base')
    (weights : alike weight weight') :
    Rearranged alike (.weighted base weight) (.weighted base' weight')
  | disjunctive {components listed components' : List SortId}
    (each : List.Forall₂ alike components listed) (permuted : listed.Perm components') :
    Rearranged alike (.disjunctive components) (.disjunctive components')
  | aspects (category : String) (own own' : List SortId) {arguments arguments' : List SortId}
    (each : List.Forall₂ alike arguments arguments') :
    Rearranged alike (.aspects category own arguments) (.aspects category own' arguments')
  | aspect {owner owner' : SortId} (owners : alike owner owner') (position : Nat) :
    Rearranged alike (.aspect owner position) (.aspect owner' position)
  | recursive {target target' : Option SortId} (targets : Option.Rel alike target target') :
    Rearranged alike (.recursive target) (.recursive target')

/-- The sorts are the same but for their handles and the order of components. -/
structure SortRecord.Rearranged (alike : SortId → SortId → Prop)
    (sort sort' : SortRecord) : Prop where
  name : sort.name = sort'.name
  canonical : sort.canonical = sort'.canonical
  counts : sort.counts = sort'.counts
  body : sort.body.Rearranged alike sort'.body

namespace SortRecord.Rearranged

variable {alike : SortId → SortId → Prop} {sort sort' : SortRecord}

theorem display (h : sort.Rearranged alike sort') : sort.display = sort'.display := by
  unfold SortRecord.display
  rw [h.name, h.canonical]

theorem variant (h : sort.Rearranged alike sort') : sort.variant = sort'.variant := by
  have body := h.body
  unfold SortRecord.variant
  generalize sort.body = whole at body
  generalize sort'.body = whole' at body
  cases body <;> rfl

end SortRecord.Rearranged

namespace Catalog

/-- Paired sorts are the same but for their handles and the order of components, and no sort is
paired with two. -/
structure Arrangement (c c' : Catalog) (alike : SortId → SortId → Prop) : Prop where
  rearranged : ∀ {id id'}, alike id id' → ∃ sort sort', c.get id = .ok sort ∧
    c'.get id' = .ok sort' ∧ sort.Rearranged alike sort'
  single : ∀ {id id' other other'}, alike id id' → alike other other' → (id = other ↔ id' = other')

namespace Arrangement

variable {c c' : Catalog} {alike : SortId → SortId → Prop} {id id' : SortId} {sort : SortRecord}

theorem get (h : c.Arrangement c' alike) (paired : alike id id') (found : c.get id = .ok sort) :
    ∃ sort', c'.get id' = .ok sort' ∧ sort.Rearranged alike sort' := by
  obtain ⟨sort', other, found', there, rearranged⟩ := h.rearranged paired
  rw [found] at found'
  cases found'
  exact ⟨other, there, rearranged⟩

/-- Walks along weights go past corresponding sorts. -/
theorem walk (h : c.Arrangement c' alike) {answer answer' : Except Refusal (List SortId)}
    {chain : List SortId} (walk : c.Walk id answer) (walk' : c'.Walk id' answer')
    (paired : alike id id') (ends : answer = .ok chain) :
    ∃ chain', answer' = .ok chain' ∧ List.Forall₂ alike chain chain' := by
  induction walk generalizing id' answer' chain with
  | missing => cases ends
  | @last id sort found plain =>
    cases ends
    obtain ⟨sort', found', rearranged⟩ := h.get paired found
    have body := rearranged.body
    cases walk' with
    | missing nowhere =>
      rw [found'] at nowhere
      cases nowhere
    | last => exact ⟨_, rfl, .cons paired .nil⟩
    | link there made =>
      rw [found'] at there
      cases there
      rw [made] at body
      generalize sort.body = whole at body plain
      cases body
      exact absurd rfl (plain _ _)
  | @link id base weight sort behind found made _ ih =>
    obtain ⟨sort', found', rearranged⟩ := h.get paired found
    have body := rearranged.body
    rw [made] at body
    cases behind with
    | error reason => cases ends
    | ok rest =>
      cases ends
      cases walk' with
      | missing nowhere =>
        rw [found'] at nowhere
        cases nowhere
      | last there plain' =>
        rw [found'] at there
        cases there
        generalize sort'.body = whole at body plain'
        cases body
        exact absurd rfl (plain' _ _)
      | link there made' further =>
        rw [found'] at there
        cases there
        rw [made'] at body
        cases body with
        | weighted bases weights =>
          obtain ⟨rest', same, each⟩ := ih further weights rfl
          rw [same]
          exact ⟨_, rfl, .cons bases each⟩

/-- The chains of corresponding sorts correspond, however many sorts were made in the catalogs. -/
theorem spine (h : c.Arrangement c' alike) (weighed : c.Weighed) (weighed' : c'.Weighed)
    (paired : alike id id') {chain : List SortId} (walked : c.spine id = .ok chain) :
    ∃ chain', c'.spine id' = .ok chain' ∧ List.Forall₂ alike chain chain' :=
  h.walk (weighed.walk_spine id) (weighed'.walk_spine id') paired walked

/-- Corresponding aspects are linked to corresponding sorts. -/
theorem argumentOf (h : c.Arrangement c' alike) (paired : alike id id') {argument : SortId}
    (linked : c.argumentOf id = .ok argument) :
    ∃ argument', c'.argumentOf id' = .ok argument' ∧ alike argument argument' := by
  obtain ⟨sort, owner, position, tuple, category, own, arguments, found, made, owned,
      tupled, listed⟩ :=
    argumentOf_eq_ok_iff.mp linked
  obtain ⟨sort', found', rearranged⟩ := h.get paired found
  have body := rearranged.body
  rw [made] at body
  generalize made' : sort'.body = body' at body
  cases body with
  | aspect owners =>
    obtain ⟨tuple', owned', rearranged'⟩ := h.get owners owned
    have inside := rearranged'.body
    rw [tupled] at inside
    generalize tupled' : tuple'.body = inside' at inside
    cases inside with
    | @aspects _ _ own' _ arguments' each =>
      obtain ⟨inArguments, here⟩ := List.getElem?_eq_some_iff.mp listed
      have inArguments' : position < arguments'.length := each.length_eq ▸ inArguments
      have corresponding := each.get inArguments inArguments'
      rw [List.get_eq_getElem, List.get_eq_getElem, here] at corresponding
      exact ⟨_, argumentOf_eq_ok_iff.mpr ⟨sort', _, position, tuple', _, own',
        arguments', found', made',
        owned', tupled', List.getElem?_eq_getElem inArguments'⟩, corresponding⟩

end Arrangement

end Catalog

end CompositeSorts
