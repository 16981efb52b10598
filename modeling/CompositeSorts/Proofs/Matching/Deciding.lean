import CompositeSorts.Proofs.Matching.Decided

/-!
Deciding. For given catalogs it can be computed whether renaming some sorts arranges them
(`arrangement_of_rearranges`), and whether they are decided, as soon as the findings of components
can be worked out within some depth (`decided_of_settles`).
-/

set_option autoImplicit false
set_option relaxedAutoImplicit false

namespace CompositeSorts

open Catalog Matching

variable {same : Tally → Tally → Prop} {c c' : Catalog} {near : SortId → Prop} {ids : List SortId}
  {rename : SortId → SortId} {left right : SortId} {finding finding' : Finding}

/-! ### Arrangements -/

/-- The parts that are matched, renamed, are those of the other body, components in any order. -/
def Body.rearranges (rename : SortId → SortId) : Body → Body → Bool
  | .primitive category _, .primitive category' _ => category = category'
  | .weighted base weight, .weighted base' weight' => rename base = base' && rename weight = weight'
  | .disjunctive components, .disjunctive components' => (components.map rename).isPerm components'
  | .aspects category _ arguments, .aspects category' _ arguments' =>
    category = category' && arguments.map rename = arguments'
  | .aspect owner position, .aspect owner' position' =>
    rename owner = owner' && position = position'
  | .recursive target, .recursive target' => target.map rename = target'
  | _, _ => false

theorem forall₂_map_self {items : List SortId} (inside : ∀ id ∈ items, id ∈ ids) :
    List.Forall₂ (fun id id' ↦ id ∈ ids ∧ rename id = id') items (items.map rename) :=
  List.forall₂_map_right_iff.mpr (List.forall₂_same.mpr fun id here ↦ ⟨inside id here, rfl⟩)

theorem Body.rearranged_of_rearranges {body body' : Body} (h : body.rearranges rename body' = true)
    (inside : ∀ id ∈ body.handles, id ∈ ids) :
    body.Rearranged (fun id id' ↦ id ∈ ids ∧ rename id = id') body' := by
  have parts (id : SortId) (here : id ∈ body.parts) : id ∈ ids :=
    inside id (mem_handles_of_mem_parts here)
  have bonds (id : SortId) (here : id ∈ body.bonds) : id ∈ ids :=
    inside id (mem_handles_of_mem_bonds here)
  unfold rearranges at h
  split at h
  · obtain rfl := of_decide_eq_true h
    exact .primitive _ _ _
  · obtain ⟨bases, weights⟩ := (Bool.and_eq_true _ _).mp h
    exact .weighted ⟨parts _ (by simp [Body.parts]), of_decide_eq_true bases⟩
      ⟨parts _ (by simp [Body.parts]), of_decide_eq_true weights⟩
  · exact .disjunctive (forall₂_map_self parts) (List.isPerm_iff.mp h)
  · obtain ⟨categories, arguments⟩ := (Bool.and_eq_true _ _).mp h
    obtain rfl := of_decide_eq_true categories
    obtain rfl := of_decide_eq_true arguments
    exact .aspects _ _ _ (forall₂_map_self parts)
  · obtain ⟨owners, positions⟩ := (Bool.and_eq_true _ _).mp h
    obtain rfl := of_decide_eq_true positions
    exact .aspect ⟨parts _ (by simp [Body.parts]), of_decide_eq_true owners⟩ _
  · rename_i target target'
    obtain rfl := of_decide_eq_true h
    cases target with
    | none => exact .recursive .none
    | some instance' =>
      exact .recursive (.some ⟨bonds _ (by simp [Body.bonds]), rfl⟩)
  · cases h

/-- The sorts of the handles are the same but for the order of components, when handles are
renamed. -/
def Catalog.rearranges (c c' : Catalog) (rename : SortId → SortId) (ids : List SortId) : Bool :=
  ids.all fun id ↦
    match c.get id, c'.get (rename id) with
    | .ok sort, .ok sort' =>
      sort.name = sort'.name && sort.canonical = sort'.canonical && sort.counts = sort'.counts &&
        sort.body.rearranges rename sort'.body && sort.body.handles.all (· ∈ ids)
    | _, _ => false

theorem Catalog.arrangement_of_rearranges (apart : (ids.map rename).Nodup)
    (h : c.rearranges c' rename ids = true) :
    c.Arrangement c' fun id id' ↦ id ∈ ids ∧ rename id = id' where
  rearranged := by
    rintro id _ ⟨inside, rfl⟩
    have h := List.all_eq_true.mp h id inside
    split at h
    · rename_i sort sort' found found'
      simp only [Bool.and_eq_true, decide_eq_true_eq, List.all_eq_true] at h
      obtain ⟨⟨⟨⟨name, canonical⟩, counts⟩, body⟩, handles⟩ := h
      exact ⟨sort, sort', found, found', name, canonical, counts,
        Body.rearranged_of_rearranges body handles⟩
    · cases h
  single := by
    rintro id _ other _ ⟨inside, rfl⟩ ⟨inside', rfl⟩
    exact ⟨congrArg rename, fun same ↦ List.inj_on_of_nodup_map apart inside inside' same⟩

/-! ### Decidedness -/

theorem Catalog.Unaided.unique (rooted : c.Rooted) (h : c.Unaided left right finding)
    (h' : c.Unaided left right finding') : finding = finding' := by
  obtain ⟨bound, worked⟩ := h
  obtain ⟨bound', worked'⟩ := h'
  have deep := unaided_mono rooted (Nat.le_max_left bound bound') worked
  rw [unaided_mono rooted (Nat.le_max_right bound bound') worked'] at deep
  exact (Option.some.inj deep).symm

deriving instance DecidableEq for Standing

instance Finding.decidableResembles [DecidableRel same] (f f' : Finding) :
    Decidable (f.Resembles same f') :=
  decidable_of_iff (f.node.standing = f'.node.standing ∧ same f.node.tally f'.node.tally ∧
      f.node.sentinel = f'.node.sentinel)
    ⟨fun h ↦ ⟨h.1, h.2.1, h.2.2⟩, fun h ↦ ⟨h.standing, h.tally, h.sentinel⟩⟩

instance Finding.decidableAsClose (excess : Nat) (f g : Finding) : Decidable (f.AsClose excess g) :=
  inferInstanceAs (Decidable (_ ∨ _))

instance decidableUncontested [DecidableRel same] (lefts rights : List SortId)
    (found : SortId → SortId → Finding) : Decidable (Uncontested same lefts rights found) :=
  decidable_of_iff (_ ∧ _) ⟨fun h ↦ ⟨h.1, h.2⟩, fun h ↦ ⟨h.onRight, h.onLeft⟩⟩

/-- Only findings of the components matter. -/
theorem Uncontested.congr {lefts rights : List SortId} {found found' : SortId → SortId → Finding}
    (h : Uncontested same lefts rights found)
    (agree : ∀ a ∈ lefts, ∀ b ∈ rights, found a b = found' a b) :
    Uncontested same lefts rights found' where
  onRight a inLeft b inRight b' inRight' congruous tied k here := by
    rw [← agree _ inLeft _ inRight] at congruous tied
    rw [← agree _ inLeft _ inRight'] at tied
    rw [← agree _ here _ inRight, ← agree _ here _ inRight']
    exact h.onRight a inLeft b inRight b' inRight' congruous tied k here
  onLeft a inLeft a' inLeft' b inRight congruous tied k here := by
    rw [← agree _ inLeft _ inRight] at congruous tied
    rw [← agree _ inLeft' _ inRight] at tied
    rw [← agree _ inLeft _ here, ← agree _ inLeft' _ here]
    exact h.onLeft a inLeft a' inLeft' b inRight congruous tied k here

namespace Catalog

/-- The findings of the components are worked out within the depth, and tied ones do not matter. -/
def settles (c : Catalog) (same : Tally → Tally → Prop) [DecidableRel same] (bound : Nat)
    (left right : SortId) : Bool :=
  match c.get left, c.get right with
  | .ok l, .ok r =>
    let found (a b : SortId) := (c.unaided bound a b).getD (.incongruous l r [])
    match l.body, r.body with
    | .disjunctive lefts, .disjunctive rights => l.canonical = r.canonical ∨
      (∀ a ∈ lefts, ∀ b ∈ rights, (c.unaided bound a b).isSome) ∧
      Uncontested same lefts rights found
    | .disjunctive lefts, _ => (∀ k ∈ lefts, (c.unaided bound k right).isSome) ∧
      ∀ a ∈ lefts, ∀ b ∈ lefts,
        (∀ k ∈ lefts, (found a right).AsClose (lefts.length - 1) (found k right) ∧
          (found b right).AsClose (lefts.length - 1) (found k right)) →
        same (found a right).node.tally (found b right).node.tally
    | _, _ => true
  | _, _ => true

theorem decided_of_settles [DecidableRel same] (bound : Nat) (rooted : c.Rooted)
    (all : ∀ id, near id → id ∈ ids)
    (h : ids.all (fun left ↦ ids.all fun right ↦ c.settles same bound left right) = true) :
    c.Decided same near := by
  have settled {left right : SortId} (nearLeft : near left) (nearRight : near right) :=
    List.all_eq_true.mp (List.all_eq_true.mp h left (all _ nearLeft)) right (all _ nearRight)
  refine ⟨?_, ?_⟩
  · rintro left right lefts rights nearLeft nearRight
      ⟨l, r, foundLeft, foundRight, made, made', differ⟩ found total
    have settled := settled nearLeft nearRight
    simp only [settles, foundLeft, foundRight, made, made', differ, false_or,
      decide_eq_true_eq] at settled
    refine settled.2.congr fun a inLeft b inRight ↦ ?_
    obtain ⟨finding, worked⟩ := Option.isSome_iff_exists.mp (settled.1 a inLeft b inRight)
    rw [worked, (total a inLeft b inRight).unique rooted ⟨bound, worked⟩]
    rfl
  · rintro left right lefts nearLeft nearRight
      ⟨l, r, foundLeft, foundRight, made, plain⟩ found total
      a inLeft b inLeft' best
    have other (components : List SortId) : r.body = .disjunctive components → False := fun equal ↦
      plain (by rw [SortRecord.variant, equal]; rfl)
    have settled := settled nearLeft nearRight
    simp only [settles, foundLeft, foundRight, made, decide_eq_true_eq] at settled
    obtain ⟨each, agreed⟩ := settled
    have computed {k : SortId} (here : k ∈ lefts) :
        (c.unaided bound k right).getD (.incongruous l r []) = found k := by
      obtain ⟨finding, worked⟩ := Option.isSome_iff_exists.mp (each k here)
      rw [worked, (total k here).unique rooted ⟨bound, worked⟩]
      rfl
    have answer := agreed a inLeft b inLeft' fun k here ↦ by
      rw [computed inLeft, computed inLeft', computed here]
      exact best k here
    rwa [computed inLeft, computed inLeft'] at answer

end Catalog

end CompositeSorts
