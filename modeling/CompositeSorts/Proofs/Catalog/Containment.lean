import CompositeSorts.Catalog.Containment
import CompositeSorts.Proofs.Catalog.Attributes

/-!
What a sort contains. The search for a sort goes through everything that is inside another, whatever
was visited before (`exists_reachesFrom`): what was visited is not what is looked for, and all that
is directly inside it was visited as well or is still to do. So a sort reaches another if and only
if a sort of its display is inside, over any number of steps (`Rested.reaches_iff`), and contains a
disjunction besides if all its components are inside (`Rested.contains_iff`).

Sorts of one display have the same displays inside (`Rested.exists_encloses_of_twins`), so that what
is inside a sort that is inside is inside too (`Rested.presents_trans`). For containment this does
not hold: a disjunction whose components are inside need not be inside itself, and a larger
disjunction of which it is a component is contained only if it is
(`Splits.contains_iff`, `Rested.contains_trans_iff`).
-/

set_option autoImplicit false
set_option relaxedAutoImplicit false

namespace CompositeSorts

namespace Catalog

variable {c : Catalog} {a a' b d id goal inner outer : SortId} {sort : SortRecord}
  {visited todo components : List SortId}

/-- The sorts directly inside the sort that the handle leads to. -/
def enclosed (c : Catalog) (id : SortId) : List SortId :=
  match c.get id with
  | .ok sort => sort.children
  | .error _ => []

/-- One sort stands directly inside another. -/
def Encloses (c : Catalog) (outer inner : SortId) : Prop := inner ∈ c.enclosed outer

/-- The first sort is, or has inside over any number of steps, a sort of the display of the second
one. -/
def Presents (c : Catalog) (a b : SortId) : Prop :=
  ∃ inner, Relation.ReflTransGen c.Encloses a inner ∧ c.Twins inner b

/-- The sort is a disjunction of the components. -/
def Splits (c : Catalog) (id : SortId) (components : List SortId) : Prop :=
  ∃ sort, c.get id = .ok sort ∧ sort.body = .disjunctive components

/-- The first sort presents the second one, or all components of it. -/
def Contains (c : Catalog) (a b : SortId) : Prop :=
  c.Presents a b ∨ ∃ components, c.Splits b components ∧ ∀ part ∈ components, c.Presents a part

/-- What a search has visited is not what it looks for, and what is directly inside was visited as
well or is still to do. -/
def Searched (c : Catalog) (goal : SortId) (visited todo : List SortId) : Prop :=
  ∀ id ∈ visited, ¬ c.Twins id goal ∧ ∀ inner, c.Encloses id inner → inner ∈ visited ∨ inner ∈ todo

instance : Decidable (c.Encloses outer inner) := inferInstanceAs (Decidable (inner ∈ _))

instance : Decidable (c.Live id) :=
  decidable_of_iff ((c.get id).isOk = true) <| by
    unfold Live
    cases c.get id <;> simp [Except.isOk, Except.toBool]

instance : Decidable (c.Twins a b) :=
  decidable_of_iff ((c.get a).isOk = true ∧ c.display a = c.display b) <| by
    unfold display
    constructor
    · rintro ⟨live, same⟩
      cases found : c.get a with
      | error reason =>
        rw [found] at live
        cases live
      | ok sort =>
        rw [found] at same
        obtain ⟨sort', found', eq⟩ := exists_of_map_eq_ok same.symm
        exact ⟨sort, sort', found, found', eq.symm⟩
    · rintro ⟨sort, sort', found, found', same⟩
      rw [found, found']
      exact ⟨rfl, congrArg Except.ok same⟩

instance : Decidable (c.Splits id components) :=
  decidable_of_iff ((c.get id).toOption.map SortRecord.body = some (.disjunctive components)) <| by
    unfold Splits
    cases c.get id <;> simp [Except.toOption]

theorem encloses_iff (found : c.get outer = .ok sort) :
    c.Encloses outer inner ↔ inner ∈ sort.children := by
  unfold Encloses enclosed
  rw [found]

theorem Encloses.exists_sort (h : c.Encloses outer inner) :
    ∃ sort, c.get outer = .ok sort ∧ inner ∈ sort.children := by
  cases found : c.get outer with
  | ok sort => exact ⟨sort, rfl, (encloses_iff found).mp h⟩
  | error reason =>
    unfold Encloses enclosed at h
    rw [found] at h
    cases h

theorem Splits.encloses_iff (h : c.Splits id components) :
    c.Encloses id inner ↔ inner ∈ components := by
  obtain ⟨sort, found, made⟩ := h
  rw [Catalog.encloses_iff found, SortRecord.children, made]

theorem Splits.unique {components' : List SortId} (h : c.Splits id components)
    (h' : c.Splits id components') : components = components' := by
  obtain ⟨sort, found, made⟩ := h
  obtain ⟨sort', found', made'⟩ := h'
  rw [found] at found'
  cases found'
  rw [made] at made'
  exact Body.disjunctive.inj made'

/-- A sort that contains all components of a disjunction contains the disjunction if and only if it
presents the disjunction, or those of its components that are disjunctions themselves. -/
theorem Splits.contains_iff (splits : c.Splits b components)
    (each : ∀ part ∈ components, c.Contains a part) :
    c.Contains a b ↔ c.Presents a b ∨
      ∀ part ∈ components, (∃ parts, c.Splits part parts) → c.Presents a part := by
  refine or_congr_right ⟨?_, fun nested ↦ ⟨components, splits, fun part inside ↦ ?_⟩⟩
  · rintro ⟨components', splits', presents⟩ part inside -
    exact presents part (splits'.unique splits ▸ inside)
  · rcases each part inside with presents | ⟨parts, split, -⟩
    · exact presents
    · exact nested part inside ⟨parts, split⟩

namespace Presents

theorem of_twins (h : c.Twins a b) : c.Presents a b := ⟨a, .refl, h⟩

theorem step (h : c.Presents inner b) (inside : c.Encloses a inner) : c.Presents a b := by
  obtain ⟨last, path, same⟩ := h
  exact ⟨last, path.head inside, same⟩

theorem of_encloses (inside : c.Encloses a inner) (twins : c.Twins inner b) : c.Presents a b :=
  (of_twins twins).step inside

theorem congr (h : c.Presents a b) (same : c.Twins b d) : c.Presents a d := by
  obtain ⟨last, path, same'⟩ := h
  exact ⟨last, path, same'.trans same⟩

/-- A sort of another display has the sort inside. -/
theorem exists_encloses (h : c.Presents a b) (differs : ¬ c.Twins a b) :
    ∃ inner, c.Encloses a inner ∧ c.Presents inner b := by
  obtain ⟨last, path, same⟩ := h
  rcases path.cases_head with rfl | ⟨inner, inside, path⟩
  · exact absurd same differs
  · exact ⟨inner, inside, last, path, same⟩

end Presents

/-- Sorts that have only each other inside present only each other, up to displays. -/
theorem Presents.exists_twins {among : List SortId}
    (closed : ∀ outer ∈ among, ∀ inner ∈ c.enclosed outer, inner ∈ among) (member : a ∈ among)
    (h : c.Presents a b) : ∃ id ∈ among, c.Twins id b := by
  obtain ⟨last, path, same⟩ := h
  induction path using Relation.ReflTransGen.head_induction_on with
  | refl => exact ⟨_, member, same⟩
  | head step _ ih => exact ih (closed _ member _ step)

/-! ### The search -/

namespace Searched

/-- What a visited sort presents, a sort that is still to do presents. -/
theorem exists_todo (h : c.Searched goal visited todo) (inside : id ∈ visited)
    (presents : c.Presents id goal) :
    ∃ next ∈ todo, next ∉ visited ∧ c.Presents next goal := by
  obtain ⟨last, path, same⟩ := presents
  induction path using Relation.ReflTransGen.head_induction_on with
  | refl => exact absurd same (h _ inside).1
  | @head id inner step path ih =>
    by_cases known : inner ∈ visited
    · exact ih known
    · exact ⟨inner, ((h _ inside).2 inner step).resolve_left known, known, last, path, same⟩

/-- A sort that was visited before need not be searched again. -/
theorem tail (h : c.Searched goal visited (id :: todo)) (known : id ∈ visited) :
    c.Searched goal visited todo := by
  refine fun other inside ↦ ⟨(h other inside).1, fun inner step ↦ ?_⟩
  rcases (h other inside).2 inner step with visited | todo
  · exact Or.inl visited
  · rcases List.mem_cons.mp todo with rfl | todo
    · exact Or.inl known
    · exact Or.inr todo

/-- A new sort is visited, and what is inside is to do. -/
theorem visit (h : c.Searched goal visited (id :: todo)) (found : c.get id = .ok sort)
    (differs : ¬ c.Twins id goal) :
    c.Searched goal (id :: visited) (sort.children ++ todo) := by
  intro other inside
  rcases List.mem_cons.mp inside with rfl | inside
  · refine ⟨differs, fun inner step ↦ Or.inr (List.mem_append_left _ ?_)⟩
    exact (encloses_iff found).mp step
  · refine ⟨(h other inside).1, fun inner step ↦ ?_⟩
    rcases (h other inside).2 inner step with known | next
    · exact Or.inl (List.mem_cons_of_mem _ known)
    · rcases List.mem_cons.mp next with rfl | next
      · exact Or.inl List.mem_cons_self
      · exact Or.inr (List.mem_append_right _ next)

end Searched

theorem same_iff_twins {target : SortRecord} (h : c.Rooted) (found : c.get id = .ok sort)
    (found' : c.get goal = .ok target) : sort.same target = true ↔ c.Twins id goal := by
  have ours {id sort} (found : c.get id = .ok sort) : sort.id.registry = c.home := by
    rw [h.placed found]
    exact (get_eq_ok_iff.mp found).1
  rw [SortRecord.same, ours found, ours found']
  constructor
  · intro same
    exact ⟨sort, target, found, found', by simpa using same⟩
  · rintro ⟨sort', target', there, there', same⟩
    rw [found] at there
    rw [found'] at there'
    cases there
    cases there'
    simpa using same

theorem reachesFrom_cons {target : SortRecord} {others : List SortId} (found : c.get id = .ok sort)
    (foundGoal : c.get goal = .ok target) :
    c.reachesFrom goal visited (id :: others) =
      if sort.same target then .ok true
      else if id ∈ visited then c.reachesFrom goal visited others
      else c.reachesFrom goal (id :: visited) (sort.children ++ others) := by
  rw [reachesFrom]
  split
  · rename_i missing
    rw [found] at missing
    cases missing
  · rename_i outer there
    rw [found] at there
    cases there
    rw [foundGoal]
    rfl

/-- The search ends, and answers whether a sort that is to do presents what is looked for. -/
theorem exists_reachesFrom (rooted : c.Rooted)
    (linked : ∀ outer inner, c.Encloses outer inner → c.Live inner) (live : c.Live goal)
    (todoLive : ∀ id ∈ todo, c.Live id) (searched : c.Searched goal visited todo) :
    ∃ answer, c.reachesFrom goal visited todo = .ok answer ∧
      (answer = true ↔ ∃ id ∈ todo, c.Presents id goal) := by
  obtain ⟨target, foundGoal⟩ := live
  induction visited, todo using reachesFrom.induct c with
  | case1 visited => exact ⟨false, by rw [reachesFrom], by simp⟩
  | case2 visited id others reason missing =>
    obtain ⟨sort, found⟩ := todoLive id List.mem_cons_self
    rw [found] at missing
    cases missing
  | case3 visited id others sort found skip visit =>
    have behind : ∀ other ∈ others, c.Live other :=
      fun other inside ↦ todoLive other (List.mem_cons_of_mem _ inside)
    rw [reachesFrom_cons found foundGoal]
    by_cases same : sort.same target = true
    · have here := Presents.of_twins ((same_iff_twins rooted found foundGoal).mp same)
      exact ⟨true, if_pos same, iff_of_true rfl ⟨id, List.mem_cons_self, here⟩⟩
    have differs : ¬ c.Twins id goal := fun twins ↦
      same ((same_iff_twins rooted found foundGoal).mpr twins)
    rw [if_neg same]
    by_cases known : id ∈ visited
    · obtain ⟨answer, ended, right⟩ := skip behind (searched.tail known)
      refine ⟨answer, by rw [if_pos known, ended], right.trans ⟨?_, ?_⟩⟩
      · rintro ⟨other, inside, presents⟩
        exact ⟨other, List.mem_cons_of_mem _ inside, presents⟩
      · -- What was visited leads to something that is still to do, and that is not the first one.
        rintro ⟨other, inside, presents⟩
        rcases List.mem_cons.mp inside with rfl | inside
        · obtain ⟨next, todo, new, presents⟩ := searched.exists_todo known presents
          rcases List.mem_cons.mp todo with rfl | todo
          · exact absurd known new
          · exact ⟨next, todo, presents⟩
        · exact ⟨other, inside, presents⟩
    · have inner : ∀ other ∈ sort.children ++ others, c.Live other := by
        intro other inside
        rcases List.mem_append.mp inside with inside | inside
        · exact linked id other ((encloses_iff found).mpr inside)
        · exact behind other inside
      obtain ⟨answer, ended, right⟩ := visit known inner (searched.visit found differs)
      refine ⟨answer, by rw [if_neg known, ended], right.trans ⟨?_, ?_⟩⟩
      · rintro ⟨other, inside, presents⟩
        rcases List.mem_append.mp inside with inside | inside
        · exact ⟨id, List.mem_cons_self, presents.step ((encloses_iff found).mpr inside)⟩
        · exact ⟨other, List.mem_cons_of_mem _ inside, presents⟩
      · rintro ⟨other, inside, presents⟩
        rcases List.mem_cons.mp inside with rfl | inside
        · obtain ⟨next, among, presents⟩ := presents.exists_encloses differs
          exact ⟨next, List.mem_append_left _ ((encloses_iff found).mp among), presents⟩
        · exact ⟨other, List.mem_append_right _ inside, presents⟩

/-! ### What is contained -/

namespace Rested

variable (h : c.Rested)

include h

theorem live_of_encloses (inside : c.Encloses outer inner) : c.Live inner := by
  obtain ⟨sort, found, inside⟩ := inside.exists_sort
  refine (h.fits found).linked inner ?_
  rw [SortRecord.children] at inside
  cases made : sort.body <;> rw [made] at inside <;>
    simp_all [Body.handles, Body.parts, Body.bonds]

theorem exists_reaches (live : c.Live a) (live' : c.Live b) :
    ∃ answer, c.reaches a b = .ok answer ∧ (answer = true ↔ c.Presents a b) := by
  have searched : c.Searched b [] [a] := fun _ inside ↦ absurd inside List.not_mem_nil
  obtain ⟨answer, ended, right⟩ := exists_reachesFrom h.toRooted (fun _ _ ↦ h.live_of_encloses)
    live' (by simpa using live) searched
  exact ⟨answer, ended, by simpa using right⟩

theorem exists_reachesAll (live : c.Live a) (each : ∀ part ∈ components, c.Live part) :
    ∃ answer, c.reachesAll a components = .ok answer ∧
      (answer = true ↔ ∀ part ∈ components, c.Presents a part) := by
  induction components with
  | nil => exact ⟨true, rfl, by simp⟩
  | cons part parts ih =>
    obtain ⟨first, ended, right⟩ := h.exists_reaches live (each part List.mem_cons_self)
    obtain ⟨rest, ended', right'⟩ :=
      ih fun other inside ↦ each other (List.mem_cons_of_mem _ inside)
    rw [List.forall_mem_cons, ← right, ← right', reachesAll, ended]
    cases first with
    | true => exact ⟨rest, ended', by simp⟩
    | false => exact ⟨false, rfl, by simp⟩

/-- Containment of live sorts is answered, and as it should be. -/
theorem exists_contains (live : c.Live a) (live' : c.Live b) :
    ∃ answer, c.contains a b = .ok answer ∧ (answer = true ↔ c.Contains a b) := by
  obtain ⟨first, ended, right⟩ := h.exists_reaches live live'
  unfold Contains
  rw [← right, contains, ended]
  cases first with
  | true => exact ⟨true, rfl, by simp⟩
  | false =>
    obtain ⟨sort, found⟩ := live'
    have plain (differs : ∀ components, sort.body ≠ .disjunctive components) :
        ∀ components, ¬ c.Splits b components := by
      rintro components ⟨sort', found', made⟩
      rw [found] at found'
      cases found'
      exact differs components made
    cases made : sort.body with
    | disjunctive components =>
      have splits : c.Splits b components := ⟨sort, found, made⟩
      obtain ⟨rest, ended', right'⟩ := h.exists_reachesAll live fun part inside ↦
        h.live_of_encloses (splits.encloses_iff.mpr inside)
      refine ⟨rest, ?_, ?_⟩
      · simp only [bind, Except.bind, found, made, Bool.false_eq_true, if_false, ended']
      · rw [right']
        refine ⟨fun each ↦ Or.inr ⟨components, splits, each⟩, ?_⟩
        rintro (⟨⟨⟩⟩ | ⟨components', splits', each⟩)
        rwa [splits.unique splits']
    | _ =>
      refine ⟨false, by simp only [bind, Except.bind, found, made]; rfl, ?_⟩
      simp [plain (by rw [made]; rintro _ ⟨⟩)]

theorem reaches_iff (live : c.Live a) (live' : c.Live b) :
    c.reaches a b = .ok true ↔ c.Presents a b := by
  obtain ⟨answer, ended, right⟩ := h.exists_reaches live live'
  rw [ended, ← right, Except.ok.injEq]

theorem contains_iff (live : c.Live a) (live' : c.Live b) :
    c.contains a b = .ok true ↔ c.Contains a b := by
  obtain ⟨answer, ended, right⟩ := h.exists_contains live live'
  rw [ended, ← right, Except.ok.injEq]

/-! ### Sorts of one display -/

/-- What stands directly inside a sort stands in those of its display as well, up to displays. -/
theorem exists_encloses_of_twins (twins : c.Twins a a') (inside : c.Encloses a inner) :
    ∃ inner', c.Encloses a' inner' ∧ c.Twins inner inner' := by
  have live := h.live_of_encloses inside
  obtain ⟨sort, sort', found, found', same⟩ := twins
  by_cases equal : a = a'
  · exact ⟨inner, equal ▸ inside, .refl live⟩
  have nameless : sort.name = none := by
    by_contra named
    exact equal (h.eq_of_named found found' same named)
  obtain ⟨-, variant, canonical⟩ := h.eq_of_nameless found found' same nameless
  have among := (encloses_iff found).mp inside
  unfold SortRecord.variant at variant
  cases made : sort.body with
  | primitive category argument =>
    rw [SortRecord.children, made] at among
    cases among
  | disjunctive components =>
    cases made' : sort'.body <;> rw [made, made'] at variant <;> try cases variant
    rename_i components'
    have agree := h.agree_disjunctive found found' made made' canonical.symm
    rw [made, made'] at agree
    have splits : c.Splits a' components' := ⟨sort', found', made'⟩
    rw [SortRecord.children, made] at among
    have shown : c.display inner ∈ components'.map c.display :=
      agree.mem_iff.mp (List.mem_map_of_mem among)
    obtain ⟨inner', among', equal⟩ := List.mem_map.mp shown
    have inside' : c.Encloses a' inner' := splits.encloses_iff.mpr among'
    obtain ⟨record, there⟩ := live
    obtain ⟨record', there'⟩ := h.live_of_encloses inside'
    rw [display_of_get there, display_of_get there'] at equal
    exact ⟨inner', inside', record, record', there, there', (Except.ok.inj equal).symm⟩
  | weighted base weight =>
    exact absurd (h.eq_of_weighted found found' same (by rw [SortRecord.variant, made]; rfl)) equal
  | _ =>
    have kind := (h.fits found).nameless nameless
    rw [SortRecord.variant, made] at kind
    rcases kind with kind | kind | kind <;> cases kind

theorem presents_of_twins (twins : c.Twins a a') (presents : c.Presents a b) :
    c.Presents a' b := by
  obtain ⟨last, path, same⟩ := presents
  induction path using Relation.ReflTransGen.head_induction_on generalizing a' with
  | refl => exact .of_twins (twins.symm.trans same)
  | head step _ ih =>
    obtain ⟨inner', inside, twins'⟩ := h.exists_encloses_of_twins twins step
    exact (ih twins').step inside

/-- What is inside a sort that is inside is inside too. -/
theorem presents_trans (first : c.Presents a b) (next : c.Presents b d) : c.Presents a d := by
  obtain ⟨last, path, same⟩ := first
  induction path using Relation.ReflTransGen.head_induction_on with
  | refl => exact h.presents_of_twins same.symm next
  | head step _ ih => exact ih.step step

/-! ### Closure -/

theorem contains_of_presents (presents : c.Presents a b) (contains : c.Contains b d) :
    c.Contains a d := by
  rcases contains with inside | ⟨components, splits, each⟩
  · exact Or.inl (h.presents_trans presents inside)
  · exact Or.inr ⟨components, splits, fun part among ↦ h.presents_trans presents (each part among)⟩

/-- A sort that contains a sort contains the others of its display. -/
theorem contains_congr (contains : c.Contains a b) (twins : c.Twins b d) : c.Contains a d := by
  rcases contains with presents | ⟨components, ⟨sort, found, made⟩, each⟩
  · exact Or.inl (presents.congr twins)
  obtain ⟨sort₁, sort', found₁, found', same⟩ := id twins
  rw [found] at found₁
  cases found₁
  have variant := h.variant_eq found found' same
  unfold SortRecord.variant at variant
  cases made' : sort'.body <;> rw [made, made'] at variant <;> try cases variant
  rename_i components'
  have splits' : c.Splits d components' := ⟨sort', found', made'⟩
  refine Or.inr ⟨components', splits', fun part inside ↦ ?_⟩
  obtain ⟨other, among, twins'⟩ :=
    h.exists_encloses_of_twins twins.symm (splits'.encloses_iff.mpr inside)
  have splits : c.Splits b components := ⟨sort, found, made⟩
  exact (each other (splits.encloses_iff.mp among)).congr twins'.symm

/-- What a sort presents is presented where the sort is contained, unless it is the sort itself, up
to displays. -/
theorem presents_of_contains (contains : c.Contains a b) (presents : c.Presents b d)
    (differs : ¬ c.Twins b d) : c.Presents a d := by
  rcases contains with inside | ⟨components, splits, each⟩
  · exact h.presents_trans inside presents
  · obtain ⟨part, among, presents⟩ := presents.exists_encloses differs
    exact h.presents_trans (each part (splits.encloses_iff.mp among)) presents

/-- A sort that contains a sort which contains another one contains that if and only if it presents
either of them, or no component of the last one has the display of the one between. -/
theorem contains_trans_iff (first : c.Contains a b) (next : c.Contains b d) :
    c.Contains a d ↔ c.Presents a b ∨ c.Presents a d ∨
      ∀ components, c.Splits d components → ∀ part ∈ components, ¬ c.Twins part b := by
  constructor
  · rintro (presents | ⟨components, splits, each⟩)
    · exact Or.inr (Or.inl presents)
    by_cases between : ∃ part ∈ components, c.Twins part b
    · obtain ⟨part, inside, twins⟩ := between
      exact Or.inl ((each part inside).congr twins)
    · refine Or.inr (Or.inr fun components' splits' part inside twins ↦ between ⟨part, ?_, twins⟩)
      exact splits.unique splits' ▸ inside
  · rintro (presents | presents | apart)
    · exact h.contains_of_presents presents next
    · exact Or.inl presents
    rcases next with presents | ⟨components, splits, each⟩
    · by_cases twins : c.Twins b d
      · exact h.contains_congr first twins
      · exact Or.inl (h.presents_of_contains first presents twins)
    · refine Or.inr ⟨components, splits, fun part inside ↦ ?_⟩
      exact h.presents_of_contains first (each part inside) fun twins ↦
        apart components splits part inside twins.symm

end Rested

end Catalog

end CompositeSorts
