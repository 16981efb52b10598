import CompositeSorts.Proofs.Catalog.Containment

/-!
The search behind containment is exact, circles or not (`contains_exact`). A sort contains another
one if and only if what it holds, over any number of steps, displays as the other one, or as each of
its components if it is a disjunction. Between its steps (`Advances`) the search keeps what it has
visited and what it has to do, and whatever is to be found is ahead of something that is still to do
and was not visited (`Searched.exists_ahead`): all that is directly inside a visited sort was
visited or is to do, and the sort that is looked for was not visited, so the way there leaves what
was visited at some point. That the siblings of a sort share what was visited hides nothing.
-/

set_option autoImplicit false
set_option relaxedAutoImplicit false

namespace CompositeSorts

namespace Catalog

variable {c : Catalog} {a b id goal inner outer : SortId} {sort : SortRecord}
  {visited todo : List SortId}

/-- The one sort is a direct part of the other: a component of a disjunction, the base or the weight
of an attribute, the instance of a recursive sort, or an aspect of a tuple. -/
inductive HasPart (c : Catalog) (outer : SortId) : SortId → Prop where
  | component {sort : SortRecord} {components : List SortId} {part : SortId}
    (found : c.get outer = .ok sort) (made : sort.body = .disjunctive components)
    (inside : part ∈ components) : HasPart c outer part
  | base {sort : SortRecord} {base weight : SortId} (found : c.get outer = .ok sort)
    (made : sort.body = .weighted base weight) : HasPart c outer base
  | weight {sort : SortRecord} {base weight : SortId} (found : c.get outer = .ok sort)
    (made : sort.body = .weighted base weight) : HasPart c outer weight
  | instance {sort : SortRecord} {target : SortId} (found : c.get outer = .ok sort)
    (made : sort.body = .recursive (some target)) : HasPart c outer target
  | aspect {sort : SortRecord} {category : String} {own arguments : List SortId} {part : SortId}
    (found : c.get outer = .ok sort) (made : sort.body = .aspects category own arguments)
    (inside : part ∈ own) : HasPart c outer part

/-- The first sort holds, over any number of steps, a sort of the display of the second one. -/
def Displays (c : Catalog) (a b : SortId) : Prop :=
  ∃ inner, Relation.ReflTransGen c.HasPart a inner ∧ c.Twins inner b

/-- Where a search is: what it has visited, and what it has to do. -/
structure Search where
  visited : List SortId
  todo : List SortId

/-- One step of a search: its next sort is not what is looked for, and was visited before or is
visited now. -/
inductive Advances (c : Catalog) (goal : SortId) : Search → Search → Prop where
  | skip {visited others : List SortId} {id : SortId} (live : c.Live id)
    (differs : ¬ c.Twins id goal) (known : id ∈ visited) :
    Advances c goal ⟨visited, id :: others⟩ ⟨visited, others⟩
  | visit {visited others : List SortId} {id : SortId} {sort : SortRecord}
    (found : c.get id = .ok sort) (differs : ¬ c.Twins id goal) (new : id ∉ visited) :
    Advances c goal ⟨visited, id :: others⟩ ⟨id :: visited, sort.children ++ others⟩

/-- What the search goes through is what sorts hold. -/
theorem encloses_iff_hasPart : c.Encloses outer inner ↔ c.HasPart outer inner := by
  constructor
  · intro encloses
    obtain ⟨sort, found, inside⟩ := encloses.exists_sort
    unfold SortRecord.children at inside
    cases made : sort.body <;> rw [made] at inside
    case primitive | aspect => cases inside
    case weighted base weight =>
      rcases List.mem_pair.mp inside with rfl | rfl
      · exact .base found made
      · exact .weight found made
    case disjunctive components => exact .component found made inside
    case aspects category own arguments => exact .aspect found made inside
    case recursive target =>
      obtain rfl := Option.mem_toList.mp inside
      exact .instance found made
  · intro holds
    cases holds with
    | component found made inside | aspect found made inside =>
      rw [encloses_iff found, SortRecord.children, made]
      exact inside
    | base found made | weight found made | «instance» found made =>
      rw [encloses_iff found, SortRecord.children, made]
      simp

theorem encloses_eq_hasPart : c.Encloses = c.HasPart := by
  funext outer inner
  exact propext encloses_iff_hasPart

theorem presents_iff_displays : c.Presents a b ↔ c.Displays a b := by
  rw [Presents, Displays, encloses_eq_hasPart]

/-! ### The search, step by step -/

/-- A sort that was not visited and that the search passes on the way from where it began is ahead
of something that is to do and was not visited. -/
theorem Searched.exists_ahead (h : c.Searched goal visited todo) (start : a ∈ visited ∨ a ∈ todo)
    (path : Relation.ReflTransGen c.Encloses a inner) (new : inner ∉ visited) :
    ∃ next ∈ todo, next ∉ visited ∧ Relation.ReflTransGen c.Encloses next inner := by
  induction path using Relation.ReflTransGen.head_induction_on with
  | refl => exact ⟨inner, start.resolve_left new, new, .refl⟩
  | @head id next step path ih =>
    by_cases known : id ∈ visited
    · exact ih ((h id known).2 next step)
    · exact ⟨id, start.resolve_left known, known, path.head step⟩

/-- The search began at a live sort, only visited what it does not look for, and has live sorts to
do. -/
structure Underway (c : Catalog) (a goal : SortId) (search : Search) : Prop where
  searched : c.Searched goal search.visited search.todo
  start : a ∈ search.visited ∨ a ∈ search.todo
  live : ∀ id ∈ search.todo, c.Live id

variable {search search' : Search}

theorem underway_start (live : c.Live a) : c.Underway a goal ⟨[], [a]⟩ where
  searched := fun _ inside ↦ absurd inside List.not_mem_nil
  start := Or.inr List.mem_cons_self
  live := by simpa using live

theorem Underway.step (h : c.Underway a goal search)
    (linked : ∀ outer inner, c.Encloses outer inner → c.Live inner)
    (advances : c.Advances goal search search') : c.Underway a goal search' := by
  obtain ⟨searched, start, live⟩ := h
  cases advances with
  | @skip visited others id _ _ known =>
    refine ⟨searched.tail known, ?_, fun other inside ↦ live other (List.mem_cons_of_mem _ inside)⟩
    rcases start with visited | todo
    · exact Or.inl visited
    · rcases List.mem_cons.mp todo with rfl | todo
      · exact Or.inl known
      · exact Or.inr todo
  | @visit visited others id sort found differs new =>
    refine ⟨searched.visit found differs, ?_, fun other inside ↦ ?_⟩
    · rcases start with visited | todo
      · exact Or.inl (List.mem_cons_of_mem _ visited)
      · rcases List.mem_cons.mp todo with rfl | todo
        · exact Or.inl List.mem_cons_self
        · exact Or.inr (List.mem_append_right _ todo)
    · rcases List.mem_append.mp inside with inside | inside
      · exact linked id other ((encloses_iff found).mpr inside)
      · exact live other (List.mem_cons_of_mem _ inside)

theorem Underway.run (h : c.Underway a goal search)
    (linked : ∀ outer inner, c.Encloses outer inner → c.Live inner)
    (run : Relation.ReflTransGen (c.Advances goal) search search') : c.Underway a goal search' := by
  induction run with
  | refl => exact h
  | tail _ advances ih => exact ih.step linked advances

/-- A step does not change what the search answers. -/
theorem Advances.answer_eq (advances : c.Advances goal search search') (rooted : c.Rooted)
    (live : c.Live goal) : c.reachesFrom goal search'.visited search'.todo =
      c.reachesFrom goal search.visited search.todo := by
  obtain ⟨target, foundGoal⟩ := live
  cases advances with
  | @skip visited others id live differs known =>
    obtain ⟨sort, found⟩ := live
    rw [reachesFrom_cons found foundGoal, if_neg, if_pos known]
    rwa [same_iff_twins rooted found foundGoal]
  | @visit visited others id sort found differs new =>
    rw [reachesFrom_cons found foundGoal, if_neg, if_neg new]
    rwa [same_iff_twins rooted found foundGoal]

/-- The steps of a search lead to its answer. -/
theorem answer_eq_of_run (rooted : c.Rooted) (live : c.Live goal)
    (run : Relation.ReflTransGen (c.Advances goal) search search') :
    c.reachesFrom goal search'.visited search'.todo =
      c.reachesFrom goal search.visited search.todo := by
  induction run with
  | refl => rfl
  | tail _ advances ih => rw [advances.answer_eq rooted live, ih]

/-- A search goes on until nothing is to do or the next sort is what is looked for. -/
theorem exists_advances (live : ∀ id ∈ search.todo, c.Live id) :
    search.todo = [] ∨ (∃ id others, search.todo = id :: others ∧ c.Twins id goal) ∨
      ∃ search', c.Advances goal search search' := by
  obtain ⟨visited, todo⟩ := search
  cases todo with
  | nil => exact Or.inl rfl
  | cons id others =>
    refine Or.inr ?_
    obtain ⟨sort, found⟩ := live id List.mem_cons_self
    by_cases twins : c.Twins id goal
    · exact Or.inl ⟨id, others, rfl, twins⟩
    · by_cases known : id ∈ visited
      · exact Or.inr ⟨_, .skip ⟨sort, found⟩ twins known⟩
      · exact Or.inr ⟨_, .visit found twins known⟩

end Catalog

namespace Registry

open Catalog

variable {r : Registry}

/-- In a registry that texts have built, whether a live sort contains another one is answered, with
yes if and only if what the first one holds, over any number of steps, displays as the second one,
or the second one is a disjunction and what the first one holds displays as each of its components.
At each moment of the search for a live sort, what displays as it and is held by the first sort is
held, over any number of steps, by a sort that is to do and that was not visited, the search ends or
goes on, and the answer is still that of the whole search. -/
theorem contains_exact (reached : Reachable ByText r) {a b : SortId} (liveA : r.catalog.Live a)
    (liveB : r.catalog.Live b) :
    (∃ answer, r.catalog.contains a b = .ok answer ∧
      (answer = true ↔ r.catalog.Displays a b ∨ ∃ components, r.catalog.Splits b components ∧
        ∀ part ∈ components, r.catalog.Displays a part)) ∧
    ∀ goal, r.catalog.Live goal → ∀ search,
      Relation.ReflTransGen (r.catalog.Advances goal) ⟨[], [a]⟩ search →
      (∀ inner, Relation.ReflTransGen r.catalog.HasPart a inner → r.catalog.Twins inner goal →
        ∃ next ∈ search.todo, next ∉ search.visited ∧
          Relation.ReflTransGen r.catalog.HasPart next inner) ∧
      (search.todo = [] ∨ (∃ id others, search.todo = id :: others ∧ r.catalog.Twins id goal) ∨
        ∃ search', r.catalog.Advances goal search search') ∧
      r.catalog.reachesFrom goal search.visited search.todo = r.catalog.reaches a goal := by
  have rested := reached.rested
  constructor
  · obtain ⟨answer, ended, right⟩ := rested.exists_contains liveA liveB
    refine ⟨answer, ended, right.trans ?_⟩
    simp only [Contains, presents_iff_displays]
  · intro goal live search run
    have underway := (underway_start liveA).run (fun _ _ ↦ rested.live_of_encloses) run
    refine ⟨fun inner path twins ↦ ?_, exists_advances underway.live,
      answer_eq_of_run rested.toRooted live run⟩
    have new : inner ∉ search.visited := fun known ↦ (underway.searched inner known).1 twins
    rw [← encloses_eq_hasPart] at path ⊢
    exact underway.searched.exists_ahead underway.start path new

/-- Two recursive sorts that stand for each other: `p` is an attribute with the weight `q`, which is
a disjunction of a label, `p` and itself. -/
def circularSample : Registry :=
  sample.perform (.defineAll "x: [Label] x; y: [Label] y; p: x ^ (q: x + p + q)")

/-- The sort `p`, which is `4`, contains `q`, which is `6`, and does not contain `y`, which is
`3`. -/
theorem contains_exact_sample :
    circularSample.catalog.contains ⟨⟨0⟩, ⟨4, 0⟩⟩ ⟨⟨0⟩, ⟨6, 0⟩⟩ = .ok true ∧
      circularSample.catalog.contains ⟨⟨0⟩, ⟨4, 0⟩⟩ ⟨⟨0⟩, ⟨3, 0⟩⟩ = .ok false := by
  have reached : Reachable ByText circularSample := (reachable_sample _).next (by decide +kernel)
  let id (number : Nat) : SortId := ⟨⟨0⟩, ⟨number, 0⟩⟩
  obtain ⟨live, first, second, closed, apart, plain⟩ :
      (∀ number ∈ [3, 4, 6], circularSample.catalog.Live (id number)) ∧
        circularSample.catalog.Encloses (id 4) (id 7) ∧
        circularSample.catalog.Encloses (id 7) (id 6) ∧
        (∀ outer ∈ [id 4, id 7, id 1, id 6, id 5],
          ∀ inner ∈ circularSample.catalog.enclosed outer,
            inner ∈ [id 4, id 7, id 1, id 6, id 5]) ∧
        (∀ inner ∈ [id 4, id 7, id 1, id 6, id 5], ¬ circularSample.catalog.Twins inner (id 3)) ∧
        ∀ sort ∈ (circularSample.catalog.get (id 3)).toOption, sort.variant ≠ .disjunctive := by
    decide +kernel
  constructor
  · obtain ⟨⟨answer, ended, right⟩, -⟩ :=
      contains_exact reached (live 4 (by simp)) (live 6 (by simp))
    have inside : circularSample.catalog.Displays (id 4) (id 6) :=
      ⟨id 6, .head (encloses_iff_hasPart.mp first) (.single (encloses_iff_hasPart.mp second)),
        .refl (live 6 (by simp))⟩
    rw [ended, right.mpr (Or.inl inside)]
  · obtain ⟨⟨answer, ended, right⟩, -⟩ :=
      contains_exact reached (live 4 (by simp)) (live 3 (by simp))
    have outside : answer ≠ true := by
      intro yes
      rcases right.mp yes with displays | ⟨components, ⟨sort, found, made⟩, -⟩
      · obtain ⟨inner, among, twins⟩ :=
          (presents_iff_displays.mpr displays).exists_twins closed List.mem_cons_self
        exact apart inner among twins
      · exact plain sort (by rw [found]; rfl) (by rw [SortRecord.variant, made]; rfl)
    rw [ended, Bool.eq_false_of_not_eq_true outside]

end Registry

end CompositeSorts
