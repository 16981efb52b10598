import CompositeSorts.Proofs.Matching.Asking

/-!
Findings without a memory. The finding of two sorts can also be worked out from nothing but the
catalog: each question of a rule is worked out in the same way, up to a bounded depth
(`Catalog.unaided`). This fails for sorts that lead back to themselves, where the questions never
end; where it succeeds, it says what the finding is, whatever was found before.

A sort is *distinct* when no sort that it leads to shares its display with another sort. For
distinct sorts, the finding that is made with an empty memory, without meeting a pair that is under
way, is the unaided one (`traced_relate`). And whatever is matched, and however it was found,
nothing but unaided findings is remembered of distinct sorts that have one (`tracked_relate`).
-/

set_option autoImplicit false
set_option relaxedAutoImplicit false

namespace CompositeSorts

open Catalog Matching

variable {α : Type} {c : Catalog} {near : SortId → Prop} {memory : Memory}
  {left right id part : SortId} {l r : SortRecord} {underWay : List PairKey} {finding : Finding}
  {bound : Nat}

namespace Appraisal

/-- Answers questions from a table, and refuses the others. -/
def given (table : SortId → SortId → Option Finding) : Appraiser := fun left right ↦
  match table left right with
  | some finding => pure finding
  | none => throw (.dead left)

/-- This is what the computation answers, when its questions are answered from the table. -/
def Tells (table : SortId → SortId → Option Finding) (rule : Appraiser → Appraisal α)
    (answer : α) : Prop := ∃ later, rule (given table) .empty = .ok answer later

variable {table table' : SortId → SortId → Option Finding} {rule : Appraiser → Appraisal α}
  {answer answer' : α}

theorem Tells.pure (answer : α) : Tells table (fun _ ↦ Pure.pure answer) answer := ⟨_, rfl⟩

theorem Tells.eq_of_pure (h : Tells table (fun _ ↦ Pure.pure answer) answer') :
    answer' = answer := by
  obtain ⟨later, run⟩ := h
  cases run
  rfl

theorem not_tells_throw {reason : Refusal} :
    ¬ Tells table (fun _ ↦ MonadExcept.throw reason) answer := by
  rintro ⟨later, run⟩
  cases run

/-- A question is answered from the table, and then the computation goes on. -/
theorem tells_ask_iff {next : Finding → Appraiser → Appraisal α} :
    Tells table (fun relate ↦ relate left right >>= fun finding ↦ next finding relate) answer ↔
      ∃ finding, table left right = some finding ∧ Tells table (next finding) answer := by
  cases entry : table left right with
  | none =>
    refine ⟨?_, fun h ↦ ?_⟩
    · rintro ⟨later, run⟩
      change EStateM.bind (given table left right) _ .empty = _ at run
      unfold given EStateM.bind at run
      rw [entry] at run
      cases run
    · obtain ⟨finding, ⟨⟩, -⟩ := h
  | some finding =>
    have goes : (given table left right >>= fun finding ↦ next finding (given table)) .empty =
        next finding (given table) .empty := by
      change EStateM.bind (given table left right) _ .empty = _
      unfold given EStateM.bind
      rw [entry]
      rfl
    constructor
    · rintro ⟨later, run⟩
      exact ⟨finding, rfl, later, goes.symm.trans run⟩
    · rintro ⟨_, ⟨⟩, later, run⟩
      exact ⟨later, goes.trans run⟩

/-- More answers in the table do no harm. -/
theorem Tells.mono (asks : Asks near rule) (h : Tells table rule answer)
    (more : ∀ left right finding, table left right = some finding →
      table' left right = some finding) : Tells table' rule answer := by
  induction asks with
  | pure value =>
    obtain rfl := h.eq_of_pure
    exact .pure _
  | throw reason => exact (not_tells_throw h).elim
  | ask isLeft isRight _ ih =>
    obtain ⟨finding, entry, h⟩ := tells_ask_iff.mp h
    exact tells_ask_iff.mpr ⟨finding, more _ _ _ entry, ih finding h⟩

end Appraisal

open Appraisal

/-- The finding of two sorts as far as it can be worked out within a depth, without a memory. -/
def Catalog.unaided (c : Catalog) : Nat → SortId → SortId → Option Finding
  | 0, _, _ => none
  | bound + 1, left, right =>
    match c.get left, c.get right with
    | .ok l, .ok r =>
      if left = right then some (.identity l)
      else
        match forVariants c (given (c.unaided bound)) l r .empty with
        | .ok finding _ => some finding
        | .error _ _ => none
    | _, _ => none

namespace Catalog

theorem unaided_same (found : c.get id = .ok l) (bound : Nat) :
    c.unaided (bound + 1) id id = some (.identity l) := by
  rw [unaided, found]
  exact if_pos rfl

theorem unaided_eq_some_iff (foundLeft : c.get left = .ok l) (foundRight : c.get right = .ok r)
    (differ : left ≠ right) : c.unaided (bound + 1) left right = some finding ↔
      Tells (c.unaided bound) (fun relate ↦ forVariants c relate l r) finding := by
  unfold Tells
  rw [unaided, foundLeft, foundRight]
  dsimp only
  rw [if_neg differ]
  cases forVariants c (given (c.unaided bound)) l r .empty with
  | ok other later =>
    constructor
    · rintro ⟨⟩
      exact ⟨later, rfl⟩
    · rintro ⟨later, ⟨⟩⟩
      rfl
  | error reason later =>
    constructor
    · rintro ⟨⟩
    · rintro ⟨later, ⟨⟩⟩

/-- The unaided finding of the sorts, if they have one, and no other. -/
def Unaided (c : Catalog) (left right : SortId) (finding : Finding) : Prop :=
  ∃ bound, c.unaided bound left right = some finding

theorem Unaided.live (h : c.Unaided left right finding) :
    ∃ l r, c.get left = .ok l ∧ c.get right = .ok r := by
  obtain ⟨_ | bound, worked⟩ := h
  · cases worked
  · rw [unaided] at worked
    split at worked
    · exact ⟨_, _, ‹_›, ‹_›⟩
    · cases worked

theorem Unaided.eq_identity (h : c.Unaided id id finding) (found : c.get id = .ok l) :
    finding = .identity l := by
  obtain ⟨_ | bound, worked⟩ := h
  · cases worked
  · rw [unaided_same found] at worked
    exact (Option.some.inj worked).symm

theorem unaided_succ (rooted : c.Rooted) (worked : c.unaided bound left right = some finding) :
    c.unaided (bound + 1) left right = some finding := by
  induction bound generalizing left right finding with
  | zero => cases worked
  | succ bound ih =>
    obtain ⟨l, r, foundLeft, foundRight⟩ := Unaided.live ⟨_, worked⟩
    by_cases same : left = right
    · subst same
      rwa [unaided_same foundLeft] at worked ⊢
    · have asks : Asks (fun _ ↦ True) fun relate ↦ forVariants c relate l r :=
        asks_forVariants (rooted.placed foundLeft ▸ foundLeft)
          (rooted.placed foundRight ▸ foundRight)
          (fun _ _ ↦ trivial) trivial trivial
      rw [unaided_eq_some_iff foundLeft foundRight same] at worked ⊢
      exact worked.mono asks fun _ _ _ ↦ ih

/-- What is worked out within a depth is worked out within any greater one. -/
theorem unaided_mono (rooted : c.Rooted) {bound' : Nat} (le : bound ≤ bound')
    (worked : c.unaided bound left right = some finding) :
    c.unaided bound' left right = some finding := by
  induction le with
  | refl => exact worked
  | step _ ih => exact unaided_succ rooted ih

/-- No sort that the sort leads to shares its display with another live sort. -/
def Distinct (c : Catalog) (id : SortId) : Prop :=
  ∀ part other sort sort', c.Reaches id part → c.get part = .ok sort → c.get other = .ok sort' →
    sort'.display = sort.display → other = part

theorem Distinct.closed (leads : c.LeadsTo id part) (h : c.Distinct id) : c.Distinct part :=
  fun inner other sort sort' reaches ↦ h inner other sort sort' (.head leads reaches)

theorem Distinct.eq_of_display (h : c.Distinct id) {other : SortId} {sort sort' : SortRecord}
    (found : c.get id = .ok sort) (found' : c.get other = .ok sort')
    (same : sort'.display = sort.display) : other = id :=
  h id other sort sort' .refl found found' same

end Catalog

/-- The finding does not contradict an unaided one. -/
def Catalog.Agreed (c : Catalog) (left right : SortId) (finding : Finding) : Prop :=
  ∀ other, c.Unaided left right other → finding = other

/-- What is remembered of distinct sorts is good. -/
def Memory.Keeps (c : Catalog) (good : SortId → SortId → Finding → Prop) (memory : Memory) : Prop :=
  ∀ left right l r finding, c.get left = .ok l → c.get right = .ok r → c.Distinct left →
    c.Distinct right → memory.known ⟨l.display, r.display⟩ = some finding → good left right finding

variable {good : SortId → SortId → Finding → Prop}

theorem Memory.keeps_empty (c : Catalog) (good : SortId → SortId → Finding → Prop) :
    Memory.empty.Keeps c good := by
  rintro left right l r finding - - - - ⟨⟩

/-- Distinct sorts are the only ones of their displays, so nothing else is remembered for them. -/
theorem Memory.Keeps.learn (h : memory.Keeps c good) (foundLeft : c.get left = .ok l)
    (foundRight : c.get right = .ok r)
    (here : c.Distinct left → c.Distinct right → good left right finding) :
    (memory.learn ⟨l.display, r.display⟩ finding).Keeps c good := by
  intro left' right' l' r' other foundLeft' foundRight' isLeft isRight known
  by_cases same : (⟨l'.display, r'.display⟩ : PairKey) = ⟨l.display, r.display⟩
  · obtain ⟨sameLeft, sameRight⟩ := PairKey.mk.inj same
    obtain rfl := isLeft.eq_of_display foundLeft' foundLeft sameLeft.symm
    obtain rfl := isRight.eq_of_display foundRight' foundRight sameRight.symm
    unfold Memory.learn at known
    dsimp only at known
    rw [same, Function.update_self] at known
    cases known
    exact here isLeft isRight
  · unfold Memory.learn at known
    dsimp only at known
    rw [Function.update_of_ne same] at known
    exact h _ _ _ _ _ foundLeft' foundRight' isLeft isRight known

theorem Memory.Keeps.broken (h : memory.Keeps c good) :
    { memory with broken := true }.Keeps c good := h

/-! ### Findings that were made without meeting a pair under way -/

namespace Appraisal

/-- If no pair was met that was under way, then none had been met before, and if only unaided
findings were remembered, then this is so still, and `worked` holds. -/
def Traced (c : Catalog) (before : Memory) (worked : Prop) (later : Memory) : Prop :=
  later.broken = false → before.broken = false ∧
    (before.Keeps c c.Unaided → later.Keeps c c.Unaided ∧ worked)

variable {plain : Appraiser} {rule : Appraiser → Appraisal α}

/-- What holds of the questions of a rule holds of the rule. -/
theorem ends_traced (rooted : c.Rooted) (asks : Asks c.Distinct rule)
    (inside : ∀ left right memory, c.Distinct left → c.Distinct right →
      Ends (plain left right) memory
        (fun finding later ↦ Traced c memory (c.Unaided left right finding) later) fun _ ↦ True) :
    Ends (rule plain) memory
      (fun answer later ↦ Traced c memory (∃ bound, Tells (c.unaided bound) rule answer) later)
      fun _ ↦ True := by
  induction asks generalizing memory with
  | pure answer => exact Ends.pure fun quiet ↦ ⟨quiet, fun kept ↦ ⟨kept, 0, .pure answer⟩⟩
  | throw reason => exact Ends.throw trivial
  | ask isLeft isRight goes ih =>
    refine Ends.bind ((inside _ _ memory isLeft isRight).mono (fun finding middle first ↦ ?_)
      fun _ _ ↦ trivial)
    refine (ih finding).mono (fun answer later second quiet ↦ ?_) fun _ _ ↦ trivial
    obtain ⟨quiet, more⟩ := second quiet
    obtain ⟨quiet, start⟩ := first quiet
    refine ⟨quiet, fun kept ↦ ?_⟩
    obtain ⟨kept, bound, worked⟩ := start kept
    obtain ⟨kept, bound', tells⟩ := more kept
    refine ⟨kept, max bound bound', tells_ask_iff.mpr ⟨finding, ?_, ?_⟩⟩
    · exact unaided_mono rooted (Nat.le_max_left _ _) worked
    · exact tells.mono (goes finding) fun _ _ _ ↦ unaided_mono rooted (Nat.le_max_right _ _)

/-- Matching distinct sorts without meeting a pair under way makes the unaided finding. -/
theorem traced_relate (rooted : c.Rooted) (underWay : List PairKey) (left right : SortId)
    (memory : Memory) (isLeft : c.Distinct left) (isRight : c.Distinct right) :
    Ends (relate c underWay left right) memory
      (fun finding later ↦ Traced c memory (c.Unaided left right finding) later) fun _ ↦ True := by
  cases foundLeft : c.get left with
  | error reason =>
    rw [relate_of_missing_left foundLeft]
    exact Ends.throw trivial
  | ok l =>
    cases foundRight : c.get right with
    | error reason =>
      rw [relate_of_missing_right foundLeft foundRight]
      exact Ends.throw trivial
    | ok r =>
      rw [relate_of_found foundLeft foundRight]
      split_ifs with same met
      · subst same
        exact Ends.pure fun quiet ↦ ⟨quiet, fun kept ↦ ⟨kept, 1, unaided_same foundLeft 0⟩⟩
      · refine Ends.bind (Ends.modify (Ends.pure ?_))
        rintro ⟨⟩
      · refine Ends.bind (Ends.get ?_)
        split
        · rename_i known entry
          exact Ends.pure fun quiet ↦ ⟨quiet, fun kept ↦
            ⟨kept, kept _ _ _ _ _ foundLeft foundRight isLeft isRight entry⟩⟩
        · have inside := traced_relate rooted (⟨l.display, r.display⟩ :: underWay)
          have asks : Asks c.Distinct fun relate ↦ forVariants c relate l r :=
            asks_forVariants (rooted.placed foundLeft ▸ foundLeft)
              (rooted.placed foundRight ▸ foundRight) Distinct.closed
              (rooted.placed foundLeft ▸ isLeft) (rooted.placed foundRight ▸ isRight)
          refine Ends.bind ((ends_traced rooted asks inside).mono (fun finding later traced ↦ ?_)
            fun _ _ ↦ trivial)
          have worked {bound : Nat} (tells : Tells (c.unaided bound)
              (fun relate ↦ forVariants c relate l r) finding) : c.Unaided left right finding :=
            ⟨bound + 1, (unaided_eq_some_iff foundLeft foundRight same).mpr tells⟩
          refine Ends.bind (Ends.get ?_)
          split
          · rename_i known entry
            refine Ends.pure fun quiet ↦ ⟨(traced quiet).1, fun kept ↦ ?_⟩
            obtain ⟨kept, -⟩ := (traced quiet).2 kept
            exact ⟨kept, kept _ _ _ _ _ foundLeft foundRight isLeft isRight entry⟩
          · refine Ends.bind (Ends.modify (Ends.pure fun quiet ↦ ⟨(traced quiet).1, fun kept ↦ ?_⟩))
            obtain ⟨kept, bound, tells⟩ := (traced quiet).2 kept
            exact ⟨kept.learn foundLeft foundRight fun _ _ ↦ worked tells, worked tells⟩
termination_by (unvisited c.pairKeys underWay).length
decreasing_by
  exact length_unvisited_cons_lt (Catalog.pairKey_mem_pairKeys ‹_› ‹_›) ‹_›

/-! ### Findings that are made in any circumstances -/

/-- What holds of the questions of a rule holds of the rule: wherever its unaided answer is
possible, it is given. -/
theorem ends_tracked (possible : Nat → Prop) (asks : Asks near rule)
    (inside : ∀ left right memory, near left → near right →
      (∀ bound, possible bound → ∃ finding, c.unaided bound left right = some finding) →
      memory.Keeps c c.Agreed → Ends (plain left right) memory
        (fun finding later ↦ later.Keeps c c.Agreed ∧
          ∀ bound, possible bound → c.unaided bound left right = some finding)
        fun later ↦ later.Keeps c c.Agreed ∧ ∀ bound, ¬ possible bound)
    (kept : memory.Keeps c c.Agreed)
    (answers : ∀ bound, possible bound → ∃ answer, Tells (c.unaided bound) rule answer) :
    Ends (rule plain) memory
      (fun answer later ↦ later.Keeps c c.Agreed ∧
        ∀ bound, possible bound → Tells (c.unaided bound) rule answer)
      fun later ↦ later.Keeps c c.Agreed ∧ ∀ bound, ¬ possible bound := by
  induction asks generalizing memory with
  | pure answer => exact Ends.pure ⟨kept, fun _ _ ↦ .pure answer⟩
  | throw reason =>
    refine Ends.throw ⟨kept, fun bound is ↦ ?_⟩
    obtain ⟨answer, tells⟩ := answers bound is
    exact not_tells_throw tells
  | @ask left right next isLeft isRight goes ih =>
    have worked : ∀ bound, possible bound → ∃ finding,
        c.unaided bound left right = some finding := by
      intro bound is
      obtain ⟨answer, tells⟩ := answers bound is
      obtain ⟨finding, worked, -⟩ := tells_ask_iff.mp tells
      exact ⟨finding, worked⟩
    refine Ends.bind ((inside _ _ memory isLeft isRight worked kept).mono
      (fun finding middle first ↦ ?_) fun _ failed ↦ failed)
    obtain ⟨kept, found⟩ := first
    refine (ih finding kept fun bound is ↦ ?_).mono (fun answer later second ↦ ⟨second.1,
      fun bound is ↦ tells_ask_iff.mpr ⟨finding, found bound is, second.2 bound is⟩⟩)
      fun _ failed ↦ failed
    obtain ⟨answer, tells⟩ := answers bound is
    obtain ⟨other, worked, tells⟩ := tells_ask_iff.mp tells
    rw [found bound is] at worked
    cases worked
    exact ⟨answer, tells⟩

/-- Where distinct sorts are under way that have an unaided finding, these sorts are asked about for
its sake: they are distinct, and their unaided finding takes less depth. -/
def Beneath (c : Catalog) (underWay : List PairKey) (left right : SortId) : Prop :=
  ∀ above above' sort sort' bound finding, c.get above = .ok sort → c.get above' = .ok sort' →
    c.Distinct above → c.Distinct above' → ⟨sort.display, sort'.display⟩ ∈ underWay →
    c.unaided bound above above' = some finding →
    c.Distinct left ∧ c.Distinct right ∧
      ∃ less < bound, ∃ finding, c.unaided less left right = some finding

theorem beneath_nil : Beneath c [] left right := by
  rintro above above' sort sort' bound finding - - - - ⟨⟩

/-- Distinct sorts that are under way themselves have no unaided finding. -/
theorem Beneath.none_of_mem (h : Beneath c underWay left right) (foundLeft : c.get left = .ok l)
    (foundRight : c.get right = .ok r) (isLeft : c.Distinct left) (isRight : c.Distinct right)
    (met : ⟨l.display, r.display⟩ ∈ underWay) (finding : Finding) :
    ¬ c.Unaided left right finding := by
  rintro ⟨bound, worked⟩
  induction bound using Nat.strong_induction_on generalizing finding with
  | _ bound ih =>
    obtain ⟨-, -, less, lower, other, worked'⟩ :=
      h _ _ _ _ _ _ foundLeft foundRight isLeft isRight met worked
    exact ih less lower other worked'

/-- Sorts that are asked about while these are under way. -/
theorem Beneath.next (h : Beneath c underWay left right) (foundLeft : c.get left = .ok l)
    (foundRight : c.get right = .ok r) {part part' : SortId}
    (lower : ∀ bound finding, c.Distinct left → c.Distinct right →
      c.unaided (bound + 1) left right = some finding → c.Distinct part ∧ c.Distinct part' ∧
        ∃ finding, c.unaided bound part part' = some finding) :
    Beneath c (⟨l.display, r.display⟩ :: underWay) part part' := by
  have down : ∀ bound finding, c.Distinct left → c.Distinct right →
      c.unaided bound left right = some finding → c.Distinct part ∧ c.Distinct part' ∧
        ∃ less < bound, ∃ finding, c.unaided less part part' = some finding := by
    intro bound finding isLeft isRight worked
    cases bound with
    | zero => cases worked
    | succ bound =>
      obtain ⟨isPart, isPart', finding', worked'⟩ := lower bound finding isLeft isRight worked
      exact ⟨isPart, isPart', bound, Nat.lt_succ_self _, finding', worked'⟩
  intro above above' sort sort' bound finding found found' isAbove isAbove' met worked
  rcases List.mem_cons.mp met with same | met
  · obtain ⟨sameLeft, sameRight⟩ := PairKey.mk.inj same
    obtain rfl := isAbove.eq_of_display found foundLeft sameLeft.symm
    obtain rfl := isAbove'.eq_of_display found' foundRight sameRight.symm
    exact down bound finding isAbove isAbove' worked
  · obtain ⟨isLeft, isRight, less, lt, finding', worked'⟩ :=
      h _ _ _ _ _ _ found found' isAbove isAbove' met worked
    obtain ⟨isPart, isPart', least, lt', rest⟩ := down less finding' isLeft isRight worked'
    exact ⟨isPart, isPart', least, lt'.trans lt, rest⟩

/-- What matching does with two sorts that are asked about while others are under way. -/
abbrev Tracking (c : Catalog) (underWay : List PairKey) (plain : Appraiser) : Prop :=
  ∀ left right memory, Beneath c underWay left right → memory.Keeps c c.Agreed →
    Ends (plain left right) memory
      (fun finding later ↦ later.Keeps c c.Agreed ∧
        (c.Distinct left → c.Distinct right → c.Agreed left right finding))
      fun later ↦ later.Keeps c c.Agreed ∧
        (c.Distinct left → c.Distinct right → ∀ finding, ¬ c.Unaided left right finding)

theorem tracked_rule (rooted : c.Rooted) (foundLeft : c.get left = .ok l)
    (foundRight : c.get right = .ok r) (differ : left ≠ right)
    (beneath : Beneath c underWay left right) (kept : memory.Keeps c c.Agreed)
    (inside : Tracking c (⟨l.display, r.display⟩ :: underWay) plain) :
    Ends (forVariants c plain l r) memory
      (fun finding later ↦ later.Keeps c c.Agreed ∧
        (c.Distinct left → c.Distinct right → c.Agreed left right finding))
      fun later ↦ later.Keeps c c.Agreed ∧
        (c.Distinct left → c.Distinct right → ∀ finding, ¬ c.Unaided left right finding) := by
  let possible (bound : Nat) : Prop := c.Distinct left ∧ c.Distinct right ∧
    ∃ finding, c.unaided (bound + 1) left right = some finding
  have asks : Asks (fun id ↦ c.Distinct left → c.Distinct right → c.Distinct id)
      fun relate ↦ forVariants c relate l r :=
    asks_forVariants (rooted.placed foundLeft ▸ foundLeft) (rooted.placed foundRight ▸ foundRight)
      (fun leads above isLeft isRight ↦ (above isLeft isRight).closed leads)
      (fun isLeft _ ↦ rooted.placed foundLeft ▸ isLeft)
      (fun _ isRight ↦ rooted.placed foundRight ▸ isRight)
  refine (ends_tracked possible asks ?_ kept ?_).mono (fun finding later tracked ↦ ⟨tracked.1, ?_⟩)
    fun later tracked ↦ ⟨tracked.1, ?_⟩
  · intro part part' memory isPart isPart' worked kept
    have lower : Beneath c (⟨l.display, r.display⟩ :: underWay) part part' :=
      beneath.next foundLeft foundRight fun bound finding isLeft isRight found ↦
        ⟨isPart isLeft isRight, isPart' isLeft isRight,
          worked bound ⟨isLeft, isRight, finding, found⟩⟩
    refine (inside part part' memory lower kept).mono (fun finding later tracked ↦ ⟨tracked.1, ?_⟩)
      fun later tracked ↦ ⟨tracked.1, ?_⟩
    · rintro bound is
      obtain ⟨isLeft, isRight, -⟩ := id is
      obtain ⟨other, found⟩ := worked bound is
      rw [tracked.2 (isPart isLeft isRight) (isPart' isLeft isRight) other ⟨bound, found⟩]
      exact found
    · rintro bound is
      obtain ⟨isLeft, isRight, -⟩ := id is
      obtain ⟨other, found⟩ := worked bound is
      exact tracked.2 (isPart isLeft isRight) (isPart' isLeft isRight) other ⟨bound, found⟩
  · rintro bound ⟨-, -, finding, found⟩
    exact ⟨finding, (unaided_eq_some_iff foundLeft foundRight differ).mp found⟩
  · rintro isLeft isRight other ⟨_ | bound, found⟩
    · cases found
    · have tells := tracked.2 bound ⟨isLeft, isRight, other, found⟩
      rw [(unaided_eq_some_iff foundLeft foundRight differ).mpr tells] at found
      exact Option.some.inj found
  · rintro isLeft isRight other ⟨_ | bound, found⟩
    · cases found
    · exact tracked.2 bound ⟨isLeft, isRight, other, found⟩

/-- Whatever is matched, distinct sorts that have an unaided finding are found to be so, and nothing
else is remembered of them. -/
theorem tracked_relate (rooted : c.Rooted) (underWay : List PairKey) :
    Tracking c underWay (relate c underWay) := by
  intro left right memory beneath kept
  cases foundLeft : c.get left with
  | error reason =>
    rw [relate_of_missing_left foundLeft]
    exact Ends.throw ⟨kept, fun _ _ finding worked ↦ by
      obtain ⟨l, r, found, -⟩ := worked.live
      rw [foundLeft] at found
      cases found⟩
  | ok l =>
    cases foundRight : c.get right with
    | error reason =>
      rw [relate_of_missing_right foundLeft foundRight]
      exact Ends.throw ⟨kept, fun _ _ finding worked ↦ by
        obtain ⟨l, r, -, found⟩ := worked.live
        rw [foundRight] at found
        cases found⟩
    | ok r =>
      rw [relate_of_found foundLeft foundRight]
      split_ifs with same met
      · subst same
        exact Ends.pure ⟨kept, fun _ _ other worked ↦ (worked.eq_identity foundLeft).symm⟩
      · refine Ends.bind (Ends.modify (Ends.pure
          ⟨kept.broken, fun isLeft isRight other worked ↦ ?_⟩))
        exact (beneath.none_of_mem foundLeft foundRight isLeft isRight met other worked).elim
      · refine Ends.bind (Ends.get ?_)
        split
        · rename_i known entry
          exact Ends.pure ⟨kept, fun isLeft isRight ↦
            kept _ _ _ _ _ foundLeft foundRight isLeft isRight entry⟩
        · refine Ends.bind ((tracked_rule rooted foundLeft foundRight same beneath kept
            (tracked_relate rooted (⟨l.display, r.display⟩ :: underWay))).mono
            (fun finding later tracked ↦ ?_) fun _ failed ↦ failed)
          refine Ends.bind (Ends.get ?_)
          split
          · rename_i known entry
            exact Ends.pure ⟨tracked.1, fun isLeft isRight ↦
              tracked.1 _ _ _ _ _ foundLeft foundRight isLeft isRight entry⟩
          · exact Ends.bind (Ends.modify (Ends.pure
              ⟨tracked.1.learn foundLeft foundRight tracked.2, tracked.2⟩))
termination_by (unvisited c.pairKeys underWay).length
decreasing_by
  exact length_unvisited_cons_lt (Catalog.pairKey_mem_pairKeys ‹_› ‹_›) ‹_›

end Appraisal

end CompositeSorts
