import CompositeSorts.Proofs.Catalog.Fitting
import CompositeSorts.Proofs.Catalog.Steps

/-!
What disjunctions count. The counts of a disjunction are added up when it is made and whenever it
grows, from what its components count at the moment. A recursive sort that is not bound yet counts
as a placeholder; when it is bound it gets other counts, but the disjunctions over it are not added
up again. So it matters what came first, and dates tell this: the date of a sort is the number of
the change by which it became what it is (`Catalog.Dated`). A component counts as a placeholder
exactly if it is of a later date than the disjunction (`Reckoned.counts`).
-/

set_option autoImplicit false
set_option relaxedAutoImplicit false

namespace CompositeSorts

/-- In whatever order counts are added up, the sum is the same. -/
theorem ComponentCounts.composite_perm {counts counts' : List ComponentCounts}
    (permuted : counts.Perm counts') : composite counts = composite counts' := by
  refine permuted.foldl_eq' (fun a _ b _ total ↦ ?_) _
  simp only [add, Counter.add_right_comm]

/-- Lists that are the same up to their order by one measure are so by another one, if that follows
from the first for each two elements. -/
theorem perm_map_of_perm_map {α β γ : Type} {items items' : List α} {f : α → β} {g g' : α → γ}
    (permuted : (items.map f).Perm (items'.map f))
    (each : ∀ a ∈ items, ∀ b ∈ items', f a = f b → g a = g' b) :
    (items.map g).Perm (items'.map g') := by
  induction items generalizing items' with
  | nil =>
    rw [List.map_nil, List.nil_perm, List.map_eq_nil_iff] at permuted
    rw [permuted]
    exact .nil
  | cons a items ih =>
    obtain ⟨b, inside, same⟩ := List.mem_map.mp (permuted.subset List.mem_cons_self)
    obtain ⟨front, behind, rfl⟩ := List.append_of_mem inside
    have around {δ : Type} (h : α → δ) :
        ((front ++ b :: behind).map h).Perm (h b :: (front ++ behind).map h) :=
      List.perm_middle.map h
    have others : (items.map f).Perm ((front ++ behind).map f) := by
      have all := permuted.trans (around f)
      rw [same] at all
      exact all.cons_inv
    obtain ⟨first, rest⟩ := List.forall_mem_cons.mp each
    have behind' := ih others fun a among b' inside' ↦ rest a among b' (by
      rcases List.mem_append.mp inside' with inside' | inside'
      · exact List.mem_append_left _ inside'
      · exact List.mem_append_right _ (List.mem_cons_of_mem _ inside'))
    rw [List.map_cons, first b inside same.symm]
    exact (behind'.cons (g' b)).trans (around g').symm

namespace Catalog

variable {now : Nat} {date date' : SortId → Nat} {c d : Catalog} {id part : SortId}
  {sort old new record : SortRecord}

/-- The sorts of before the session do not lead to those made in it. -/
def Secluded (c : Catalog) : Prop :=
  ∀ id sort, c.get id = .ok sort → id ∉ c.fresh → ∀ other ∈ sort.body.handles, other ∉ c.fresh

/-- How a catalog changes: by a step, or a session begins or is rolled back, or all is cleared.
Nothing is rolled back that is led to from before the session. -/
inductive Passage (c : Catalog) : Catalog → Prop where
  | step {d : Catalog} (step : Step (fun _ ↦ True) (fun _ ↦ True) c d) : Passage c d
  | openSession : Passage c c.openSession
  | rollBack (secluded : c.Secluded) : Passage c c.rollBack
  | clear : Passage c c.clear

/-- The sorts that a change leaves as they are keep their dates, and the others get the next one. -/
structure Redated (now : Nat) (date date' : SortId → Nat) (c d : Catalog) : Prop where
  kept : ∀ id, d.get id = c.get id → date' id = date id
  changed : ∀ id, d.get id ≠ c.get id → date' id = now + 1

/-- The catalog has come about by so many changes, and these are the dates of its sorts. -/
inductive Dated : Nat → (SortId → Nat) → Catalog → Prop where
  | empty (home : RegistryId) : Dated 0 (fun _ ↦ 0) (.empty home)
  | next {now : Nat} {date date' : SortId → Nat} {c d : Catalog} (before : Dated now date c)
    (passage : c.Passage d) (redated : Redated now date date' c d) : Dated (now + 1) date' d

/-- What a component adds to the counts of a disjunction of this date. -/
def share (c : Catalog) (date : SortId → Nat) (moment : Nat) (part : SortId) : ComponentCounts :=
  match c.get part with
  | .ok sort => if moment < date part then .ofPlaceholder else sort.counts
  | .error _ => .ofPlaceholder

/-- Disjunctions without a name count what their components add, and a component that is of a later
date is a recursive sort. -/
structure Reckoned (c : Catalog) (now : Nat) (date : SortId → Nat) : Prop extends Steady c where
  past : ∀ id, date id ≤ now
  simple : ∀ {id sort}, c.get id = .ok sort → sort.name = none → sort.variant = .primitive →
    sort.counts = .ofSimple
  unbound : ∀ {id sort}, c.get id = .ok sort → sort.body = .recursive none →
    sort.counts = .ofPlaceholder
  components : ∀ {id sort}, c.get id = .ok sort → sort.Growing →
    ∀ part ∈ sort.summands, c.Component part
  counts : ∀ {id sort}, c.get id = .ok sort → sort.Growing →
    sort.counts = .composite (sort.summands.map (c.share date (date id)))
  later : ∀ {id sort part record}, c.get id = .ok sort → sort.Growing → part ∈ sort.summands →
    c.get part = .ok record → date id < date part → record.variant = .recursive

/-- The sort is a disjunction without a name, and this is a recursive sort among its components. -/
def Recurs (c : Catalog) (id part : SortId) : Prop :=
  ∃ sort record, c.get id = .ok sort ∧ sort.Growing ∧ part ∈ sort.summands ∧
    c.get part = .ok record ∧ record.variant = .recursive

theorem exists_redated (now : Nat) (date : SortId → Nat) (c d : Catalog) :
    ∃ date', Redated now date date' c d := by
  classical
  refine ⟨fun id ↦ if d.get id = c.get id then date id else now + 1, ?_, ?_⟩
  · intro id same
    exact if_pos same
  · intro id differs
    exact if_neg differs

theorem Dated.exists_next (h : Dated now date c) (passage : c.Passage d) :
    ∃ date', Dated (now + 1) date' d := by
  obtain ⟨date', redated⟩ := exists_redated now date c d
  exact ⟨date', h.next passage redated⟩

theorem share_of_get {moment : Nat} (found : c.get part = .ok record) :
    c.share date moment part =
      if moment < date part then .ofPlaceholder else record.counts := by
  unfold share
  rw [found]

theorem share_congr {moment : Nat} (get : d.get part = c.get part) (same : date' part = date part) :
    d.share date' moment part = c.share date moment part := by
  unfold share
  rw [get, same]

theorem not_live_empty (home : RegistryId) (id : SortId) : ¬ (Catalog.empty home).Live id := by
  simp [live_iff, Catalog.empty, SlotMap.get?_empty]

namespace Redated

theorem of_new (h : Redated now date date' c d) (found : d.get id = .ok new)
    (none_ : c.get id ≠ .ok new) : date' id = now + 1 :=
  h.changed id fun same ↦ none_ (same.symm.trans found)

end Redated

namespace Reckoned

theorem empty (home : RegistryId) : (Catalog.empty home).Reckoned 0 fun _ ↦ 0 where
  toSteady := .empty home
  past _ := le_rfl
  simple found := absurd ⟨_, found⟩ (not_live_empty home _)
  unbound found := absurd ⟨_, found⟩ (not_live_empty home _)
  components found := absurd ⟨_, found⟩ (not_live_empty home _)
  counts found := absurd ⟨_, found⟩ (not_live_empty home _)
  later found := absurd ⟨_, found⟩ (not_live_empty home _)

section

variable (h : c.Reckoned now date) (redated : Redated now date date' c d)

include h redated

theorem past_redated (id : SortId) : date' id ≤ now + 1 := by
  by_cases same : d.get id = c.get id
  · rw [redated.kept id same]
    exact Nat.le_succ_of_le (h.past id)
  · exact (redated.changed id same).le

/-- Sorts can go, as long as those that stay have their components. -/
theorem restrict (steady : d.Steady)
    (stays : ∀ {id sort}, d.get id = .ok sort → c.get id = .ok sort)
    (parts : ∀ {id sort}, d.get id = .ok sort → sort.Growing → ∀ part ∈ sort.summands,
      d.get part = c.get part) : d.Reckoned (now + 1) date' where
  toSteady := steady
  past := h.past_redated redated
  simple found := h.simple (stays found)
  unbound found := h.unbound (stays found)
  components found growing part inside := by
    obtain ⟨record, there, component⟩ := h.components (stays found) growing part inside
    exact ⟨record, (parts found growing part inside).trans there, component⟩
  counts {id sort} found growing := by
    have own : date' id = date id := redated.kept id (found.trans (stays found).symm)
    rw [h.counts (stays found) growing, own]
    refine congrArg _ (List.map_congr_left fun part inside ↦ ?_)
    have get := parts found growing part inside
    exact (share_congr get (redated.kept part get)).symm
  later {id sort part record} found growing inside there later := by
    have own : date' id = date id := redated.kept id (found.trans (stays found).symm)
    have get := parts found growing part inside
    rw [own, redated.kept part get] at later
    exact h.later (stays found) growing inside (get.symm.trans there) later

theorem congr (steady : d.Steady) (get : ∀ id, d.get id = c.get id) :
    d.Reckoned (now + 1) date' :=
  h.restrict redated steady (fun found ↦ (get _).symm.trans found) fun _ _ part _ ↦ get part

/-- One sort is new or changed. If it was a component of others, it has been bound, and if it is a
disjunction now, it has been added up. -/
theorem change (steady : d.Steady) (here : d.get id = .ok new) (differs : c.get id ≠ .ok new)
    (kept : ∀ other, other ≠ id → d.get other = c.get other)
    (simple : new.name = none → new.variant = .primitive → new.counts = .ofSimple)
    (unbound : new.body = .recursive none → new.counts = .ofPlaceholder)
    (bound : ∀ old, c.get id = .ok old → ¬ old.Growing → old.variant ≠ .aspects →
      old.body = .recursive none ∧ new.variant = .recursive)
    (added : new.Growing → (∀ part ∈ new.summands, part ≠ id ∧ c.Component part) ∧
      new.counts = .composite (new.summands.map (c.share date now))) :
    d.Reckoned (now + 1) date' := by
  have own : date' id = now + 1 := redated.of_new here differs
  have keeps (other : SortId) (apart : other ≠ id) : date' other = date other :=
    redated.kept other (kept other apart)
  have component (other : SortId) (component : c.Component other) : d.Component other := by
    obtain ⟨record, found, plain, fixed⟩ := component
    by_cases same : other = id
    · subst same
      obtain ⟨-, recursive⟩ := bound record found fixed plain
      exact ⟨new, here, by rw [recursive]; decide, fun growing ↦ by
        rw [growing.2] at recursive; cases recursive⟩
    · exact ⟨record, (kept other same).trans found, plain, fixed⟩
  refine ⟨steady, h.past_redated redated, ?_, ?_, ?_, ?_, ?_⟩
  · intro other sort found
    rcases changed_cases here kept found with ⟨rfl, rfl⟩ | ⟨-, before⟩
    · exact simple
    · exact h.simple before
  · intro other sort found
    rcases changed_cases here kept found with ⟨rfl, rfl⟩ | ⟨-, before⟩
    · exact unbound
    · exact h.unbound before
  · intro other sort found growing part inside
    rcases changed_cases here kept found with ⟨rfl, rfl⟩ | ⟨-, before⟩
    · exact component part ((added growing).1 part inside).2
    · exact component part (h.components before growing part inside)
  · intro other sort found growing
    rcases changed_cases here kept found with ⟨rfl, rfl⟩ | ⟨same, before⟩
    · obtain ⟨parts, counts⟩ := added growing
      rw [counts]
      refine congrArg _ (List.map_congr_left fun part inside ↦ ?_)
      obtain ⟨apart, record, there, -⟩ := parts part inside
      -- The components are of dates up to now.
      have past := h.past part
      rw [share_of_get there, share_of_get ((kept part apart).trans there), keeps part apart, own,
        if_neg (by omega), if_neg (by omega)]
    · rw [h.counts before growing, keeps other same]
      refine congrArg _ (List.map_congr_left fun part inside ↦ ?_)
      by_cases changed : part = id
      · subst changed
        obtain ⟨record, there, plain, fixed⟩ := h.components before growing part inside
        have placeholder := h.unbound there (bound record there fixed plain).1
        have past := h.past other
        rw [share_of_get there, share_of_get here, own, placeholder, ite_self, if_pos (by omega)]
      · exact (share_congr (kept part changed) (keeps part changed)).symm
  · intro other sort part record found growing inside there later
    rcases changed_cases here kept found with ⟨rfl, rfl⟩ | ⟨same, before⟩
    · obtain ⟨apart, -⟩ := (added growing).1 part inside
      have past := h.past part
      rw [own, keeps part apart] at later
      omega
    · by_cases changed : part = id
      · subst changed
        obtain ⟨record', there', plain, fixed⟩ := h.components before growing part inside
        rw [here] at there
        cases there
        exact (bound record' there' fixed plain).2
      · rw [keeps other same, keeps part changed] at later
        exact h.later before growing inside ((kept part changed).symm.trans there) later

/-- One sort is new. -/
theorem add {name : Option String} {canonical : String} {counts : ComponentCounts} {body : Body}
    (steady : d.Steady) (get : ∀ id, d.get id = (c.add name canonical counts body).get id)
    (simple : name = none → body.variant = .primitive → counts = .ofSimple)
    (unbound : body = .recursive none → counts = .ofPlaceholder)
    (added : ∀ components, name = none → body = .disjunctive components →
      (∀ part ∈ components, c.Component part) ∧
        counts = .composite (components.map (c.share date now))) :
    d.Reckoned (now + 1) date' := by
  have out := not_live_nextId h.toRooted
  refine h.change redated steady ((get _).trans (get_add_nextId h.toRooted))
    (fun found ↦ out ⟨_, found⟩) (fun other apart ↦ (get _).trans (get_add_of_ne h.toRooted apart))
    simple unbound (fun old found ↦ absurd ⟨old, found⟩ out) fun growing ↦ ?_
  obtain ⟨components, made, own⟩ := growing.body_eq
  obtain ⟨parts, counted⟩ := added components growing.1 made
  rw [own]
  refine ⟨fun part inside ↦ ⟨?_, parts part inside⟩, counted⟩
  rintro rfl
  obtain ⟨record, found, -⟩ := parts _ inside
  exact out ⟨record, found⟩

end

variable (h : c.Reckoned now date)

include h

/-- One sort is changed, or written again as it was. -/
theorem replace (redated : Redated now date date' c (c.replace new))
    (steady : (c.replace new).Steady) (found : c.get new.id = .ok old)
    (simple : new.name = none → new.variant = .primitive → new.counts = .ofSimple)
    (unbound : new.body = .recursive none → new.counts = .ofPlaceholder)
    (bound : ¬ old.Growing → old.variant ≠ .aspects →
      old.body = .recursive none ∧ new.variant = .recursive)
    (added : new.Growing → (∀ part ∈ new.summands, part ≠ new.id ∧ c.Component part) ∧
      new.counts = .composite (new.summands.map (c.share date now))) :
    (c.replace new).Reckoned (now + 1) date' := by
  by_cases same : old = new
  · subst same
    refine h.congr redated steady fun id ↦ ?_
    by_cases self : id = old.id
    · rw [self, get_replace_self found, found]
    · exact get_replace_of_ne found self
  · refine h.change redated steady (get_replace_self found) ?_
      (fun other apart ↦ get_replace_of_ne found apart) simple unbound ?_ added
    · rw [found]
      exact fun eq ↦ same (Except.ok.inj eq)
    · intro record there
      rw [found] at there
      cases there
      exact bound

/-! ### Sums -/

theorem component_summands (found : c.get id = .ok sort) (plain : sort.variant ≠ .aspects) :
    ∀ part ∈ sort.summands, c.Component part := by
  by_cases growing : sort.Growing
  · exact h.components found growing
  · rw [SortRecord.summands_of_not_growing growing, h.placed found]
    intro part inside
    exact List.mem_singleton.mp inside ▸ ⟨sort, found, plain, growing⟩

/-- What is added up are the shares that components have at the moment. -/
theorem shares_of_summed {a b : SortId} {left right : SortRecord} {components : List SortId}
    {parts : List SortRecord} (summed : Op.Summed c a b left right components parts) :
    (∀ part ∈ components, c.Component part) ∧
      ComponentCounts.composite (parts.map SortRecord.counts) =
        .composite (components.map (c.share date now)) := by
  obtain ⟨appended, eq, others⟩ := Op.merged_eq_append summed.joined
  constructor
  · rw [eq]
    intro part inside
    rcases List.mem_append.mp inside with inside | inside
    · exact h.component_summands summed.foundLeft summed.plainLeft part inside
    · exact h.component_summands summed.foundRight summed.plainRight part (others part inside)
  · have each : List.Forall₂ (fun part sort ↦ c.share date now part = sort.counts)
        components parts := by
      refine (mapM_eq_ok_iff.mp summed.found).imp fun part sort found ↦ ?_
      rw [share_of_get found, if_neg (Nat.not_lt.mpr (h.past part))]
    have same : components.map (c.share date now) = parts.map SortRecord.counts := by
      rw [← List.forall₂_eq_eq_eq]
      exact List.forall₂_map_left_iff.mpr (List.forall₂_map_right_iff.mpr each)
    rw [same]

/-! ### Changes -/

theorem step {plain : String → Prop} {may : Touch → Prop} (step : Step plain may c d)
    (redated : Redated now date date' c d) : d.Reckoned (now + 1) date' := by
  have steady := step.steady h.toSteady
  cases step with
  | log | await | name => exact h.congr redated steady fun _ ↦ rfl
  | placeholder =>
    exact h.add redated steady (fun _ ↦ rfl) (by rintro ⟨⟩) (fun _ ↦ rfl) (by rintro _ ⟨⟩)
  | primitive =>
    exact h.add redated steady (fun _ ↦ rfl) (fun _ _ ↦ rfl) (by rintro ⟨⟩) (by rintro _ _ ⟨⟩)
  | copy _ _ bound =>
    exact h.add redated steady (fun _ ↦ rfl) (by rintro ⟨⟩) (fun made ↦ absurd made bound)
      (by rintro _ ⟨⟩)
  | attach =>
    exact h.add redated steady (fun _ ↦ rfl) (by rintro _ ⟨⟩) (by rintro ⟨⟩) (by rintro _ _ ⟨⟩)
  | sum summed =>
    refine h.add redated steady (fun _ ↦ rfl) (by rintro _ ⟨⟩) (by rintro ⟨⟩) ?_
    rintro _ _ ⟨⟩
    exact h.shares_of_summed summed
  | @grow a b left right components parts summed disjunctive nameless =>
    have growing : left.Growing := ⟨nameless, disjunctive⟩
    have here : c.get left.id = .ok left := h.get_id summed.foundLeft
    refine h.replace redated steady here (by rintro _ ⟨⟩) (by rintro ⟨⟩)
      (fun fixed ↦ absurd growing fixed) fun grown ↦ ?_
    obtain ⟨_, ⟨⟩, own⟩ := grown.body_eq
    obtain ⟨each, counted⟩ := h.shares_of_summed summed
    rw [own]
    refine ⟨fun part inside ↦ ⟨?_, each part inside⟩, counted⟩
    rintro rfl
    obtain ⟨record, found, -, fixed⟩ := each _ inside
    rw [here] at found
    cases found
    exact fixed growing
  | @bind _ _ sort _ found _ unbound =>
    have here : c.get sort.id = .ok sort := h.get_id found
    refine h.replace redated steady here (by rintro _ ⟨⟩) (by rintro ⟨⟩)
      (fun _ _ ↦ ⟨unbound, rfl⟩) ?_
    rintro ⟨-, ⟨⟩⟩
  | tuple =>
    exact h.add redated steady (fun _ ↦ rfl) (by rintro ⟨⟩) (by rintro ⟨⟩) (by rintro _ ⟨⟩)
  | aspect =>
    exact h.add redated steady (fun _ ↦ rfl) (by rintro ⟨⟩) (by rintro ⟨⟩) (by rintro _ ⟨⟩)
  | own _ found made =>
    refine h.replace redated steady found (by rintro _ ⟨⟩) (by rintro ⟨⟩) (fun _ plain ↦ ?_) ?_
    · rw [SortRecord.variant, made] at plain
      exact absurd rfl plain
    · rintro ⟨-, ⟨⟩⟩

theorem passage (passage : c.Passage d) (redated : Redated now date date' c d) :
    d.Reckoned (now + 1) date' := by
  cases passage with
  | step step => exact h.step step redated
  | openSession => exact h.congr redated h.toSteady.openSession fun _ ↦ rfl
  | rollBack secluded =>
    have kept {id : SortId} {sort : SortRecord} (found : c.rollBack.get id = .ok sort) :
        c.get id = .ok sort ∧ id ∉ c.fresh := h.toSound.get_rollBack_eq_ok_iff.mp found
    refine h.restrict redated h.toSteady.rollBack (fun found ↦ (kept found).1) ?_
    intro id sort found growing part inside
    obtain ⟨there, out⟩ := kept found
    obtain ⟨components, made, own⟩ := growing.body_eq
    rw [get_rollBack]
    refine get_removeAll_of_notMem h.toSound.ours_of_fresh (secluded id sort there out part ?_)
    rw [made]
    exact Body.mem_handles_of_mem_parts (own ▸ inside)
  | clear =>
    have nothing (id : SortId) (sort : SortRecord) : c.clear.get id ≠ .ok sort :=
      fun found ↦ not_live_empty c.home id ⟨sort, found⟩
    exact h.restrict redated (Steady.clear c) (fun found ↦ absurd found (nothing _ _))
      fun found ↦ absurd found (nothing _ _)

end Reckoned

theorem Dated.reckoned (h : Dated now date c) : c.Reckoned now date := by
  induction h with
  | empty home => exact .empty home
  | next before passage redated reckoned => exact reckoned.passage passage redated

end Catalog

end CompositeSorts
