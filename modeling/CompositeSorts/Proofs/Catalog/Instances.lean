import CompositeSorts.Catalog.Resolution
import CompositeSorts.Proofs.Catalog.Fitting
import CompositeSorts.Proofs.Catalog.Sound
import Mathlib.Logic.Relation

/-!
Following instances. A recursive sort that is bound leads to its instance and to nothing else, so
from each handle there is one way. It ends at a sort that is not recursive, at an open one or at a
handle that leads to no sort, or it comes back to where it was; in the last case it has no end
(`not_final_of_circle`). The way has no more steps than there are live sorts before it comes back
(`Rooted.exists_circle`), and following instances is cut off behind one step more. So what it
answers is decided by where the way ends, if it does (`Rooted.resolve_cases`).
-/

set_option autoImplicit false
set_option relaxedAutoImplicit false

namespace CompositeSorts.Catalog

open Relation

variable {c : Catalog} {id target last start : SortId} {sort : SortRecord} {steps : Nat}

/-- The first sort is live and recursive, and the second one is its instance. -/
def BoundTo (c : Catalog) (id target : SortId) : Prop :=
  ∃ sort, c.get id = .ok sort ∧ sort.body = .recursive (some target)

/-- The way ends here. -/
def Final (c : Catalog) (id : SortId) : Prop := ∀ target, ¬ c.BoundTo id target

/-- What is answered where the way ends. -/
def verdict (c : Catalog) (last : SortId) : Except Refusal SortId := do
  let sort ← c.get last
  match sort.body with
  | .recursive _ => .error (.unbound sort.display)
  | _ => .ok last

theorem BoundTo.live (h : c.BoundTo id target) : c.Live id := h.imp fun _ found ↦ found.1

theorem boundTo_rightUnique (c : Catalog) : Relator.RightUnique c.BoundTo := by
  rintro id target target' ⟨sort, found, bound⟩ ⟨sort', found', bound'⟩
  rw [found] at found'
  cases found'
  rw [bound] at bound'
  cases bound'
  rfl

/-- The way from one sort to another, in so many steps. -/
inductive Way (c : Catalog) : Nat → SortId → SortId → Prop where
  | here (id : SortId) : Way c 0 id id
  | through {id target last : SortId} {steps : Nat} (bound : c.BoundTo id target)
    (rest : Way c steps target last) : Way c (steps + 1) id last

namespace Way

theorem reaches (h : c.Way steps id last) : ReflTransGen c.BoundTo id last := by
  induction h with
  | here id => exact .refl
  | through bound _ ih => exact .head bound ih

/-- The sorts that the way passes are live, and the last one is not counted. -/
theorem exists_passed (h : c.Way steps id last) :
    ∃ passed : List SortId, passed.length = steps ∧ (∀ other ∈ passed, c.Live other) ∧
      (∀ other ∈ passed, ReflTransGen c.BoundTo id other) ∧
      ((∀ on, ReflTransGen c.BoundTo id on → ¬ TransGen c.BoundTo on on) → passed.Nodup) := by
  induction h with
  | here id => exact ⟨[], rfl, by simp, by simp, fun _ ↦ List.nodup_nil⟩
  | @through id target last steps bound _ ih =>
    obtain ⟨passed, length, live, ahead, apart⟩ := ih
    refine ⟨id :: passed, by rw [List.length_cons, length],
      List.forall_mem_cons.mpr ⟨bound.live, live⟩,
      List.forall_mem_cons.mpr ⟨.refl, fun other inside ↦ .head bound (ahead other inside)⟩,
      fun straight ↦ List.nodup_cons.mpr ⟨fun again ↦ ?_, apart fun on leads ↦ ?_⟩⟩
    · exact straight id .refl (.head' bound (ahead id again))
    · exact straight on (.head bound leads)

end Way

/-- From every sort the way goes on for so many steps, or it ends before. -/
theorem exists_way (c : Catalog) (steps : Nat) (id : SortId) :
    (∃ last, c.Way steps id last) ∨ ∃ fewer < steps, ∃ last, c.Way fewer id last ∧ c.Final last := by
  induction steps generalizing id with
  | zero => exact Or.inl ⟨id, .here id⟩
  | succ steps ih =>
    by_cases ends : c.Final id
    · exact Or.inr ⟨0, Nat.succ_pos _, id, .here id, ends⟩
    · obtain ⟨target, bound⟩ := not_forall_not.mp ends
      rcases ih target with ⟨last, rest⟩ | ⟨fewer, less, last, rest, final⟩
      · exact Or.inl ⟨last, .through bound rest⟩
      · exact Or.inr ⟨fewer + 1, Nat.succ_lt_succ less, last, .through bound rest, final⟩

/-- A way of more steps than there are live sorts comes back to a sort that it passed. -/
theorem Rooted.exists_circle (h : c.Rooted) (way : c.Way steps id last) (long : c.size < steps) :
    ∃ on, ReflTransGen c.BoundTo id on ∧ TransGen c.BoundTo on on := by
  by_contra none
  obtain ⟨passed, length, live, -, apart⟩ := way.exists_passed
  have bounded := h.length_le_size (apart fun on leads back ↦ none ⟨on, leads, back⟩) live
  omega

/-- From a circle the way leads only back. -/
theorem reaches_back (circle : TransGen c.BoundTo id id) (leads : ReflTransGen c.BoundTo id last) :
    ReflTransGen c.BoundTo last id := by
  have step {here next : SortId} (back : ReflTransGen c.BoundTo here id)
      (bound : c.BoundTo here next) : ReflTransGen c.BoundTo next id := by
    obtain ⟨first, bound', rest⟩ : ∃ first, c.BoundTo here first ∧
        ReflTransGen c.BoundTo first id := by
      rcases ReflTransGen.cases_head back with rfl | further
      · exact TransGen.head'_iff.mp circle
      · exact further
    rwa [boundTo_rightUnique c bound bound']
  induction leads with
  | refl => exact .refl
  | tail _ bound ih => exact step ih bound

/-- A way that comes back has no end. -/
theorem not_final_of_circle {on : SortId} (leads : ReflTransGen c.BoundTo id on)
    (circle : TransGen c.BoundTo on on) (leads' : ReflTransGen c.BoundTo id last) :
    ¬ c.Final last := by
  intro final
  have first {here : SortId} (back : ReflTransGen c.BoundTo last here) : here = last := by
    rcases ReflTransGen.cases_head back with same | ⟨next, bound, -⟩
    · exact same.symm
    · exact (final next bound).elim
  have same : on = last := by
    rcases ReflTransGen.total_of_right_unique (boundTo_rightUnique c) leads leads' with
      ahead | behind
    · exact first (reaches_back circle ahead)
    · exact first behind
  obtain ⟨next, bound, -⟩ := TransGen.head'_iff.mp circle
  exact final next (same ▸ bound)

/-- The way has one end. -/
theorem Final.unique {last' : SortId} (final : c.Final last) (final' : c.Final last')
    (leads : ReflTransGen c.BoundTo id last) (leads' : ReflTransGen c.BoundTo id last') :
    last = last' := by
  have first {here there : SortId} (final : c.Final here)
      (back : ReflTransGen c.BoundTo here there) : here = there := by
    rcases ReflTransGen.cases_head back with same | ⟨next, bound, -⟩
    · exact same
    · exact (final next bound).elim
  rcases ReflTransGen.total_of_right_unique (boundTo_rightUnique c) leads leads' with ahead | behind
  · exact first final ahead
  · exact (first final' behind).symm

/-! ### Following the way -/

theorem resolveWithin_of_way (way : c.Way steps id last) (more : Nat) :
    c.resolveWithin start (more + steps) id = c.resolveWithin start more last := by
  induction way with
  | here id => rfl
  | @through id target last steps bound _ ih =>
    obtain ⟨sort, found, made⟩ := bound
    rw [← ih, ← Nat.add_assoc, resolveWithin, found]
    simp only [bind, Except.bind, made]

theorem resolveWithin_of_final (final : c.Final last) (more : Nat) :
    c.resolveWithin start (more + 1) last = c.verdict last := by
  rw [resolveWithin, verdict]
  cases found : c.get last with
  | error reason => rfl
  | ok sort =>
    cases made : sort.body with
    | recursive target =>
      cases target with
      | none => simp [bind, Except.bind, made]
      | some target => exact (final target ⟨sort, found, made⟩).elim
    | _ => simp [bind, Except.bind, made]

/-- Following instances answers what is said at the end of the way. If the way has no end, it comes
back, and that is what is answered. -/
theorem Rooted.resolve_cases (h : c.Rooted) (id : SortId) :
    (∃ last, ReflTransGen c.BoundTo id last ∧ c.Final last ∧ c.resolve id = c.verdict last) ∨
      (∃ on, ReflTransGen c.BoundTo id on ∧ TransGen c.BoundTo on on) ∧
        ∃ sort, c.get id = .ok sort ∧ c.resolve id = .error (.unresolvable sort.display) := by
  unfold resolve
  rcases c.exists_way (c.size + 1) id with ⟨last, way⟩ | ⟨steps, fewer, last, way, final⟩
  · refine Or.inr ⟨h.exists_circle way (Nat.lt_succ_self _), ?_⟩
    have stopped : c.resolveWithin id (0 + (c.size + 1)) id = c.resolveWithin id 0 last :=
      resolveWithin_of_way way 0
    rw [Nat.zero_add] at stopped
    cases way with
    | through bound _ =>
      obtain ⟨sort, found, -⟩ := bound
      refine ⟨sort, found, ?_⟩
      rw [stopped, resolveWithin, found]
      rfl
  · refine Or.inl ⟨last, way.reaches, final, ?_⟩
    obtain ⟨more, same⟩ := Nat.exists_eq_add_of_lt fewer
    rw [show c.size + 1 = more + 1 + steps by omega, resolveWithin_of_way way,
      resolveWithin_of_final final]

theorem Rooted.resolve_eq_verdict (h : c.Rooted) (leads : ReflTransGen c.BoundTo id last)
    (final : c.Final last) : c.resolve id = c.verdict last := by
  rcases h.resolve_cases id with ⟨last', leads', final', answer⟩ | ⟨⟨on, leads', circle⟩, -⟩
  · rw [final.unique final' leads leads', answer]
  · exact (not_final_of_circle leads' circle leads final).elim

/-! ### Ends of the way -/

theorem final_of_error {reason : Refusal} (gone : c.get last = .error reason) : c.Final last := by
  rintro target ⟨sort, found, -⟩
  rw [gone] at found
  cases found

theorem final_of_body (found : c.get last = .ok sort)
    (unbound : ∀ target, sort.body ≠ .recursive (some target)) : c.Final last := by
  rintro target ⟨sort', found', bound⟩
  rw [found] at found'
  cases found'
  exact unbound target bound

/-- At its end the way is at a handle that leads to no sort, at an open sort, or at one that is not
recursive, and each is answered in its own way. -/
theorem Final.cases (final : c.Final last) :
    (∃ reason, c.get last = .error reason ∧ c.verdict last = .error reason) ∨
      ∃ sort, c.get last = .ok sort ∧
        (sort.body = .recursive none ∧ c.verdict last = .error (.unbound sort.display) ∨
          sort.variant ≠ .recursive ∧ c.verdict last = .ok last) := by
  unfold verdict
  cases found : c.get last with
  | error reason => exact Or.inl ⟨reason, rfl, rfl⟩
  | ok sort =>
    refine Or.inr ⟨sort, rfl, ?_⟩
    unfold SortRecord.variant
    cases made : sort.body with
    | recursive target =>
      cases target with
      | none => exact Or.inl ⟨rfl, by simp [bind, Except.bind, made]⟩
      | some target => exact (final target ⟨sort, found, made⟩).elim
    | _ => exact Or.inr ⟨by simp [Body.variant], by simp [bind, Except.bind, made]⟩

theorem get_ne_unbound {reason : Refusal} (gone : c.get last = .error reason) (display : String) :
    reason ≠ .unbound display ∧ reason ≠ .unresolvable display := by
  unfold get at gone
  split at gone
  · split at gone
    · cases gone
    · cases gone
      exact ⟨Refusal.noConfusion, Refusal.noConfusion⟩
  · cases gone
    exact ⟨Refusal.noConfusion, Refusal.noConfusion⟩

/-- A sort is answered if and only if the way ends there and it is not recursive. -/
theorem Rooted.resolve_eq_ok_iff (h : c.Rooted) : c.resolve id = .ok target ↔
    ReflTransGen c.BoundTo id target ∧
      ∃ sort, c.get target = .ok sort ∧ sort.variant ≠ .recursive := by
  constructor
  · intro answer
    rcases h.resolve_cases id with ⟨last, leads, final, verdict⟩ | ⟨-, sort, -, stopped⟩
    · rw [answer] at verdict
      rcases final.cases with ⟨reason, -, other⟩ | ⟨sort, found, ⟨-, other⟩ | ⟨plain, other⟩⟩ <;>
        rw [← verdict] at other <;> cases other
      exact ⟨leads, sort, found, plain⟩
    · rw [answer] at stopped
      cases stopped
  · rintro ⟨leads, sort, found, plain⟩
    have final := final_of_body found fun target ↦ SortRecord.body_ne_recursive plain _
    rw [h.resolve_eq_verdict leads final]
    rcases final.cases with ⟨reason, gone, -⟩ | ⟨sort', found', ⟨unbound, -⟩ | ⟨-, verdict⟩⟩
    · rw [found] at gone
      cases gone
    · rw [found] at found'
      cases found'
      exact (SortRecord.body_ne_recursive plain _ unbound).elim
    · exact verdict

/-- That a sort is not bound is answered if and only if the way ends at one. -/
theorem Rooted.resolve_eq_unbound_iff (h : c.Rooted) {display : String} :
    c.resolve id = .error (.unbound display) ↔ ∃ last sort, ReflTransGen c.BoundTo id last ∧
      c.get last = .ok sort ∧ sort.body = .recursive none ∧ sort.display = display := by
  constructor
  · intro answer
    rcases h.resolve_cases id with ⟨last, leads, final, verdict⟩ | ⟨-, sort, -, stopped⟩
    · rw [answer] at verdict
      rcases final.cases with ⟨reason, gone, other⟩ | ⟨sort, found, ⟨unbound, other⟩ | ⟨-, other⟩⟩
      · rw [← verdict] at other
        cases other
        exact ((get_ne_unbound gone display).1 rfl).elim
      · rw [← verdict] at other
        cases other
        exact ⟨last, sort, leads, found, unbound, rfl⟩
      · rw [← verdict] at other
        cases other
    · rw [answer] at stopped
      cases stopped
  · rintro ⟨last, sort, leads, found, unbound, rfl⟩
    have final := final_of_body found fun target ↦ by rw [unbound]; rintro ⟨⟩
    rw [h.resolve_eq_verdict leads final]
    rcases final.cases with ⟨reason, gone, -⟩ | ⟨sort', found', ⟨-, verdict⟩ | ⟨plain, -⟩⟩
    · rw [found] at gone
      cases gone
    · rw [found] at found'
      cases found'
      exact verdict
    · rw [found] at found'
      cases found'
      exact (SortRecord.body_ne_recursive plain _ unbound).elim

/-- That a sort does not resolve is answered if and only if the way comes back. -/
theorem Rooted.resolve_eq_unresolvable_iff (h : c.Rooted) {display : String} :
    c.resolve id = .error (.unresolvable display) ↔
      (∃ on, ReflTransGen c.BoundTo id on ∧ TransGen c.BoundTo on on) ∧
        c.display id = .ok display := by
  constructor
  · intro answer
    rcases h.resolve_cases id with ⟨last, leads, final, verdict⟩ | ⟨circle, sort, found, stopped⟩
    · rw [answer] at verdict
      rcases final.cases with ⟨reason, gone, other⟩ | ⟨sort, -, ⟨-, other⟩ | ⟨-, other⟩⟩ <;>
        rw [← verdict] at other <;> cases other
      exact ((get_ne_unbound gone display).2 rfl).elim
    · rw [answer] at stopped
      cases stopped
      exact ⟨circle, by rw [Catalog.display, found]; rfl⟩
  · rintro ⟨⟨on, leads, circle⟩, shown⟩
    rcases h.resolve_cases id with ⟨last, leads', final, -⟩ | ⟨-, sort, found, stopped⟩
    · exact (not_final_of_circle leads circle leads' final).elim
    · rw [Catalog.display, found] at shown
      cases shown
      exact stopped

/-- Anything else that is answered is why the last handle of the way leads to no sort. -/
theorem Rooted.resolve_eq_error_iff (h : c.Rooted) {reason : Refusal} :
    (c.resolve id = .error reason ∧
        ∀ display, reason ≠ .unbound display ∧ reason ≠ .unresolvable display) ↔
      ∃ last, ReflTransGen c.BoundTo id last ∧ c.get last = .error reason := by
  constructor
  · rintro ⟨answer, other⟩
    rcases h.resolve_cases id with ⟨last, leads, final, verdict⟩ | ⟨-, sort, -, stopped⟩
    · rw [answer] at verdict
      rcases final.cases with ⟨reason', gone, same⟩ | ⟨sort, -, ⟨-, same⟩ | ⟨-, same⟩⟩ <;>
        rw [← verdict] at same <;> cases same
      · exact ⟨last, leads, gone⟩
      · exact ((other _).1 rfl).elim
    · rw [answer] at stopped
      cases stopped
      exact ((other _).2 rfl).elim
  · rintro ⟨last, leads, gone⟩
    refine ⟨?_, get_ne_unbound gone⟩
    rw [h.resolve_eq_verdict leads (final_of_error gone), verdict, gone]
    rfl

end CompositeSorts.Catalog
