import CompositeSorts.Refusal
import Mathlib.Tactic.Common

/-!
How a computation ends. A computation with a state either answers or ends early, and in both cases
leaves a state behind. `Ends m s post fault` says of the run of `m` from `s` that its answer and
state meet `post`, or that the state of an early end meets `fault`. The laws follow the ways in
which computations are put together; nothing is ever assumed about which end is reached.
-/

set_option autoImplicit false
set_option relaxedAutoImplicit false

namespace CompositeSorts

variable {ε σ α β : Type} {s s' : σ}

/-- The run of `m` from `s` answers within `post`, or ends early within `fault`. -/
def Ends (m : EStateM ε σ α) (s : σ) (post : α → σ → Prop) (fault : σ → Prop) : Prop :=
  match m s with
  | .ok a s' => post a s'
  | .error _ s' => fault s'

namespace Ends

variable {m : EStateM ε σ α} {f : α → EStateM ε σ β} {post post' : α → σ → Prop}
  {fault fault' : σ → Prop}

theorem of_ok {a : α} (run : m s = .ok a s') (h : Ends m s post fault) : post a s' := by
  rw [Ends, run] at h
  exact h

/-- A run that is known. -/
theorem of_run {a : α} (run : m s = .ok a s') (h : post a s') : Ends m s post fault := by
  unfold Ends
  rw [run]
  exact h

theorem of_error {e : ε} (run : m s = .error e s') (h : Ends m s post fault) : fault s' := by
  rw [Ends, run] at h
  exact h

theorem mono (h : Ends m s post fault) (answer : ∀ a s', post a s' → post' a s')
    (early : ∀ s', fault s' → fault' s') : Ends m s post' fault' := by
  unfold Ends at h ⊢
  split at h
  · exact answer _ _ h
  · exact early _ h

theorem of_forall (answer : ∀ a s', post a s') : Ends m s post fun _ ↦ True := by
  unfold Ends
  split
  · exact answer _ _
  · trivial

/-- A run that never ends early answers. -/
theorem exists_ok (h : Ends m s post fun _ ↦ False) : ∃ a s', m s = .ok a s' ∧ post a s' := by
  unfold Ends at h
  split at h
  · exact ⟨_, _, ‹_›, h⟩
  · exact h.elim

theorem bind {next : β → σ → Prop}
    (h : Ends m s (fun a s' ↦ Ends (f a) s' next fault) fault) : Ends (m >>= f) s next fault := by
  unfold Ends at h
  change (match EStateM.bind m f s with
    | .ok b s' => next b s'
    | .error _ s' => fault s')
  unfold EStateM.bind
  cases run : m s with
  | ok a s' =>
    rw [run] at h
    exact h
  | error e s' =>
    rw [run] at h
    exact h

/-- What follows an answer runs on from there. -/
theorem run_bind {a : α} (run : m s = .ok a s') : (m >>= f) s = f a s' := by
  change EStateM.bind m f s = _
  rw [EStateM.bind, run]

/-- Nothing follows an early end. -/
theorem error_bind {e : ε} (run : m s = .error e s') : (m >>= f) s = .error e s' := by
  change EStateM.bind m f s = _
  rw [EStateM.bind, run]

theorem pure {a : α} (h : post a s) : Ends (Pure.pure a : EStateM ε σ α) s post fault := h

theorem throw {e : ε} (h : fault s) : Ends (MonadExcept.throw e : EStateM ε σ α) s post fault := h

theorem get {post : σ → σ → Prop} (h : post s s) :
    Ends (MonadState.get : EStateM ε σ σ) s post fault := h

theorem set {post : PUnit → σ → Prop} (h : post ⟨⟩ s') :
    Ends (MonadStateOf.set s' : EStateM ε σ PUnit) s post fault := h

theorem modify {post : PUnit → σ → Prop} {step : σ → σ} (h : post ⟨⟩ (step s)) :
    Ends (modify step : EStateM ε σ PUnit) s post fault := h

/-- A list is worked off element by element. -/
theorem forM {work : α → EStateM ε σ PUnit} (inv : σ → Prop) (start : inv s) (items : List α)
    (step : ∀ a ∈ items, ∀ s, inv s → Ends (work a) s (fun _ s' ↦ inv s') fault) :
    Ends (items.forM work) s (fun _ s' ↦ inv s') fault := by
  induction items generalizing s with
  | nil => exact start
  | cons a items ih =>
    change Ends (work a >>= fun _ ↦ items.forM work) s _ fault
    apply bind
    refine (step a (by simp) s start).mono (fun _ s' h ↦ ?_) (fun _ h ↦ h)
    exact ih h fun b hb ↦ step b (by simp [hb])

theorem mapM_from {work : α → EStateM ε σ β} (inv : List α → List β → σ → Prop) (items : List α)
    {before : List α} {answers : List β} (start : inv before answers s)
    (step : ∀ a ∈ items, ∀ before answers s, inv before answers s →
      Ends (work a) s (fun b s' ↦ inv (before ++ [a]) (answers ++ [b]) s') fault) :
    Ends (items.mapM work) s (fun more s' ↦ inv (before ++ items) (answers ++ more) s') fault := by
  induction items generalizing s before answers with
  | nil =>
    rw [List.mapM_nil]
    refine pure ?_
    rw [List.append_nil, List.append_nil]
    exact start
  | cons a items ih =>
    rw [List.mapM_cons]
    refine bind ((step a List.mem_cons_self before answers s start).mono (fun b s' h ↦ ?_)
      fun _ failed ↦ failed)
    refine bind ((ih h fun a' inside ↦ step a' (List.mem_cons_of_mem _ inside)).mono
      (fun more s'' h ↦ ?_) fun _ failed ↦ failed)
    refine pure ?_
    rwa [List.append_assoc, List.append_assoc] at h

/-- The answers to a list are collected in its order. What holds of the part that was worked off and
of the answers to it holds of all of it in the end. -/
theorem mapM {work : α → EStateM ε σ β} (inv : List α → List β → σ → Prop) (items : List α)
    (start : inv [] [] s)
    (step : ∀ a ∈ items, ∀ before answers s, inv before answers s →
      Ends (work a) s (fun b s' ↦ inv (before ++ [a]) (answers ++ [b]) s') fault) :
    Ends (items.mapM work) s (fun answers s' ↦ inv items answers s') fault :=
  mapM_from inv items start step

/-- What two arguments show of a run holds together. -/
theorem and (h : Ends m s post fault) (h' : Ends m s post' fault') :
    Ends m s (fun a s' ↦ post a s' ∧ post' a s') fun s' ↦ fault s' ∧ fault' s' := by
  unfold Ends at h h' ⊢
  split
  · rename_i run
    rw [run] at h h'
    exact ⟨h, h'⟩
  · rename_i run
    rw [run] at h h'
    exact ⟨h, h'⟩

end Ends

end CompositeSorts
