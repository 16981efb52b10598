import CompositeSorts.Proofs.Ends

/-!
Computations side by side. `Follows m p s w post fault` says that the run of `m` from `s` goes where
the run of `p` from `w` goes: it answers when that answers, and then both answers and states meet
`post`; and it ends early for the same reason when that ends early. The two may keep quite different
states, and `m` may take steps that `p` has no counterpart of.
-/

set_option autoImplicit false
set_option relaxedAutoImplicit false

namespace CompositeSorts

variable {ε σ τ α β γ δ : Type} {s s' : σ} {w : τ}

/-- The run of `m` from `s` goes where that of `p` from `w` goes. -/
def Follows (m : EStateM ε σ α) (p : EStateM ε τ β) (s : σ) (w : τ)
    (post : α → β → σ → τ → Prop) (fault : σ → τ → Prop) : Prop :=
  match p w with
  | .ok b w' => ∃ a s', m s = .ok a s' ∧ post a b s' w'
  | .error e w' => ∃ s', m s = .error e s' ∧ fault s' w'

namespace Follows

variable {m : EStateM ε σ α} {p : EStateM ε τ β} {f : α → EStateM ε σ γ} {g : β → EStateM ε τ δ}
  {post post' : α → β → σ → τ → Prop} {fault fault' : σ → τ → Prop}

theorem of_ok {b : β} {w' : τ} (h : Follows m p s w post fault) (run : p w = .ok b w') :
    ∃ a s', m s = .ok a s' ∧ post a b s' w' := by
  rw [Follows, run] at h
  exact h

theorem of_error {e : ε} {w' : τ} (h : Follows m p s w post fault) (run : p w = .error e w') :
    ∃ s', m s = .error e s' ∧ fault s' w' := by
  rw [Follows, run] at h
  exact h

/-- The first computation ends as the second does, and they end together. -/
theorem ends {reached : β → τ → Prop} {failed : τ → Prop} (h : Follows m p s w post fault)
    (other : Ends p w reached failed) :
    Ends m s (fun a s' ↦ ∃ b w', reached b w' ∧ post a b s' w')
      fun s' ↦ ∃ w', failed w' ∧ fault s' w' := by
  cases run : p w with
  | ok b w' =>
    obtain ⟨a, s', run', together⟩ := h.of_ok run
    exact Ends.of_run run' ⟨b, w', other.of_ok run, together⟩
  | error e w' =>
    obtain ⟨s', run', together⟩ := h.of_error run
    unfold Ends
    rw [run']
    exact ⟨w', other.of_error run, together⟩

theorem mono (h : Follows m p s w post fault) (answer : ∀ a b s' w', post a b s' w' →
    post' a b s' w') (early : ∀ s' w', fault s' w' → fault' s' w') :
    Follows m p s w post' fault' := by
  unfold Follows at h ⊢
  split at h
  · obtain ⟨a, s', run, reached⟩ := h
    exact ⟨a, s', run, answer _ _ _ _ reached⟩
  · obtain ⟨s', run, reached⟩ := h
    exact ⟨s', run, early _ _ reached⟩

/-- What is shown of the first computation alone holds as well. -/
theorem and {only : α → σ → Prop} {early : σ → Prop} (h : Follows m p s w post fault)
    (h' : Ends m s only early) : Follows m p s w (fun a b s' w' ↦ post a b s' w' ∧ only a s')
      fun s' w' ↦ fault s' w' ∧ early s' := by
  unfold Follows at h ⊢
  split at h
  · obtain ⟨a, s', run, reached⟩ := h
    exact ⟨a, s', run, reached, h'.of_ok run⟩
  · obtain ⟨s', run, reached⟩ := h
    exact ⟨s', run, reached, h'.of_error run⟩

theorem pure {a : α} {b : β} (h : post a b s w) :
    Follows (Pure.pure a : EStateM ε σ α) (Pure.pure b : EStateM ε τ β) s w post fault :=
  ⟨a, s, rfl, h⟩

theorem throw {e : ε} (h : fault s w) :
    Follows (MonadExcept.throw e : EStateM ε σ α) (MonadExcept.throw e : EStateM ε τ β) s w post
      fault := ⟨s, rfl, h⟩

theorem bind {next : γ → δ → σ → τ → Prop}
    (h : Follows m p s w (fun a b s' w' ↦ Follows (f a) (g b) s' w' next fault) fault) :
    Follows (m >>= f) (p >>= g) s w next fault := by
  have left : (m >>= f) s = match m s with
    | .ok a s' => f a s'
    | .error e s' => .error e s' := rfl
  have right : (p >>= g) w = match p w with
    | .ok b w' => g b w'
    | .error e w' => .error e w' := rfl
  unfold Follows at h ⊢
  rw [left, right]
  cases run : p w with
  | ok b w' =>
    rw [run] at h
    obtain ⟨a, s', here, reached⟩ := h
    rw [here]
    exact reached
  | error e w' =>
    rw [run] at h
    obtain ⟨s', here, reached⟩ := h
    rw [here]
    exact ⟨s', rfl, reached⟩

/-- A step that only the first computation takes, and that always answers. -/
theorem step {q : EStateM ε τ δ} {next : γ → δ → σ → τ → Prop}
    (h : Ends m s (fun a s' ↦ Follows (f a) q s' w next fault) fun _ ↦ False) :
    Follows (m >>= f) q s w next fault := by
  have left : (m >>= f) s = match m s with
    | .ok a s' => f a s'
    | .error e s' => .error e s' := rfl
  unfold Ends at h
  unfold Follows at h ⊢
  rw [left]
  cases run : m s with
  | ok a s' =>
    rw [run] at h
    exact h
  | error e s' =>
    rw [run] at h
    exact h.elim

/-- The second computation is known to answer, and the first one answers as well. -/
theorem answer {b : β} {w' : τ} (run : p w = .ok b w')
    (h : Ends m s (fun a s' ↦ post a b s' w') fun _ ↦ False) : Follows m p s w post fault := by
  unfold Ends at h
  unfold Follows
  rw [run]
  cases here : m s with
  | ok a s' =>
    rw [here] at h
    exact ⟨a, s', rfl, h⟩
  | error e s' =>
    rw [here] at h
    exact h.elim

/-- A step that only the first computation takes, at its end. -/
theorem last {b : β} (h : Ends m s (fun a s' ↦ post a b s' w) fun _ ↦ False) :
    Follows m (Pure.pure b : EStateM ε τ β) s w post fault := answer rfl h

/-- The second computation reads its state. -/
theorem read {q : τ → EStateM ε τ β} (h : Follows m (q w) s w post fault) :
    Follows m (get >>= q) s w post fault := h

theorem mapM_from {work : α → EStateM ε σ γ} {work' : α → EStateM ε τ δ}
    (inv : List α → List γ → List δ → σ → τ → Prop) (items : List α) {before : List α}
    {answers : List γ} {answers' : List δ} (start : inv before answers answers' s w)
    (each : ∀ a ∈ items, ∀ before answers answers' s w, inv before answers answers' s w →
      Follows (work a) (work' a) s w
        (fun b b' s' w' ↦ inv (before ++ [a]) (answers ++ [b]) (answers' ++ [b']) s' w') fault) :
    Follows (items.mapM work) (items.mapM work') s w
      (fun more more' s' w' ↦ inv (before ++ items) (answers ++ more) (answers' ++ more') s' w')
      fault := by
  induction items generalizing s w before answers answers' with
  | nil =>
    rw [List.mapM_nil, List.mapM_nil]
    refine pure ?_
    rw [List.append_nil, List.append_nil, List.append_nil]
    exact start
  | cons a items ih =>
    rw [List.mapM_cons, List.mapM_cons]
    refine bind ((each a List.mem_cons_self _ _ _ s w start).mono (fun b b' s' w' h ↦ ?_)
      fun _ _ failed ↦ failed)
    refine bind ((ih h fun a' inside ↦ each a' (List.mem_cons_of_mem _ inside)).mono
      (fun more more' s'' w'' h ↦ ?_) fun _ _ failed ↦ failed)
    refine pure ?_
    rwa [List.append_assoc, List.append_assoc, List.append_assoc] at h

/-- The answers to a list are collected side by side. -/
theorem mapM {work : α → EStateM ε σ γ} {work' : α → EStateM ε τ δ}
    (inv : List α → List γ → List δ → σ → τ → Prop) (items : List α) (start : inv [] [] [] s w)
    (each : ∀ a ∈ items, ∀ before answers answers' s w, inv before answers answers' s w →
      Follows (work a) (work' a) s w
        (fun b b' s' w' ↦ inv (before ++ [a]) (answers ++ [b]) (answers' ++ [b']) s' w') fault) :
    Follows (items.mapM work) (items.mapM work') s w
      (fun answers answers' s' w' ↦ inv items answers answers' s' w') fault :=
  mapM_from inv items start each

end Follows

end CompositeSorts
