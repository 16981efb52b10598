import CompositeSorts.Proofs.Matching.Stalling
import CompositeSorts.Proofs.Registry.Bookkeeping
import CompositeSorts.Proofs.Registry.Repeating

/-!
What was computed and what is remembered. As long as a registry is not cleared, every match that was
computed is remembered or was forgotten with its sorts, and every pair that was looked for in vain
was computed, or its computation was refused (`accounts_of_performAll`). So a match is stored once
each time it is computed, and only undoing takes one away.

Main definitions: `refusalsOf`, `Accounts`.
-/

set_option autoImplicit false
set_option relaxedAutoImplicit false

namespace CompositeSorts.Registry

open Catalog Matchings Matching

variable {r : Registry} {call : Call} {calls : List Call} {left right : SortId} {n : Nat}

/-! ### Refused computations -/

/-- The pairs whose computations are refused when two sorts are matched, the innermost first: those
that are still under way in the end. -/
def stalled (r : Registry) (left right : SortId) : List PairKey :=
  match relateStalling r.catalog r.config [] left right r.matchings with
  | .ok .. => []
  | .error _ t => t.underWay

/-- The pairs whose computations are refused in a call. -/
def refusals (r : Registry) : Call → List PairKey
  | .matchSorts left right => r.stalled left right
  | _ => []

/-- The pairs whose computations are refused in several calls. -/
def refusalsOf (r : Registry) : List Call → List PairKey
  | [] => []
  | call :: calls => r.refusals call ++ (r.perform call).refusalsOf calls

/-- Every match that was computed is remembered or was forgotten, and every one that was not found
was computed, but for so many. -/
structure Balances (r : Registry) (refused : Nat) : Prop where
  stored : r.matchings.metrics.computed = r.matchings.memo.size + r.matchings.metrics.purged
  missed : r.matchings.metrics.memoMisses = r.matchings.metrics.computed + refused

theorem balances_empty (id : RegistryId) (categories : CategoryTable) (config : Configuration) :
    (Registry.empty id categories config).Balances 0 := ⟨rfl, rfl⟩

/-! ### Matching and undoing -/

/-- Matching two sorts keeps the balance, and adds the computations that are refused. -/
theorem Balances.matchSorts (h : r.Balances n) (reached : Reachable AnyCall r)
    (left right : SortId) :
    (r.matchSorts left right).2.Balances (n + (r.stalled left right).length) := by
  obtain ⟨stored, missed⟩ := h
  have idle := reached.idle
  have rooted := reached.proper.steady.toRooted
  have follows := stalls_relate rooted r.config [] left right r.matchings
  have ends := accounted_relate rooted r.config [] left right r.matchings idle
  unfold stalled Registry.matchSorts
  cases run : relate r.catalog r.config [] left right r.matchings with
  | ok id t =>
    obtain ⟨_, _, run', rfl, rfl⟩ := follows.of_ok run
    obtain ⟨⟨stored', missed', purged⟩, underWay⟩ := ends.of_ok run'
    rw [idle, underWay, List.length_nil] at missed'
    rw [run']
    refine ⟨?_, ?_⟩
    all_goals
      simp only [List.length_nil]
      omega
  | error reason t =>
    obtain ⟨_, run', keys, rfl⟩ := follows.of_error run
    obtain ⟨stored', missed', purged⟩ := ends.of_error run'
    rw [idle, List.length_nil] at missed'
    dsimp only at stored' missed' purged
    rw [run']
    refine ⟨?_, ?_⟩
    all_goals
      dsimp only
      omega

/-- What is forgotten when definitions are undone is counted. -/
theorem Balances.undo (h : r.Balances n) : r.undo.2.Balances n := by
  obtain ⟨stored, missed⟩ := h
  refine ⟨?_, missed⟩
  have fewer := Std.ExtTreeMap.size_filter_le_size (t := r.matchings.memo)
    (f := fun _ id ↦ !r.matchings.mentions r.catalog.fresh id)
  change r.matchings.metrics.computed = (r.matchings.memo.filter _).size +
    (r.matchings.metrics.purged + (r.matchings.memo.size - (r.matchings.memo.filter _).size))
  omega

/-! ### Calls -/

/-- A call that does not clear the registry keeps the balance, and adds the computations that are
refused in it. -/
theorem Balances.perform (h : r.Balances n) (reached : Reachable AnyCall r)
    (goesOn : call ≠ .clear) : (r.perform call).Balances (n + (r.refusals call).length) := by
  by_cases leaves : call.LeavesMatches
  · have nothing : r.refusals call = [] := by
      cases call with
      | matchSorts | undo | takeLog | clear => exact leaves.elim
      | _ => rfl
    rw [nothing]
    have same := (left_perform reached.proper leaves).1
    exact ⟨same ▸ h.stored, same ▸ h.missed⟩
  cases call with
  | clear => exact absurd rfl goesOn
  | matchSorts left right => exact h.matchSorts reached left right
  | undo => exact h.undo
  | takeLog => exact ⟨h.stored, h.missed⟩
  | _ => exact absurd trivial leaves

theorem Balances.performAll (h : r.Balances n) (reached : Reachable AnyCall r)
    (goesOn : .clear ∉ calls) :
    (r.performAll calls).Balances (n + (r.refusalsOf calls).length) := by
  induction calls generalizing r n with
  | nil => exact h
  | cons call calls ih =>
    obtain ⟨here, others⟩ := List.ne_and_not_mem_of_not_mem_cons goesOn
    have next := ih (h.perform reached here.symm) (reached.step call trivial) others
    unfold refusalsOf
    rw [List.length_append, ← Nat.add_assoc]
    exact next

/-- Undoing forgets the matches that mention a sort that is removed, and no others. -/
theorem memo_undo (r : Registry) (key : PairKey) (id : MatchId) :
    (r.perform .undo).matchings.memo[key]? = some id ↔
      r.matchings.memo[key]? = some id ∧ r.matchings.mentions r.catalog.fresh id = false := by
  change (r.matchings.memo.filter _)[key]? = some id ↔ _
  rw [Std.ExtTreeMap.getElem?_filter', Option.filter_eq_some_iff, Bool.not_eq_true']

/-- Where the matches of a registry are that were computed, and where they go. -/
structure Accounts (r : Registry) (refused : Nat) : Prop where
  /-- As many matches were computed as are remembered and were forgotten together. -/
  stored : r.matchings.metrics.computed = r.matchings.memo.size + r.matchings.metrics.purged
  /-- As many matches were looked for in vain as were computed and as computations were refused, in
  others or on their own. -/
  missed : r.matchings.metrics.memoMisses = r.matchings.metrics.computed + refused
  /-- No call but undoing and clearing forgets a match of two sorts. -/
  kept : ∀ call, call ≠ .clear → call ≠ .undo → ∀ (key : PairKey) (known : MatchId),
    r.matchings.memo[key]? = some known → (r.perform call).matchings.memo[key]? = some known
  /-- Undoing forgets the matches that mention a sort that it removes, and no others. -/
  undone : ∀ (key : PairKey) (known : MatchId),
    (r.perform .undo).matchings.memo[key]? = some known ↔
      r.matchings.memo[key]? = some known ∧ r.matchings.mentions r.catalog.fresh known = false
  /-- The computations that are refused next are seen by matching in the same way and leaving their
  pairs under way. -/
  stalls : ∀ left right, Stalls (relateStalling r.catalog r.config [] left right)
    (relate r.catalog r.config [] left right)

theorem Balances.accounts (h : r.Balances n) (reached : Reachable AnyCall r) : r.Accounts n where
  stored := h.stored
  missed := h.missed
  kept call goesOn stays _ _ := (keeps_perform reached.proper call goesOn stays).memo
  undone := memo_undo r
  stalls := stalls_relate reached.proper.steady.toRooted r.config []

/-- Whatever was called, as long as the registry was not cleared, the accounts are right, with the
computations that were refused in the calls. -/
theorem accounts_of_performAll (id : RegistryId) (categories : CategoryTable)
    (config : Configuration) (calls : List Call) (goesOn : .clear ∉ calls) :
    let empty : Registry := .empty id categories config
    (empty.performAll calls).Accounts (empty.refusalsOf calls).length := by
  intro empty
  have start : Reachable AnyCall empty := .empty id categories config
  have balances : (empty.performAll calls).Balances (0 + (empty.refusalsOf calls).length) :=
    (balances_empty id categories config).performAll start goesOn
  rw [Nat.zero_add] at balances
  exact balances.accounts (start.performAll calls fun _ _ _ ↦ trivial)

/-- The definition of `c` is abandoned half-way, so nothing is ever bound to `c`. Matching it, and
matching an attribute that it weighs, is refused, along with every match that asked for one that is
refused. Undoing the latest definition forgets one of the two matches that were computed. -/
theorem accounts_of_performAll_sample :
    let calls : List Call := [.defineAll "c: [Label] z ^ c + [Never]", .define "[Label] w",
      .matchSorts ⟨⟨0⟩, ⟨0, 0⟩⟩ ⟨⟨0⟩, ⟨3, 0⟩⟩, .define "[Label] y",
      .matchSorts ⟨⟨0⟩, ⟨2, 0⟩⟩ ⟨⟨0⟩, ⟨4, 0⟩⟩, .matchSorts ⟨⟨0⟩, ⟨4, 0⟩⟩ ⟨⟨0⟩, ⟨1, 0⟩⟩, .undo]
    let r := unansweredSample.performAll calls
    unansweredSample.refusalsOf calls = [⟨"c", "[Label] y"⟩, ⟨"[Label] z^c", "[Label] y"⟩,
        ⟨"c", "[Label] y"⟩, ⟨"[Label] y", "c"⟩] ∧
      (r.matchings.metrics.purged, r.matchings.memo.size) = (1, 1) ∧
      r.matchings.metrics.computed = r.matchings.memo.size + r.matchings.metrics.purged ∧
      r.matchings.metrics.memoMisses =
        r.matchings.metrics.computed + (unansweredSample.refusalsOf calls).length := by
  intro calls r
  have accounts := accounts_of_performAll ⟨0⟩ (sample.categories.withUnanswered "Never") {} calls
    (by simp [calls])
  exact ⟨by decide +kernel, by decide +kernel, accounts.stored, accounts.missed⟩

end CompositeSorts.Registry
