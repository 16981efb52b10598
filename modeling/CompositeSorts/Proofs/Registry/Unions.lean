import CompositeSorts.Proofs.Catalog.Unions
import CompositeSorts.Proofs.Registry.Associativity
import CompositeSorts.Proofs.Registry.Stale

/-!
Disjunction is union (`sumsTo_union`). What a tree of sums displays is determined by the set of what
its operands contribute. Neither grouping nor order matter, nor how often an operand occurs, nor
what was added up before, although sums make disjunctions grow in place.
-/

set_option autoImplicit false
set_option relaxedAutoImplicit false

namespace CompositeSorts.Registry

open Catalog

variable {r : Registry} {tree : SumTree} {texts : List String}

/-- The tree is added up, and the result displays the text. -/
def SumsTo (r : Registry) (tree : SumTree) (text : String) : Prop :=
  ∃ id sort, (r.operate tree.evaluate).1 = .ok id ∧
    (r.operate tree.evaluate).2.catalog.get id = .ok sort ∧ sort.display = text

theorem additive_sum (h : r.catalog.Additive) (a b : SortId) :
    (r.perform (.sum a b)).catalog.Additive := by
  have ends := h.ends_sum a b
  change (r.operate (.sum a b)).2.catalog.Additive
  unfold operate
  split
  · rename_i run
    exact (ends.of_ok run).additive
  · rename_i run
    rw [ends.of_error run]
    exact h

theorem additive_performAll (h : r.catalog.Additive) {calls : List Call}
    (sums : ∀ call ∈ calls, ∃ a b, call = .sum a b) : (r.performAll calls).catalog.Additive := by
  induction calls generalizing r with
  | nil => exact h
  | cons call calls ih =>
    obtain ⟨⟨a, b, rfl⟩, others⟩ := List.forall_mem_cons.mp sums
    exact ih (additive_sum h a b) others

/-- The sum of a tree displays the set of what its operands contribute. -/
theorem sumsTo_of_additive (h : r.catalog.Additive)
    (operands : ∀ id ∈ tree.operands, Op.Operand r.catalog id)
    (same : ∀ text, text ∈ tree.contributions r.catalog ↔ text ∈ texts) :
    r.SumsTo tree (unionText texts) := by
  obtain ⟨id, d, run, additive, ⟨sort, found, -⟩, gained, -⟩ := h.exists_evaluate operands
  refine ⟨id, sort, ?_⟩
  rw [operate_of_ok run]
  refine ⟨rfl, found, (additive.display_eq found).trans ?_⟩
  exact disjunctiveText_eq_unionText (additive.nodup_flattened found)
    fun text ↦ (gained text).trans (same text)

/-- Take a registry that texts have built, after any sums, and a tree of sums over live sorts that
are no tuples. It is added up, and the result displays the set of what its operands contribute. So
does every other tree whose operands contribute the same, whether it is added up in place of the
first one or after it; and then the result of the first one still displays this set. -/
theorem sumsTo_union (reached : Reachable ByText r) (calls : List Call)
    (sums : ∀ call ∈ calls, ∃ a b, call = .sum a b) :
    let start := r.performAll calls
    ∀ tree : SumTree, (∀ id ∈ tree.operands, Op.Operand start.catalog id) →
      start.SumsTo tree (unionText (tree.contributions start.catalog)) ∧
      ∀ tree' : SumTree, (∀ id ∈ tree'.operands, Op.Operand start.catalog id) →
        (∀ text, text ∈ tree'.contributions start.catalog ↔
          text ∈ tree.contributions start.catalog) →
        start.SumsTo tree' (unionText (tree.contributions start.catalog)) ∧
        (start.operate tree.evaluate).2.SumsTo tree'
          (unionText (tree.contributions start.catalog)) ∧
        ∃ id sort, (start.operate tree.evaluate).1 = .ok id ∧
          ((start.operate tree.evaluate).2.operate tree'.evaluate).2.catalog.get id = .ok sort ∧
          sort.display = unionText (tree.contributions start.catalog) := by
  intro start tree operands
  have additive : start.catalog.Additive :=
    additive_performAll reached.rested.toFormed.additive sums
  refine ⟨sumsTo_of_additive additive operands fun _ ↦ Iff.rfl, fun tree' operands' same ↦ ?_⟩
  refine ⟨sumsTo_of_additive additive operands' same, ?_⟩
  obtain ⟨id, d, run, additive', operand, gained, swells⟩ := additive.exists_evaluate operands
  rw [operate_of_ok run]
  -- The first tree adds nothing to the operands of the second one that is not among them anyway.
  have later : ∀ id ∈ tree'.operands, Op.Operand d id := fun id inside ↦
    (swells id (operands' id inside)).1
  obtain ⟨grown, bounded⟩ := swells.contributions operands'
  have kept : ∀ text, text ∈ tree'.contributions d ↔ text ∈ tree.contributions start.catalog := by
    intro text
    refine ⟨fun inside ↦ ?_, fun inside ↦ grown text ((same text).mpr inside)⟩
    exact (bounded text inside).elim (same text).mp fun inside ↦ inside
  refine ⟨sumsTo_of_additive additive' later kept, ?_⟩
  obtain ⟨id', e, run', additive'', -, -, swells'⟩ := additive'.exists_evaluate later
  obtain ⟨⟨sort, found, -⟩, more, most⟩ := swells' id operand
  refine ⟨id, sort, rfl, ?_, ?_⟩
  · rw [operate_of_ok (r := { start with catalog := d }) run']
    exact found
  · rw [additive''.display_eq found]
    refine disjunctiveText_eq_unionText (additive''.nodup_flattened found) fun text ↦ ?_
    rw [← gained text]
    refine ⟨fun inside ↦ ?_, more text⟩
    exact (most text inside).elim (fun inside ↦ inside)
      fun inside ↦ (gained text).mpr ((kept text).mp inside)

/-- A disjunction that is added to twice grows in between, and yet all comes to the same. -/
theorem sumsTo_union_sample :
    let r := sample.perform (.defineAll "[Label] x + [Label] y; [Label] z; [Label] x")
    let d : SumTree := .sort ⟨⟨0⟩, ⟨2, 0⟩⟩
    let z : SumTree := .sort ⟨⟨0⟩, ⟨3, 0⟩⟩
    let x : SumTree := .sort ⟨⟨0⟩, ⟨4, 0⟩⟩
    r.SumsTo (.sum (.sum d z) (.sum d x)) "[Label] x+[Label] y+[Label] z" ∧
      r.SumsTo (.sum z d) "[Label] x+[Label] y+[Label] z" := by
  intro r d z x
  have reached : Reachable ByText r := (reachable_sample _).next (by decide +kernel)
  obtain ⟨first, others⟩ := sumsTo_union reached [] (by simp) (.sum (.sum d z) (.sum d x))
    (by decide +kernel)
  have text : unionText ((SumTree.sum (.sum d z) (.sum d x)).contributions r.catalog) =
      "[Label] x+[Label] y+[Label] z" := by decide +kernel
  have same : ∀ text, text ∈ (SumTree.sum z d).contributions r.catalog ↔
      text ∈ (SumTree.sum (.sum d z) (.sum d x)).contributions r.catalog := by
    have listed : (SumTree.sum z d).contributions r.catalog =
        ["[Label] z", "[Label] x", "[Label] y"] := by decide +kernel
    have listed' : (SumTree.sum (.sum d z) (.sum d x)).contributions r.catalog =
        ["[Label] x", "[Label] y", "[Label] z", "[Label] x", "[Label] y", "[Label] x"] := by
      decide +kernel
    rw [listed, listed']
    simp only [List.mem_cons, List.not_mem_nil]
    tauto
  obtain ⟨second, -⟩ := others (.sum z d) (by decide +kernel) same
  exact ⟨text ▸ first, text ▸ second⟩

end CompositeSorts.Registry
