import CompositeSorts.Proofs.Catalog.Failing
import CompositeSorts.Proofs.Registry.Interning

/-!
Operations of the algebra are all or nothing, but for one case (`fails_restores_iff`). When an
operation ends with an error, the registry is as it was before, whatever has been called until then:
its sorts, names and kept attributes, the order in which sorts were made and the sorts of the
session. The exception is a declaration for which everything is checked before anything is made, but
for the name that the tuple gets. If this one is taken, the tuple and its aspects stay, and the
aspects are registered (`exists_failed_declaration`).
-/

set_option autoImplicit false
set_option relaxedAutoImplicit false

namespace CompositeSorts

open Catalog

namespace Registry

variable {r : Registry} {call : Call} {reason : Stop Refusal}

/-- The call is an operation of the algebra, which ends with an error. -/
inductive Fails (r : Registry) : Call → Stop Refusal → Prop where
  | primitive {tag : String} {argument : Option Argument} {reason : Stop Refusal}
    (failed : (r.primitive tag argument).1 = .error reason) :
    Fails r (.primitive tag argument) reason
  | declareAspects {tag : String} {names : List String} {arguments : List SortId}
    {reason : Stop Refusal}
    (failed : (r.declareAspects tag names arguments).1 = .error reason) :
    Fails r (.declareAspects tag names arguments) reason
  | duplicate {id : SortId} {name : String} {reason : Stop Refusal}
    (failed : (r.operate (.duplicate id name)).1 = .error reason) :
    Fails r (.duplicate id name) reason
  | combine {base weight : SortId} {reason : Stop Refusal}
    (failed : (r.operate (.combine base weight)).1 = .error reason) :
    Fails r (.combine base weight) reason
  | sum {left right : SortId} {reason : Stop Refusal}
    (failed : (r.operate (.sum left right)).1 = .error reason) : Fails r (.sum left right) reason
  | register {id : SortId} {reason : Stop Refusal}
    (failed : (r.operate (.register id)).1 = .error reason) : Fails r (.register id) reason
  | bind {recursive target : SortId} {reason : Stop Refusal}
    (failed : (r.operate (.bind recursive target)).1 = .error reason) :
    Fails r (.bind recursive target) reason

/-- Whatever was done to a registry, the bases of attributes are simple. -/
theorem Reachable.based {allowed : Registry → Call → Prop} (reached : Reachable allowed r) :
    r.catalog.Based :=
  reached.persists_any {
    words := fun _ _ ↦ trivial
    empty := Based.empty
    clear := fun _ ↦ Based.clear _
    step := fun steady based step ↦ based.step steady step
    openSession := Based.openSession
    rollBack := fun steady _ based ↦ based.rollBack steady.toSound }

theorem operate_of_error {α : Type} {operation : Op α} {fault : Catalog → Prop}
    (ends : Ends operation r.catalog (fun _ _ ↦ True) fault)
    (failed : (r.operate operation).1 = .error reason) :
    ∃ c, fault c ∧ (r.operate operation).2 = { r with catalog := c } := by
  unfold operate at failed ⊢
  split at failed
  · cases failed
  · rename_i other c run
    exact ⟨c, ends.of_error run, rfl⟩

/-- An operation that stays where it fails restores the registry. -/
theorem restores_of_stays {α : Type} {operation : Op α}
    (stays : Ends operation r.catalog (fun _ _ ↦ True) (· = r.catalog))
    (failed : (r.operate operation).1 = .error reason) : (r.operate operation).2 = r := by
  obtain ⟨c, rfl, after⟩ := operate_of_error stays failed
  exact after

/-- In a registry that any calls have led to, an operation of the algebra that ends with an error
leaves the registry as it was, if and only if it is not a declaration in which everything was in
order but the name of the tuple. -/
theorem fails_restores_iff (reached : Reachable AnyCall r) (fails : r.Fails call reason) :
    r.perform call = r ↔ ∀ tag names arguments, call = .declareAspects tag names arguments →
      ¬ Op.Collides r.catalog r.categories tag names arguments := by
  have steady := reached.proper.steady
  cases fails with
  | @declareAspects tag names arguments _ failed =>
    obtain ⟨c, stays, after⟩ :=
      operate_of_error (Op.ends_declareAspects_unless_collides steady) failed
    have restored : r.perform (.declareAspects tag names arguments) = r ↔ c = r.catalog := by
      change (r.operate _).2 = r ↔ _
      rw [after]
      exact ⟨fun same ↦ congrArg Registry.catalog same, fun same ↦ same ▸ rfl⟩
    rw [restored, stays]
    constructor
    · rintro clear _ _ _ ⟨⟩
      exact clear
    · exact fun clear ↦ clear _ _ _ rfl
  | primitive failed =>
    refine iff_of_true (restores_of_stays ?_ failed) (by rintro _ _ _ ⟨⟩)
    exact Op.ends_primitive rfl fun _ _ _ _ _ ↦ trivial
  | duplicate failed =>
    refine iff_of_true (restores_of_stays ?_ failed) (by rintro _ _ _ ⟨⟩)
    exact Op.ends_duplicate rfl (fun _ _ _ ↦ trivial) fun _ _ _ _ _ _ ↦ trivial
  | combine failed =>
    refine iff_of_true (restores_of_stays ?_ failed) (by rintro _ _ _ ⟨⟩)
    exact reached.based.ends_combine steady reached.weighed _ _
  | sum failed =>
    refine iff_of_true (restores_of_stays ?_ failed) (by rintro _ _ _ ⟨⟩)
    exact Op.ends_sum rfl (fun _ _ _ _ _ ↦ trivial) (fun _ _ _ _ _ _ _ ↦ trivial)
      (fun _ _ _ _ _ _ _ ↦ trivial) fun _ _ _ _ _ _ ↦ trivial
  | register failed =>
    refine iff_of_true (restores_of_stays ?_ failed) (by rintro _ _ _ ⟨⟩)
    exact Op.ends_register rfl (fun _ _ _ _ _ ↦ trivial) fun _ _ _ _ _ ↦ trivial
  | bind failed =>
    refine iff_of_true (restores_of_stays ?_ failed) (by rintro _ _ _ ⟨⟩)
    exact Op.ends_bind rfl fun _ _ _ _ _ _ _ ↦ trivial

/-- An attribute with the spine `x`, `y` and a disjunction, which cannot be the base of another. -/
def composedSample : Registry :=
  sample.perform (.defineAll "[Label] x ^ [Label] y ^ ([Label] a + [Label] b)")

/-- The attribute `6` is refused as a base, and nothing has been attached. -/
theorem fails_restores_iff_sample :
    composedSample.perform (.combine ⟨⟨0⟩, ⟨6, 0⟩⟩ ⟨⟨0⟩, ⟨0, 0⟩⟩) = composedSample := by
  have reached : Reachable AnyCall composedSample := (reachable_sample _).step _ trivial
  have fails : composedSample.Fails (.combine ⟨⟨0⟩, ⟨6, 0⟩⟩ ⟨⟨0⟩, ⟨0, 0⟩⟩)
      (.refused (.compositeBase "[Label] a+[Label] b" .disjunctive)) :=
    .combine (by decide +kernel)
  exact (fails_restores_iff reached fails).mpr (by rintro _ _ _ ⟨⟩)

/-- A registry with a sort that is registered under the name of a tuple. -/
def tupleSample : Registry :=
  sample.performAll [.primitive "Label" (some (.identifier "x")),
    .duplicate ⟨⟨0⟩, ⟨0, 0⟩⟩ "(a, b)", .register ⟨⟨0⟩, ⟨1, 0⟩⟩]

/-- The declaration of `(a, b)` fails, and the aspects `a` and `b` stay registered. -/
theorem exists_failed_declaration :
    ¬ ∀ r : Registry, Reachable AnyCall r → ∀ call reason, r.Fails call reason →
      (∀ id, (r.perform call).catalog.get id = r.catalog.get id) ∧
        (∀ name : String, (r.perform call).catalog.names[name]? = r.catalog.names[name]?) ∧
        (r.perform call).catalog.history = r.catalog.history ∧
        (∀ text : String, (r.perform call).catalog.interned[text]? = r.catalog.interned[text]?) ∧
        (r.perform call).catalog.fresh = r.catalog.fresh := by
  intro all
  have reached : Reachable AnyCall tupleSample :=
    (reachable_sample _).performAll _ fun _ _ _ ↦ trivial
  let id (number : Nat) : SortId := ⟨⟨0⟩, ⟨number, 0⟩⟩
  have fails : tupleSample.Fails (.declareAspects "Relation" ["a", "b"] [id 0, id 0])
      (.refused (.alreadyDefined "(a, b)")) := .declareAspects (by decide +kernel)
  obtain ⟨-, names, -⟩ := all _ reached _ _ fails
  have left : (tupleSample.perform
      (.declareAspects "Relation" ["a", "b"] [id 0, id 0])).catalog.names["a"]? ≠
        tupleSample.catalog.names["a"]? := by decide +kernel
  exact left (names "a")

end Registry

end CompositeSorts
