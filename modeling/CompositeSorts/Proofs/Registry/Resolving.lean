import CompositeSorts.Proofs.Catalog.Instances
import CompositeSorts.Proofs.Registry.Bookkeeping

/-!
What a sort stands for. Recursive sorts can be bound by hand, to each other in a circle, to open
ones or to sorts that are undone later. Whatever was called, following instances answers what the
way along them comes to, and it is never cut short before (`resolve_exact`).
-/

set_option autoImplicit false
set_option relaxedAutoImplicit false

namespace CompositeSorts.Registry

open Catalog Relation

variable {r : Registry}

/-- Following instances from any handle answers a sort if and only if the way along instances ends
at this sort and it is not recursive; that a sort is not bound if and only if the way comes to one;
that the sort does not resolve if and only if the way comes back to where it was; and otherwise why
the handle at the end of the way leads to no sort. -/
theorem resolve_exact (reached : Reachable AnyCall r) (id : SortId) :
    (∀ target, r.catalog.resolve id = .ok target ↔ ReflTransGen r.catalog.BoundTo id target ∧
      ∃ sort, r.catalog.get target = .ok sort ∧ sort.variant ≠ .recursive) ∧
    (∀ display, r.catalog.resolve id = .error (.unbound display) ↔
      ∃ last sort, ReflTransGen r.catalog.BoundTo id last ∧ r.catalog.get last = .ok sort ∧
        sort.body = .recursive none ∧ sort.display = display) ∧
    (∀ display, r.catalog.resolve id = .error (.unresolvable display) ↔
      (∃ on, ReflTransGen r.catalog.BoundTo id on ∧ TransGen r.catalog.BoundTo on on) ∧
        r.catalog.display id = .ok display) ∧
    ∀ reason, (r.catalog.resolve id = .error reason ∧
        ∀ display, reason ≠ .unbound display ∧ reason ≠ .unresolvable display) ↔
      ∃ last, ReflTransGen r.catalog.BoundTo id last ∧ r.catalog.get last = .error reason := by
  have rooted := reached.proper.steady.toRooted
  exact ⟨fun _ ↦ rooted.resolve_eq_ok_iff, fun _ ↦ rooted.resolve_eq_unbound_iff,
    fun _ ↦ rooted.resolve_eq_unresolvable_iff, fun _ ↦ rooted.resolve_eq_error_iff⟩

/-- Three recursive sorts that abandoned definitions left open. Two of them are bound to each other,
so the way from either comes back, and the third one is bound to nothing. -/
theorem resolve_exact_sample :
    let r := unansweredSample.performAll [.defineAll "a: [Label] x ^ a + [Never]",
      .defineAll "b: [Label] y ^ b + [Never]", .defineAll "c: [Label] z ^ c + [Never]",
      .bind ⟨⟨0⟩, ⟨1, 0⟩⟩ ⟨⟨0⟩, ⟨4, 0⟩⟩, .bind ⟨⟨0⟩, ⟨4, 0⟩⟩ ⟨⟨0⟩, ⟨1, 0⟩⟩]
    r.catalog.resolve ⟨⟨0⟩, ⟨4, 0⟩⟩ = .error (.unresolvable "b") ∧
      (∃ on, ReflTransGen r.catalog.BoundTo ⟨⟨0⟩, ⟨4, 0⟩⟩ on ∧
        TransGen r.catalog.BoundTo on on) ∧
      r.catalog.resolve ⟨⟨0⟩, ⟨7, 0⟩⟩ = .error (.unbound "c") ∧
      ∃ last sort, ReflTransGen r.catalog.BoundTo ⟨⟨0⟩, ⟨7, 0⟩⟩ last ∧
        r.catalog.get last = .ok sort ∧ sort.body = .recursive none ∧ sort.display = "c" := by
  intro r
  have reached : Reachable AnyCall r :=
    (reachable_unansweredSample _).performAll _ fun _ _ _ ↦ trivial
  have comesBack : r.catalog.resolve ⟨⟨0⟩, ⟨4, 0⟩⟩ = .error (.unresolvable "b") := by
    decide +kernel
  have open_ : r.catalog.resolve ⟨⟨0⟩, ⟨7, 0⟩⟩ = .error (.unbound "c") := by decide +kernel
  exact ⟨comesBack, (((resolve_exact reached _).2.2.1 _).mp comesBack).1, open_,
    ((resolve_exact reached _).2.1 _).mp open_⟩

end CompositeSorts.Registry
