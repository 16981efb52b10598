import CompositeSorts.Proofs.Catalog.Walks
import CompositeSorts.Proofs.Definition.Steps
import CompositeSorts.Proofs.Registry.Reachable

/-!
What calls do to the catalog. The calls that neither define a text nor remove sorts are rows of
steps, and each of them touches one older sort at most, the one that it was asked to change
(`Call.Asks`). A text is evaluated by a row of steps, too. So what steps preserve, and rolling
back as well, holds of every registry there can be (`Reachable.persists`), as the age of weights
does (`Reachable.weighed`). What depends on the words that calls are given holds where these words
are plain (`Call.Plain`).
-/

set_option autoImplicit false
set_option relaxedAutoImplicit false

namespace CompositeSorts

open Catalog

/-- The calls by which a session goes on: they define no text and remove no sort. -/
def Call.GoesOn : Call → Prop
  | .define _ | .defineAll _ | .undo | .clear => False
  | _ => True

/-- The names, tags and numbers that a call is given directly, not in a text, are plain. -/
def Call.Plain (plain : String → Prop) : Call → Prop
  | .primitive tag argument => plain tag ∧ ∀ lexeme, argument = some (.bound lexeme) → plain lexeme
  | .declareAspects _ names _ => ∀ name ∈ names, plain name
  | .duplicate _ name => plain name
  | _ => True

theorem Call.plain_of_forall {plain : String → Prop} (all : ∀ text, plain text) (call : Call) :
    call.Plain plain := by
  cases call with
  | primitive tag argument => exact ⟨all tag, fun lexeme _ ↦ all lexeme⟩
  | declareAspects tag names arguments => exact fun name _ ↦ all name
  | duplicate id name => exact all name
  | _ => trivial

/-- In this catalog, the call asks for this to be done to a sort. -/
def Call.Asks (c : Catalog) (call : Call) : Touch → Prop
  | .extend c' id right => c' = c ∧ call = .sum id right
  | .bind c' id target => c' = c ∧ call = .bind id target
  | .name id => call = .register id

namespace Registry

variable {r : Registry} {call : Call} {plain : String → Prop} {may : Touch → Prop}

theorem steps_operate {α : Type} {operation : Op α} (h : Ends operation r.catalog
      (fun _ d ↦ Steps plain may r.catalog d) (Steps plain may r.catalog)) :
    Steps plain may r.catalog (r.operate operation).2.catalog := by
  unfold operate
  split
  · rename_i run
    have steps := h.of_ok run
    exact steps
  · rename_i run
    exact h.of_error run

/-- A call by which a session goes on is a row of steps, and touches what it was asked to. -/
theorem steps_perform (steady : r.catalog.Steady) (goesOn : call.GoesOn)
    (worded : call.Plain plain) :
    Steps plain (call.Asks r.catalog) r.catalog (r.perform call).catalog := by
  cases call with
  | define text => exact goesOn.elim
  | defineAll text => exact goesOn.elim
  | undo => exact goesOn.elim
  | clear => exact goesOn.elim
  | matchSorts left right =>
    change Steps _ _ _ (r.matchSorts left right).2.catalog
    unfold matchSorts
    split <;> exact .refl
  | primitive tag argument =>
    exact steps_operate (stepping_primitive _ worded.1 worded.2 _ steady)
  | declareAspects tag names arguments =>
    exact steps_operate (stepping_declareAspects _ tag arguments worded _ steady)
  | duplicate id name => exact steps_operate (stepping_duplicate id worded _ steady)
  | combine base weight => exact steps_operate (stepping_combine base weight _ steady)
  | sum left right => exact steps_operate (steps_sum (.inr ⟨rfl, rfl⟩))
  | register id => exact steps_operate (steps_register (.inr rfl))
  | bind recursive target => exact steps_operate (steps_bind (.inr ⟨rfl, rfl⟩))
  | takeLog => exact .single (.log [])

/-- A text is evaluated by a row of steps of the catalog in which a session has begun. -/
theorem steps_evaluated (words : ∀ text, Text.Unmarked text → plain text)
    (steady : r.catalog.Steady) (text : String) :
    Steps plain (fun _ ↦ True) r.catalog.openSession (r.evaluated text) := by
  have ends : Ends (evaluateText r.categories text) r.catalog.openSession
      (fun _ d ↦ Steps plain (fun _ ↦ True) r.catalog.openSession d)
      (Steps plain (fun _ ↦ True) r.catalog.openSession) := by
    unfold evaluateText
    split
    · rename_i stream read
      have spelled := Grammar.spelled_program r.categories stream (TokenStream.spelled_ofText read)
      exact Phrase.steppingAll r.categories _ words spelled _ steady.openSession
    · exact Ends.throw .refl
  unfold evaluated
  split
  · rename_i run
    have steps := ends.of_ok run
    exact steps
  · rename_i run
    exact ends.of_error run

theorem edits_perform (steady : r.catalog.Steady) (goesOn : call.GoesOn) :
    Edits (call.Asks r.catalog) r.catalog (r.perform call).catalog :=
  (steps_perform steady goesOn (call.plain_of_forall fun _ ↦ trivial)).edits steady

theorem edits_evaluated (steady : r.catalog.Steady) (text : String) :
    Edits (fun _ ↦ True) r.catalog.openSession (r.evaluated text) :=
  (steps_evaluated (fun _ _ ↦ trivial) steady text).edits steady.openSession

/-! ### What lasts -/

/-- A condition that holds of empty catalogs and that steps, the beginning and the rolling back of a
session and clearing do not put an end to, where the words that are given are plain and what is
rolled back is tidy. -/
structure Persists (plain : String → Prop) (tidy condition : Catalog → Prop) : Prop where
  words : ∀ text, Text.Unmarked text → plain text
  empty : ∀ home, condition (Catalog.empty home)
  clear : ∀ {c : Catalog}, condition c → condition c.clear
  step : ∀ {c d : Catalog}, c.Steady → condition c → Step plain (fun _ ↦ True) c d → condition d
  openSession : ∀ {c : Catalog}, condition c → condition c.openSession
  rollBack : ∀ {c : Catalog}, c.Steady → tidy c → condition c → condition c.rollBack

/-- Whatever the call rolls back is tidy at the time. -/
def RollsBack (tidy : Catalog → Prop) (r : Registry) : Call → Prop
  | .define text | .defineAll text => tidy (r.evaluated text)
  | .undo => tidy r.catalog
  | _ => True

theorem rollsBack_of_forall {tidy : Catalog → Prop} (all : ∀ c, tidy c) (r : Registry)
    (call : Call) : r.RollsBack tidy call := by
  cases call with
  | define | defineAll | undo => exact all _
  | _ => trivial

namespace Persists

variable {tidy condition : Catalog → Prop}

theorem steps (h : Persists plain tidy condition) {c d : Catalog} (steady : c.Steady)
    (holds : condition c) (steps : Steps plain may c d) : condition d := by
  induction steps with
  | refl => exact holds
  | tail before step holds =>
    exact h.step (Steps.steady before steady) holds (step.mono fun _ _ ↦ trivial)

theorem note (h : Persists plain tidy condition) {c : Catalog} (steady : c.Steady)
    (holds : condition c) (event : Event) : condition (c.note event) := h.step steady holds (.log _)

theorem undo (h : Persists plain tidy condition) (steady : r.catalog.Steady)
    (tidied : tidy r.catalog) (holds : condition r.catalog) : condition r.undo.2.catalog := by
  have rolledBack := h.rollBack steady tidied holds
  unfold Registry.undo
  dsimp only
  split_ifs
  · exact h.note (steady.rollBack.note _) (h.note steady.rollBack rolledBack _) _
  · exact h.note steady.rollBack rolledBack _

theorem defineAll (h : Persists plain tidy condition) (proper : r.Proper)
    (holds : condition r.catalog) {text : String} (tidied : tidy (r.evaluated text)) :
    condition (r.defineAll text).2.catalog := by
  have later := advance_evaluated proper.steady text
  have evaluated := h.steps proper.steady.openSession (h.openSession holds)
    (steps_evaluated h.words proper.steady text)
  unfold Registry.evaluated at later evaluated tidied
  unfold Registry.defineAll
  split at evaluated
  · rename_i ids c run
    rw [run] at later ⊢
    exact h.note later.toSteady evaluated _
  · rename_i reason c run
    rw [run] at later tidied ⊢
    cases reason with
    | abandoned => exact evaluated
    | refused problem =>
      have undone := (proper.withCatalog later).undo.steady
      exact h.note undone (h.undo (r := { r with catalog := c }) later.toSteady tidied evaluated) _

theorem perform (h : Persists plain tidy condition) (proper : r.Proper)
    (holds : condition r.catalog) (call : Call) (worded : call.Plain plain)
    (tidied : r.RollsBack tidy call) : condition (r.perform call).catalog := by
  by_cases goesOn : call.GoesOn
  · exact h.steps proper.steady holds (steps_perform proper.steady goesOn worded)
  cases call with
  | define text =>
    change condition (r.define text).2.catalog
    rw [snd_define]
    exact h.defineAll proper holds tidied
  | defineAll text => exact h.defineAll proper holds tidied
  | undo => exact h.undo proper.steady tidied holds
  | clear => exact h.clear holds
  | _ => exact absurd trivial goesOn

end Persists

section

variable {allowed : Registry → Call → Prop} {tidy condition : Catalog → Prop}

/-- What lasts holds of every registry there can be, as far as words are plain and what is rolled
back is tidy. -/
theorem Reachable.persists_tidy (reached : Reachable allowed r) (h : Persists plain tidy condition)
    (worded : ∀ r call, allowed r call → call.Plain plain)
    (tidied : ∀ r call, Reachable allowed r → r.RollsBack tidy call) : condition r.catalog := by
  induction reached with
  | empty id categories config => exact h.empty id
  | step before call allow holds =>
    exact h.perform before.proper holds call (worded _ call allow) (tidied _ call before)

/-- What lasts whatever is rolled back holds as far as words are plain. -/
theorem Reachable.persists (reached : Reachable allowed r)
    (h : Persists plain (fun _ ↦ True) condition)
    (worded : ∀ r call, allowed r call → call.Plain plain) : condition r.catalog :=
  reached.persists_tidy h worded fun r call _ ↦ r.rollsBack_of_forall (fun _ ↦ trivial) call

/-- What lasts whatever the words are, too, holds of every registry there can be. -/
theorem Reachable.persists_any (reached : Reachable allowed r)
    (h : Persists (fun _ ↦ True) (fun _ ↦ True) condition) : condition r.catalog :=
  reached.persists h fun _ call _ ↦ call.plain_of_forall fun _ ↦ trivial

/-- Whatever was done to a registry, the weight of an attribute is there and is older. -/
theorem Reachable.weighed (reached : Reachable allowed r) : r.catalog.Weighed :=
  reached.persists_any {
    words := fun _ _ ↦ trivial
    empty := Weighed.empty
    clear := fun _ ↦ Weighed.clear _
    step := fun steady weighed step ↦ (step.edit steady.toSound).weighed steady.toSound weighed
    openSession := Weighed.openSession
    rollBack := fun steady _ weighed ↦ weighed.rollBack steady.toSound }

end

end Registry

end CompositeSorts
