import CompositeSorts.Proofs.Catalog.Steps
import CompositeSorts.Proofs.Definition.Advance
import CompositeSorts.Proofs.Definition.Spelling

/-!
What evaluating a phrase does to a catalog is a row of steps, whichever way the evaluation ends:
each operation that it is put together from is one, and rows of steps are put one behind the other.
The names, tags and numbers of a text are unmarked, so they are plain where unmarked words are.
-/

set_option autoImplicit false
set_option relaxedAutoImplicit false

namespace CompositeSorts

open Catalog Evaluation Text

variable {α : Type} {plain : String → Prop} {may : Touch → Prop} {operation : Op α}

theorem Catalog.Stepping.at (h : Stepping plain may operation) (position : Position) :
    Stepping plain may (operation.at position) := fun c steady ↦ Op.ends_at (h c steady)

namespace Evaluation

theorem stepping_announce {name : String} (named : plain name) :
    Stepping plain may (Op.announce name) := by
  intro c steady
  refine Op.ends_announce .refl fun _ _ ↦ .single (.await _ ?_ ?_)
  · intro pending inside id stands
    rcases List.mem_cons.mp inside with rfl | inside
    · cases stands
    · exact steady.awaited pending inside id stands
  · intro pending inside
    rcases List.mem_cons.mp inside with rfl | inside
    · exact .inl named
    · exact .inr ⟨pending, inside, rfl⟩

theorem stepping_mention (name : String) : Stepping plain may (Op.mention name) := by
  intro c steady
  refine Op.ends_mention (fun _ ↦ .refl) (fun _ _ _ ↦ .refl) fun index there ↦ ?_
  have announced : (⟨name, none⟩ : Pending) ∈ c.pending := List.mem_of_getElem? there
  have added : Step plain may c (c.add (some name) name .ofPlaceholder (.recursive none)) :=
    .placeholder announced
  refine .tail (.tail (.single added) (.await _ ?_ ?_)) (.log _)
  · intro pending inside id stands
    rcases List.mem_or_eq_of_mem_set inside with inside | rfl
    · obtain ⟨sort, found, carries⟩ := steady.awaited pending inside id stands
      exact ⟨sort, get_add_of_live steady.toRooted found, carries⟩
    · cases stands
      exact ⟨_, get_add_nextId steady.toRooted, rfl⟩
  · intro pending inside
    rcases List.mem_or_eq_of_mem_set inside with inside | rfl
    · exact .inr ⟨pending, inside, rfl⟩
    · exact .inr ⟨_, announced, rfl⟩

theorem stepping_conclude : Stepping plain may Op.conclude := by
  intro c steady
  refine Op.ends_conclude (fun _ ↦ .refl) fun innermost outer under ↦ ?_
  have among {pending : Pending} (inside : pending ∈ outer) : pending ∈ c.pending :=
    under ▸ List.mem_cons_of_mem _ inside
  exact .single (.await outer (fun pending inside ↦ steady.awaited pending (among inside))
    fun pending inside ↦ .inr ⟨pending, among inside, rfl⟩)

theorem stepping_lookUp (position : Position) (name : String) :
    Stepping plain may (lookUp position name) := by
  refine ((stepping_mention name).at position).bind fun placeholder ↦ ?_
  split
  · exact .pure _
  · refine Stepping.get.bind fun c ↦ ?_
    split
    · exact .pure _
    · exact .throw _

/-- A definition can bind a sort and register one, and which they are it finds out when it has come
to its end. -/
theorem stepping_complete (position : Position) {name : String} (body : SortId)
    (named : plain name) : Stepping plain (fun _ ↦ True) (complete position name body) := by
  have registered (id : SortId) : Stepping plain (fun _ ↦ True) (Op.register id) :=
    fun c _ ↦ steps_register (.inr trivial)
  refine (stepping_conclude.at position).bind fun innermost ↦ ?_
  split
  · rename_i placeholder _
    have bound : Stepping plain (fun _ ↦ True) (Op.bind placeholder body) :=
      fun c _ ↦ steps_bind (.inr trivial)
    dsimp only
    split_ifs
    · exact Stepping.bind (.throw _) fun _ ↦ (bound.at position).bind fun _ ↦
        ((registered placeholder).at position).bind fun _ ↦ .pure _
    · exact (bound.at position).bind fun _ ↦
        ((registered placeholder).at position).bind fun _ ↦ .pure _
  · refine Stepping.get.bind fun c ↦ ?_
    split
    · exact .throw _
    · exact ((stepping_duplicate body named).at position).bind fun copied ↦
        ((registered copied).at position).bind fun _ ↦ .pure _

end Evaluation

mutual

/-- Evaluating a phrase of a text is a row of steps. -/
theorem Phrase.stepping (categories : CategoryTable) (phrase : Phrase)
    (words : ∀ text, Unmarked text → plain text) (spelled : phrase.Spelled categories) :
    Stepping plain (fun _ ↦ True) (phrase.evaluate categories) := by
  match phrase with
  | .reference position name => exact stepping_lookUp position name
  | .primitive position tag argument =>
    refine (stepping_primitive categories (words tag spelled.1) fun lexeme given ↦ ?_).at position
    cases argument with
    | none => cases given
    | some literal =>
      cases literal with
      | bound text =>
        cases given
        exact words _ (spelled.2 _ rfl).1
      | _ => cases given
  | .linked position tag arguments =>
    exact (Phrase.steppingAll categories arguments words spelled.2.1).bind fun linked ↦
      (stepping_primitive categories (words tag spelled.1) (by rintro _ ⟨⟩)).at position
  | .weighted position base weight =>
    exact (Phrase.stepping categories base words spelled.1).bind fun b ↦
      (Phrase.stepping categories weight words spelled.2).bind fun w ↦
        (stepping_combine b w).at position
  | .sum position left right =>
    exact (Phrase.stepping categories left words spelled.1).bind fun l ↦
      (Phrase.stepping categories right words spelled.2).bind fun r ↦
        Stepping.at (fun c _ ↦ steps_sum (.inr trivial)) position
  | .definition position name body =>
    exact ((stepping_announce (words name spelled.1)).at position).bind fun _ ↦
      (Phrase.stepping categories body words spelled.2).bind fun target ↦
        stepping_complete position target (words name spelled.1)
  | .aspects position tag names arguments =>
    exact (Phrase.steppingAll categories arguments words spelled.2.2).bind fun linked ↦
      (stepping_declareAspects categories tag linked
        fun name inside ↦ words name (spelled.2.1 name inside)).at position
  | .after earlier last =>
    exact (Phrase.steppingAll categories earlier words spelled.1).bind fun _ ↦
      Phrase.stepping categories last words spelled.2.1
  | .stop reason => exact .throw reason

/-- Evaluating phrases one after the other is a row of steps. -/
theorem Phrase.steppingAll (categories : CategoryTable) (phrases : List Phrase)
    (words : ∀ text, Unmarked text → plain text) (spelled : AllSpelled categories phrases) :
    Stepping plain (fun _ ↦ True) (Phrase.evaluateAll categories phrases) := by
  match phrases with
  | [] => exact .pure []
  | phrase :: phrases =>
    exact (Phrase.stepping categories phrase words spelled.1).bind fun _ ↦
      (Phrase.steppingAll categories phrases words spelled.2).bind fun _ ↦ .pure _

end

end CompositeSorts
