import CompositeSorts.Proofs.Catalog.Mutual
import CompositeSorts.Proofs.Registry.Identity

/-!
Aspects. Whatever was called, each aspects tuple lists its aspects, and each aspect is listed by its
tuple (`links_of_reachable`). This is so between the calls, and also where the evaluation of a text
ends, before what the text made is rolled back if it is refused.
-/

set_option autoImplicit false
set_option relaxedAutoImplicit false

namespace CompositeSorts

open Catalog Evaluation

variable {ε ε' α β : Type} {categories : CategoryTable} {c : Catalog}

/-- The computation leaves tuples and aspects in agreement, whichever way it ends. -/
def Agreeing (categories : CategoryTable) (m : EStateM ε Catalog α) : Prop :=
  ∀ c, c.Mutual categories → Ends m c (fun _ d ↦ d.Mutual categories) (Mutual categories)

namespace Agreeing

theorem pure (a : α) : Agreeing categories (Pure.pure a : EStateM ε Catalog α) :=
  fun _ agree ↦ Ends.pure agree

theorem throw (reason : ε) :
    Agreeing categories (MonadExcept.throw reason : EStateM ε Catalog α) :=
  fun _ agree ↦ Ends.throw agree

theorem get : Agreeing categories (MonadState.get : EStateM ε Catalog Catalog) :=
  fun _ agree ↦ Ends.get agree

theorem bind {m : EStateM ε Catalog α} {f : α → EStateM ε Catalog β}
    (h : Agreeing categories m) (h' : ∀ a, Agreeing categories (f a)) :
    Agreeing categories (m >>= f) :=
  fun c agree ↦ Ends.bind ((h c agree).mono (fun a d ↦ h' a d) fun _ ↦ id)

theorem of_untying {m : EStateM ε Catalog α} (untying : Untying m) : Agreeing categories m :=
  fun c agree ↦ (untying c agree.toSteady).mono (fun _ _ ↦ agree.sameTies) fun _ ↦ agree.sameTies

theorem declareAspects (tag : String) (names : List String) (arguments : List SortId) :
    Agreeing categories (Op.declareAspects categories tag names arguments) :=
  fun _ agree ↦ mutual_declareAspects agree tag names arguments

end Agreeing

theorem Agreeing.at {operation : Op α} (h : Agreeing categories operation) (position : Position) :
    Agreeing categories (operation.at position) := fun c agree ↦ Op.ends_at (h c agree)

/-! ### Texts -/

namespace Evaluation

theorem untying_announce (name : String) : Untying (Op.announce name) := by
  intro c steady
  refine Op.ends_announce (.refl steady) fun _ _ ↦
    .of_same (steady.withPending ?_) (fun _ ↦ rfl) rfl
  intro pending inside id stands
  rcases List.mem_cons.mp inside with rfl | inside
  · cases stands
  · exact steady.awaited pending inside id stands

theorem untying_mention (name : String) : Untying (Op.mention name) := by
  intro c steady
  refine Op.ends_mention (fun _ ↦ .refl steady) (fun _ _ _ ↦ .refl steady) fun index there ↦ ?_
  have added : SameTies c (c.add (some name) name .ofPlaceholder (.recursive none)) :=
    .add steady not_false (by rintro _ ⟨⟩)
  have pending : SameTies (c.add (some name) name .ofPlaceholder (.recursive none))
      { c.add (some name) name .ofPlaceholder (.recursive none) with
        pending := c.pending.set index ⟨name, some c.nextId⟩ } := by
    refine .of_same (added.toSteady.withPending fun pending inside id stands ↦ ?_)
      (fun _ ↦ rfl) rfl
    rcases List.mem_or_eq_of_mem_set inside with inside | rfl
    · exact added.toSteady.awaited pending inside id stands
    · cases stands
      exact ⟨_, get_add_nextId steady.toRooted, rfl⟩
  exact (added.trans pending).note _

theorem untying_conclude : Untying Op.conclude := by
  intro c steady
  refine Op.ends_conclude (fun _ ↦ .refl steady) fun innermost outer under ↦
    .of_same (steady.withPending fun pending inside ↦ ?_) (fun _ ↦ rfl) rfl
  exact steady.awaited pending (under ▸ List.mem_cons_of_mem _ inside)

theorem agreeing_lookUp (position : Position) (name : String) :
    Agreeing categories (lookUp position name) := by
  refine ((Agreeing.of_untying (untying_mention name)).at position).bind fun placeholder ↦ ?_
  split
  · exact .pure _
  · refine Agreeing.get.bind fun c ↦ ?_
    split
    · exact .pure _
    · exact .throw _

theorem agreeing_complete (position : Position) (name : String) (body : SortId) :
    Agreeing categories (complete position name body) := by
  have registered (id : SortId) : Agreeing categories (Op.register id) :=
    .of_untying (untying_register id)
  refine ((Agreeing.of_untying untying_conclude).at position).bind fun innermost ↦ ?_
  split
  · rename_i placeholder _
    have bound : Agreeing categories (Op.bind placeholder body) :=
      .of_untying (untying_bind placeholder body)
    dsimp only
    split_ifs
    · exact Agreeing.bind (.throw _) fun _ ↦ (bound.at position).bind fun _ ↦
        ((registered placeholder).at position).bind fun _ ↦ .pure _
    · exact (bound.at position).bind fun _ ↦
        ((registered placeholder).at position).bind fun _ ↦ .pure _
  · refine Agreeing.get.bind fun c ↦ ?_
    split
    · exact .throw _
    · exact ((Agreeing.of_untying (untying_duplicate body name)).at position).bind fun copied ↦
        ((registered copied).at position).bind fun _ ↦ .pure _

end Evaluation

mutual

/-- Evaluating a phrase leaves tuples and aspects in agreement. -/
theorem Phrase.agreeing (categories : CategoryTable) (phrase : Phrase) :
    Agreeing categories (phrase.evaluate categories) := by
  match phrase with
  | .reference position name => exact agreeing_lookUp position name
  | .primitive position tag argument =>
    exact (Agreeing.of_untying (untying_primitive categories tag _)).at position
  | .linked position tag arguments =>
    exact (Phrase.agreeingAll categories arguments).bind fun linked ↦
      (Agreeing.of_untying (untying_primitive categories tag _)).at position
  | .weighted position base weight =>
    exact (Phrase.agreeing categories base).bind fun b ↦
      (Phrase.agreeing categories weight).bind fun w ↦
        (Agreeing.of_untying (untying_combine b w)).at position
  | .sum position left right =>
    exact (Phrase.agreeing categories left).bind fun l ↦
      (Phrase.agreeing categories right).bind fun r ↦
        (Agreeing.of_untying (untying_sum l r)).at position
  | .definition position name body =>
    exact ((Agreeing.of_untying (untying_announce name)).at position).bind fun _ ↦
      (Phrase.agreeing categories body).bind fun target ↦ agreeing_complete position name target
  | .aspects position tag names arguments =>
    exact (Phrase.agreeingAll categories arguments).bind fun linked ↦
      (Agreeing.declareAspects tag names linked).at position
  | .after earlier last =>
    exact (Phrase.agreeingAll categories earlier).bind fun _ ↦ Phrase.agreeing categories last
  | .stop reason => exact .throw reason

/-- Evaluating phrases one after the other leaves tuples and aspects in agreement. -/
theorem Phrase.agreeingAll (categories : CategoryTable) (phrases : List Phrase) :
    Agreeing categories (Phrase.evaluateAll categories phrases) := by
  match phrases with
  | [] => exact .pure []
  | phrase :: phrases =>
    exact (Phrase.agreeing categories phrase).bind fun _ ↦
      (Phrase.agreeingAll categories phrases).bind fun _ ↦ .pure _

end

/-! ### Calls -/

namespace Registry

variable {r : Registry}

theorem mutual_evaluated (agree : r.catalog.Mutual r.categories) (text : String) :
    (r.evaluated text).Mutual r.categories := by
  have ends : Ends (evaluateText r.categories text) r.catalog.openSession
      (fun _ d ↦ d.Mutual r.categories) (Mutual r.categories) := by
    unfold evaluateText
    split
    · exact Phrase.agreeingAll r.categories _ _ agree.openSession
    · exact Ends.throw agree.openSession
  unfold evaluated
  split
  · rename_i run
    have agree := ends.of_ok run
    exact agree
  · exact ends.of_error ‹_›

theorem mutual_undo (agree : r.catalog.Mutual categories) :
    r.undo.2.catalog.Mutual categories := by
  unfold undo
  dsimp only
  split_ifs
  · exact (agree.rollBack.note _).note _
  · exact agree.rollBack.note _

theorem mutual_defineAll (agree : r.catalog.Mutual r.categories) (text : String) :
    (r.defineAll text).2.catalog.Mutual r.categories := by
  have evaluated := mutual_evaluated agree text
  unfold Registry.evaluated at evaluated
  unfold defineAll
  split at evaluated
  · rename_i run
    rw [run]
    exact evaluated.note _
  · rename_i reason _ run
    rw [run]
    cases reason with
    | abandoned => exact evaluated
    | refused problem => exact (mutual_undo evaluated).note _

theorem mutual_operate {α : Type} {operation : Op α} (agree : r.catalog.Mutual categories)
    (agreeing : Agreeing categories operation) :
    (r.operate operation).2.catalog.Mutual categories := by
  have ends := agreeing r.catalog agree
  unfold operate
  split
  · rename_i run
    have agree := ends.of_ok run
    exact agree
  · rename_i run
    exact ends.of_error run

theorem mutual_perform (agree : r.catalog.Mutual r.categories) (call : Call) :
    (r.perform call).catalog.Mutual r.categories := by
  cases call with
  | define text =>
    change (r.define text).2.catalog.Mutual r.categories
    rw [snd_define]
    exact mutual_defineAll agree text
  | defineAll text => exact mutual_defineAll agree text
  | undo => exact mutual_undo agree
  | clear => exact Mutual.clear r.catalog
  | matchSorts left right =>
    change (r.matchSorts left right).2.catalog.Mutual r.categories
    unfold matchSorts
    split <;> exact agree
  | primitive tag argument =>
    exact mutual_operate agree (.of_untying (untying_primitive r.categories tag argument))
  | declareAspects tag names arguments =>
    exact mutual_operate agree (.declareAspects tag names arguments)
  | duplicate id name => exact mutual_operate agree (.of_untying (untying_duplicate id name))
  | combine base weight => exact mutual_operate agree (.of_untying (untying_combine base weight))
  | sum left right => exact mutual_operate agree (.of_untying (untying_sum left right))
  | register id => exact mutual_operate agree (.of_untying (untying_register id))
  | bind recursive target =>
    exact mutual_operate agree (.of_untying (untying_bind recursive target))
  | takeLog =>
    have taken : Step (fun _ ↦ True) (fun _ ↦ True) r.catalog { r.catalog with journal := [] } :=
      .log []
    exact agree.sameTies (.of_same (taken.steady agree.toSteady) (fun _ ↦ rfl) rfl)

theorem Reachable.mutual {allowed : Registry → Call → Prop} (reached : Reachable allowed r) :
    r.catalog.Mutual r.categories := by
  induction reached with
  | empty id categories config => exact Mutual.empty id
  | step _ call _ agree =>
    rw [categories_perform]
    exact mutual_perform agree call

/-- In every registry that any calls lead to, and where the evaluation of any text on it ends, a
tuple has an aspect for each of its arguments, at least two, all different and as many as its
category says: the aspect at a place names the tuple and the place, and is linked to the argument
there. Each aspect is listed by its tuple at its place. A tuple and its aspects are rolled back only
together. -/
theorem links_of_reachable (reached : Reachable AnyCall r) {c : Catalog}
    (stands : c = r.catalog ∨ ∃ text, c = r.evaluated text) :
    (∀ id sort tag aspects arguments, c.get id = .ok sort →
      sort.body = .aspects tag aspects arguments →
        c.Tupled r.categories id tag aspects arguments ∧ aspects.Nodup ∧
        (∀ (position : Nat) aspect, aspects[position]? = some aspect →
          ∃ argument, arguments[position]? = some argument ∧ c.argumentOf aspect = .ok argument) ∧
        ∀ aspect ∈ aspects, c.rollBack.Live aspect ↔ c.rollBack.Live id) ∧
    ∀ id sort owner position, c.get id = .ok sort → sort.body = .aspect owner position →
      c.Listed id owner position := by
  have agree : c.Mutual r.categories := by
    rcases stands with rfl | ⟨text, rfl⟩
    · exact reached.mutual
    · exact mutual_evaluated reached.mutual text
  refine ⟨fun id sort tag aspects arguments found made ↦ ?_,
    fun id sort owner position ↦ agree.places⟩
  have tupled := agree.tuples found made
  exact ⟨tupled, tupled.nodup, fun position aspect ↦ tupled.argumentOf found made,
    fun aspect ↦ agree.live_rollBack_iff found made⟩

/-- A text declares a tuple and then fails. Where its evaluation ends the tuple is there with its
aspects, beside an older tuple; only the older one and its aspects are not rolled back. -/
theorem links_of_reachable_sample :
    let r := sample.perform (.defineAll "a: [Label] p; (m, n): [Relation] (a, [Flag])")
    let c := r.evaluated "(u, v): [Relation] (m, a); w"
    let id (number : Nat) : SortId := ⟨⟨0⟩, ⟨number, 0⟩⟩
    c.Tupled r.categories (id 6) "Relation" [id 7, id 8] [id 4, id 1] ∧
      c.argumentOf (id 7) = .ok (id 4) ∧ ¬ c.rollBack.Live (id 7) ∧
      c.Tupled r.categories (id 3) "Relation" [id 4, id 5] [id 1, id 2] ∧
      c.rollBack.Live (id 5) := by
  intro r c id
  have reached : Reachable AnyCall r := (reachable_sample _).step _ trivial
  obtain ⟨tuples, -⟩ := links_of_reachable reached (.inr ⟨"(u, v): [Relation] (m, a); w", rfl⟩)
  have shows (d : Catalog) (number : Nat) (body : Body)
      (seen : (d.get (id number)).toOption.map SortRecord.body = some body) :
      ∃ sort, d.get (id number) = .ok sort ∧ sort.body = body := exists_of_seen seen
  obtain ⟨new, isNew, made⟩ :=
    shows c 6 (.aspects "Relation" [id 7, id 8] [id 4, id 1]) (by decide +kernel)
  obtain ⟨old, isOld, made'⟩ :=
    shows c 3 (.aspects "Relation" [id 4, id 5] [id 1, id 2]) (by decide +kernel)
  obtain ⟨kept, isKept, -⟩ :=
    shows c.rollBack 3 (.aspects "Relation" [id 4, id 5] [id 1, id 2]) (by decide +kernel)
  obtain ⟨tupled, -, linked, together⟩ := tuples _ _ _ _ _ isNew made
  obtain ⟨tupled', -, -, together'⟩ := tuples _ _ _ _ _ isOld made'
  refine ⟨tupled, ?_, fun live ↦ ?_, tupled', ?_⟩
  · obtain ⟨argument, ⟨⟩, answered⟩ := linked 0 (id 7) rfl
    exact answered
  · obtain ⟨sort, found⟩ := (together (id 7) List.mem_cons_self).mp live
    have gone : (c.rollBack.get (id 6)).toOption.isSome = false := by decide +kernel
    rw [found] at gone
    cases gone
  · exact (together' (id 5) (List.mem_cons_of_mem _ List.mem_cons_self)).mpr ⟨kept, isKept⟩

end Registry

end CompositeSorts
