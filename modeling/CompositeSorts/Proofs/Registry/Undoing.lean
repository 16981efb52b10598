import CompositeSorts.Proofs.Catalog.Fitting
import CompositeSorts.Proofs.Registry.Atomicity
import CompositeSorts.Proofs.Registry.Sessions

/-!
Undoing a session. Undoing removes the sorts that were made since the session began, and nothing
else. The older sorts are live as before, but a call of the session may have changed one: a
disjunction without a name that stood on the left of a sum has grown, a recursive sort may have been
bound, a sort may have been registered. These are the only traces that a session leaves behind
(`undo_leaves`). They can lead to sorts that are gone, so undoing does not restore the start of a
session in general (`exists_trace_of_session`).
-/

set_option autoImplicit false
set_option relaxedAutoImplicit false

namespace CompositeSorts

open Catalog

namespace Catalog

variable {asked : Touch → Prop} {a c d : Catalog} {id : SortId} {old sort new : SortRecord}

/-- What has become of an older sort in a session. It is as it was; or it has grown by a sum that
was asked for: to its components those of the right operand were appended that it did not have, and
its text and counts are written for the longer list; or it was asked to be bound, and is written as
its instance. A sort can grow several times. -/
inductive Became (asked : Touch → Prop) (old : SortRecord) : SortRecord → Prop where
  | same : Became asked old old
  | extended {c : Catalog} {left other : SortRecord} {right : SortId}
    {components more : List SortId} {parts : List SortRecord} (before : Became asked old left)
    (made : left.body = .disjunctive components) (nameless : left.name = none)
    (ask : asked (.extend c old.id right))
    (summed : Op.Summed c old.id right left other (components ++ more) parts) :
    Became asked old { left with
      canonical := disjunctiveText (parts.map SortRecord.display)
      counts := .composite (parts.map SortRecord.counts)
      body := .disjunctive (components ++ more) }
  | bound {c : Catalog} {target : SortId} {goal : SortRecord} (unbound : old.body = .recursive none)
    (ask : asked (.bind c old.id target)) (found : c.get target = .ok goal) :
    Became asked old { old with
      canonical := goal.canonical, counts := goal.counts, body := .recursive (some target) }

theorem Became.mono {asked' : Touch → Prop} (h : Became asked old sort)
    (more : ∀ touch, asked touch → asked' touch) : Became asked' old sort := by
  induction h with
  | same => exact .same
  | extended _ made nameless ask summed before =>
    exact .extended before made nameless (more _ ask) summed
  | bound unbound ask found => exact .bound unbound (more _ ask) found

theorem Became.id_eq (h : Became asked old sort) : sort.id = old.id := by
  induction h with
  | same => rfl
  | extended _ _ _ _ _ before => exact before
  | bound => rfl

/-- What can be bound was not touched before. -/
theorem Became.eq_of_unbound (h : Became asked old sort) (unbound : sort.body = .recursive none) :
    sort = old := by
  cases h with
  | same => rfl
  | extended | bound => cases unbound

/-- What a catalog holds of the one at the start of the session: the sorts, as far as they were not
asked to change, and the names; whatever else is live is new, and whatever other names there are
were given to new sorts or were asked for. -/
structure Remains (asked : Touch → Prop) (a c : Catalog) : Prop where
  records : ∀ {id : SortId} {old : SortRecord}, a.get id = .ok old →
    ∃ sort, c.get id = .ok sort ∧ Became asked old sort
  fresh : ∀ id ∈ c.fresh, ¬ a.Live id
  rest : ∀ {id : SortId}, c.Live id → a.Live id ∨ id ∈ c.fresh
  keepsName : ∀ {name : String} {id : SortId}, a.names[name]? = some id → c.names[name]? = some id
  newName : ∀ {name : String} {id : SortId}, c.names[name]? = some id →
    a.names[name]? = some id ∨ id ∈ c.fresh ∨ asked (.name id) ∧ a.names[name]? = none

namespace Remains

theorem live (h : Remains asked a c) (live : a.Live id) : c.Live id := by
  obtain ⟨old, found⟩ := live
  obtain ⟨sort, found', -⟩ := h.records found
  exact ⟨sort, found'⟩

theorem mono {asked' : Touch → Prop} (h : Remains asked a c)
    (more : ∀ touch, asked touch → asked' touch) :
    Remains asked' a c where
  records found := by
    obtain ⟨sort, found', became⟩ := h.records found
    exact ⟨sort, found', became.mono more⟩
  fresh := h.fresh
  rest := h.rest
  keepsName := h.keepsName
  newName entry := (h.newName entry).imp_right (Or.imp_right (And.imp_left (more _)))

theorem of_same (h : Remains asked a c) (get : ∀ id, d.get id = c.get id)
    (fresh : d.fresh = c.fresh) (names : d.names = c.names) : Remains asked a d where
  records found := by
    obtain ⟨sort, found', became⟩ := h.records found
    exact ⟨sort, (get _).trans found', became⟩
  fresh id inside := h.fresh id (fresh ▸ inside)
  rest {id} live := by
    unfold Live at live
    rw [get] at live
    rw [fresh]
    exact h.rest live
  keepsName entry := names ▸ h.keepsName entry
  newName entry := by
    rw [fresh]
    exact h.newName (names ▸ entry)

theorem add {name : Option String} {canonical : String} {counts : ComponentCounts} {body : Body}
    (h : Remains asked a c) (rooted : c.Rooted) :
    Remains asked a (c.add name canonical counts body) where
  records found := by
    obtain ⟨sort, found', became⟩ := h.records found
    exact ⟨sort, get_add_of_live rooted found', became⟩
  fresh id inside := by
    rcases List.mem_cons.mp inside with rfl | inside
    · exact fun live ↦ not_live_nextId rooted (h.live live)
    · exact h.fresh id inside
  rest {id} live := by
    rcases (live_add rooted).mp live with rfl | live
    · exact .inr List.mem_cons_self
    · exact (h.rest live).imp_right (List.mem_cons_of_mem _)
  keepsName := h.keepsName
  newName entry := (h.newName entry).imp_right (Or.imp_left (List.mem_cons_of_mem _))

theorem replace (h : Remains asked a c) (found : c.get sort.id = .ok old)
    (step : ∀ first, a.get sort.id = .ok first → Became asked first old → Became asked first sort) :
    Remains asked a (c.replace sort) where
  records {id first} there := by
    obtain ⟨record, found', became⟩ := h.records there
    rcases replaced_cases found found' with ⟨rfl, rfl, here⟩ | ⟨-, here⟩
    · exact ⟨sort, here, step first there became⟩
    · exact ⟨record, here, became⟩
  fresh := h.fresh
  rest live := h.rest ((live_replace found).mp live)
  keepsName := h.keepsName
  newName := h.newName

/-- An older sort is touched only if that was asked for. -/
theorem ask {touch : Touch} (h : Remains asked a c) (found : a.get id = .ok old)
    (allowed : id ∈ c.fresh ∨ asked touch) : asked touch :=
  allowed.resolve_left fun new ↦ h.fresh id new ⟨old, found⟩

/-- A sum that a disjunction without a name grows by was asked for if the disjunction is older. -/
theorem grow {other : SortId} {left right : SortRecord} {components : List SortId}
    {parts : List SortRecord} (h : Remains asked a c) (steady : c.Steady)
    (summed : Op.Summed c id other left right components parts)
    (disjunctive : left.variant = .disjunctive) (nameless : left.name = none)
    (allowed : id ∈ c.fresh ∨ asked (.extend c id other)) :
    Remains asked a (c.replace { left with
      canonical := disjunctiveText (parts.map SortRecord.display)
      counts := .composite (parts.map SortRecord.counts)
      body := .disjunctive components }) := by
  obtain rfl := steady.placed summed.foundLeft
  obtain ⟨more, rfl, -⟩ := Op.merged_eq_append summed.joined
  refine h.replace summed.foundLeft fun first there became ↦ ?_
  have ask := h.ask there allowed
  have same := became.id_eq
  rw [same] at ask summed
  cases made : left.body with
  | disjunctive former =>
    have own : left.summands = former := by
      unfold SortRecord.summands
      rw [made, nameless]
    rw [own] at summed ⊢
    exact .extended became made nameless ask summed
  | _ =>
    rw [SortRecord.variant, made] at disjunctive
    cases disjunctive

/-- A name that is given to an older sort was asked for, and no sort had it. -/
theorem register {text : String} (h : Remains asked a c) (free : c.names[text]? = none)
    (allowed : id ∈ c.fresh ∨ asked (.name id)) :
    Remains asked a { c with names := c.names.insert text id } := by
  refine ⟨h.records, h.fresh, h.rest, fun {name known} entry ↦ ?_, fun {name known} entry ↦ ?_⟩
  · exact getElem?_insert_of_free free (h.keepsName entry)
  · rw [Std.ExtTreeMap.getElem?_insert] at entry
    split at entry
    · rename_i same
      cases entry
      rw [Std.LawfulEqOrd.compare_eq_iff_eq] at same
      subst same
      refine .inr (allowed.imp_right fun ask ↦ ⟨ask, ?_⟩)
      by_contra taken
      obtain ⟨known, entry⟩ := Option.ne_none_iff_exists'.mp taken
      rw [h.keepsName entry] at free
      cases free
    · exact h.newName entry

/-- A step of the session leaves what remains of the start. -/
theorem step {plain : String → Prop} (h : Remains asked a c) (steady : c.Steady)
    (step : Step plain asked c d) : Remains asked a d := by
  have rooted := steady.toRooted
  cases step with
  | log | await => exact h.of_same (fun _ ↦ rfl) rfl rfl
  | placeholder | primitive | copy | sum | tuple | aspect => exact h.add rooted
  | attach => exact (h.add (c := c) rooted).of_same (fun _ ↦ rfl) rfl rfl
  | grow summed disjunctive nameless allowed =>
    exact h.grow steady summed disjunctive nameless allowed
  | @bind recursive target sort goal found foundTarget unbound allowed =>
    obtain rfl := steady.placed found
    refine h.replace found fun first there became ↦ ?_
    have ask := h.ask there allowed
    obtain rfl := became.eq_of_unbound unbound
    exact .bound unbound ask foundTarget
  | own aspects found made new =>
    exact h.replace found fun first there _ ↦ absurd ⟨first, there⟩ (h.fresh _ new)
  | name found carries free allowed => exact h.register free allowed

theorem steps {plain : String → Prop} (h : Remains asked a c) (steady : c.Steady)
    (steps : Steps plain asked c d) : Remains asked a d := by
  induction steps with
  | refl => exact h
  | tail earlier next remains => exact remains.step (Steps.steady earlier steady) next

end Remains

end Catalog

namespace Registry

variable {start r : Registry} {calls : List Call} {asked : Touch → Prop} {id : SortId}

/-- A session: it began with a text, whatever came of it, or without one; then there were these
calls, the last one first. -/
inductive Session (start : Registry) : List Call → Registry → Prop where
  | idle (none : start.catalog.fresh = []) : Session start [] start
  | define (text : String) : Session start [] (start.perform (.define text))
  | defineAll (text : String) : Session start [] (start.perform (.defineAll text))
  | call {calls : List Call} {r : Registry} (before : Session start calls r) (call : Call)
    (goesOn : call.GoesOn) : Session start (call :: calls) (r.perform call)

/-- At some time in the session, one of the calls asked for this to be done to a sort. -/
def Session.Asked (start : Registry) (calls : List Call) (touch : Touch) : Prop :=
  ∃ later call earlier s, calls = later ++ call :: earlier ∧ Session start earlier s ∧
    call.Asks s.catalog touch

theorem Session.Asked.cons {touch : Touch} (h : Session.Asked start calls touch) (call : Call) :
    Session.Asked start (call :: calls) touch := by
  obtain ⟨later, asking, earlier, s, rfl, session, asks⟩ := h
  exact ⟨call :: later, asking, earlier, s, rfl, session, asks⟩

theorem Session.proper (session : Session start calls r) (proper : start.Proper) : r.Proper := by
  induction session with
  | idle => exact proper
  | define text => exact proper.perform _
  | defineAll text => exact proper.perform _
  | call _ call _ proper => exact proper.perform call

/-- The evaluation of a text leaves all that was there. -/
theorem remains_evaluated (proper : start.Proper) (text : String) :
    Remains asked start.catalog (start.evaluated text) := by
  have later := advance_evaluated proper.steady text
  obtain ⟨new, history, fresh, apart⟩ := later.made
  change _ = new ++ start.catalog.history at history
  change _ = new ++ [] at fresh
  rw [List.append_nil] at fresh
  have rest {id : SortId} (live : (start.evaluated text).Live id) :
      start.catalog.Live id ∨ id ∈ (start.evaluated text).fresh := by
    have listed := (later.listed id).mpr live
    rw [history] at listed
    rcases List.mem_append.mp listed with inside | before
    · exact .inr (fresh ▸ inside)
    · exact .inl ((proper.steady.listed id).mp before)
  refine ⟨fun found ↦ ⟨_, later.stays found, .same⟩,
    fun id inside ↦ apart id (fresh ▸ inside), rest,
    later.keepsName, fun {name id} entry ↦ ?_⟩
  rcases later.newName entry with before | new
  · exact .inl before
  · obtain ⟨sort, found, -⟩ := later.named entry
    exact .inr (.inl ((rest ⟨sort, found⟩).resolve_left new))

/-- A text that is defined leaves all that was there, also when the definition fails and what it
made is removed. -/
theorem remains_defineAll (proper : start.Proper) (text : String) :
    Remains asked start.catalog (start.defineAll text).2.catalog := by
  have evaluated : Remains asked start.catalog (start.evaluated text) :=
    remains_evaluated proper text
  have restored : ∀ problem, (start.defineAll text).1 = .error (.refused problem) →
      Restored start (start.defineAll text).2 := fun _ failed ↦ (restored_defineAll proper failed).1
  unfold Registry.evaluated at evaluated
  unfold defineAll at restored ⊢
  split at evaluated
  · rename_i ids c run
    rw [run]
    exact evaluated.of_same (fun _ ↦ rfl) rfl rfl
  · rename_i reason c run
    rw [run] at restored ⊢
    cases reason with
    | abandoned => exact evaluated
    | refused problem =>
      have same := restored problem rfl
      have none : { start with catalog := c }.undo.2.catalog.fresh = [] := fresh_undo _
      refine ⟨fun {id old} found ↦ ⟨old, (same.get id).trans found, .same⟩, fun id inside ↦ ?_,
        fun {id} live ↦ .inl ?_, fun entry ↦ same.names ▸ entry,
        fun entry ↦ .inl (same.names ▸ entry)⟩
      · change id ∈ { start with catalog := c }.undo.2.catalog.fresh at inside
        rw [none] at inside
        cases inside
      · obtain ⟨sort, found⟩ := live
        exact ⟨sort, (same.get id).symm.trans found⟩

/-- What remains of the start of a session in the course of it. -/
theorem Session.remains (session : Session start calls r) (proper : start.Proper) :
    Remains (Session.Asked start calls) start.catalog r.catalog := by
  induction session with
  | idle none =>
    exact ⟨fun found ↦ ⟨_, found, .same⟩, fun id inside ↦ absurd (none ▸ inside) List.not_mem_nil,
      .inl, id, .inl⟩
  | define text =>
    change Remains _ _ (start.define text).2.catalog
    rw [snd_define]
    exact remains_defineAll proper text
  | defineAll text => exact remains_defineAll proper text
  | @call calls s before call goesOn remains =>
    have steady := (before.proper proper).steady
    have steps := Steps.mono (steps_perform steady goesOn (call.plain_of_forall fun _ ↦ trivial))
      fun _ asks ↦ (⟨[], call, calls, s, rfl, before, asks⟩ : Session.Asked start (call :: calls) _)
    exact (remains.mono fun _ ask ↦ ask.cons call).steps steady steps

end Registry

end CompositeSorts
