import CompositeSorts.Proofs.Matching.Keeping
import CompositeSorts.Proofs.Registry.Atomicity

/-!
Asking again. Between calls no pair is under way, whatever the calls answered (`Reachable.idle`). So
a match that is answered is remembered, for the sort or for the displays of the two sorts, and
asking for it again finds it there and makes nothing.
-/

set_option autoImplicit false
set_option relaxedAutoImplicit false

namespace CompositeSorts

open Matchings Matching

variable {c : Catalog} {config : Configuration} {t : Matchings} {id : MatchId} {l r : SortRecord}
  {left right : SortId}

/-! ### What is remembered -/

namespace Matchings

/-- What is remembered of two sorts: of a sort and itself by its handle, of others by their
displays. -/
def remembered (t : Matchings) (left right : SortId) (l r : SortRecord) : Option MatchId :=
  if left = right then t.identities[l.id]? else t.memo[(⟨l.display, r.display⟩ : PairKey)]?

end Matchings

/-- What matching answers is remembered of two live sorts. -/
theorem remembered_relate (c : Catalog) (config : Configuration) (left right : SortId)
    (t : Matchings) : Ends (relate c config [] left right) t
      (fun id t' ↦ ∃ l r, c.get left = .ok l ∧ c.get right = .ok r ∧
        t'.remembered left right l r = some id) fun _ ↦ True := by
  cases foundLeft : c.get left with
  | error reason =>
    rw [relate, foundLeft]
    exact Ends.throw trivial
  | ok l =>
  cases foundRight : c.get right with
  | error reason =>
    rw [relate, foundLeft, foundRight]
    exact Ends.throw trivial
  | ok r =>
  rw [relate_of_found foundLeft foundRight, if_neg List.not_mem_nil]
  suffices answers : Ends (if left = right then identity l
      else consult config ⟨l.display, r.display⟩ (Rule.forVariants c config
        (relate c config [⟨l.display, r.display⟩]) l r)) t
      (fun id t' ↦ t'.remembered left right l r = some id) fun _ ↦ True from
    answers.mono (fun _ _ entry ↦ ⟨l, r, rfl, rfl, entry⟩) fun _ _ ↦ trivial
  unfold remembered
  split_ifs with same
  · refine Ends.bind (Ends.get ?_)
    split
    · exact Ends.pure ‹_›
    · refine Ends.bind (ends_push (Ends.bind (Ends.modify (Ends.pure ?_))))
      exact Std.ExtTreeMap.getElem?_insert_self
  · refine ends_consult (fun id entry _ _ ↦ entry) fun _ ↦ ?_
    refine Ends.of_forall fun id t' ↦ ends_remember (fun known entry t'' still ↦ ?_) fun _ ↦ ?_
    · rw [still.memo]
      exact entry
    · exact Std.ExtTreeMap.getElem?_insert_self

/-- What is remembered is answered, and no match is made. -/
theorem relate_of_remembered (foundLeft : c.get left = .ok l) (foundRight : c.get right = .ok r)
    (entry : t.remembered left right l r = some id) :
    Ends (relate c config [] left right) t (fun id' t' ↦ id' = id ∧ t'.nodes = t.nodes)
      fun _ ↦ False := by
  rw [relate_of_found foundLeft foundRight, if_neg List.not_mem_nil]
  unfold remembered at entry
  split_ifs at entry ⊢ with same
  · refine Ends.bind (Ends.get ?_)
    rw [entry]
    exact Ends.pure ⟨rfl, rfl⟩
  · refine ends_consult (fun id' entry' _ _ ↦ ?_) fun new ↦ ?_
    · rw [entry] at entry'
      exact ⟨(Option.some.inj entry').symm, rfl⟩
    · rw [entry] at new
      cases new

/-- The calls that neither match sorts nor take anything from the matches. -/
def Call.LeavesMatches : Call → Prop
  | .clear | .matchSorts .. | .undo | .takeLog => False
  | _ => True

namespace Registry

variable {r : Registry} {post : MatchId → Matchings → Prop} {fault : Matchings → Prop}

/-- A call that matches two sorts ends as the matching of the sorts does. -/
theorem ends_matchSorts
    (h : Ends (relate r.catalog r.config [] left right) r.matchings post fault) :
    (∃ id t, r.matchSorts left right = (.ok id, { r with matchings := t }) ∧ post id t) ∨
      ∃ reason t, r.matchSorts left right = (.error reason, { r with matchings := t }) ∧
      fault t := by
  unfold matchSorts
  cases run : relate r.catalog r.config [] left right r.matchings with
  | ok id t => exact .inl ⟨id, t, rfl, h.of_ok run⟩
  | error reason t => exact .inr ⟨reason, t, rfl, h.of_error run⟩

/-- What matching keeps, whichever way it ends, a call that matches two sorts keeps. -/
theorem kept_matchSorts {kept : Matchings → Prop}
    (h : Ends (relate r.catalog r.config [] left right) r.matchings (fun _ ↦ kept) kept) :
    kept (r.matchSorts left right).2.matchings := by
  obtain ⟨id, t, answer, here⟩ | ⟨reason, t, answer, here⟩ := ends_matchSorts h
  all_goals
    rw [answer]
    exact here

/-! ### Between calls -/

/-- What stays so of the matches of a registry: matching keeps it, and so do the calls that drop
matches or forget what is remembered. -/
structure Endures (good : Configuration → Matchings → Prop) : Prop where
  empty : ∀ config, good config .empty
  clear : ∀ {config t}, good config t → good config t.clear
  forget : ∀ {config t} (gone : List SortId), good config t → good config (t.forget gone).2
  unlogged : ∀ {config t}, good config t → good config { t with journal := [] }
  relate : ∀ {c : Catalog} {config t} (left right : SortId), c.Rooted → good config t →
    Ends (relate c config [] left right) t (fun _ ↦ good config) (good config)

theorem config_defineAll (r : Registry) (text : String) :
    (r.defineAll text).2.config = r.config := by
  unfold defineAll
  split <;> rfl

/-- These calls leave the matches and the configuration alone. -/
theorem left_perform (proper : r.Proper) {call : Call} (leaves : call.LeavesMatches) :
    (r.perform call).matchings = r.matchings ∧ (r.perform call).config = r.config := by
  have operated {α : Type} (operation : Op α) :
      (r.operate operation).2.matchings = r.matchings ∧
        (r.operate operation).2.config = r.config := by
    unfold operate
    split <;> exact ⟨rfl, rfl⟩
  cases call with
  | define text =>
    change (r.define text).2.matchings = _ ∧ (r.define text).2.config = _
    rw [snd_define]
    exact ⟨matchings_defineAll proper text, config_defineAll r text⟩
  | defineAll text => exact ⟨matchings_defineAll proper text, config_defineAll r text⟩
  | clear | matchSorts | undo | takeLog => exact leaves.elim
  | _ => exact operated _

/-- A call keeps what stays so of the matches. -/
theorem Endures.perform {good : Configuration → Matchings → Prop} (h : Endures good)
    (proper : r.Proper) (here : good r.config r.matchings) (call : Call) :
    good (r.perform call).config (r.perform call).matchings := by
  by_cases leaves : call.LeavesMatches
  · obtain ⟨matchings, config⟩ := left_perform proper leaves
    rw [matchings, config]
    exact here
  cases call with
  | clear => exact h.clear here
  | matchSorts left right =>
    change good (r.matchSorts left right).2.config (r.matchSorts left right).2.matchings
    obtain ⟨id, t, answer, kept⟩ | ⟨reason, t, answer, kept⟩ :=
      ends_matchSorts (h.relate left right proper.steady.toRooted here)
    all_goals
      rw [answer]
      exact kept
  | undo => exact h.forget _ here
  | takeLog => exact h.unlogged here
  | _ => exact absurd trivial leaves

/-- Only undoing and clearing take anything from the matches. -/
theorem keeps_perform (proper : r.Proper) (call : Call) (goesOn : call ≠ .clear)
    (stays : call ≠ .undo) : Keeps r.matchings (r.perform call).matchings := by
  by_cases leaves : call.LeavesMatches
  · rw [(left_perform proper leaves).1]
    exact .refl _
  cases call with
  | clear => exact absurd rfl goesOn
  | undo => exact absurd rfl stays
  | matchSorts left right =>
    exact kept_matchSorts (keeps_relate r.catalog r.config [] left right r.matchings)
  | takeLog => exact .of_same rfl rfl rfl
  | _ => exact absurd trivial leaves

/-- What stays so of the matches is so of those of every registry that calls lead to. -/
theorem Reachable.endures {allowed : Registry → Call → Prop}
    {good : Configuration → Matchings → Prop} (reached : Reachable allowed r) (h : Endures good) :
    good r.config r.matchings := by
  induction reached with
  | empty id categories config => exact h.empty config
  | step before call _ here => exact h.perform before.proper here call

/-- Between calls no pair is under way. -/
theorem Reachable.idle {allowed : Registry → Call → Prop} (reached : Reachable allowed r) :
    r.matchings.underWay = [] := by
  have lasting : Endures fun _ t ↦ t.underWay = [] := {
    empty := fun _ ↦ rfl
    clear := fun _ ↦ rfl
    forget := fun _ idle ↦ idle
    unlogged := fun idle ↦ idle
    relate := fun left right _ idle ↦ (guarded_relate _ _ [] left right _).mono
      (fun _ _ guarded ↦ guarded.underWay idle) fun _ guarded ↦ guarded.underWay idle }
  exact reached.endures lasting

/-! ### Asking again -/

/-- A match that was answered is answered again, and no match is made for it. -/
theorem matchSorts_again (answered : (r.matchSorts left right).1 = .ok id) :
    let after := (r.matchSorts left right).2
    (after.matchSorts left right).1 = .ok id ∧
      (after.matchSorts left right).2.matchings.nodes = after.matchings.nodes := by
  obtain ⟨id', t, answer, l, s, foundLeft, foundRight, entry⟩ | ⟨reason, t, answer, -⟩ :=
    ends_matchSorts (remembered_relate r.catalog r.config left right r.matchings)
  · rw [answer] at answered ⊢
    cases answered
    have again : Ends (relate r.catalog r.config [] left right) t
        (fun id' t' ↦ id' = id ∧ t'.nodes = t.nodes) fun _ ↦ False :=
      relate_of_remembered foundLeft foundRight entry
    obtain ⟨id', t', answer', rfl, same⟩ | ⟨-, -, -, ⟨⟩⟩ :=
      ends_matchSorts (r := { r with matchings := t }) again
    dsimp only
    rw [answer']
    exact ⟨rfl, same⟩
  · rw [answer] at answered
    cases answered

/-- Matching only appends, and leaves no pair under way. Whatever was done to a registry before and
whatever matching answers, every match that was there is there unchanged, and so is what was
remembered of pairs of sorts and of sorts themselves. When there is an answer, asking again gives
the same one, and no match is made. -/
theorem matchSorts_appends (reached : Reachable AnyCall r) (left right : SortId) :
    let after := (r.matchSorts left right).2
    Keeps r.matchings after.matchings ∧ after.matchings.underWay = [] ∧
      ∀ id, (r.matchSorts left right).1 = .ok id →
        (after.matchSorts left right).1 = .ok id ∧
          (after.matchSorts left right).2.matchings.nodes = after.matchings.nodes := by
  exact ⟨keeps_perform reached.proper (.matchSorts left right) Call.noConfusion
    Call.noConfusion, (reached.step (.matchSorts left right) trivial).idle,
    fun _ ↦ matchSorts_again⟩

/-- A disjunction beside the recursive sort that stands for it, after another match. -/
theorem matchSorts_appends_sample :
    let r := (sample.perform (.defineAll "p: [Label] p; q: p ^ q + p")).perform
      (.matchSorts ⟨⟨0⟩, ⟨3, 0⟩⟩ ⟨⟨0⟩, ⟨1, 0⟩⟩)
    let after := (r.matchSorts ⟨⟨0⟩, ⟨4, 0⟩⟩ ⟨⟨0⟩, ⟨2, 0⟩⟩).2
    r.matchings.nodes.size = 7 ∧ after.matchings.nodes.size = 9 ∧
      Keeps r.matchings after.matchings ∧ after.matchings.underWay = [] ∧
      ∀ id, (r.matchSorts ⟨⟨0⟩, ⟨4, 0⟩⟩ ⟨⟨0⟩, ⟨2, 0⟩⟩).1 = .ok id →
        (after.matchSorts ⟨⟨0⟩, ⟨4, 0⟩⟩ ⟨⟨0⟩, ⟨2, 0⟩⟩).1 = .ok id ∧
          (after.matchSorts ⟨⟨0⟩, ⟨4, 0⟩⟩ ⟨⟨0⟩, ⟨2, 0⟩⟩).2.matchings.nodes = after.matchings.nodes :=
  ⟨by decide +kernel, by decide +kernel,
    matchSorts_appends (.step (.step (reachable_sample _) _ trivial) _ trivial) _ _⟩

end Registry

end CompositeSorts
