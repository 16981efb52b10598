import CompositeSorts.Proofs.Definition.Formed
import CompositeSorts.Proofs.Registry.Atomicity

/-!
Registries that texts build. Between calls no definition is under way, and what was made before a
session does not lead to what is made in it; so a session can be undone, and all that a text can
build is well-formed (`Catalog.WellFormed`): every handle leads to a live sort, recursive sorts
resolve, canonical texts are up to date, and a name belongs to the sort that carries it.

Sorts are made of older sorts, with one exception: a disjunction without a name grows in place, by
components that can be younger. The order of their making is broken then, but no sort is ever made
of itself.
-/

set_option autoImplicit false
set_option relaxedAutoImplicit false

namespace CompositeSorts

namespace Catalog

open Text

variable {a c d : Catalog} {id : SortId} {sort : SortRecord}

/-- What can be relied on in a catalog that texts have built. -/
structure WellFormed (c : Catalog) : Prop where
  idle : c.pending = []
  linked : ∀ {id sort}, c.get id = .ok sort → ∀ other ∈ sort.body.handles, c.Live other
  older : ∀ {id sort}, c.get id = .ok sort → c.Older sort
  acyclic : ∀ id, ¬ Relation.TransGen c.MadeOf id id
  recursive : ∀ {id sort target}, c.get id = .ok sort → sort.body = .recursive target →
    target ≠ none ∧ ∃ goal last, c.resolve id = .ok goal ∧ c.get goal = .ok last ∧
      last.variant ≠ .recursive ∧ sort.canonical = last.canonical ∧ sort.counts = last.counts
  rendered : ∀ {id sort}, c.get id = .ok sort → sort.variant ≠ .recursive →
    c.rendering sort.body = .ok sort.canonical
  registered : ∀ {id sort name}, c.get id = .ok sort → sort.name = some name →
    c.names[name]? = some id

/-- A formed catalog between calls: no definition is under way, and the sorts made before the
session do not lead to those made in it. -/
structure Rested (c : Catalog) : Prop extends Formed [] c where
  idle : c.pending = []
  closed : ∀ {id sort}, c.get id = .ok sort → id ∉ c.fresh →
    ∀ other ∈ sort.body.handles, other ∉ c.fresh

namespace Rested

theorem not_standsIn (h : c.Rested) (id : SortId) : ¬ c.StandsIn id := by
  rintro ⟨pending, inside, -⟩
  rw [h.idle] at inside
  cases inside

theorem bound (h : c.Rested) (found : c.get id = .ok sort) : sort.body ≠ .recursive none := by
  intro unbound
  rcases h.standing found unbound with waits | stands
  · cases waits
  · exact h.not_standsIn id stands

theorem registered (h : c.Rested) {name : String} (found : c.get id = .ok sort)
    (named : sort.name = some name) : c.names[name]? = some id := by
  rcases h.known found named with entry | waits | stands
  · exact entry
  · cases waits
  · exact absurd stands (h.not_standsIn id)

theorem wellFormed (h : c.Rested) : c.WellFormed where
  idle := h.idle
  linked found := (h.fits found).linked
  older found := (h.fits found).older
  acyclic := h.ranked.acyclic
  recursive {id sort target} found made := by
    cases target with
    | none => exact absurd made (h.bound found)
    | some target =>
      obtain ⟨steps, settles⟩ := h.settled found made
      obtain ⟨goal, last, resolved, there, plain, text, counts⟩ := settles.resolve h.toRooted
      exact ⟨by rintro ⟨⟩, goal, last, resolved, there, plain, text.symm, counts.symm⟩
  rendered found := (h.fits found).rendered
  registered := h.registered

theorem empty (home : RegistryId) : (Catalog.empty home).Rested :=
  ⟨Formed.empty home, rfl, fun _ _ _ _ ↦ List.not_mem_nil⟩

/-- A catalog with the same sorts in which no session is under way. -/
theorem of_sameSorts (h : a.Rested) (same : SameSorts a c) (steady : c.Steady)
    (clock : a.clock ≤ c.clock) (idle : c.pending = []) (fresh : c.fresh = []) : c.Rested := by
  refine ⟨h.toFormed.congr steady same.get clock (fun _ inside ↦ inside)
    (fun id stands ↦ absurd stands (h.not_standsIn id)) (fun entry ↦ ?_) (fun entry ↦ ?_) ?_ ?_,
    idle, ?_⟩
  · rw [same.names]
    exact entry
  · rw [same.interned]
    exact entry
  · rw [idle]
    exact List.nodup_nil
  · rw [idle]
    exact fun _ inside ↦ absurd inside List.not_mem_nil
  · intro id sort _ _ other _
    rw [fresh]
    exact List.not_mem_nil

theorem note (h : c.Rested) (event : Event) : (c.note event).Rested :=
  ⟨h.toFormed.note event, h.idle, h.closed⟩

theorem openSession (h : c.Rested) : Formed [] c.openSession :=
  h.toFormed.congr h.toSteady.openSession (fun _ ↦ rfl) (Nat.le_refl _) (fun _ inside ↦ inside)
    (fun id stands ↦ absurd stands (h.not_standsIn id)) (fun entry ↦ entry) (fun entry ↦ entry)
    List.nodup_nil fun _ inside ↦ absurd inside List.not_mem_nil

/-- A text that is evaluated to its end leaves the catalog rested. -/
theorem of_yieldsAll {ids : List SortId} (h : c.Rested) (reached : YieldsAll c.openSession ids d)
    (formed : Formed [] d) : d.Rested := by
  have idle : d.pending = [] := List.forall₂_nil_left_iff.mp reached.awaits
  obtain ⟨new, history, fresh, apart⟩ := reached.made
  change d.fresh = new ++ [] at fresh
  rw [List.append_nil] at fresh
  refine ⟨formed, idle, fun {id sort} found old other inside ↦ ?_⟩
  have listed := (reached.listed id).mpr ⟨sort, found⟩
  rw [history] at listed
  have before : c.Live id := by
    rcases List.mem_append.mp listed with new' | earlier
    · exact absurd (fresh ▸ new') old
    · exact (h.listed id).mp earlier
  obtain ⟨record, there⟩ := before
  have stays := reached.stays (show c.openSession.get id = .ok record from there)
  rw [found] at stays
  cases stays
  rw [fresh]
  exact fun among ↦ apart other among ((h.fits there).linked other inside)

/-- Rolling back leaves the older sorts as they are. -/
theorem rollBack (h : c.Rested) : c.rollBack.Rested := by
  have ours := h.toSound.ours_of_fresh
  have before : ∀ {id sort}, c.rollBack.get id = .ok sort → id ∉ c.fresh ∧ c.get id = .ok sort := by
    intro id sort found
    have out : id ∉ c.fresh := (h.toSound.live_rollBack.mp ⟨sort, found⟩).2
    rw [get_rollBack, get_removeAll_of_notMem ours out] at found
    exact ⟨out, found⟩
  have firm : ∀ id, id ∉ c.fresh → c.Live id → Firm c c.rollBack id := by
    rintro id out ⟨sort, found⟩
    refine .of_get_eq found ?_
    rw [get_rollBack, get_removeAll_of_notMem ours out, found]
  have clock : c.rollBack.clock = c.clock := clock_removeAll c.fresh
  refine ⟨⟨h.toSteady.rollBack, ?_, ?_, ?_, ?_, ?_, ?_, ?_, List.nodup_nil, ?_⟩, rfl, ?_⟩
  · intro id sort found
    rw [clock]
    exact h.stamped (before found).2
  · intro id sort found
    obtain ⟨out, there⟩ := before found
    have fits := h.fits there
    exact fits.frame fun other inside ↦
      firm other (h.closed there out other inside) (fits.linked other inside)
  · exact h.ranked.of_parts_eq fun id sort found ↦ ⟨sort, (before found).2, rfl⟩
  · intro id sort target found bound
    obtain ⟨out, there⟩ := before found
    obtain ⟨steps, settles⟩ := h.settled there bound
    exact ⟨steps, settles.frame_of (· ∉ c.fresh) out firm
      fun other record out there ↦ h.closed there out⟩
  · intro id sort found unbound
    exact absurd unbound (h.bound (before found).2)
  · intro id sort name found named
    obtain ⟨out, there⟩ := before found
    refine Or.inl ?_
    change (c.removeAll c.fresh).names[name]? = _
    rw [getElem?_names_removeAll_iff h.toRooted ours]
    exact ⟨h.registered there named, out⟩
  · intro id sort found nameless weighted
    obtain ⟨out, there⟩ := before found
    refine Or.inl ?_
    change (c.removeAll c.fresh).interned[sort.canonical]? = _
    rw [getElem?_interned_removeAll_iff h.toRooted ours]
    rcases h.unique there nameless weighted with entry | waits
    · exact ⟨entry, out⟩
    · cases waits
  · exact fun _ inside ↦ absurd inside List.not_mem_nil
  · exact fun _ _ _ _ ↦ List.not_mem_nil

theorem clear (c : Catalog) : c.clear.Rested := by
  have hollow : SameSorts (Catalog.empty c.home) c.clear := ⟨fun _ ↦ rfl, rfl, rfl, rfl⟩
  exact (empty c.home).of_sameSorts hollow (Steady.clear c) (Nat.zero_le _) rfl rfl

end Rested

end Catalog

namespace Registry

open Catalog

variable {r : Registry}

/-- The calls by which texts are defined, undone, dropped and matched; an evaluation that was
abandoned does not count. -/
def ByText (r : Registry) : Call → Prop
  | .define text => (r.define text).1 ≠ .error .abandoned
  | .defineAll text => (r.defineAll text).1 ≠ .error .abandoned
  | .undo | .clear | .matchSorts _ _ | .takeLog => True
  | _ => False

/-- A text that is evaluated to its end keeps the catalog formed. -/
theorem ends_evaluateText_formed {c : Catalog} (categories : CategoryTable) (text : String)
    (h : Formed [] c) :
    Ends (evaluateText categories text) c (fun _ d ↦ Formed [] d) fun _ ↦ True := by
  unfold evaluateText
  split
  · rename_i stream read
    have spelled := Grammar.spelled_program categories stream (TokenStream.spelled_ofText read)
    exact (Phrase.formsAll categories _ c h spelled).mono (fun _ _ forms ↦ forms.formed)
      fun _ _ ↦ trivial
  · exact Ends.throw trivial

theorem rested_undo (h : r.catalog.Rested) : r.undo.2.catalog.Rested := by
  unfold undo
  dsimp only
  split_ifs
  · exact (h.rollBack.note _).note _
  · exact h.rollBack.note _

theorem clock_undo (r : Registry) : r.undo.2.catalog.clock = r.catalog.clock := by
  unfold undo
  dsimp only
  split_ifs <;> exact clock_removeAll _

theorem rested_defineAll (proper : r.Proper) (h : r.catalog.Rested) {text : String}
    (finished : (r.defineAll text).1 ≠ .error .abandoned) :
    (r.defineAll text).2.catalog.Rested := by
  have later := advance_evaluated proper.steady text
  have yields := ends_evaluateText r.categories text h.openSession.toSteady
  have formed := ends_evaluateText_formed r.categories text h.openSession
  have restored : ∀ problem, (r.defineAll text).1 = .error (.refused problem) →
      Restored r (r.defineAll text).2 := fun _ failed ↦ (restored_defineAll proper failed).1
  have steady := (proper.defineAll text).steady
  unfold evaluated at later
  unfold defineAll at finished restored steady ⊢
  split at later
  · rename_i ids c run
    rw [run] at finished restored steady ⊢
    have last := formed.of_ok run
    exact (h.of_yieldsAll (yields.of_ok run) last).note _
  · rename_i reason c run
    rw [run] at finished restored steady ⊢
    cases reason with
    | abandoned => exact absurd rfl finished
    | refused problem =>
      have same := restored problem rfl
      refine h.of_sameSorts same.toSameSorts steady ?_ same.pending (fresh_undo _)
      exact later.later.trans (clock_undo { r with catalog := c }).ge

/-- The two ways to define a text are abandoned together. -/
theorem finished_of_define {text : String} (finished : (r.define text).1 ≠ .error .abandoned) :
    (r.defineAll text).1 ≠ .error .abandoned := by
  intro abandoned
  apply finished
  unfold define
  split
  · rename_i run
    rw [run] at abandoned
    cases abandoned
  · rename_i run
    rw [run] at abandoned
    cases abandoned
    rfl

theorem rested_perform (proper : r.Proper) (h : r.catalog.Rested) (call : Call)
    (allow : r.ByText call) : (r.perform call).catalog.Rested := by
  cases call with
  | define text =>
    change (r.define text).2.catalog.Rested
    rw [snd_define]
    exact rested_defineAll proper h (finished_of_define allow)
  | defineAll text => exact rested_defineAll proper h allow
  | undo => exact rested_undo h
  | clear => exact Rested.clear r.catalog
  | matchSorts left right =>
    change (r.matchSorts left right).2.catalog.Rested
    unfold matchSorts
    split <;> exact h
  | takeLog =>
    have same : SameSorts r.catalog r.takeLog.2.catalog := ⟨fun _ ↦ rfl, rfl, rfl, rfl⟩
    have formed : Formed [] r.takeLog.2.catalog :=
      h.toFormed.congr proper.takeLog.steady (fun _ ↦ rfl) (Nat.le_refl _) (fun _ inside ↦ inside)
        (fun _ ↦ Or.inr) (fun entry ↦ entry) (fun entry ↦ entry) h.apart h.announced
    exact ⟨formed, h.idle, h.closed⟩
  | _ => exact absurd allow id

theorem Reachable.rested (reached : Reachable ByText r) : r.catalog.Rested := by
  induction reached with
  | empty id _ _ => exact Rested.empty id
  | step before call allow rested => exact rested_perform before.proper rested call allow

theorem Reachable.next (reached : Reachable ByText r) {text : String}
    (finished : (r.defineAll text).1 ≠ .error .abandoned) :
    Reachable ByText (r.perform (.defineAll text)) := .step reached _ finished

/-- Whatever texts are defined, and whatever sessions are undone, the catalog is well-formed. -/
theorem wellFormed_of_reachable (reached : Reachable ByText r) : r.catalog.WellFormed :=
  reached.rested.wellFormed

/-- Recursive sorts that lead to each other, a text that fails and a sum that grows in place. -/
theorem wellFormed_sample :
    let r := ((sample.perform (.defineAll "a: [Label] p ^ (b: [Flag] + a); [Count] 3 ^ b")).perform
      (.defineAll "c: a ^ d")).perform (.defineAll "[Label] x + [Label] y + [Label] z")
    r.catalog.sorts.length = 12 ∧ r.catalog.WellFormed :=
  ⟨by decide +kernel, wellFormed_of_reachable
    ((((reachable_sample _).next (by decide +kernel)).next (by decide +kernel)).next
      (by decide +kernel))⟩

/-- A disjunction without a name can have a component that is younger than itself: the third summand
is made after the sum of the first two, which it is added to in place. -/
theorem exists_younger_component :
    ¬ ∀ r : Registry, Reachable ByText r → ∀ id sort, r.catalog.get id = .ok sort →
      ∀ part ∈ sort.body.parts, r.catalog.MadeBefore sort.created part := by
  intro partsOlder
  have younger := partsOlder (sample.perform (.defineAll "[Label] x + [Label] y + [Label] z"))
    ((reachable_sample _).next (by decide +kernel)) ⟨⟨0⟩, ⟨2, 0⟩⟩
  have seen : (match
      (sample.perform (.defineAll "[Label] x + [Label] y + [Label] z")).catalog.get ⟨⟨0⟩, ⟨2, 0⟩⟩,
      (sample.perform (.defineAll "[Label] x + [Label] y + [Label] z")).catalog.get ⟨⟨0⟩, ⟨3, 0⟩⟩ with
    | .ok sum, .ok part => decide (⟨⟨0⟩, ⟨3, 0⟩⟩ ∈ sum.body.parts ∧ sum.created < part.created)
    | _, _ => false) = true := by decide +kernel
  split at seen
  · rename_i sum part foundSum foundPart
    obtain ⟨inside, order⟩ := of_decide_eq_true seen
    obtain ⟨record, found, before⟩ := younger sum foundSum _ inside
    rw [foundPart] at found
    cases found
    exact absurd before (Nat.lt_asymm order)
  · cases seen

end Registry

end CompositeSorts
