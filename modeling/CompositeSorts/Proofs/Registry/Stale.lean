import CompositeSorts.Proofs.Generations
import CompositeSorts.Proofs.Registry.Atomicity
import CompositeSorts.Proofs.Registry.Bookkeeping

/-!
Stale handles. A handle fits the sort that it was made for, and no other sort as long as the
registry is not cleared: sorts that are edited keep their handles, and a slot goes on in another
generation when its sort is removed (`stale_of_removed`). Clearing drops the slots with their
generations, so handles of before fit sorts that are made afterwards
(`exists_handle_of_other_sort`).
-/

set_option autoImplicit false
set_option relaxedAutoImplicit false

namespace CompositeSorts

namespace Catalog

variable {may : Touch → Prop} {c d e : Catalog} {id : SortId} {sort old : SortRecord}
  {gone more ids : List SortId}

/-- What has become of a catalog from which these sorts were removed, the earlier ones first: the
others still are where they were, and the slots are numbered on. A sort is told by the time it was
made. -/
structure Outlived (gone : List SortId) (c d : Catalog) : Prop where
  home : d.home = c.home
  ours : ∀ id ∈ gone, id.registry = c.home
  remains : ∀ {id sort}, c.get id = .ok sort →
    id ∈ gone ∨ ∃ later, d.get id = .ok later ∧ later.created = sort.created
  numbered : ∀ {earlier}, c.store.Numbered earlier →
    d.store.Numbered (earlier ++ gone.map SortId.key)

namespace Outlived

theorem of_generations (home : d.home = c.home) (remains : ∀ {id sort}, c.get id = .ok sort →
      ∃ later, d.get id = .ok later ∧ later.created = sort.created)
    (same : ∀ index, d.store.generation index = c.store.generation index) : Outlived [] c d where
  home := home
  ours _ inside := absurd inside List.not_mem_nil
  remains found := .inr (remains found)
  numbered {earlier} numbered := by
    rw [List.map_nil, List.append_nil]
    exact numbered.congr same

/-- Names, texts, definitions under way and the journal do not matter. -/
theorem of_store (home : d.home = c.home) (store : d.store = c.store) : Outlived [] c d :=
  of_generations home (fun found ↦ ⟨_, (get_congr home (by rw [store])).trans found, rfl⟩)
    fun _ ↦ by rw [store]

theorem refl (c : Catalog) : Outlived [] c c := of_store rfl rfl

theorem trans (h : Outlived gone c d) (h' : Outlived more d e) : Outlived (gone ++ more) c e where
  home := h'.home.trans h.home
  ours id inside := by
    rcases List.mem_append.mp inside with first | last
    · exact h.ours id first
    · exact (h'.ours id last).trans h.home
  remains found := by
    rw [List.mem_append]
    rcases h.remains found with first | ⟨sort, there, same⟩
    · exact .inl (.inl first)
    rcases h'.remains there with last | ⟨later, found', same'⟩
    · exact .inl (.inr last)
    · exact .inr ⟨later, found', same'.trans same⟩
  numbered numbered := by
    rw [List.map_append, ← List.append_assoc]
    exact h'.numbered (h.numbered numbered)

theorem note (h : Outlived gone c d) (event : Event) : Outlived gone c (d.note event) := by
  simpa using h.trans (of_store (c := d) (d := d.note event) rfl rfl)

theorem add {name : Option String} {canonical : String} {counts : ComponentCounts} {body : Body}
    (rooted : c.Rooted) : Outlived [] c (c.add name canonical counts body) :=
  of_generations rfl (fun found ↦ ⟨_, get_add_of_live rooted found, rfl⟩)
    fun index ↦ SlotMap.generation_allocate _ index

theorem replace (found : c.get sort.id = .ok old) (created : sort.created = old.created) :
    Outlived [] c (c.replace sort) := by
  refine of_generations rfl (fun {id record} there ↦ ?_) fun index ↦
    SlotMap.generation_set _ _ index
  rcases replaced_cases found there with ⟨rfl, rfl, here⟩ | ⟨-, here⟩
  · exact ⟨sort, here, created⟩
  · exact ⟨record, here, rfl⟩

end Outlived

/-- No edit removes a sort or changes the generation of a slot. -/
theorem Edit.outlived (h : Edit may c d) (sound : c.Sound) : Outlived [] c d := by
  cases h with
  | log journal => exact .of_store rfl rfl
  | await pending => exact .of_store rfl rfl
  | add => exact .add sound.toRooted
  | attach text counts base weight =>
    exact (Outlived.add (c := c) sound.toRooted).trans (.of_store rfl rfl)
  | extend _ _ _ found => exact .replace found rfl
  | bind _ _ _ found => exact .replace found rfl
  | own _ found => exact .replace found rfl
  | name => exact .of_store rfl rfl

theorem Edits.outlived (h : Edits may c d) (sound : c.Sound) : Outlived [] c d := by
  induction h with
  | refl => exact .refl c
  | tail before edit outlived => exact outlived.trans (edit.outlived (Edits.sound before sound))

/-- Each of the sorts that are removed leaves its slot in the next generation. -/
theorem outlived_removeAll (live : ∀ id ∈ ids, c.Live id) (nodup : ids.Nodup) :
    Outlived ids c (c.removeAll ids) := by
  induction ids generalizing c with
  | nil => exact .refl c
  | cons id ids ih =>
    obtain ⟨new, nodup⟩ := List.nodup_cons.mp nodup
    obtain ⟨sort, found⟩ := live id List.mem_cons_self
    have ours := registry_of_get found
    have apart : ∀ other, other ≠ id → (c.remove id).get other = c.get other :=
      fun other ne ↦ get_remove_of_ne ours ne
    have first : Outlived [id] c (c.remove id) := by
      refine ⟨home_remove, ?_, fun {other record} there ↦ ?_, fun {earlier} numbered ↦ ?_⟩
      · intro other inside
        rwa [List.mem_singleton.mp inside]
      · by_cases same : other = id
        · exact .inl (List.mem_singleton.mpr same)
        · exact .inr ⟨record, (apart other same).trans there, rfl⟩
      · rw [store_remove]
        exact numbered.deallocate (get_eq_ok_iff.mp found).2
    refine first.trans (ih (fun other inside ↦ ?_) nodup)
    obtain ⟨record, there⟩ := live other (List.mem_cons_of_mem _ inside)
    refine ⟨record, (apart other ?_).trans there⟩
    rintro rfl
    exact new inside

theorem outlived_rollBack (sound : c.Sound) (orderly : c.Orderly) :
    Outlived c.fresh c c.rollBack := by
  have nodup := (orderly.nodup_history sound).sublist orderly.undoable.sublist
  have removed := outlived_removeAll sound.recent nodup
  exact ⟨removed.home, removed.ours, removed.remains, removed.numbered⟩

end Catalog

namespace Registry

open Catalog

variable {r : Registry} {call : Call}

/-- The sorts that were made for a text and removed again, because it turned out to have a
problem. -/
def discarded (r : Registry) (text : String) : List SortId :=
  match (r.defineAll text).1 with
  | .error (.refused _) => r.madeBy text
  | _ => []

/-- The sorts that a call removes. -/
def removals (r : Registry) : Call → List SortId
  | .define text | .defineAll text => r.discarded text
  | .undo => r.catalog.fresh
  | .clear => r.catalog.history
  | _ => []

/-- The sorts that several calls remove, the earlier ones first. -/
def removalsOf (r : Registry) : List Call → List SortId
  | [] => []
  | call :: calls => r.removals call ++ (r.perform call).removalsOf calls

theorem outlived_undo (sound : r.catalog.Sound) (orderly : r.catalog.Orderly) :
    Outlived r.catalog.fresh r.catalog r.undo.2.catalog := by
  have rolledBack := outlived_rollBack sound orderly
  unfold undo
  dsimp only
  split_ifs
  · exact (rolledBack.note _).note _
  · exact rolledBack.note _

theorem outlived_defineAll (reached : Reachable AnyCall r) (text : String) :
    Outlived (r.discarded text) r.catalog (r.defineAll text).2.catalog := by
  have begun : Outlived [] r.catalog r.catalog.openSession := .of_store rfl rfl
  have later := advance_evaluated reached.proper.steady text
  have edits := edits_evaluated reached.proper.steady text
  have evaluated := begun.trans (edits.outlived reached.proper.steady.openSession.toSound)
  have orderly : (r.evaluated text).Orderly := edits.orderly
    reached.proper.steady.openSession.toSound reached.weighed.openSession
    reached.orderly.openSession
  unfold discarded madeBy
  unfold Registry.evaluated at later evaluated orderly ⊢
  unfold defineAll
  split at evaluated
  · rename_i ids c run
    rw [run]
    exact evaluated.note _
  · rename_i reason c run
    rw [run] at later orderly ⊢
    cases reason with
    | abandoned => exact evaluated
    | refused problem =>
      exact (evaluated.trans (outlived_undo (r := { r with catalog := c })
        later.toSound orderly)).note _

theorem outlived_perform (reached : Reachable AnyCall r) (goesOn : call ≠ .clear) :
    Outlived (r.removals call) r.catalog (r.perform call).catalog := by
  by_cases quiet : call.GoesOn
  · have edits := (edits_perform reached.proper.steady quiet).outlived
      reached.proper.steady.toSound
    cases call with
    | define | defineAll | undo | clear => exact quiet.elim
    | _ => exact edits
  cases call with
  | define text =>
    change Outlived (r.discarded text) r.catalog (r.define text).2.catalog
    rw [snd_define]
    exact outlived_defineAll reached text
  | defineAll text => exact outlived_defineAll reached text
  | undo => exact outlived_undo reached.proper.steady.toSound reached.orderly
  | clear => exact absurd rfl goesOn
  | _ => exact absurd trivial quiet

theorem outlived_performAll (reached : Reachable AnyCall r) (calls : List Call)
    (goesOn : .clear ∉ calls) :
    Outlived (r.removalsOf calls) r.catalog (r.performAll calls).catalog := by
  induction calls generalizing r with
  | nil => exact .refl _
  | cons call calls ih =>
    obtain ⟨here, others⟩ := List.ne_and_not_mem_of_not_mem_cons goesOn
    exact (outlived_perform reached here.symm).trans (ih (reached.step call trivial) others)

/-- The handles stay dead whose sorts were removed since the registry was without slots. -/
theorem dead_of_removed (reached : Reachable AnyCall r) (unused : r.catalog.store = .empty)
    (calls : List Call) (goesOn : .clear ∉ calls)
    (few : ∀ slot, SlotMap.ofSlot ((r.removalsOf calls).map SortId.key) slot < 2 ^ 32)
    (id : SortId) (gone : id ∈ r.removalsOf calls) :
    (r.performAll calls).catalog.get id = .error (.dead id) := by
  have outlived := outlived_performAll reached calls goesOn
  have started : r.catalog.store.Numbered [] := unused ▸ SlotMap.numbered_empty
  have numbered := outlived.numbered started
  rw [List.nil_append] at numbered
  refine get_of_get?_eq_none ((outlived.ours id gone).trans outlived.home.symm) ?_
  exact numbered.get?_eq_none (List.mem_map_of_mem gone) (few _)

/-- Take a registry without slots, as it is when it is new or was cleared, any calls made on it of
which none clears it, and a moment between them, the past and the future of which they are. As long
as no slot was freed `2 ^ 32` times, every handle whose sort was removed by one of these calls, be
it by undoing or because a text had a problem, is dead in the end; and a handle that fits a sort at
the moment is either one of those removed later on, or still fits that sort in the end. -/
theorem stale_of_removed (reached : Reachable AnyCall r) (unused : r.catalog.store = .empty)
    (past future : List Call) (goesOn : .clear ∉ past ++ future)
    (few : ∀ slot, SlotMap.ofSlot ((r.removalsOf (past ++ future)).map SortId.key) slot < 2 ^ 32) :
    let moment := r.performAll past
    let last := moment.performAll future
    (∀ id ∈ r.removalsOf (past ++ future), last.catalog.get id = .error (.dead id)) ∧
      ∀ id sort, moment.catalog.get id = .ok sort →
        id ∈ moment.removalsOf future ∨
          ∃ later, last.catalog.get id = .ok later ∧ later.created = sort.created := by
  intro moment last
  have same : last = r.performAll (past ++ future) := (List.foldl_append ..).symm
  refine ⟨fun id gone ↦ ?_, fun id sort found ↦ ?_⟩
  · rw [same]
    exact dead_of_removed reached unused _ goesOn few id gone
  · have still : .clear ∉ future := fun inside ↦ goesOn (List.mem_append_right _ inside)
    exact (outlived_performAll
      (reached.performAll past fun _ _ _ ↦ trivial) future still).remains found

/-- A sort is undone and a text with a problem is discarded, each time from the slot that is used
again by the next sort; a recursive sort that was there before is still found. -/
theorem stale_of_removed_sample :
    let past : List Call := [.defineAll "r: [Label] x ^ r", .define "p: [Label] a"]
    let future : List Call := [.undo, .defineAll "[Label] b + q", .duplicate ⟨⟨0⟩, ⟨0, 0⟩⟩ "c"]
    let moment := sample.performAll past
    let last := moment.performAll future
    moment.removalsOf future =
        [⟨⟨0⟩, ⟨4, 0⟩⟩, ⟨⟨0⟩, ⟨3, 0⟩⟩, ⟨⟨0⟩, ⟨3, 1⟩⟩] ∧
      (last.catalog.get ⟨⟨0⟩, ⟨3, 2⟩⟩).toOption.map SortRecord.display = some "c" ∧
      (∀ id ∈ sample.removalsOf (past ++ future), last.catalog.get id = .error (.dead id)) ∧
      ∀ id sort, moment.catalog.get id = .ok sort → id ∈ moment.removalsOf future ∨
        ∃ later, last.catalog.get id = .ok later ∧ later.created = sort.created := by
  intro past future moment last
  refine ⟨by decide +kernel, by decide +kernel,
    stale_of_removed (reachable_sample _) rfl past future ?_ ?_⟩
  · simp [past, future]
  · exact fun slot ↦ Nat.lt_of_le_of_lt List.countP_le_length (by decide +kernel)

/-- If the registry may be cleared, a handle whose sort was undone can fit another sort. -/
theorem exists_handle_of_other_sort :
    ¬ ∀ (r : Registry) (past future : List Call), Reachable AnyCall r → r.catalog.store = .empty →
      (∀ slot, SlotMap.ofSlot ((r.removalsOf (past ++ future)).map SortId.key) slot < 2 ^ 32) →
      ∀ id ∈ r.removalsOf past, ((r.performAll past).performAll future).catalog.get id =
        .error (.dead id) := by
  intro staysDead
  have dead := staysDead sample [.define "[Label] a", .undo] [.clear, .define "[Label] b"]
    (reachable_sample _) rfl
    (fun slot ↦ Nat.lt_of_le_of_lt List.countP_le_length (by decide +kernel))
    ⟨⟨0⟩, ⟨0, 0⟩⟩ (by decide +kernel)
  have other : (((sample.performAll [.define "[Label] a", .undo]).performAll
      [.clear, .define "[Label] b"]).catalog.get ⟨⟨0⟩, ⟨0, 0⟩⟩).toOption.map SortRecord.display =
        some "[Label] b" := by decide +kernel
  rw [dead] at other
  cases other

end Registry

end CompositeSorts
