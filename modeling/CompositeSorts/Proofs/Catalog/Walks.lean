import CompositeSorts.Catalog.Resolution
import CompositeSorts.Proofs.Catalog.Edits
import CompositeSorts.Proofs.Catalog.Growth

/-!
Walks along weights. The chain of a sort is found by going from an attribute to its weight as long
as there is one, and nothing in the catalog bounds how far that is. It ends because the weight of an
attribute is an older sort, as long as the attribute is there (`Weighed`): every edit leaves it so,
even those that make a disjunction contain itself, and rolling back never removes a weight without
the attributes that have it. So the spine of a sort, which is cut off after so many steps as there
were sorts made, is always the end of its walk (`Weighed.walk_spine`).
-/

set_option autoImplicit false
set_option relaxedAutoImplicit false

namespace CompositeSorts.Catalog

variable {may : Touch → Prop} {c d : Catalog} {id base weight : SortId} {sort old : SortRecord}

/-- Where going from a sort to its weight, and on to the weight of that, comes to an end: at a sort
that is no attribute, or at a handle that leads nowhere. -/
inductive Walk (c : Catalog) : SortId → Except Refusal (List SortId) → Prop where
  | missing {id : SortId} {reason : Refusal} (nowhere : c.get id = .error reason) :
    Walk c id (.error reason)
  | last {id : SortId} {sort : SortRecord} (found : c.get id = .ok sort)
    (plain : ∀ base weight, sort.body ≠ .weighted base weight) : Walk c id (.ok [id])
  | link {id base weight : SortId} {sort : SortRecord} {behind : Except Refusal (List SortId)}
    (found : c.get id = .ok sort) (made : sort.body = .weighted base weight)
    (walk : Walk c weight behind) : Walk c id (behind.map (base :: ·))

namespace Walk

variable {ends ends' : Except Refusal (List SortId)} {chain : List SortId}

/-- A walk comes to one end only. -/
theorem eq (h : c.Walk id ends) (h' : c.Walk id ends') : ends = ends' := by
  induction h generalizing ends' with
  | missing nowhere =>
    cases h' with
    | missing nowhere' =>
      rw [nowhere] at nowhere'
      cases nowhere'
      rfl
    | last found _ => rw [nowhere] at found; cases found
    | link found _ _ => rw [nowhere] at found; cases found
  | last found plain =>
    cases h' with
    | missing nowhere => rw [found] at nowhere; cases nowhere
    | last _ _ => rfl
    | link found' made _ =>
      rw [found] at found'
      cases found'
      exact absurd made (plain _ _)
  | link found made _ ih =>
    cases h' with
    | missing nowhere => rw [found] at nowhere; cases nowhere
    | last found' plain =>
      rw [found] at found'
      cases found'
      exact absurd made (plain _ _)
    | link found' made' walk =>
      rw [found] at found'
      cases found'
      rw [made] at made'
      cases made'
      rw [ih walk]

/-- What is added to a catalog does not change where its walks end. -/
theorem grow (h : c.Walk id (.ok chain)) (grown : Growth c d) : d.Walk id (.ok chain) := by
  generalize ended : (Except.ok chain : Except Refusal (List SortId)) = ends at h
  induction h generalizing chain with
  | missing => cases ended
  | last found plain =>
    cases ended
    exact .last (grown.stays found) plain
  | @link id base weight sort behind found made _ ih =>
    cases behind with
    | error reason => cases ended
    | ok rest =>
      cases ended
      exact .link (grown.stays found) made (ih rfl)

end Walk

/-- The clock is past every sort, and the weight of an attribute is there and is older, also in the
sense that it is not of the session if the attribute is not. -/
structure Weighed (c : Catalog) : Prop where
  stamped : ∀ {id sort}, c.get id = .ok sort → sort.created < c.clock
  weights : ∀ {id sort base weight}, c.get id = .ok sort → sort.body = .weighted base weight →
    ∃ w, c.get weight = .ok w ∧ w.created < sort.created ∧ (weight ∈ c.fresh → id ∈ c.fresh)

namespace Weighed

theorem empty (home : RegistryId) : (Catalog.empty home).Weighed where
  stamped found := by simp [get_eq_ok_iff, Catalog.empty, SlotMap.get?_empty] at found
  weights found := by simp [get_eq_ok_iff, Catalog.empty, SlotMap.get?_empty] at found

theorem of_same (h : c.Weighed) (get : ∀ id, d.get id = c.get id) (clock : d.clock = c.clock)
    (fresh : d.fresh = c.fresh) : d.Weighed where
  stamped found := by
    rw [clock]
    exact h.stamped ((get _).symm.trans found)
  weights {id sort base weight} found made := by
    obtain ⟨w, there, older, new⟩ := h.weights ((get _).symm.trans found) made
    exact ⟨w, (get _).trans there, older, fresh ▸ new⟩

theorem add {name : Option String} {canonical : String} {counts : ComponentCounts} {body : Body}
    (h : c.Weighed) (rooted : c.Rooted) (weighed : ∀ base weight, body = .weighted base weight →
      c.Live weight ∨ ∃ id source, c.get id = .ok source ∧ source.body = body) :
    (c.add name canonical counts body).Weighed where
  stamped {id sort} found := by
    rcases get_add_cases rooted found with ⟨rfl, rfl⟩ | ⟨-, before⟩
    · exact Nat.lt_succ_self c.clock
    · exact Nat.lt_succ_of_lt (h.stamped before)
  weights {id sort base weight} found made := by
    rcases get_add_cases rooted found with ⟨rfl, rfl⟩ | ⟨-, before⟩
    · obtain ⟨w, there⟩ : c.Live weight := by
        rcases weighed base weight made with live | ⟨other, source, found, same⟩
        · exact live
        · obtain ⟨w, there, -⟩ := h.weights found (same.trans made)
          exact ⟨w, there⟩
      exact ⟨w, get_add_of_live rooted there, h.stamped there, fun _ ↦ List.mem_cons_self⟩
    · obtain ⟨w, there, older, fresh⟩ := h.weights before made
      refine ⟨w, get_add_of_live rooted there, older, fun inside ↦ ?_⟩
      rcases List.mem_cons.mp inside with rfl | inside
      · exact absurd ⟨w, there⟩ (not_live_nextId rooted)
      · exact List.mem_cons_of_mem _ (fresh inside)

theorem replace (h : c.Weighed) (found : c.get sort.id = .ok old)
    (created : sort.created = old.created)
    (plain : ∀ base weight, sort.body ≠ .weighted base weight) : (c.replace sort).Weighed where
  stamped {id record} there := by
    rcases get_replace_cases found there with ⟨rfl, rfl⟩ | ⟨-, before⟩
    · exact created ▸ h.stamped found
    · exact h.stamped before
  weights {id record base weight} there made := by
    rcases get_replace_cases found there with ⟨rfl, rfl⟩ | ⟨-, before⟩
    · exact absurd made (plain base weight)
    · obtain ⟨w, inside, older, fresh⟩ := h.weights before made
      rcases replaced_cases found inside with ⟨rfl, rfl, here⟩ | ⟨-, here⟩
      · exact ⟨sort, here, created ▸ older, fresh⟩
      · exact ⟨w, here, older, fresh⟩

end Weighed

/-- An edit leaves the weights of attributes older than these. -/
theorem Edit.weighed (h : Edit may c d) (sound : c.Sound) (weighed : c.Weighed) : d.Weighed := by
  cases h with
  | log journal => exact weighed.of_same (fun _ ↦ rfl) rfl rfl
  | await pending => exact weighed.of_same (fun _ ↦ rfl) rfl rfl
  | add name canonical counts body known _ => exact weighed.add sound.toRooted known
  | attach text counts base weight known _ =>
    exact (weighed.add sound.toRooted (by rintro _ _ ⟨⟩; exact .inl known)).of_same
      (fun _ ↦ rfl) rfl rfl
  | extend _ _ _ found => exact weighed.replace found rfl (by rintro _ _ ⟨⟩)
  | bind _ _ _ found => exact weighed.replace found rfl (by rintro _ _ ⟨⟩)
  | own _ found => exact weighed.replace found rfl (by rintro _ _ ⟨⟩)
  | name => exact weighed.of_same (fun _ ↦ rfl) rfl rfl

theorem Edits.weighed (h : Edits may c d) (sound : c.Sound) (weighed : c.Weighed) : d.Weighed := by
  induction h with
  | refl => exact weighed
  | tail before edit weighed => exact edit.weighed (Edits.sound before sound) weighed

namespace Weighed

theorem openSession (h : c.Weighed) : c.openSession.Weighed where
  stamped := h.stamped
  weights found made := by
    obtain ⟨w, there, older, -⟩ := h.weights found made
    exact ⟨w, there, older, fun inside ↦ absurd inside List.not_mem_nil⟩

theorem rollBack (h : c.Weighed) (sound : c.Sound) : c.rollBack.Weighed := by
  refine ⟨fun found ↦ ?_, fun {id sort base weight} found made ↦ ?_⟩
  · change _ < (c.removeAll c.fresh).clock
    rw [clock_removeAll]
    exact h.stamped (sound.get_rollBack_eq_ok_iff.mp found).1
  · obtain ⟨found, out⟩ := sound.get_rollBack_eq_ok_iff.mp found
    obtain ⟨w, there, older, fresh⟩ := h.weights found made
    exact ⟨w, sound.get_rollBack_eq_ok_iff.mpr ⟨there, fun inside ↦ out (fresh inside)⟩, older,
      fun inside ↦ absurd inside List.not_mem_nil⟩

theorem clear (c : Catalog) : c.clear.Weighed where
  stamped found := by
    have nothing := (Weighed.empty c.home).stamped found
    exact absurd nothing (Nat.not_lt_zero _)
  weights found made := (Weighed.empty c.home).weights found made

/-! ### Spines -/

/-- A spine that may be as long as the sort is old is not cut off. -/
theorem walk_spineWithin (h : c.Weighed) (bound : Nat) (id : SortId)
    (old : ∀ sort, c.get id = .ok sort → sort.created ≤ bound) :
    c.Walk id (c.spineWithin bound id) := by
  induction bound generalizing id with
  | zero =>
    unfold spineWithin
    cases found : c.get id with
    | error reason => exact .missing found
    | ok sort =>
      refine .last found fun base weight made ↦ ?_
      obtain ⟨w, -, older, -⟩ := h.weights found made
      exact absurd (Nat.lt_of_lt_of_le older (old sort found)) (Nat.not_lt_zero _)
  | succ bound ih =>
    cases found : c.get id with
    | error reason =>
      rw [spineWithin, found]
      exact .missing found
    | ok sort =>
      by_cases weighted : ∃ base weight, sort.body = .weighted base weight
      · obtain ⟨base, weight, made⟩ := weighted
        have further : c.spineWithin (bound + 1) id =
            (fun behind ↦ base :: behind) <$> c.spineWithin bound weight := by
          simp only [spineWithin, found, made, bind, Except.bind]
          cases c.spineWithin bound weight <;> rfl
        rw [further]
        refine .link found made (ih weight fun w there ↦ ?_)
        obtain ⟨w', there', older, -⟩ := h.weights found made
        rw [there] at there'
        cases there'
        exact Nat.le_of_lt_succ (Nat.lt_of_lt_of_le older (old sort found))
      · have plain : ∀ base weight, sort.body ≠ .weighted base weight :=
          fun base weight made ↦ weighted ⟨base, weight, made⟩
        rw [spineWithin_of_plain found plain]
        exact .last found plain

/-- The spine of a sort is where walking along its weights ends. -/
theorem walk_spine (h : c.Weighed) (id : SortId) : c.Walk id (c.spine id) :=
  h.walk_spineWithin c.clock id fun _ found ↦ Nat.le_of_lt (h.stamped found)

theorem spine_of_weighted (h : c.Weighed) (found : c.get id = .ok sort)
    (made : sort.body = .weighted base weight) : c.spine id = (c.spine weight).map (base :: ·) :=
  (h.walk_spine id).eq (.link found made (h.walk_spine weight))

theorem spine_grow (h : c.Weighed) (h' : d.Weighed) (grown : Growth c d) {chain : List SortId}
    (walked : c.spine id = .ok chain) : d.spine id = .ok chain :=
  (h'.walk_spine id).eq ((walked ▸ h.walk_spine id : c.Walk id (.ok chain)).grow grown)

end Weighed

end CompositeSorts.Catalog
