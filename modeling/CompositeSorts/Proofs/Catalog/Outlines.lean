import CompositeSorts.Proofs.Catalog.Bookkeeping
import CompositeSorts.Proofs.Catalog.Lettered

/-!
Outlines. The outline of a sort is what the sorts of its spine display. An attribute is kept under
its text and answered again for that text, whatever has become of it; so the outline of what is
answered is that of the base followed by that of the weight (`Lucid.ends_combine`), but for two
ways in which a text comes to stand for something else. The weight can share its name with another
sort, one of the two being an attribute, which has more of an outline (`Catalog.Own`); and what is
kept can have a disjunction as its weight that has grown since (`Catalog.Outgrown`).
-/

set_option autoImplicit false
set_option relaxedAutoImplicit false

namespace CompositeSorts.Catalog

open Text

variable {may : Touch → Prop} {c d : Catalog} {id base weight tail : SortId} {sort b w : SortRecord}
  {elements behind : List SortId} {texts : List String}

/-- What the sorts of the spine display. -/
def outline (c : Catalog) (id : SortId) : Except Refusal (List String) := do
  c.displays (← c.spine id)

/-- No other sort has the name of this one, unless neither of the two is an attribute. -/
def Own (c : Catalog) (id : SortId) : Prop :=
  ∀ sort name other sort', c.get id = .ok sort → sort.name = some name → c.get other = .ok sort' →
    sort'.name = some name → other = id ∨ sort.variant ≠ .weighted ∧ sort'.variant ≠ .weighted

/-- Both sorts are disjunctions without a name, and of different displays. But an attribute is kept
that has the second one as its weight, and its text shows the first one in this place. -/
def Outgrown (c : Catalog) (weight grown : SortId) : Prop :=
  ∃ w g kept sort base b, c.get weight = .ok w ∧ w.Growing ∧ c.get grown = .ok g ∧ g.Growing ∧
    g.display ≠ w.display ∧ c.get kept = .ok sort ∧ sort.name = none ∧
    sort.body = .weighted base grown ∧ c.get base = .ok b ∧ sort.canonical = weightedText b w

/-- A lettered catalog in good order. -/
structure Lucid (c : Catalog) : Prop extends Steady c, Weighed c, Orderly c, Lettered c

/-! ### Outlines of sorts -/

theorem outline_of_plain (found : c.get id = .ok sort) (plain : sort.variant ≠ .weighted) :
    c.outline id = .ok [sort.display] := by
  have alone : ∀ base weight, sort.body ≠ .weighted base weight := by
    rintro base weight made
    exact plain (by rw [SortRecord.variant, made]; rfl)
  unfold outline
  rw [spine_of_plain found alone]
  exact mapM_eq_ok_iff.mpr (.cons (display_of_get found) .nil)

theorem outline_of_weighted (weighed : c.Weighed) (found : c.get id = .ok sort)
    (made : sort.body = .weighted base weight) (foundBase : c.get base = .ok b)
    (shown : c.outline weight = .ok texts) : c.outline id = .ok (b.display :: texts) := by
  unfold outline at shown ⊢
  rw [weighed.spine_of_weighted found made]
  cases walked : c.spine weight with
  | error reason =>
    rw [walked] at shown
    cases shown
  | ok chain =>
    rw [walked] at shown
    exact mapM_eq_ok_iff.mpr (.cons (display_of_get foundBase) (mapM_eq_ok_iff.mp shown))

/-- What is added to a catalog does not change outlines. -/
theorem outline_grow (weighed : c.Weighed) (weighed' : d.Weighed) (grown : Growth c d)
    (shown : c.outline id = .ok texts) : d.outline id = .ok texts := by
  unfold outline at shown ⊢
  cases walked : c.spine id with
  | error reason =>
    rw [walked] at shown
    cases shown
  | ok chain =>
    rw [walked] at shown
    rw [weighed.spine_grow weighed' grown walked]
    refine mapM_eq_ok_iff.mpr ((mapM_eq_ok_iff.mp shown).imp fun part text here ↦ ?_)
    unfold display at here ⊢
    cases found : c.get part with
    | error reason =>
      rw [found] at here
      cases here
    | ok sort =>
      rw [found] at here
      rw [grown.stays found]
      exact here

theorem own_of_nameless (found : c.get id = .ok sort) (nameless : sort.name = none) : c.Own id := by
  intro record name other sort' there named
  rw [found] at there
  cases there
  rw [nameless] at named
  cases named

namespace Lucid

theorem exists_outline (h : c.Lucid) (found : c.get id = .ok sort) :
    ∃ texts, c.outline id = .ok texts := by
  induction old : sort.created using Nat.strongRecOn generalizing id sort with
  | ind age ih =>
    by_cases weighted : sort.variant = .weighted
    · cases made : sort.body with
      | weighted base weight =>
        obtain ⟨b, w, foundBase, foundWeight, -⟩ := h.written found made
        obtain ⟨w', foundWeight', older, -⟩ := h.weights found made
        obtain ⟨texts, shown⟩ := ih w'.created (old ▸ older) foundWeight' rfl
        exact ⟨_, outline_of_weighted h.toWeighed found made foundBase shown⟩
      | _ => rw [SortRecord.variant, made] at weighted; cases weighted
    · exact ⟨_, outline_of_plain found weighted⟩

/-- Sorts of one display have the same outline, unless they share their name. -/
theorem outline_of_own (h : c.Lucid) (own : c.Own id) {other : SortId} {sort' : SortRecord}
    (found : c.get id = .ok sort) (found' : c.get other = .ok sort')
    (same : sort'.display = sort.display) : c.outline other = c.outline id := by
  have plain (loose : sort.variant ≠ .weighted) (loose' : sort'.variant ≠ .weighted) :
      c.outline other = c.outline id := by
    rw [outline_of_plain found loose, outline_of_plain found' loose', same]
  cases named : sort.name with
  | some name =>
    have named' : sort'.name = some name := by
      cases carried : sort'.name with
      | none =>
        have nameless :=
          ((h.legible found').eq_of_nameless (h.legible found) same carried).1
        rw [named] at nameless
        cases nameless
      | some name' =>
        rw [SortRecord.display_of_named named, SortRecord.display_of_named carried] at same
        rw [same]
    rcases own sort name other sort' found named found' named' with rfl | ⟨loose, loose'⟩
    · rfl
    · exact plain loose loose'
  | none =>
    obtain ⟨nameless', variant, canonical⟩ :=
      (h.legible found).eq_of_nameless (h.legible found') same.symm named
    by_cases weighted : sort.variant = .weighted
    · -- An attribute without a name is the only one that is kept under its text.
      have kept := h.attributes found named weighted
      have kept' := h.attributes found' nameless' (variant.trans weighted)
      rw [canonical, kept] at kept'
      rw [Option.some.inj kept']
    · exact plain weighted (variant ▸ weighted)

/-! ### Attributes that are kept -/

/-- The outline of a kept attribute is that of the weight behind the base, unless the weight it was
made for has been outgrown by the one it has. -/
theorem outline_of_attached (h : c.Lucid) (attached : c.Attached base weight id)
    (own : c.Own weight) (foundBase : c.get base = .ok b) (shown : c.outline weight = .ok texts) :
    c.outline id = .ok (b.display :: texts) ∨ ∃ grown g, c.Outgrown weight grown ∧
      c.get grown = .ok g ∧ c.outline id = .ok [b.display, g.display] := by
  obtain ⟨b', w, there, foundWeight, simple, operand, entry⟩ := attached
  rw [foundBase] at there
  cases there
  obtain ⟨sort, found, nameless, weighted, canonical⟩ := h.kept entry
  cases made : sort.body with
  | weighted base' weight' =>
    obtain ⟨b', w', foundBase', foundWeight', simple', operand', written⟩ := h.written found made
    obtain ⟨text, exposes, current, text_eq⟩ := written nameless
    obtain ⟨bases, weights, growing⟩ := eq_of_writtenText (h.legible foundBase)
      (h.legible foundBase') (h.legible foundWeight) (h.legible foundWeight') simple simple' operand
      operand' exposes current (canonical.symm.trans text_eq)
    have through {texts : List String} (shown : c.outline weight' = .ok texts) :
        c.outline id = .ok (b.display :: texts) := by
      rw [bases]
      exact outline_of_weighted h.toWeighed found made foundBase' shown
    by_cases same : w'.display = w.display
    · exact .inl (through ((h.outline_of_own own foundWeight foundWeight' same).trans shown))
    · have grows : w'.Growing := by
        by_contra fixed
        exact same ((current fixed).symm.trans weights.symm)
      refine .inr ⟨weight', w', ⟨w, w', id, sort, base', b', foundWeight, growing.mpr grows,
        foundWeight', grows, same, found, nameless, made, foundBase', ?_⟩, foundWeight', ?_⟩
      · rw [canonical, weightedText_eq, weightedText_eq, bases]
      · exact through (outline_of_plain foundWeight' (by rw [grows.2]; decide))
  | _ => rw [SortRecord.variant, made] at weighted; cases weighted

/-! ### Combining -/

theorem steps (h : c.Lucid) (steps : Steps Solid may c d) : d.Lucid := by
  induction steps with
  | refl => exact h
  | tail _ step h =>
    have edit := step.edit h.toSound
    exact ⟨step.steady h.toSteady, edit.weighed h.toSound h.toWeighed,
      edit.orderly h.toSound h.toWeighed h.toOrderly, h.toLettered.step h.toSteady step⟩

/-- Attaching keeps a catalog lucid, and the catalog grows. -/
theorem grows_attach (h : c.Lucid) (base weight : SortId) :
    Ends (Op.attach base weight) c
      (fun id d ↦ d.Lucid ∧ Growth c d ∧
        ∃ sort, d.get id = .ok sort ∧ sort.name = none ∧ sort.variant = .weighted)
      fun _ ↦ True := by
  have stepping : Stepping Solid (fun _ ↦ True) (Op.attach base weight) :=
    stepping_attach base weight
  have lucid : Ends (Op.attach base weight) c (fun _ d ↦ d.Lucid) fun _ ↦ True :=
    (stepping c h.toSteady).mono (fun _ _ ↦ h.steps) fun _ _ ↦ trivial
  refine (lucid.and (h.toRooted.ends_attach base weight)).mono ?_ fun _ _ ↦ trivial
  rintro id d ⟨lucid, grown, ⟨b, w, -, -, -, -, entry⟩, -⟩
  obtain ⟨sort, found, nameless, weighted, -⟩ := lucid.kept entry
  exact ⟨lucid, grown, sort, found, nameless, weighted⟩

/-- Attaching puts the base in front of the outline of the weight. -/
theorem ends_attach (h : c.Lucid) (own : c.Own weight) :
    Ends (Op.attach base weight) c
      (fun id d ↦ (d.Lucid ∧ Growth c d ∧
          ∃ sort, d.get id = .ok sort ∧ sort.name = none ∧ sort.variant = .weighted) ∧
        ∃ b texts, c.get base = .ok b ∧ c.outline weight = .ok texts ∧
          (d.outline id = .ok (b.display :: texts) ∨ ∃ grown g, c.Outgrown weight grown ∧
            c.get grown = .ok g ∧ d.outline id = .ok [b.display, g.display]))
      fun _ ↦ True := by
  have outlined : Ends (Op.attach base weight) c
      (fun id d ↦ d.Lucid → Growth c d → ∃ b texts, c.get base = .ok b ∧
        c.outline weight = .ok texts ∧ (d.outline id = .ok (b.display :: texts) ∨
          ∃ grown g, c.Outgrown weight grown ∧ c.get grown = .ok g ∧
            d.outline id = .ok [b.display, g.display]))
      fun _ ↦ True := by
    refine Op.ends_attach trivial ?_ ?_
    · intro b w known foundBase foundWeight simple plain entry _ _
      obtain ⟨texts, shown⟩ := h.exists_outline foundWeight
      have attached : c.Attached base weight known :=
        ⟨b, w, foundBase, foundWeight, simple, plain, entry⟩
      exact ⟨b, texts, foundBase, shown, h.outline_of_attached attached own foundBase shown⟩
    · intro b w foundBase foundWeight simple plain free lucid grown
      obtain ⟨texts, shown⟩ := h.exists_outline foundWeight
      have found : (c.add none (weightedText b w) (.composite [b.counts, w.counts])
          (.weighted base weight)).get c.nextId = .ok _ := get_add_nextId h.toRooted
      exact ⟨b, texts, foundBase, shown, .inl (outline_of_weighted lucid.toWeighed found rfl
        (grown.stays foundBase) (outline_grow h.toWeighed lucid.toWeighed grown shown))⟩
  refine ((h.grows_attach base weight).and outlined).mono ?_ fun _ _ ↦ trivial
  rintro id d ⟨grows, outlined⟩
  exact ⟨grows, outlined grows.1 grows.2.1⟩

/-- On top of an attribute without a name bases are put one in front of the other. -/
theorem ends_foldrM (h : c.Lucid) (found : c.get tail = .ok sort) (nameless : sort.name = none)
    (weighted : sort.variant = .weighted) (shown : c.outline tail = .ok texts)
    (live : ∀ base ∈ elements, c.Live base) :
    Ends (elements.foldrM Op.attach tail) c
      (fun id d ↦ d.Lucid ∧ Growth c d ∧
        (∃ sort, d.get id = .ok sort ∧ sort.name = none ∧ sort.variant = .weighted) ∧
        ∃ front, c.displays elements = .ok front ∧ d.outline id = .ok (front ++ texts))
      fun _ ↦ True := by
  induction elements with
  | nil => exact Ends.pure ⟨h, .refl c, ⟨sort, found, nameless, weighted⟩, [], rfl, shown⟩
  | cons base behind ih =>
    obtain ⟨⟨b, foundBase⟩, others⟩ := List.forall_mem_cons.mp live
    rw [List.foldrM_cons]
    refine Ends.bind ((ih others).mono ?_ fun _ _ ↦ trivial)
    rintro weight d ⟨lucid, grown, ⟨w, foundWeight, nameless, weighted⟩, front, displayed, shown⟩
    refine (lucid.ends_attach (own_of_nameless foundWeight nameless)).mono ?_ fun _ _ ↦ trivial
    rintro id e ⟨⟨lucid', further, made⟩, b', texts', there, shown', outlined⟩
    rw [grown.stays foundBase] at there
    cases there
    rw [shown] at shown'
    cases shown'
    refine ⟨lucid', grown.trans further, made, b.display :: front, ?_, ?_⟩
    · exact mapM_eq_ok_iff.mpr (.cons (display_of_get foundBase) (mapM_eq_ok_iff.mp displayed))
    · rcases outlined with exact_ | ⟨grown, g, ⟨w', -, -, -, -, -, there, growing, -⟩, -⟩
      · exact exact_
      · rw [foundWeight] at there
        cases there
        rw [growing.2] at weighted
        cases weighted

/-- The sorts of a spine are live. -/
theorem live_of_spine (h : c.Lucid) (walked : c.spine id = .ok elements) :
    c.Live id ∧ ∀ part ∈ elements, c.Live part := by
  have here : c.Live id := by
    cases found : c.get id with
    | ok sort => exact ⟨sort, found⟩
    | error reason =>
      have walk := h.walk_spine id
      rw [walked] at walk
      have missing : c.Walk id (.error reason) := .missing found
      cases walk.eq missing
  obtain ⟨sort, found⟩ := here
  obtain ⟨texts, shown⟩ := h.exists_outline found
  unfold outline at shown
  rw [walked] at shown
  exact ⟨⟨sort, found⟩, live_of_displays shown⟩

/-- What is answered shows what the base and the weight show, one behind the other, unless another
disjunction has outgrown the weight. -/
theorem ends_combine (h : c.Lucid) (own : c.Own weight) :
    Ends (Op.combine base weight) c
      (fun id d ↦ ∃ front behind whole, c.outline base = .ok front ∧ c.outline weight = .ok behind ∧
        d.outline id = .ok whole ∧ (whole = front ++ behind ∨ ∃ grown g, c.Outgrown weight grown ∧
          c.get grown = .ok g ∧ whole = front ++ [g.display]))
      fun _ ↦ True := by
  refine Ends.bind (Op.ends_read trivial fun elements walked ↦ ?_)
  obtain ⟨-, live⟩ := h.live_of_spine walked
  have outlined : c.outline base = c.displays elements := by
    unfold outline
    rw [walked]
    rfl
  obtain ⟨front, last, rfl⟩ := (List.eq_nil_or_concat' elements).resolve_left
    (ne_nil_of_spineWithin walked)
  rw [List.foldrM_append, Op.foldrM_attach_singleton]
  refine Ends.bind ((h.ends_attach own).mono ?_ fun _ _ ↦ trivial)
  rintro tail d ⟨⟨lucid, grown, sort, found, nameless, weighted⟩, b, behind, foundBase, shown,
    tailShown⟩
  have liveFront : ∀ base ∈ front, d.Live base :=
    fun base inside ↦ grown.live (live base (List.mem_append_left _ inside))
  obtain ⟨texts, tailOutlined⟩ := lucid.exists_outline found
  refine (lucid.ends_foldrM found nameless weighted tailOutlined liveFront).mono ?_
    fun _ _ ↦ trivial
  rintro id e ⟨-, -, -, bases, displayed, whole⟩
  have first : c.displays front = .ok bases := by
    rw [← displayed]
    exact (displays_congr fun base inside ↦ by
      obtain ⟨sort, found⟩ := live base (List.mem_append_left _ inside)
      rw [display_of_get found, display_of_get (grown.stays found)]).symm
  have all : c.displays (front ++ [last]) = .ok (bases ++ [b.display]) := by
    refine mapM_eq_ok_iff.mpr (List.rel_append (mapM_eq_ok_iff.mp first) ?_)
    exact .cons (display_of_get foundBase) .nil
  refine ⟨_, behind, _, outlined.trans all, shown, whole, ?_⟩
  rw [List.append_assoc]
  rcases tailShown with exact_ | ⟨grown, g, outgrown, foundGrown, other⟩
  · rw [tailOutlined] at exact_
    cases exact_
    exact .inl rfl
  · rw [tailOutlined] at other
    cases other
    exact .inr ⟨grown, g, outgrown, foundGrown, by simp⟩

end Lucid

end CompositeSorts.Catalog
