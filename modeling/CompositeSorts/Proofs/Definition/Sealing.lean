import CompositeSorts.Proofs.Catalog.Sealing
import CompositeSorts.Proofs.Definition.Forming
import CompositeSorts.Proofs.Definition.Upkeep

/-!
Each operation of a text keeps what it makes sealed off: given accessible sorts it makes sorts that
hold accessible sorts, and returns one of them or one that was there to be had. At the end of a
definition the sort that stood for its name is bound and registered, or a registered copy is made;
so nothing is left open when no definition is under way any more (`maintains_sealed`).
-/

set_option autoImplicit false
set_option relaxedAutoImplicit false

namespace CompositeSorts.Catalog

open Evaluation

variable {a c d : Catalog} {id base weight target : SortId} {sort old new : SortRecord}
  {canonical name : String} {waiting : List SortId} {categories : CategoryTable} {tag : String}
  {position : Position} {argument : Option Argument} {body : Body}

theorem StandsIn.of_mem {pending : Pending} (inside : pending ∈ c.pending)
    (stands : pending.placeholder = some id) : c.StandsIn id := ⟨pending, inside, stands⟩

/-- A sort without a name that is not recursive is finished when it is made. -/
theorem finished_add {counts : ComponentCounts} (rooted : c.Rooted)
    (closed : body ≠ .recursive none) :
    (c.add none canonical counts body).Finished c.nextId :=
  ⟨_, get_add_nextId rooted, closed, by rintro name ⟨⟩⟩

/-- A sort without a name is added, and nothing is left to do with it. -/
theorem Sealed.addNameless {counts : ComponentCounts} (h : Sealed a [] c) (advance : Advance a c)
    (access : ∀ part ∈ body.handles, Accessible a c part) (closed : body ≠ .recursive none) :
    Sealed a [] (c.add none canonical counts body) ∧
      Accessible a (c.add none canonical counts body) c.nextId :=
  ⟨(h.add advance.toRooted access).done (finished_add advance.toRooted closed),
    .inr ⟨⟨_, get_add_nextId advance.toRooted⟩, advance.not_live_nextId advance.toRooted⟩⟩

/-! ### Primitive sorts, attributes and disjunctions -/

theorem sealed_primitive (advance : Advance a c) (h : Sealed a [] c)
    (access : ∀ linked, argument = some (.sorts linked) → ∀ id ∈ linked, Accessible a c id) :
    Ends (Op.primitive categories tag argument) c (fun id d ↦ Sealed a [] d ∧ Accessible a d id)
      fun _ ↦ True := by
  refine Op.ends_primitive trivial fun _ canonical _ _ _ ↦ h.addNameless advance
    (fun part inside ↦ ?_)
    (by rintro ⟨⟩)
  rcases List.mem_append.mp inside with inside | inside
  · cases argument with
    | none => cases inside
    | some argument =>
      cases argument with
      | sorts linked => exact access linked rfl part inside
      | _ => cases inside
  · cases inside

theorem sealed_attach (advance : Advance a c) (h : Sealed a [] c) (atBase : Accessible a c base)
    (atWeight : Accessible a c weight) :
    Ends (Op.attach base weight) c (fun id d ↦ Sealed a [] d ∧ Accessible a d id) fun _ ↦ True := by
  refine Op.ends_attach trivial (fun _ _ id _ _ _ _ entry ↦ ⟨h, h.kept entry⟩)
    fun b w _ _ _ _ _ ↦ ?_
  have access : ∀ part ∈ (Body.weighted base weight).handles, Accessible a c part := by
    intro part inside
    obtain rfl | rfl : part = base ∨ part = weight := by
      simpa [Body.handles, Body.parts, Body.bonds] using inside
    · exact atBase
    · exact atWeight
  have made : Sealed a [] (c.add none (weightedText b w) (.composite [b.counts, w.counts])
        (.weighted base weight)) ∧ Accessible a (c.add none (weightedText b w)
        (.composite [b.counts, w.counts]) (.weighted base weight)) c.nextId :=
    h.addNameless advance access (by rintro ⟨⟩)
  exact ⟨(made.1.insertKept made.2 _).note _, made.2⟩

/-- The spine of a sort is made of sorts that it comprises. -/
theorem accessible_spine (advance : Advance a c) (h : Sealed a waiting c) (bound : Nat)
    {elements : List SortId} (access : Accessible a c id)
    (shown : c.spineWithin bound id = .ok elements) :
    ∀ element ∈ elements, Accessible a c element := by
  induction bound generalizing id elements with
  | zero =>
    unfold spineWithin at shown
    cases found : c.get id with
    | error reason =>
      rw [found] at shown
      cases shown
    | ok sort =>
      rw [found] at shown
      cases shown
      simpa using access
  | succ bound ih =>
    cases found : c.get id with
    | error reason =>
      rw [spineWithin, found] at shown
      cases shown
    | ok sort =>
      simp only [spineWithin, found, bind, Except.bind] at shown
      split at shown
      · rename_i base weight made
        have held := h.accessible advance.toGrowth access found
        rw [made] at held
        cases behind : c.spineWithin bound weight with
        | error reason =>
          rw [behind] at shown
          cases shown
        | ok others =>
          rw [behind] at shown
          cases shown
          intro element inside
          rcases List.mem_cons.mp inside with rfl | inside
          · exact held _ (by simp [Body.handles, Body.parts])
          · exact ih (held weight (by simp [Body.handles, Body.parts])) behind element inside
      · cases shown
        simpa using access

theorem sealed_combine (advance : Advance a c) (h : Sealed a [] c) (atBase : Accessible a c base)
    (atWeight : Accessible a c weight) :
    Ends (Op.combine base weight) c (fun id d ↦ Sealed a [] d ∧ Accessible a d id)
    fun _ ↦ True := by
  refine Ends.bind (Op.ends_read trivial fun elements shown ↦ ?_)
  have inside := accessible_spine advance h _ atBase shown
  have attached : Ends (elements.foldrM Op.attach weight) c
      (fun id d ↦ Advance c d ∧ Sealed a [] d ∧ Accessible a d id) fun _ ↦ True := by
    refine Op.ends_foldrM_attach elements ⟨.refl advance.toSteady, h, atWeight⟩ ?_
    rintro base among weight d ⟨later, kept, access⟩
    have next := sealed_attach (advance.trans later) kept
      ((inside base among).grow later.toGrowth) access
    exact ((yields_attach (Advance.refl later.toSteady) (Awaits.refl d)).and next).mono
      (fun _ _ ⟨yields, kept⟩ ↦ ⟨later.trans yields.toAdvance, kept⟩) fun _ _ ↦ trivial
  exact attached.mono (fun _ _ ↦ And.right) fun _ _ ↦ trivial

/-- What a sort contributes to a disjunction is accessible if the sort is. -/
theorem accessible_summands (advance : Advance a c) (h : Sealed a waiting c)
    (access : Accessible a c id) (found : c.get id = .ok sort) :
    ∀ part ∈ sort.summands, Accessible a c part := by
  unfold SortRecord.summands
  split
  · rename_i components made _
    have held := h.accessible advance.toGrowth access found
    rw [made] at held
    exact fun part inside ↦ held part (mem_handles_disjunctive.mpr inside)
  · intro part inside
    rwa [List.mem_singleton.mp inside, advance.placed found]

theorem sealed_sum {l r : SortId} (advance : Advance a c) (h : Sealed a [] c)
    (got : Obtained a c l) (atLeft : Accessible a c l) (atRight : Accessible a c r) :
    Ends (Op.sum l r) c (fun id d ↦ Sealed a [] d ∧ Accessible a d id) fun _ ↦ True := by
  have components {left right : SortRecord} {components : List SortId} {parts : List SortRecord}
      (summed : Op.Summed c l r left right components parts) :
      ∀ part ∈ (Body.disjunctive components).handles, Accessible a c part := by
    intro part inside
    obtain ⟨appended, rfl, among⟩ := Op.merged_eq_append summed.joined
    rcases List.mem_append.mp (mem_handles_disjunctive.mp inside) with left | right
    · exact accessible_summands advance h atLeft summed.foundLeft part left
    · exact accessible_summands advance h atRight summed.foundRight part (among part right)
  refine Op.ends_sum trivial (fun _ _ _ _ _ ↦ ⟨h, atLeft⟩) ?_ ?_ ?_
  · intro left right only found _ _ joined
    rw [advance.eq_of_merged found joined]
    exact ⟨h, atLeft⟩
  · intro left right components' parts summed disjunctive nameless
    obtain ⟨sort, found, loose, -⟩ := got
    rw [summed.foundLeft] at found
    cases found
    obtain rfl : left.id = l := advance.placed summed.foundLeft
    refine ⟨h.replace summed.foundLeft (components summed) (.inl ?_),
      .inr ⟨⟨_, get_replace_self summed.foundLeft⟩, loose nameless disjunctive⟩⟩
    exact ⟨_, get_replace_self summed.foundLeft, by rintro ⟨⟩, by rw [nameless]; rintro name ⟨⟩⟩
  · intro left right components' parts summed _
    exact h.addNameless advance (components summed) (by rintro ⟨⟩)

/-! ### Names -/

/-- A sort that waits is finished by registering it, if it is bound. -/
theorem Sealed.register (h : Sealed a (id :: waiting) c) (access : Accessible a c id)
    (found : c.get id = .ok sort) (bound : sort.body ≠ .recursive none) :
    Ends (Op.register id) c (fun _ d ↦ Sealed a waiting d ∧ Registered c id d) fun _ ↦ True := by
  refine Op.ends_register trivial ?_ ?_
  · intro record name there named entry
    rw [found] at there
    cases there
    refine ⟨h.done ⟨sort, found, bound, fun other carries ↦ ?_⟩,
      fun _ ↦ rfl, rfl, sort, name, found,
      named, entry⟩
    rw [named] at carries
    cases carries
    exact entry
  · intro record name there named free
    rw [found] at there
    cases there
    have here : (c.names.insert name id)[name]? = some id := Std.ExtTreeMap.getElem?_insert_self
    refine ⟨((h.insertName access free).note _).done ⟨sort, found, bound, fun other carries ↦ ?_⟩,
      fun _ ↦ rfl, rfl, sort, name, found, named, here⟩
    rw [named] at carries
    cases carries
    exact here

theorem Sealed.registerAll {ids : List SortId} (h : Sealed a (ids ++ waiting) c)
    (ready : ∀ id ∈ ids, Accessible a c id ∧
      ∃ sort, c.get id = .ok sort ∧ sort.body ≠ .recursive none) :
    Ends (ids.forM Op.register) c (fun _ d ↦ Sealed a waiting d ∧ ∀ id, d.get id = c.get id)
      fun _ ↦ True := by
  induction ids generalizing c with
  | nil => exact ⟨h, fun _ ↦ rfl⟩
  | cons id ids ih =>
    obtain ⟨access, sort, found, bound⟩ := ready id List.mem_cons_self
    change Ends (Op.register id >>= fun _ ↦ ids.forM Op.register) c _ _
    refine Ends.bind ((h.register access found bound).mono ?_ fun _ _ ↦ trivial)
    rintro _ d ⟨kept, registered⟩
    have live : ∀ id, c.Live id → d.Live id := fun id ⟨sort, found⟩ ↦
      ⟨sort, (registered.get id).trans found⟩
    refine (ih kept fun other inside ↦ ?_).mono ?_ fun _ _ ↦ trivial
    · obtain ⟨access, record, there, bound⟩ := ready other (List.mem_cons_of_mem _ inside)
      exact ⟨access.congr live, record, (registered.get other).trans there, bound⟩
    · rintro _ e ⟨last, same⟩
      exact ⟨last, fun other ↦ (same other).trans (registered.get other)⟩

/-- A mention is answered with a sort that stands for the name, or with the one registered under
it. -/
theorem sealed_lookUp (advance : Advance a c) (h : Sealed a [] c) :
    Ends (lookUp position name) c (fun id d ↦ Sealed a [] d ∧ Accessible a d id) fun _ ↦ True := by
  refine Ends.bind (Op.ends_at (Op.ends_mention ?_ ?_ ?_))
  · intro _
    refine Ends.bind (Ends.get ?_)
    split
    · exact Ends.pure ⟨h, h.names ‹_›⟩
    · exact ends_fail trivial
  · intro index placeholder entry
    have inside := List.mem_of_getElem? entry
    obtain ⟨sort, found, -⟩ := advance.awaited _ inside placeholder rfl
    exact Ends.pure ⟨h, .inr ⟨⟨sort, found⟩, h.standing (.of_mem inside rfl)⟩⟩
  · intro index entry
    have isNew := advance.not_live_nextId advance.toRooted
    have added : Sealed a [c.nextId] (c.add (some name) name .ofPlaceholder (.recursive none)) :=
      h.add advance.toRooted (by rintro part ⟨⟩)
    have bound : index < c.pending.length := (List.getElem?_eq_some_iff.mp entry).1
    have goesOn : Awaits c { c with pending := c.pending.set index ⟨name, some c.nextId⟩ } :=
      awaits_set entry (not_live_nextId advance.toRooted)
    have now : (⟨name, some c.nextId⟩ : Pending) ∈ c.pending.set index ⟨name, some c.nextId⟩ :=
      List.mem_set bound _
    refine Ends.pure ⟨?_, .inr ⟨⟨_, get_add_nextId advance.toRooted⟩, isNew⟩⟩
    refine added.congr (fun _ ↦ rfl) (fun {other} _ state ↦ ?_) .inl .inl ?_
    · rcases state with ready | waits | ⟨pending, inside, stands⟩
      · exact .inl (ready.of_get_eq rfl fun entry ↦ entry)
      · rw [List.mem_singleton.mp waits]
        exact .inr (.inr ⟨_, now, rfl⟩)
      · exact .inr (.inr (goesOn.mem inside stands))
    · rintro other ⟨pending, inside, stands⟩
      rcases List.mem_or_eq_of_mem_set inside with before | rfl
      · exact h.standing ⟨pending, before, stands⟩
      · cases stands
        exact isNew

/-- The innermost definition ends; the sort that stood for it waits to be bound. -/
theorem Sealed.conclude {innermost : Pending} {outer : List Pending} (h : Sealed a [] c)
    (under : c.pending = innermost :: outer) :
    Sealed a innermost.placeholder.toList { c with pending := outer } := by
  refine h.congr (fun _ ↦ rfl) (fun {other} _ state ↦ ?_) .inl .inl ?_
  · rcases state with ready | waits | ⟨pending, inside, stands⟩
    · exact .inl (ready.of_get_eq rfl fun entry ↦ entry)
    · cases waits
    · rw [under] at inside
      rcases List.mem_cons.mp inside with rfl | inside
      · exact .inr (.inl (by simp [stands]))
      · exact .inr (.inr ⟨pending, inside, stands⟩)
  · rintro other ⟨pending, inside, stands⟩
    exact h.standing ⟨pending, under ▸ List.mem_cons_of_mem _ inside, stands⟩

theorem sealed_bind {placeholder : SortId} (rooted : c.Rooted) (h : Sealed a [placeholder] c)
    (isNew : ¬ a.Live placeholder) (access : Accessible a c target) :
    Ends (do
      (Op.bind placeholder target).at position
      (Op.register placeholder).at position
      pure placeholder) c (fun id d ↦ Sealed a [] d ∧ Accessible a d id) fun _ ↦ True := by
  refine Ends.bind (Op.ends_at (Op.ends_bind trivial ?_))
  intro sort goal found _ _ _ _
  obtain rfl : sort.id = placeholder := rooted.placed found
  obtain ⟨record, eq⟩ : ∃ record : SortRecord, { sort with
      canonical := goal.canonical, counts := goal.counts, body := .recursive (some target) } =
        record := ⟨_, rfl⟩
  have made : record.body = .recursive (some target) := by rw [← eq]
  have same : sort.id = record.id := by rw [← eq]
  rw [eq]
  rw [same] at found h isNew ⊢
  have bound : Sealed a [record.id] (c.replace record) := by
    refine h.replace found (fun part inside ↦ ?_) (.inr List.mem_cons_self)
    rw [made] at inside
    obtain rfl : part = target := by simpa [Body.handles, Body.parts, Body.bonds] using inside
    exact access
  have here : (c.replace record).get record.id = .ok record := get_replace_self found
  refine Ends.bind (Op.ends_at (((bound.note _).register (.inr ⟨⟨record, here⟩, isNew⟩) here
    (by rw [made]; rintro ⟨⟩)).mono ?_ fun _ _ ↦ trivial))
  rintro _ d ⟨kept, registered⟩
  exact Ends.pure ⟨kept, .inr ⟨⟨record, (registered.get _).trans here⟩, isNew⟩⟩

theorem sealed_duplicate (advance : Advance a c) (h : Sealed a [] c)
    (access : Accessible a c target)
    (closed : ∀ sort, c.get target = .ok sort → sort.body ≠ .recursive none) :
    Ends (do
      let named ← (Op.duplicate target name).at position
      (Op.register named).at position
      pure named) c (fun id d ↦ Sealed a [] d ∧ Accessible a d id) fun _ ↦ True := by
  have register {c : Catalog} {named : SortId} {sort : SortRecord} (h : Sealed a [named] c)
      (access : Accessible a c named) (found : c.get named = .ok sort)
      (closed : sort.body ≠ .recursive none) :
      Ends (do
        (Op.register named).at position
        pure named) c (fun id d ↦ Sealed a [] d ∧ Accessible a d id) fun _ ↦ True := by
    refine Ends.bind (Op.ends_at ((h.register access found closed).mono ?_ fun _ _ ↦ trivial))
    rintro _ d ⟨kept, registered⟩
    exact Ends.pure ⟨kept, access.congr fun id ⟨sort, found⟩ ↦
      ⟨sort, (registered.get id).trans found⟩⟩
  refine Ends.bind (Op.ends_at (Op.ends_duplicate trivial ?_ ?_))
  · intro source found _
    exact register (h.wait (by simp)) access found (closed source found)
  · intro source found _ _ _ open_
    have added : Sealed a [c.nextId] (c.add (some name) source.canonical (Op.copiedCounts source)
        source.body) := h.add advance.toRooted (h.accessible advance.toGrowth access found)
    exact register added (.inr ⟨⟨_, get_add_nextId advance.toRooted⟩,
      advance.not_live_nextId advance.toRooted⟩) (get_add_nextId advance.toRooted) open_

/-- A body under a name that was not mentioned is copied, unless it stands for another name. -/
theorem sealed_copy (advance : Advance a c) (h : Sealed a [] c) (access : Accessible a c target) :
    Ends (do
      match unboundDisplay (← MonadState.get) target with
      | some outer => fail (.pendingBody name outer) position
      | none =>
        let named ← (Op.duplicate target name).at position
        (Op.register named).at position
        pure named) c (fun id d ↦ Sealed a [] d ∧ Accessible a d id) fun _ ↦ True := by
  refine Ends.bind (Ends.get ?_)
  split
  · exact ends_fail trivial
  · rename_i shown
    refine sealed_duplicate advance h access fun sort found unbound ↦ ?_
    rw [unboundDisplay, found] at shown
    simp [unbound] at shown

theorem sealed_complete (advance : Advance a c) (h : Sealed a [] c)
    (access : Accessible a c target) :
    Ends (complete position name target) c (fun id d ↦ Sealed a [] d ∧ Accessible a d id)
      fun _ ↦ True := by
  refine Ends.bind (Op.ends_at (Op.ends_conclude ?_ ?_))
  · exact fun _ ↦ sealed_copy advance h access
  · intro innermost outer under
    have ended := advance.withPending fun pending inside ↦
      advance.awaited pending (under ▸ List.mem_cons_of_mem innermost inside)
    have concluded := h.conclude under
    rw [Option.bind_some]
    cases stands : innermost.placeholder with
    | none =>
      rw [stands] at concluded
      exact sealed_copy ended concluded access
    | some placeholder =>
      rw [stands] at concluded
      dsimp only
      split_ifs
      · exact Ends.bind (ends_fail trivial)
      · exact sealed_bind ended.toRooted concluded
          (h.standing (.of_mem (under ▸ List.mem_cons_self) stands)) access

/-! ### Aspects tuples -/

/-- The aspects of an owner wait to be registered. -/
theorem sealed_addAspects {owner : SortId} (names : List String) (first : Nat) (rooted : c.Rooted)
    (h : Sealed a waiting c) (access : Accessible a c owner) :
    Ends (Op.addAspects owner canonical first names) c
      (fun aspects d ↦ Sealed a (aspects ++ waiting) d ∧
        (∀ id sort, c.get id = .ok sort → d.get id = .ok sort) ∧
        ∀ id ∈ aspects, ∃ sort, d.get id = .ok sort ∧ sort.variant = .aspect) fun _ ↦ True := by
  induction names generalizing c waiting first with
  | nil => exact ⟨h, fun _ _ there ↦ there, by simp⟩
  | cons name names ih =>
    have added : Sealed a (c.nextId :: waiting) (c.add (some name) (aspectText canonical first)
        ComponentCounts.ofSimple.renamed (.aspect owner first)) := by
      refine h.add rooted fun part inside ↦ ?_
      obtain rfl : part = owner := by simpa [Body.handles, Body.parts, Body.bonds] using inside
      exact access
    refine Ends.bind (Op.ends_add ?_)
    refine Ends.bind ((ih (first + 1) rooted.add added
      (access.congr fun id live ↦ (live_add rooted).mpr (.inr live))).mono ?_ fun _ _ ↦ trivial)
    rintro aspects d ⟨kept, stays, made⟩
    refine Ends.pure ⟨kept.wait fun id inside ↦ ?_, fun id sort there ↦ ?_, fun id inside ↦ ?_⟩
    · simp only [List.mem_append, List.mem_cons] at inside ⊢
      tauto
    · exact stays id sort (get_add_of_live rooted there)
    · rcases List.mem_cons.mp inside with rfl | inside
      · exact ⟨_, stays _ _ (get_add_nextId rooted), rfl⟩
      · exact made id inside

theorem sealed_declareAspects {names : List String} {arguments : List SortId}
    (advance : Advance a c) (h : Sealed a [] c) (access : ∀ id ∈ arguments, Accessible a c id) :
    Ends (Op.declareAspects categories tag names arguments) c
      (fun id d ↦ Sealed a [] d ∧ Accessible a d id) fun _ ↦ True := by
  refine Op.ends_declareAspects trivial fun displays _ ↦ ?_
  have rooted := advance.toRooted
  have isNew := advance.not_live_nextId rooted
  have found : (c.add (some (tupleText names)) (aspectsText tag displays)
      ComponentCounts.ofSimple.renamed (.aspects tag [] arguments)).get c.nextId =
        .ok (Op.tuple c tag names displays arguments []) := get_add_nextId rooted
  have advanced : Advance a (c.add (some (tupleText names)) (aspectsText tag displays)
      ComponentCounts.ofSimple.renamed (.aspects tag [] arguments)) :=
    advance.add (by rintro components ⟨⟩)
  have added : Sealed a [c.nextId] (c.add (some (tupleText names)) (aspectsText tag displays)
      ComponentCounts.ofSimple.renamed (.aspects tag [] arguments)) :=
    h.add rooted fun part inside ↦ access part (by
      simpa [Body.handles, Body.parts, Body.bonds] using inside)
  refine ((advance_addAspects names 0 advanced.toSteady).and
    (sealed_addAspects names 0 advanced.toRooted added (.inr ⟨⟨_, found⟩, isNew⟩))).mono ?_
      fun _ _ ↦ trivial
  rintro aspects d ⟨⟨later, -, newAspects⟩, kept, stays, made⟩
  have owned := stays _ _ found
  have fresh : ∀ id ∈ aspects, Accessible a d id := by
    intro id inside
    obtain ⟨sort, there, -⟩ := made id inside
    exact .inr ⟨⟨sort, there⟩, fun live ↦ newAspects id inside (advanced.live live)⟩
  have linked : Sealed a (aspects ++ [c.nextId])
      (d.replace (Op.tuple c tag names displays arguments aspects)) := by
    refine kept.replace owned (fun part inside ↦ ?_) (.inr (by simp [Op.tuple]))
    rcases List.mem_append.mp inside with argument | own
    · exact (access part argument).grow (((Growth.refl c).add rooted).trans later.toGrowth)
    · exact fresh part own
  have now : (d.replace (Op.tuple c tag names displays arguments aspects)).get c.nextId = .ok _ :=
    get_replace_self owned
  refine ⟨owned, (linked.registerAll fun id inside ↦ ?_).mono ?_ fun _ _ ↦ trivial⟩
  · obtain ⟨sort, there, kind⟩ := made id inside
    refine ⟨(fresh id inside).congr fun _ ↦ (live_replace owned).mpr, sort,
      (get_replace_of_ne owned ?_).trans there,
      SortRecord.body_ne_recursive (by rw [kind]; decide) none⟩
    rintro rfl
    exact newAspects _ inside ⟨_, found⟩
  rintro _ e ⟨registered, same⟩
  have there := (same _).trans now
  refine (registered.register (.inr ⟨⟨_, there⟩, isNew⟩) there (by rintro ⟨⟩)).mono ?_
    fun _ _ ↦ trivial
  rintro _ f ⟨last, known⟩
  exact ⟨last, .inr ⟨⟨_, (known.get _).trans there⟩, isNew⟩⟩

/-- A text keeps sealed off what it makes. -/
theorem maintains_sealed (categories : CategoryTable) (a : Catalog) :
    Maintains categories a (Sealed a []) (Accessible a) where
  grow grown access := access.grow grown
  lookUp _ _ advance h := sealed_lookUp advance h
  primitive _ _ advance h access := sealed_primitive advance h access
  combine _ _ advance h atBase atWeight := sealed_combine advance h atBase atWeight
  sum _ _ advance h got atLeft atRight := sealed_sum advance h got atLeft atRight
  announce name _ h _ _ := by
    refine h.congr (fun _ ↦ rfl) (fun _ ↦ Or.imp_right (Or.imp_right ?_)) .inl .inl ?_
    · rintro ⟨pending, inside, stands⟩
      exact ⟨pending, List.mem_cons_of_mem _ inside, stands⟩
    · rintro id ⟨pending, inside, stands⟩
      rcases List.mem_cons.mp inside with rfl | inside
      · cases stands
      · exact h.standing ⟨pending, inside, stands⟩
  complete _ _ _ advance h access := sealed_complete advance h access
  declareAspects _ _ _ advance h access := sealed_declareAspects advance h access

end CompositeSorts.Catalog
