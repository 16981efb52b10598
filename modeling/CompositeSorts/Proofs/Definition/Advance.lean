import CompositeSorts.Definition.Evaluation
import CompositeSorts.Proofs.Catalog.Advance

/-!
Evaluating makes a catalog grow. Each operation that evaluation applies to what it obtained yields
something obtained; by induction on phrases, so does every phrase. An evaluation that ends early has
made the catalog grow as well, up to the point where it ended.
-/

set_option autoImplicit false
set_option relaxedAutoImplicit false

namespace CompositeSorts

open Catalog Evaluation

variable {a c d : Catalog} {id : SortId} {sort : SortRecord} {position : Position}
  {categories : CategoryTable} {tag name canonical : String} {counts : ComponentCounts}
  {body : Body}

theorem Op.ends_at {α : Type} {operation : Op α} {post : α → Catalog → Prop}
    {fault : Catalog → Prop} (h : Ends operation c post fault) :
    Ends (operation.at position) c post fault := by
  unfold Ends Op.at at *
  cases run : operation c with
  | ok value changed =>
    rw [run] at h
    exact h
  | error reason changed =>
    rw [run] at h
    exact h

theorem Evaluation.ends_fail {α : Type} {cause : ProblemCause} {post : α → Catalog → Prop}
    {fault : Catalog → Prop} (h : fault c) :
    Ends (fail cause position : Evaluation α) c post fault := h

namespace Catalog

theorem Yields.of_add {name : Option String} (h : Advance a c) (awaits : Awaits a c)
    (several : ∀ components, body = .disjunctive components → 2 ≤ components.length) :
    Yields a c.nextId (c.add name canonical counts body) :=
  ⟨h.add several, awaits,
    Obtained.of_new (get_add_nextId h.toRooted) (h.not_live_nextId h.toRooted)⟩

/-! ### Operations -/

theorem yields_primitive {argument : Option Argument} (h : Advance a c) (awaits : Awaits a c) :
    Ends (Op.primitive categories tag argument) c (Yields a) (Advance a) := by
  refine Op.ends_primitive h fun _ canonical _ _ _ ↦ ?_
  apply Yields.of_add h awaits
  rintro components ⟨⟩

theorem yields_attach {base weight : SortId} (h : Advance a c) (awaits : Awaits a c) :
    Ends (Op.attach base weight) c (Yields a) (Advance a) := by
  refine Op.ends_attach h ?_ ?_
  · intro b w known _ _ _ _ entry
    obtain ⟨sort, found, nameless, weighted, -⟩ := h.kept entry
    refine ⟨h, awaits, sort, found, ?_, ?_⟩
    · intro _ disjunctive
      rw [weighted] at disjunctive
      cases disjunctive
    · intro name named
      rw [nameless] at named
      cases named
  · intro b w _ _ _ _ entry
    have added : Yields a c.nextId (c.add none (weightedText b w)
        (.composite [b.counts, w.counts]) (.weighted base weight)) :=
      Yields.of_add h awaits (by rintro components ⟨⟩)
    have new := h.not_live_nextId h.toRooted
    refine ⟨Advance.note ⟨added.toGrowth.insertKept new entry, ?_⟩ _, awaits, ?_⟩
    · exact added.toSteady.insertKept (get_add_nextId h.toRooted) rfl rfl rfl
    · exact Obtained.of_new (get_add_nextId h.toRooted) new

theorem yields_combine {base weight : SortId} (h : Advance a c) (awaits : Awaits a c)
    (got : Obtained a c weight) :
    Ends (Op.combine base weight) c (Yields a) (Advance a) := by
  refine Ends.bind (Op.ends_read h fun elements _ ↦ ?_)
  apply Op.ends_foldrM_attach
  · exact ⟨h, awaits, got⟩
  · intro base _ weight c reached
    exact yields_attach reached.toAdvance reached.awaits

theorem yields_sum {l r : SortId} (h : Advance a c) (awaits : Awaits a c) (got : Obtained a c l) :
    Ends (Op.sum l r) c (Yields a) (Advance a) := by
  refine Op.ends_sum h ?_ ?_ ?_ ?_
  · intro left right _ _ _
    exact ⟨h, awaits, got⟩
  · intro left right only found _ _ joined
    rw [h.eq_of_merged found joined]
    exact ⟨h, awaits, got⟩
  · intro left right components parts summed disjunctive nameless
    obtain ⟨sort, found, loose, -⟩ := got
    rw [summed.foundLeft] at found
    cases found
    have here : left.id = l := h.placed summed.foundLeft
    have found := summed.foundLeft
    rw [← here] at found
    have new : ¬ a.Live left.id := here ▸ loose nameless disjunctive
    refine ⟨h.replace new found rfl (by rw [disjunctive]; decide) ?_, awaits, ?_⟩
    · rintro _ ⟨⟩
      exact h.two_le_length_of_summed summed
    · rw [← here]
      exact Obtained.of_new (get_replace_self found) new
  · intro left right components parts summed _
    apply Yields.of_add h awaits
    rintro _ ⟨⟩
    exact h.two_le_length_of_summed summed

/-- The aspects of an owner are new. -/
theorem advance_addAspects {owner : SortId} (names : List String) (first : Nat) (h : c.Steady) :
    Ends (Op.addAspects owner canonical first names) c
      (fun aspects d ↦ Advance c d ∧ d.pending = c.pending ∧ ∀ id ∈ aspects, ¬ c.Live id)
      (Advance c) := by
  induction names generalizing c first with
  | nil => exact Ends.pure ⟨Advance.refl h, rfl, by simp⟩
  | cons name names ih =>
    refine Ends.bind (Op.ends_add ?_)
    have added : Advance c (c.add (some name) (aspectText canonical first)
        ComponentCounts.ofSimple.renamed (.aspect owner first)) :=
      (Advance.refl h).add (by rintro components ⟨⟩)
    refine Ends.bind ((ih (first + 1) added.toSteady).mono ?_ fun d later ↦ added.trans later)
    rintro aspects d ⟨later, pending, new⟩
    refine Ends.pure ⟨added.trans later, pending, fun id inside ↦ ?_⟩
    rcases List.mem_cons.mp inside with rfl | inside
    · exact not_live_nextId h.toRooted
    · exact fun live ↦ new id inside (added.live live)

theorem advance_registerAll {ids : List SortId} (h : Advance a c) (new : ∀ id ∈ ids, ¬ a.Live id) :
    Ends (ids.forM Op.register) c
      (fun _ d ↦ Advance a d ∧ d.pending = c.pending ∧ ∀ id, d.get id = c.get id) (Advance a) := by
  refine Ends.forM (fun d ↦ Advance a d ∧ d.pending = c.pending ∧ ∀ id, d.get id = c.get id)
    ⟨h, rfl, fun _ ↦ rfl⟩ ids ?_
  rintro id inside d ⟨reached, pending, same⟩
  refine (reached.register fun _ _ _ _ _ ↦ new id inside).mono ?_ fun _ failed ↦ failed
  rintro _ e ⟨later, registered⟩
  exact ⟨later, registered.pending.trans pending,
    fun other ↦ (registered.get other).trans (same other)⟩

theorem yields_declareAspects {names : List String} {arguments : List SortId} (h : Advance a c)
    (awaits : Awaits a c) :
    Ends (Op.declareAspects categories tag names arguments) c (Yields a) (Advance a) := by
  refine Op.ends_declareAspects h fun displays _ ↦ ?_
  have atOwner : Advance a (c.add (some (tupleText names)) (aspectsText tag displays)
      ComponentCounts.ofSimple.renamed (.aspects tag [] arguments)) :=
    h.add (by rintro components ⟨⟩)
  have newOwner := h.not_live_nextId h.toRooted
  refine (advance_addAspects names 0 atOwner.toSteady).mono ?_ fun d failed ↦ atOwner.trans failed
  rintro aspects d ⟨later, pending, new⟩
  have found := later.stays (get_add_nextId h.toRooted)
  have linked : Advance a (d.replace (Op.tuple c tag names displays arguments aspects)) :=
    (atOwner.trans later).replace newOwner found rfl (by rintro ⟨⟩) (by rintro components ⟨⟩)
  refine ⟨found, (advance_registerAll linked fun id inside live ↦
    new id inside (atOwner.live live)).mono ?_ fun _ failed ↦ failed⟩
  rintro _ e ⟨named, pending', same⟩
  refine (named.register fun _ _ _ _ _ ↦ newOwner).mono ?_ fun _ failed ↦ failed
  rintro _ f ⟨last, registered⟩
  have owner := (registered.get _).trans ((same _).trans (get_replace_self found))
  refine ⟨last, ?_, Obtained.of_new owner newOwner⟩
  unfold Awaits
  rw [registered.pending, pending']
  change List.Forall₂ (GoesOn a) a.pending d.pending
  rw [pending]
  exact awaits

/-! ### Names -/

/-- The sort that stands for a name from now on is new. -/
theorem awaits_set {index : Nat} (there : c.pending[index]? = some ⟨name, none⟩)
    (new : ¬ c.Live id) :
    List.Forall₂ (GoesOn c) c.pending (c.pending.set index ⟨name, some id⟩) := by
  generalize c.pending = pending at there
  induction pending generalizing index with
  | nil => simp at there
  | cons first rest ih =>
    cases index with
    | zero =>
      cases there
      refine List.Forall₂.cons ⟨rfl, Or.inr ⟨rfl, ?_⟩⟩ (List.forall₂_same.mpr fun _ _ ↦ ?_)
      · rintro other ⟨⟩
        exact new
      · exact ⟨rfl, Or.inl rfl⟩
    | succ index => exact List.Forall₂.cons ⟨rfl, Or.inl rfl⟩ (ih there)

theorem yields_lookUp (h : c.Steady) : Ends (lookUp position name) c (Yields c) (Advance c) := by
  refine Ends.bind (Op.ends_at (Op.ends_mention ?_ ?_ ?_))
  · intro _
    refine Ends.bind (Ends.get ?_)
    split
    · rename_i known entry
      obtain ⟨sort, found, named⟩ := h.named entry
      refine Ends.pure ⟨Advance.refl h, Awaits.refl c, sort, found, ?_, ?_⟩
      · intro nameless
        rw [named] at nameless
        cases nameless
      · intro other carries
        rw [named] at carries
        cases carries
        exact Or.inl entry
    · exact ends_fail (Advance.refl h)
  · intro index placeholder entry
    have inside := List.mem_of_getElem? entry
    obtain ⟨sort, found, named⟩ := h.awaited _ inside placeholder rfl
    refine Ends.pure ⟨Advance.refl h, Awaits.refl c, sort, found, ?_, ?_⟩
    · intro nameless
      rw [named] at nameless
      cases nameless
    · exact fun _ _ ↦ Or.inr (Or.inr ⟨_, inside, rfl⟩)
  · intro index entry
    have new := not_live_nextId h.toRooted
    have added : Advance c (c.add (some name) name .ofPlaceholder (.recursive none)) :=
      (Advance.refl h).add (by rintro components ⟨⟩)
    have found : (c.add (some name) name .ofPlaceholder (.recursive none)).get c.nextId = .ok _ :=
      get_add_nextId h.toRooted
    refine Ends.pure ⟨(added.withPending ?_).note _, awaits_set entry new,
      Obtained.of_new found new⟩
    intro pending inside id stands
    rcases List.mem_or_eq_of_mem_set inside with before | rfl
    · exact added.awaited pending before id stands
    · cases stands
      exact ⟨_, found, rfl⟩

/-- Binding a new recursive sort, and registering it, changes that sort only. -/
theorem yields_bind {placeholder target : SortId} (h : Advance a c) (awaits : Awaits a c)
    (new : ¬ a.Live placeholder) :
    Ends (do
      (Op.bind placeholder target).at position
      (Op.register placeholder).at position
      pure placeholder) c (Yields a) (Advance a) := by
  refine Ends.bind (Op.ends_at (Op.ends_bind h ?_))
  intro sort goal found there _ _ unbound
  obtain rfl : sort.id = placeholder := h.placed found
  have loose : sort.variant ≠ .weighted := by
    unfold SortRecord.variant
    rw [unbound]
    decide
  obtain ⟨record, eq⟩ : ∃ record : SortRecord, { sort with
      canonical := goal.canonical, counts := goal.counts, body := .recursive (some target) } =
        record := ⟨_, rfl⟩
  have same : sort.id = record.id := by rw [← eq]
  rw [eq]
  rw [same] at found new ⊢
  have bound : Advance a (c.replace record) :=
    h.replace new found (by rw [← eq]) loose (by rw [← eq]; rintro components ⟨⟩)
  refine Ends.bind (Op.ends_at (((bound.note _).register fun _ _ _ _ _ ↦ new).mono ?_
    fun _ failed ↦ failed))
  rintro _ d ⟨last, registered⟩
  have here : d.get record.id = .ok record :=
    (registered.get record.id).trans (get_replace_self found)
  refine Ends.pure ⟨last, ?_, Obtained.of_new here new⟩
  unfold Awaits
  rw [registered.pending]
  exact awaits

/-- Naming a sort, and registering it under its name, changes nothing that was there. -/
theorem yields_duplicate {target : SortId} (h : Advance a c) (awaits : Awaits a c)
    (settled : ∀ sort, c.get target = .ok sort → sort.name = some name → c.names[name]? = none →
      ¬ a.Live target) :
    Ends (do
      let named ← (Op.duplicate target name).at position
      (Op.register named).at position
      pure named) c (Yields a) (Advance a) := by
  refine Ends.bind (Op.ends_at (Op.ends_duplicate h ?_ ?_))
  · intro source found named
    refine Ends.bind (Op.ends_at ((h.register ?_).mono ?_ fun _ failed ↦ failed))
    · intro sort other found' carries free
      rw [found] at found'
      cases found'
      rw [named] at carries
      cases carries
      exact settled source found named free
    · rintro _ d ⟨last, registered⟩
      refine Ends.pure ⟨last, ?_, source, (registered.get _).trans found, ?_, ?_⟩
      · unfold Awaits
        rw [registered.pending]
        exact awaits
      · intro nameless
        rw [named] at nameless
        cases nameless
      · intro other carries
        obtain ⟨sort, name', found', named', entry⟩ := registered.known
        rw [found] at found'
        cases found'
        rw [named'] at carries
        cases carries
        exact Or.inl entry
  · intro source found _ _ _ _
    have added : Advance a (c.add (some name) source.canonical (Op.copiedCounts source)
        source.body) := h.add fun components made ↦ h.several found made
    have copy : (c.add (some name) source.canonical (Op.copiedCounts source)
        source.body).get c.nextId = .ok _ := get_add_nextId h.toRooted
    have new := h.not_live_nextId h.toRooted
    refine Ends.bind (Op.ends_at ((added.register fun _ _ _ _ _ ↦ new).mono ?_
      fun _ failed ↦ failed))
    rintro _ d ⟨last, registered⟩
    refine Ends.pure ⟨last, ?_, Obtained.of_new ((registered.get _).trans copy) new⟩
    unfold Awaits
    rw [registered.pending]
    exact awaits

/-- The body of a definition was obtained after its name had been announced. -/
theorem yields_complete {target : SortId} (h : Advance a c)
    (awaits : List.Forall₂ (GoesOn a) (⟨name, none⟩ :: a.pending) c.pending)
    (apart : ∀ pending ∈ a.pending, pending.name ≠ name) (got : Obtained a c target) :
    Ends (complete position name target) c (Yields a) (Advance a) := by
  refine Ends.bind (Op.ends_at (Op.ends_conclude ?_ ?_))
  · intro idle
    rw [idle] at awaits
    cases awaits
  intro innermost outer under
  rw [under] at awaits
  rcases awaits with _ | ⟨mine, others⟩
  have among : ∀ pending ∈ outer, pending ∈ c.pending := by
    intro pending inside
    rw [under]
    exact List.mem_cons_of_mem _ inside
  have goOn : Awaits a { c with pending := outer } := others
  have ended := h.withPending fun pending inside ↦ h.awaited pending (among pending inside)
  rw [Option.bind_some]
  cases stands : innermost.placeholder with
  | some placeholder =>
    have new : ¬ a.Live placeholder := by
      rcases mine.2 with same | ⟨-, new⟩
      · rw [stands] at same
        cases same
      · exact new placeholder stands
    dsimp only
    split_ifs with itself
    · exact Ends.bind (ends_fail ended)
    · exact yields_bind ended goOn new
  | none =>
    refine Ends.bind (Ends.get ?_)
    split
    · exact ends_fail ended
    · refine yields_duplicate ended goOn fun sort found named free ↦ ?_
      obtain ⟨record, found', -, known⟩ := got
      change c.get target = .ok sort at found
      rw [found] at found'
      cases found'
      rcases known name named with entry | new | ⟨pending, inside, same⟩
      · change c.names[name]? = none at free
        rw [entry] at free
        cases free
      · exact new
      · exfalso
        rw [under] at inside
        rcases List.mem_cons.mp inside with rfl | inside
        · rw [stands] at same
          cases same
        · obtain ⟨record, found', carries⟩ := h.awaited pending (among pending inside) target same
          rw [found] at found'
          cases found'
          have given : pending.name ∈ a.pending.map Pending.name := by
            rw [← Awaits.names_eq goOn]
            exact List.mem_map_of_mem inside
          obtain ⟨before, there, eq⟩ := List.mem_map.mp given
          rw [named] at carries
          exact apart before there (eq.trans (Option.some.inj carries).symm)

/-! ### Phrases -/

/-- The answers of phrases that were evaluated one after the other. -/
structure YieldsAll (a : Catalog) (ids : List SortId) (c : Catalog) : Prop extends Advance a c where
  awaits : Awaits a c
  obtained : ∀ id ∈ ids, Obtained a c id

/-- What comes later yields on from the beginning, too. -/
theorem Yields.since (before : Advance a c) (awaits : Awaits a c) (h : Yields c id d) :
    Yields a id d :=
  ⟨before.trans h.toAdvance, awaits.trans before.toGrowth h.awaits,
    h.obtained.since before.toGrowth⟩

end Catalog

mutual

/-- A phrase makes the catalog grow, and what it yields was obtained. -/
theorem Phrase.yields (categories : CategoryTable) (phrase : Phrase) (c : Catalog)
    (h : c.Steady) : Ends (phrase.evaluate categories) c (Yields c) (Advance c) := by
  match phrase with
  | .reference position name => exact yields_lookUp h
  | .primitive position tag argument =>
    exact Op.ends_at (yields_primitive (Advance.refl h) (Awaits.refl c))
  | .linked position tag arguments =>
    refine Ends.bind ((Phrase.yieldsAll categories arguments c h).mono ?_ fun _ failed ↦ failed)
    intro linked d reached
    exact Op.ends_at (yields_primitive reached.toAdvance reached.awaits)
  | .weighted position base weight =>
    refine Ends.bind ((Phrase.yields categories base c h).mono ?_ fun _ failed ↦ failed)
    intro b d reached
    refine Ends.bind ((Phrase.yields categories weight d reached.toSteady).mono ?_
      fun _ failed ↦ reached.toAdvance.trans failed)
    intro w e later
    have last := later.since reached.toAdvance reached.awaits
    exact Op.ends_at (yields_combine last.toAdvance last.awaits last.obtained)
  | .sum position left right =>
    refine Ends.bind ((Phrase.yields categories left c h).mono ?_ fun _ failed ↦ failed)
    intro l d reached
    refine Ends.bind ((Phrase.yields categories right d reached.toSteady).mono ?_
      fun _ failed ↦ reached.toAdvance.trans failed)
    intro r e later
    have last := later.since reached.toAdvance reached.awaits
    exact Op.ends_at (yields_sum last.toAdvance last.awaits
      (reached.obtained.grow later.toGrowth later.awaits))
  | .definition position name body =>
    refine Ends.bind (Op.ends_at (Op.ends_announce (Advance.refl h) fun apart _ ↦ ?_))
    have announced : { c with pending := ⟨name, none⟩ :: c.pending }.Steady := by
      refine h.withPending fun pending inside id stands ↦ ?_
      rcases List.mem_cons.mp inside with rfl | inside
      · cases stands
      · exact h.awaited pending inside id stands
    have begun : Growth c { c with pending := ⟨name, none⟩ :: c.pending } :=
      (Growth.refl c).congr rfl rfl rfl rfl rfl rfl rfl
    refine Ends.bind ((Phrase.yields categories body _ announced).mono ?_
      fun _ failed ↦ ⟨begun.trans failed.toGrowth, failed.toSteady⟩)
    intro target d reached
    exact yields_complete ⟨begun.trans reached.toGrowth, reached.toSteady⟩ reached.awaits apart
      (reached.obtained.since begun)
  | .aspects position tag names arguments =>
    refine Ends.bind ((Phrase.yieldsAll categories arguments c h).mono ?_ fun _ failed ↦ failed)
    intro linked d reached
    exact Op.ends_at (yields_declareAspects reached.toAdvance reached.awaits)
  | .after earlier last =>
    refine Ends.bind ((Phrase.yieldsAll categories earlier c h).mono ?_ fun _ failed ↦ failed)
    intro _ d reached
    refine (Phrase.yields categories last d reached.toSteady).mono ?_
      fun _ failed ↦ reached.toAdvance.trans failed
    intro id e later
    exact later.since reached.toAdvance reached.awaits
  | .stop reason => exact Ends.throw (Advance.refl h)

/-- Phrases that are evaluated one after the other make the catalog grow. -/
theorem Phrase.yieldsAll (categories : CategoryTable) (phrases : List Phrase) (c : Catalog)
    (h : c.Steady) : Ends (Phrase.evaluateAll categories phrases) c (YieldsAll c) (Advance c) := by
  match phrases with
  | [] => exact Ends.pure ⟨Advance.refl h, Awaits.refl c, by simp⟩
  | phrase :: phrases =>
    refine Ends.bind ((Phrase.yields categories phrase c h).mono ?_ fun _ failed ↦ failed)
    intro id d reached
    refine Ends.bind ((Phrase.yieldsAll categories phrases d reached.toSteady).mono ?_
      fun _ failed ↦ reached.toAdvance.trans failed)
    intro ids e later
    refine Ends.pure ⟨reached.toAdvance.trans later.toAdvance,
      reached.awaits.trans reached.toGrowth later.awaits, fun other inside ↦ ?_⟩
    rcases List.mem_cons.mp inside with rfl | inside
    · exact reached.obtained.grow later.toGrowth later.awaits
    · exact (later.obtained other inside).since reached.toGrowth

end

end CompositeSorts
