import CompositeSorts.Proofs.Definition.Forming

/-!
Names on a formed catalog. A mention makes a sort that stands for the name under definition; the end
of a definition binds it to the body, which is never itself an open name, or copies the body under
the name; an aspects tuple and its aspects are registered together.
-/

set_option autoImplicit false
set_option relaxedAutoImplicit false

namespace CompositeSorts.Catalog

open Text Evaluation

variable {a c d : Catalog} {id other : SortId} {sort old new : SortRecord}
  {canonical name : String} {counts : ComponentCounts} {body : Body} {waiting : List SortId}
  {categories : CategoryTable} {tag : String} {position : Position}

/-- A sort that is bound need not wait any more when it is registered. -/
theorem Formed.register (h : Formed (id :: waiting) c) (found : c.get id = .ok sort)
    (bound : sort.body ≠ .recursive none) :
    Ends (Op.register id) c (fun _ d ↦ Formed waiting d ∧ Registered c id d) fun _ ↦ True := by
  refine Op.ends_register trivial ?_ ?_
  · intro record name there named entry
    rw [found] at there
    cases there
    refine ⟨h.done found bound (fun other carries ↦ ?_) (fun nameless ↦ ?_), fun _ ↦ rfl, rfl,
      sort, name, found, named, entry⟩
    · rw [named] at carries
      cases carries
      exact entry
    · rw [named] at nameless
      cases nameless
  · intro record name there named free
    rw [found] at there
    cases there
    have here : (c.names.insert name id)[name]? = some id := Std.ExtTreeMap.getElem?_insert_self
    refine ⟨Formed.done ((h.insertName found named free).note _) found bound
      (fun other carries ↦ ?_)
      (fun nameless ↦ ?_), fun _ ↦ rfl, rfl, sort, name, found, named, here⟩
    · rw [named] at carries
      cases carries
      exact here
    · rw [named] at nameless
      cases nameless

/-- The sorts of several waiting handles are registered one after the other. -/
theorem Formed.registerAll {ids : List SortId} (h : Formed (ids ++ waiting) c)
    (bound : ∀ id ∈ ids, ∃ sort, c.get id = .ok sort ∧ sort.body ≠ .recursive none) :
    Ends (ids.forM Op.register) c (fun _ d ↦ Formed waiting d ∧ (∀ id, d.get id = c.get id) ∧
      d.pending = c.pending) fun _ ↦ True := by
  induction ids generalizing c with
  | nil => exact ⟨h, fun _ ↦ rfl, rfl⟩
  | cons id ids ih =>
    obtain ⟨sort, found, open_⟩ := bound id List.mem_cons_self
    change Ends (Op.register id >>= fun _ ↦ ids.forM Op.register) c _ _
    refine Ends.bind ((Formed.register h found open_).mono ?_ fun _ _ ↦ trivial)
    rintro _ d ⟨formed, registered⟩
    refine (ih formed fun other inside ↦ ?_).mono ?_ fun _ _ ↦ trivial
    · obtain ⟨record, there, open_'⟩ := bound other (List.mem_cons_of_mem _ inside)
      exact ⟨record, (registered.get other).trans there, open_'⟩
    · rintro _ e ⟨last, same, pending⟩
      exact ⟨last, fun other ↦ (same other).trans (registered.get other),
        pending.trans registered.pending⟩

/-- Handles can be added to those that wait. -/
theorem Formed.wait {waiting' : List SortId} (h : Formed waiting c)
    (wait : ∀ id ∈ waiting, id ∈ waiting') : Formed waiting' c :=
  h.congr h.toSteady (fun _ ↦ rfl) (Nat.le_refl _) wait (fun _ ↦ Or.inr) (fun entry ↦ entry)
    (fun entry ↦ entry) h.apart h.announced

/-! ### Mentions -/

theorem eq_of_pending {before now : Pending} (h : Formed waiting c) (inside : before ∈ c.pending)
    (inside' : now ∈ c.pending) (same : before.name = now.name) : before = now :=
  List.inj_on_of_nodup_map h.apart inside inside' same

/-- A named sort is handed on as it is. -/
theorem Forms.of_named (h : Formed [] c) (found : c.get id = .ok sort)
    (named : sort.name = some name)
    (claimed : ∀ pending ∈ c.pending, pending.name = name → pending.placeholder = some id) :
    Forms c id c := by
  refine ⟨h, Spares.refl c, ?_, ?_, ?_⟩
  · intro record there growing
    rw [found] at there
    cases there
    exact absurd growing (SortRecord.not_growing_of_named named)
  · exact fun _ _ _ ↦ List.forall₂_same.mpr fun _ _ ↦ Or.inl rfl
  · intro record other there carries
    rw [found] at there
    cases there
    rw [named] at carries
    cases carries
    exact claimed

/-- A name that is mentioned for the first time is stood for by a new sort. -/
theorem Formed.mention (h : Formed [] c) {index : Nat}
    (entry : c.pending[index]? = some ⟨name, none⟩) :
    Formed [] { c.add (some name) name .ofPlaceholder (.recursive none) with
      pending := c.pending.set index ⟨name, some c.nextId⟩ } := by
  have inside := List.mem_of_getElem? entry
  have fits : c.Fits ⟨c.nextId, some name, name, c.clock, .ofPlaceholder, .recursive none⟩ :=
    { linked := by rintro id ⟨⟩
      older := Or.inl (by rintro part ⟨⟩)
      rendered := fun plain ↦ absurd rfl plain
      composed := trivial
      nameless := by rintro ⟨⟩
      named := by
        rintro _ ⟨⟩
        exact h.announced _ inside
      spelled := trivial }
  have added := h.add fits (by rintro _ ⟨⟩) (by rintro _ ⟨⟩)
  have found : (c.add (some name) name .ofPlaceholder (.recursive none)).get c.nextId = .ok _ :=
    get_add_nextId h.toRooted
  have goesOn : Awaits c { c with pending := c.pending.set index ⟨name, some c.nextId⟩ } :=
    awaits_set entry (not_live_nextId h.toRooted)
  have bound : index < c.pending.length := (List.getElem?_eq_some_iff.mp entry).1
  have now : (⟨name, some c.nextId⟩ : Pending) ∈ c.pending.set index ⟨name, some c.nextId⟩ :=
    List.mem_set bound _
  have standing : Formed [c.nextId] { c.add (some name) name .ofPlaceholder (.recursive none) with
      pending := c.pending.set index ⟨name, some c.nextId⟩ } := by
    refine added.withPending ?_ (fun _ waits ↦ waits) ?_ (goesOn.names_eq ▸ h.apart) ?_
    · intro pending among id stands
      rcases List.mem_or_eq_of_mem_set among with before | rfl
      · exact added.awaited pending before id stands
      · cases stands
        exact ⟨_, found, rfl⟩
    · rintro id ⟨pending, among, stands⟩
      exact Or.inr (goesOn.mem among stands)
    · intro pending among
      rcases List.mem_or_eq_of_mem_set among with before | rfl
      · exact h.announced pending before
      · exact h.announced ⟨name, none⟩ inside
  exact standing.stand found (by rintro ⟨⟩) ⟨_, now, rfl⟩

theorem mentions_set {index : Nat} (entry : c.pending[index]? = some ⟨name, none⟩) :
    List.Forall₂ (Mentions id) c.pending (c.pending.set index ⟨name, some id⟩) := by
  generalize c.pending = pending at entry
  induction pending generalizing index with
  | nil => simp at entry
  | cons first rest ih =>
    cases index with
    | zero =>
      refine List.Forall₂.cons (Or.inr rfl) (List.forall₂_same.mpr fun _ _ ↦ Or.inl rfl)
    | succ index => exact List.Forall₂.cons (Or.inl rfl) (ih entry)

/-- A name is handed on as the sort that it denotes. -/
theorem forms_lookUp (h : Formed [] c) :
    Ends (lookUp position name) c (Forms c) fun _ ↦ True := by
  refine Ends.bind (Op.ends_at (Op.ends_mention ?_ ?_ ?_))
  · intro other
    refine Ends.bind (Ends.get ?_)
    split
    · rename_i known entry
      obtain ⟨sort, found, named⟩ := h.named entry
      exact Ends.pure (Forms.of_named h found named fun pending inside same ↦
        absurd same (other pending inside))
    · exact ends_fail trivial
  · intro index placeholder entry
    have inside := List.mem_of_getElem? entry
    obtain ⟨sort, found, named⟩ := h.awaited _ inside placeholder rfl
    refine Ends.pure (Forms.of_named h found named fun pending among same ↦ ?_)
    rw [eq_of_pending h among inside same]
  · intro index entry
    have inside := List.mem_of_getElem? entry
    have formed := (h.mention entry).note (.placeholderCreated name)
    have found : (c.add (some name) name .ofPlaceholder (.recursive none)).get c.nextId = .ok _ :=
      get_add_nextId h.toRooted
    have added : Spares c (c.add (some name) name .ofPlaceholder (.recursive none)) :=
      (Spares.refl c).add h.toRooted (by rintro id ⟨⟩)
    have bound : index < c.pending.length := (List.getElem?_eq_some_iff.mp entry).1
    refine Ends.pure ⟨formed, added.congr fun _ ↦ rfl, ?_, fun _ _ _ ↦ mentions_set entry, ?_⟩
    · intro record there growing
      change (c.add (some name) name .ofPlaceholder (.recursive none)).get c.nextId = _ at there
      rw [found] at there
      cases there
      exact absurd growing (SortRecord.not_growing_of_named rfl)
    · intro record other there carries pending among same
      change (c.add (some name) name .ofPlaceholder (.recursive none)).get c.nextId = _ at there
      rw [found] at there
      cases there
      cases carries
      have now : (⟨name, some c.nextId⟩ : Pending) ∈ c.pending.set index ⟨name, some c.nextId⟩ :=
        List.mem_set bound _
      rw [eq_of_pending formed among now same]

/-! ### Definitions -/

/-- The definition of a name begins. -/
theorem Formed.announce (h : Formed waiting c) (unmarked : Unmarked name)
    (apart : ∀ pending ∈ c.pending, pending.name ≠ name) :
    Formed waiting { c with pending := ⟨name, none⟩ :: c.pending } := by
  refine h.withPending ?_ (fun _ inside ↦ inside) ?_ ?_ ?_
  · intro pending inside id stands
    rcases List.mem_cons.mp inside with rfl | inside
    · cases stands
    · exact h.awaited pending inside id stands
  · rintro id ⟨pending, inside, stands⟩
    exact Or.inr ⟨pending, List.mem_cons_of_mem _ inside, stands⟩
  · rw [List.map_cons, List.nodup_cons]
    refine ⟨fun inside ↦ ?_, h.apart⟩
    obtain ⟨pending, among, same⟩ := List.mem_map.mp inside
    exact apart pending among same
  · intro pending inside
    rcases List.mem_cons.mp inside with rfl | inside
    · exact unmarked
    · exact h.announced pending inside

/-- The innermost definition ends; the sort that stood for it waits to be bound. -/
theorem Formed.conclude {innermost : Pending} {outer : List Pending} (h : Formed [] c)
    (under : c.pending = innermost :: outer) :
    Formed innermost.placeholder.toList { c with pending := outer } := by
  have among : ∀ pending ∈ outer, pending ∈ c.pending := by
    intro pending inside
    rw [under]
    exact List.mem_cons_of_mem _ inside
  refine h.withPending (fun pending inside ↦ h.awaited pending (among pending inside)) (by simp) ?_
    ?_ fun pending inside ↦ h.announced pending (among pending inside)
  · rintro id ⟨pending, inside, stands⟩
    rw [under] at inside
    rcases List.mem_cons.mp inside with rfl | inside
    · exact Or.inl (by simp [stands])
    · exact Or.inr ⟨pending, inside, stands⟩
  · have apart := h.apart
    rw [under, List.map_cons, List.nodup_cons] at apart
    exact apart.2

/-- Binding a recursive sort to a sort that settles keeps the catalog formed. -/
theorem Formed.bind {target : SortId} {goal : SortRecord} (h : Formed waiting c)
    (found : c.get new.id = .ok old) (unbound : old.body = .recursive none)
    (there : c.get target = .ok goal) (differ : new.id ≠ target) (plain : goal.variant ≠ .aspects)
    (settles : goal.body ≠ .recursive none) (made : new.body = .recursive (some target))
    (text : new.canonical = goal.canonical) (counts : new.counts = goal.counts)
    (sameName : new.name = old.name) (sameTime : new.created = old.created) :
    Formed waiting (c.replace new) := by
  have variant : old.variant = .recursive := by
    rw [SortRecord.variant, unbound]
    rfl
  have sameVariant : new.variant = old.variant := by
    rw [variant, SortRecord.variant, made]
    rfl
  have handles : ∀ id ∈ new.body.handles, id = target := by
    intro id inside
    rw [made] at inside
    simpa [Body.handles, Body.parts, Body.bonds] using inside
  obtain ⟨name, named⟩ := (h.fits found).exists_name unbound
  have alike : Alike old new := by
    refine ⟨sameName, ?_, sameTime, sameVariant, fun bound ↦ absurd unbound bound, ?_, ?_⟩
    · rw [SortRecord.display, SortRecord.display, sameName, named]
      rfl
    · intro other bound
      rw [unbound] at bound
      cases bound
    · intro category own arguments tupled
      rw [unbound] at tupled
      cases tupled
  have parts : new.body.parts = old.body.parts := by rw [made, unbound]; rfl
  refine h.replace found sameName sameTime sameVariant (by rw [variant]; decide) ?_
    (Or.inr ⟨alike, parts⟩) ?_ (fun inside ↦ differ (handles _ inside)) ?_ ?_
  · rw [made]
    rintro components ⟨⟩
  · refine ⟨fun id inside ↦ handles id inside ▸ ⟨goal, there⟩, Or.inl ?_, ?_, ?_, ?_, ?_, ?_⟩
    · rw [made]
      rintro part ⟨⟩
    · exact fun plain ↦ absurd (sameVariant.trans variant) plain
    · rw [made]
      exact ⟨goal, there, plain⟩
    · intro nameless
      rw [sameName, named] at nameless
      cases nameless
    · intro other carries
      rw [sameVariant]
      exact (h.fits found).named other (sameName ▸ carries)
    · rw [made]
      trivial
  · rw [made]
    rintro ⟨⟩
  · intro other bound
    rw [made] at bound
    cases bound
    rw [text, counts]
    cases body : goal.body with
    | recursive next =>
      cases next with
      | none => exact absurd body settles
      | some next => exact h.settled there body
    | _ =>
      refine ⟨0, .here there ?_⟩
      rw [SortRecord.variant, body]
      rintro ⟨⟩

/-- A copy under a name fits. -/
theorem Formed.fits_copy (h : Formed waiting c) (found : c.get id = .ok sort)
    (spelled : Unmarked name) (plain : sort.variant ≠ .aspects) :
    c.Fits ⟨c.nextId, some name, sort.canonical, c.clock, counts, sort.body⟩ where
  linked := (h.fits found).linked
  older := h.older_of_live fun part inside ↦
    (h.fits found).linked part (Body.mem_handles_of_mem_parts inside)
  rendered := (h.fits found).rendered
  composed := (h.fits found).composed
  nameless := by rintro ⟨⟩
  named := by
    rintro _ ⟨⟩
    change if sort.variant = .aspects then _ else _
    rw [if_neg plain]
    exact spelled
  spelled := (h.fits found).spelled

/-- A sort that was named in the end of its definition. -/
theorem Forms.of_registered (h : Formed [] d) (spares : Spares a d) (found : d.get id = .ok sort)
    (named : sort.name = some name) (bound : sort.body ≠ .recursive none)
    (ended : ∀ pending ∈ d.pending, pending.name ≠ name) : Forms a id d := by
  refine ⟨h, spares, ?_, ?_, ?_⟩
  · intro record there growing
    rw [found] at there
    cases there
    exact absurd growing (SortRecord.not_growing_of_named named)
  · intro record there unbound
    rw [found] at there
    cases there
    exact absurd unbound bound
  · intro record other there carries pending inside same
    rw [found] at there
    cases there
    rw [named] at carries
    cases carries
    exact absurd same (ended pending inside)

theorem forms_bind {placeholder target : SortId} (h : Formed [placeholder] c)
    (spares : Spares a c) (apart : ¬ a.Loose target)
    (named : ∀ sort, c.get placeholder = .ok sort → sort.name = some name)
    (settles : ∀ goal, c.get target = .ok goal → placeholder ≠ target →
      goal.body ≠ .recursive none)
    (ended : ∀ pending ∈ c.pending, pending.name ≠ name) :
    Ends (do
      (Op.bind placeholder target).at position
      (Op.register placeholder).at position
      pure placeholder) c (Forms a) fun _ ↦ True := by
  refine Ends.bind (Op.ends_at (Op.ends_bind trivial ?_))
  intro sort goal found there differ plain unbound
  obtain rfl : sort.id = placeholder := h.placed found
  have carries := named sort found
  have closed := settles goal there differ
  obtain ⟨record, eq⟩ : ∃ record : SortRecord, { sort with
      canonical := goal.canonical, counts := goal.counts, body := .recursive (some target) } =
        record := ⟨_, rfl⟩
  have sameId : sort.id = record.id := by rw [← eq]
  have made : record.body = .recursive (some target) := by rw [← eq]
  have sameName : record.name = sort.name := by rw [← eq]
  have open_ : record.body ≠ .recursive none := by
    rw [made]
    rintro ⟨⟩
  rw [eq]
  rw [sameId] at found differ h ⊢
  have bound := h.bind found unbound there differ plain closed made (by rw [← eq]) (by rw [← eq])
    sameName (by rw [← eq])
  have now : (c.replace record).get record.id = .ok record := get_replace_self found
  have spared : Spares a (c.replace record) := by
    refine spares.replace found sameName ?_ fun part among ↦ ?_
    · rw [SortRecord.variant, SortRecord.variant, made, unbound]
      rfl
    · rw [made] at among
      obtain rfl : part = target := by simpa [Body.handles, Body.parts, Body.bonds] using among
      exact apart
  refine Ends.bind (Op.ends_at (((bound.note _).register now open_).mono ?_ fun _ _ ↦ trivial))
  rintro _ d ⟨formed, registered⟩
  refine Ends.pure (Forms.of_registered formed (spared.congr registered.get)
    ((registered.get _).trans now) (sameName.trans carries) open_ ?_)
  rw [registered.pending]
  exact ended

theorem forms_duplicate {target : SortId} (h : Formed [] c) (spares : Spares a c)
    (spelled : Unmarked name)
    (other : ∀ sort, c.get target = .ok sort → sort.name ≠ some name)
    (ended : ∀ pending ∈ c.pending, pending.name ≠ name) :
    Ends (do
      let named ← (Op.duplicate target name).at position
      (Op.register named).at position
      pure named) c (Forms a) fun _ ↦ True := by
  refine Ends.bind (Op.ends_at (Op.ends_duplicate trivial ?_ ?_))
  · intro source found named
    exact absurd named (other source found)
  · intro source found _ plain _ open_
    have fits : c.Fits ⟨c.nextId, some name, source.canonical, c.clock, Op.copiedCounts source,
        source.body⟩ := h.fits_copy found spelled plain
    have settled : ∀ next, source.body = .recursive (some next) →
        ∃ steps, c.Settles next source.canonical (Op.copiedCounts source) steps := by
      intro next follows
      obtain ⟨carried, carries⟩ := (h.fits found).exists_name follows
      have kept : Op.copiedCounts source = source.counts := by
        unfold Op.copiedCounts SortRecord.isNamed
        rw [carries]
        rfl
      obtain ⟨steps, settles⟩ := h.settled found follows
      exact kept ▸ settles.target found follows
    have added := h.add fits (fun components made ↦ h.several found made) settled
    have now : (c.add (some name) source.canonical (Op.copiedCounts source) source.body).get
        c.nextId = .ok _ := get_add_nextId h.toRooted
    have spared : Spares a (c.add (some name) source.canonical (Op.copiedCounts source)
        source.body) :=
      spares.add h.toRooted fun id inside ↦ spares.not_used ⟨target, source, found, inside⟩
    refine Ends.bind (Op.ends_at ((added.register now open_).mono ?_ fun _ _ ↦ trivial))
    rintro _ d ⟨formed, registered⟩
    refine Ends.pure (Forms.of_registered formed (spared.congr registered.get)
      ((registered.get _).trans now) rfl open_ ?_)
    rw [registered.pending]
    exact ended

/-- The end of a definition forms its answer when the body was handed on alone, if it is an open
name, and is not a sort of the same name. -/
theorem forms_complete {target : SortId} (h : Formed [] c) (spares : Spares a c)
    (apart : ¬ a.Loose target) {innermost : Pending} {outer : List Pending}
    (under : c.pending = innermost :: outer) (same : innermost.name = name)
    (alone : ∀ sort, c.get target = .ok sort → sort.body = .recursive none →
      ∀ placeholder, innermost.placeholder = some placeholder → placeholder = target)
    (claimed : ∀ sort, c.get target = .ok sort → sort.name = some name →
      innermost.placeholder = some target) :
    Ends (complete position name target) c (Forms a) fun _ ↦ True := by
  have ended : ∀ pending ∈ outer, pending.name ≠ name := by
    have nodup := h.apart
    rw [under, List.map_cons, List.nodup_cons] at nodup
    intro pending inside eq
    exact nodup.1 (same.trans eq.symm ▸ List.mem_map_of_mem inside)
  have inside : innermost ∈ c.pending := by
    rw [under]
    exact List.mem_cons_self
  have concluded := h.conclude under
  have spared : Spares a { c with pending := outer } := spares.congr fun _ ↦ rfl
  refine Ends.bind (Op.ends_at (Op.ends_conclude ?_ ?_))
  · intro idle
    rw [under] at idle
    cases idle
  intro first rest under'
  rw [under] at under'
  cases under'
  rw [Option.bind_some]
  cases stands : innermost.placeholder with
  | some placeholder =>
    rw [stands] at concluded
    dsimp only
    split_ifs with itself
    · exact Ends.bind (ends_fail trivial)
    refine forms_bind concluded spared apart (fun sort found ↦ ?_)
      (fun goal there differ open_ ↦ ?_)
      ended
    · obtain ⟨record, found', carries⟩ := h.awaited innermost inside placeholder stands
      change c.get placeholder = .ok sort at found
      rw [found] at found'
      cases found'
      rw [carries, same]
    · exact differ (alone goal there open_ placeholder stands)
  | none =>
    rw [stands] at concluded
    refine Ends.bind (Ends.get ?_)
    split
    · exact ends_fail trivial
    refine forms_duplicate concluded spared (same ▸ h.announced innermost inside)
      (fun sort found named ↦ ?_) ended
    have holds := claimed sort found named
    rw [stands] at holds
    cases holds

/-! ### Aspects tuples -/

/-- No name is written like a tuple. -/
theorem not_unmarked_tupleText (names : List String) : ¬ Unmarked (tupleText names) := by
  intro unmarked
  refine unmarked '(' ?_ (by decide)
  unfold tupleText
  simp [String.toList_append]

/-- The aspects of an owner wait to be registered. -/
theorem forms_addAspects {owner : SortId} {tuple : SortRecord} {own arguments : List SortId}
    (names : List String) (first : Nat) (h : Formed waiting c) (found : c.get owner = .ok tuple)
    (tupled : tuple.body = .aspects tag own arguments)
    (enough : first + names.length ≤ arguments.length)
    (spelled : ∀ name ∈ names, Unmarked name) (spares : Spares a c) (apart : ¬ a.Loose owner) :
    Ends (Op.addAspects owner tuple.canonical first names) c
      (fun aspects d ↦ Formed (aspects ++ waiting) d ∧ Spares a d ∧
        (∀ id sort, c.get id = .ok sort → d.get id = .ok sort) ∧
        ∀ id ∈ aspects, ∃ sort, d.get id = .ok sort ∧ sort.variant = .aspect) fun _ ↦ True := by
  induction names generalizing c waiting first with
  | nil => exact ⟨h, spares, fun _ _ there ↦ there, by simp⟩
  | cons name names ih =>
    have handles : ∀ id ∈ (Body.aspect owner first).handles, id = owner := by
      intro id inside
      simpa [Body.handles, Body.parts, Body.bonds] using inside
    have live : ∀ id ∈ (Body.aspect owner first).handles, c.Live id := by
      intro id inside
      rw [handles id inside]
      exact ⟨tuple, found⟩
    have fits : c.Fits ⟨c.nextId, some name, aspectText tuple.canonical first, c.clock,
        ComponentCounts.ofSimple.renamed, .aspect owner first⟩ :=
      { linked := live
        older := h.older_of_live fun id inside ↦ live id (Body.mem_handles_of_mem_parts inside)
        rendered := fun _ ↦ rendering_aspect found first
        composed := ⟨tuple, tag, own, arguments, found, tupled, by
          rw [List.length_cons] at enough
          omega⟩
        nameless := by rintro ⟨⟩
        named := by
          rintro _ ⟨⟩
          exact spelled name List.mem_cons_self
        spelled := trivial }
    have added := h.add fits (by rintro _ ⟨⟩) (by rintro _ ⟨⟩)
    have new : (c.add (some name) (aspectText tuple.canonical first)
        ComponentCounts.ofSimple.renamed (.aspect owner first)).get c.nextId = .ok _ :=
      get_add_nextId h.toRooted
    have spared : Spares a (c.add (some name) (aspectText tuple.canonical first)
        ComponentCounts.ofSimple.renamed (.aspect owner first)) :=
      spares.add h.toRooted fun id inside ↦ handles id inside ▸ apart
    refine Ends.bind (Op.ends_add ?_)
    refine Ends.bind ((ih (first + 1) added (get_add_of_live h.toRooted found)
      (by rw [List.length_cons] at enough; omega)
      (fun other inside ↦ spelled other (List.mem_cons_of_mem _ inside)) spared).mono ?_
      fun _ _ ↦ trivial)
    rintro aspects d ⟨formed, spares', stays, made⟩
    refine Ends.pure ⟨formed.wait fun id inside ↦ ?_, spares', fun id sort there ↦ ?_, ?_⟩
    · simp only [List.mem_append, List.mem_cons] at inside ⊢
      tauto
    · exact stays id sort (get_add_of_live h.toRooted there)
    · intro id inside
      rcases List.mem_cons.mp inside with rfl | inside
      · exact ⟨_, stays _ _ new, rfl⟩
      · exact made id inside

/-- The aspects of a tuple are linked into it. -/
theorem Formed.link {own arguments : List SortId} (h : Formed waiting c)
    (found : c.get new.id = .ok old) (before : old.body = .aspects tag [] arguments)
    (made : new.body = .aspects tag own arguments) (sameName : new.name = old.name)
    (sameTime : new.created = old.created) (sameText : new.canonical = old.canonical)
    (sameCounts : new.counts = old.counts) (live : ∀ id ∈ own, c.Live id) (out : new.id ∉ own) :
    Formed waiting (c.replace new) := by
  have fits := h.fits found
  have variant : old.variant = .aspects := by
    rw [SortRecord.variant, before]
    rfl
  have sameVariant : new.variant = old.variant := by
    rw [variant, SortRecord.variant, made]
    rfl
  have sameParts : new.body.parts = old.body.parts := by
    rw [made, before]
    rfl
  have alike : Alike old new := by
    refine ⟨sameName, ?_, sameTime, sameVariant, fun _ ↦ ⟨sameText, sameCounts⟩, ?_, ?_⟩
    · rw [SortRecord.display, SortRecord.display, sameName, sameText]
    · intro target bound
      rw [before] at bound
      cases bound
    · intro category own' arguments' tupled
      rw [before] at tupled
      cases tupled
      exact ⟨own, made⟩
  have handles : ∀ id ∈ new.body.handles, id ∈ old.body.handles ∨ id ∈ own := by
    intro id inside
    rcases List.mem_append.mp inside with part | bond
    · exact Or.inl (Body.mem_handles_of_mem_parts (sameParts ▸ part))
    · rw [made] at bond
      exact Or.inr bond
  refine h.replace found sameName sameTime sameVariant (by rw [variant]; decide) ?_
    (Or.inr ⟨alike, sameParts⟩) ?_ ?_ (by rw [made]; rintro ⟨⟩) (by rw [made]; rintro target ⟨⟩)
  · rw [made]
    rintro components ⟨⟩
  · refine ⟨fun id inside ↦ ?_, ?_, fun _ ↦ ?_, ?_, ?_, ?_, ?_⟩
    · rcases handles id inside with part | bond
      · exact fits.linked id part
      · exact live id bond
    · rcases fits.older with older | ⟨_, _, _, split, _⟩
      · refine Or.inl ?_
        rw [sameParts, sameTime]
        exact older
      · rw [before] at split
        cases split
    · have rendered := fits.rendered (by rw [variant]; decide)
      rw [before] at rendered
      rw [made, sameText]
      exact rendered
    · have composed := fits.composed
      rw [before] at composed
      rw [made]
      exact composed
    · intro nameless
      rw [sameVariant]
      exact fits.nameless (sameName ▸ nameless)
    · intro name named
      rw [sameVariant]
      exact fits.named name (sameName ▸ named)
    · have spelled := fits.spelled
      rw [before] at spelled
      rw [made]
      exact spelled
  · intro inside
    rcases handles _ inside with part | bond
    · -- The tuple would be linked to itself, but what it is linked to is older.
      rw [before] at part
      have among : new.id ∈ old.body.parts := by
        rw [before]
        simpa [Body.handles, Body.parts, Body.bonds] using part
      obtain ⟨rank, above⟩ := h.ranked
      exact lt_irrefl _ (above found _ among)
    · exact out bond

theorem forms_declareAspects {names : List String} {arguments : List SortId} (h : Formed [] c)
    (advance : Advance a c) (spares : Spares a c) (apart : ∀ id ∈ arguments, ¬ a.Loose id)
    (tagged : Unmarked tag) (spelled : ∀ name ∈ names, Unmarked name) :
    Ends (Op.declareAspects categories tag names arguments) c (Forms a) fun _ ↦ True := by
  refine Op.ends_declareAspects trivial fun displays declared ↦ ?_
  have handles : ∀ id ∈ (Body.aspects tag [] arguments).handles, id ∈ arguments := by
    intro id inside
    simpa [Body.handles, Body.parts, Body.bonds] using inside
  have live : ∀ id ∈ arguments, c.Live id := live_of_displays declared.shown
  have fits : c.Fits (Op.tuple c tag names displays arguments []) :=
    { linked := fun id inside ↦ live id (handles id inside)
      older := h.older_of_live fun id inside ↦
        live id (handles id (Body.mem_handles_of_mem_parts inside))
      rendered := fun _ ↦ by
        simp only [Op.tuple, rendering, declared.shown]
        rfl
      composed := declared.plain
      nameless := by rintro ⟨⟩
      named := by
        rintro _ ⟨⟩
        exact ⟨names, rfl, spelled⟩
      spelled := tagged }
  have added := h.add fits (by rintro _ ⟨⟩) (by rintro _ ⟨⟩)
  have found : (c.add (some (tupleText names)) (aspectsText tag displays)
      ComponentCounts.ofSimple.renamed (.aspects tag [] arguments)).get c.nextId =
        .ok (Op.tuple c tag names displays arguments []) := get_add_nextId h.toRooted
  have advanced : Advance a (c.add (some (tupleText names)) (aspectsText tag displays)
      ComponentCounts.ofSimple.renamed (.aspects tag [] arguments)) :=
    advance.add (by rintro components ⟨⟩)
  have spared : Spares a (c.add (some (tupleText names)) (aspectsText tag displays)
      ComponentCounts.ofSimple.renamed (.aspects tag [] arguments)) :=
    spares.add h.toRooted fun id inside ↦ apart id (handles id inside)
  have closed : ¬ a.Loose c.nextId := fun loose ↦
    advance.not_live_nextId h.toRooted (by
      obtain ⟨sort, there, -⟩ := loose.1
      exact ⟨sort, there⟩)
  refine ((advance_addAspects names 0 added.toSteady).and
    (forms_addAspects names 0 added found rfl (by have := declared.matched; omega)
      spelled spared closed)).mono ?_ fun _ _ ↦ trivial
  rintro aspects d ⟨⟨later, pending, new⟩, formed, spared', stays, made⟩
  have owned := stays _ _ found
  have out : c.nextId ∉ aspects := fun inside ↦ new _ inside ⟨_, found⟩
  have linked : Formed (aspects ++ [c.nextId])
      (d.replace (Op.tuple c tag names displays arguments aspects)) := by
    refine formed.link owned rfl rfl rfl rfl rfl rfl (fun id inside ↦ ?_) out
    obtain ⟨sort, there, -⟩ := made id inside
    exact ⟨sort, there⟩
  have now : (d.replace (Op.tuple c tag names displays arguments aspects)).get c.nextId = .ok _ :=
    get_replace_self owned
  have spared'' : Spares a (d.replace (Op.tuple c tag names displays arguments aspects)) := by
    refine spared'.replace owned rfl rfl fun id inside ↦ ?_
    rcases List.mem_append.mp inside with part | bond
    · exact apart id part
    · obtain ⟨sort, there, kind⟩ := made id bond
      exact not_loose_of_get (advanced.toGrowth.trans later.toGrowth) there
        (SortRecord.not_growing_of_variant (by rw [kind]; decide))
  refine ⟨owned, (linked.registerAll fun id inside ↦ ?_).mono ?_ fun _ _ ↦ trivial⟩
  · obtain ⟨sort, there, kind⟩ := made id inside
    refine ⟨sort, (get_replace_of_ne owned ?_).trans there,
      SortRecord.body_ne_recursive (by rw [kind]; decide) none⟩
    rintro rfl
    exact out inside
  rintro _ e ⟨registered, same, pending'⟩
  refine (registered.register ((same _).trans now) (by rintro ⟨⟩)).mono ?_ fun _ _ ↦ trivial
  rintro _ f ⟨last, known⟩
  refine Forms.of_registered last ?_ ((known.get _).trans ((same _).trans now)) rfl
    (by rintro ⟨⟩) ?_
  · exact spared''.congr fun id ↦ (known.get id).trans (same id)
  · intro other inside equal
    rw [known.pending, pending'] at inside
    change other ∈ d.pending at inside
    rw [pending] at inside
    exact not_unmarked_tupleText names (equal ▸ h.announced other inside)

end CompositeSorts.Catalog
