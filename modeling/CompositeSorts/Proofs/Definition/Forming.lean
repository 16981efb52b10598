import CompositeSorts.Proofs.Catalog.Formed
import CompositeSorts.Proofs.Definition.Advance

/-!
Operations on a formed catalog. What a text sums up in place must not be a part of anything yet. So
the sorts that can grow are kept loose: no operation that a text makes takes up a loose sort that is
older than the text (`Spares`), and a sort that can grow is handed on loose (`Forms.loose`). A name
under definition is handed on only by its mention (`Forms.alone`), and whoever carries the name of a
definition under way stands for it (`Forms.claimed`).

For each operation there is a lemma that it forms its answer (`Forms`).
-/

set_option autoImplicit false
set_option relaxedAutoImplicit false

namespace CompositeSorts.Catalog

open Text

variable {a c d : Catalog} {id other : SortId} {sort old new : SortRecord} {name : Option String}
  {canonical : String} {counts : ComponentCounts} {body : Body} {waiting : List SortId}
  {categories : CategoryTable} {tag : String}

/-- The handle leads to a disjunction that can grow, and no sort leads there. -/
def Loose (c : Catalog) (id : SortId) : Prop :=
  (∃ sort, c.get id = .ok sort ∧ sort.Growing) ∧ ¬ c.Used id

/-- What was loose in `a` is loose in `c`. -/
def Spares (a c : Catalog) : Prop := ∀ id, a.Loose id → c.Loose id

/-- A definition under way has stayed, or the sort has come to stand for it. -/
def Mentions (id : SortId) (before now : Pending) : Prop :=
  now = before ∨ now.placeholder = some id

/-- What is known of an answer beside how it was obtained. -/
structure Forms (a : Catalog) (id : SortId) (c : Catalog) : Prop where
  formed : Formed [] c
  spares : Spares a c
  loose : ∀ sort, c.get id = .ok sort → sort.Growing → c.Loose id
  alone : ∀ sort, c.get id = .ok sort → sort.body = .recursive none →
    List.Forall₂ (Mentions id) a.pending c.pending
  claimed : ∀ sort name, c.get id = .ok sort → sort.name = some name →
    ∀ pending ∈ c.pending, pending.name = name → pending.placeholder = some id

/-! ### Loose sorts -/

/-- What a text has obtained was not loose before the text. -/
theorem Obtained.not_loose (h : Obtained a c id) (grown : Growth a c) : ¬ a.Loose id := by
  rintro ⟨⟨sort, found, nameless, disjunctive⟩, -⟩
  obtain ⟨record, there, new, -⟩ := h
  rw [grown.stays found] at there
  cases there
  exact new nameless disjunctive ⟨sort, found⟩

theorem not_loose_of_get (grown : Growth a c) (found : c.get id = .ok sort)
    (fixed : ¬ sort.Growing) : ¬ a.Loose id := by
  rintro ⟨⟨record, there, growing⟩, -⟩
  rw [grown.stays there] at found
  cases found
  exact fixed growing

namespace Spares

theorem refl (c : Catalog) : Spares c c := fun _ loose ↦ loose

theorem trans (h : Spares a c) (h' : Spares c d) : Spares a d := fun id loose ↦ h' id (h id loose)

theorem not_used (h : Spares a c) (used : c.Used id) : ¬ a.Loose id :=
  fun loose ↦ (h id loose).2 used

/-- Only the sorts themselves count. -/
theorem congr (h : Spares a c) (get : ∀ id, d.get id = c.get id) : Spares a d := by
  intro id loose
  obtain ⟨⟨sort, found, growing⟩, unused⟩ := h id loose
  refine ⟨⟨sort, (get id).trans found, growing⟩, ?_⟩
  rintro ⟨user, record, there, inside⟩
  exact unused ⟨user, record, (get user).symm.trans there, inside⟩

theorem add (h : Spares a c) (rooted : c.Rooted) (apart : ∀ id ∈ body.handles, ¬ a.Loose id) :
    Spares a (c.add name canonical counts body) := by
  intro id loose
  obtain ⟨⟨sort, found, growing⟩, unused⟩ := h id loose
  refine ⟨⟨sort, get_add_of_live rooted found, growing⟩, ?_⟩
  rintro ⟨user, record, there, inside⟩
  rcases get_add_cases rooted there with ⟨rfl, rfl⟩ | ⟨-, before⟩
  · exact apart id inside loose
  · exact unused ⟨user, record, before, inside⟩

theorem replace (h : Spares a c) (found : c.get new.id = .ok old) (sameName : new.name = old.name)
    (sameVariant : new.variant = old.variant) (apart : ∀ id ∈ new.body.handles, ¬ a.Loose id) :
    Spares a (c.replace new) := by
  intro id loose
  obtain ⟨⟨sort, there, growing⟩, unused⟩ := h id loose
  refine ⟨?_, ?_⟩
  · rcases replaced_cases found there with ⟨rfl, rfl, here⟩ | ⟨-, here⟩
    · refine ⟨new, here, ?_⟩
      unfold SortRecord.Growing at growing ⊢
      rwa [sameName, sameVariant]
    · exact ⟨sort, here, growing⟩
  · rintro ⟨user, record, there', inside⟩
    rcases get_replace_cases found there' with ⟨rfl, rfl⟩ | ⟨-, before⟩
    · exact apart id inside loose
    · exact unused ⟨user, record, before, inside⟩

end Spares

/-! ### New sorts -/

/-- A sort that is made of live sorts is younger than they are. -/
theorem Formed.older_of_live (h : Formed waiting c)
    (live : ∀ id ∈ body.parts, c.Live id) :
    c.Older ⟨id, name, canonical, c.clock, counts, body⟩ := by
  refine Or.inl fun part inside ↦ ?_
  obtain ⟨sort, found⟩ := live part inside
  exact ⟨sort, found, h.stamped found⟩

theorem Formed.not_used_nextId (h : Formed waiting c) : ¬ c.Used c.nextId :=
  fun used ↦ not_live_nextId h.toRooted (h.live_of_used used)

/-- No sort leads to a new one. -/
theorem Formed.not_used_of_add (h : Formed waiting c)
    (fits : c.Fits ⟨c.nextId, name, canonical, c.clock, counts, body⟩) :
    ¬ (c.add name canonical counts body).Used c.nextId := by
  rintro ⟨user, record, there, inside⟩
  rcases get_add_cases h.toRooted there with ⟨rfl, rfl⟩ | ⟨-, before⟩
  · exact not_live_nextId h.toRooted (fits.linked _ inside)
  · exact h.not_used_nextId ⟨user, record, before, inside⟩

/-- A new sort without a name that is no attribute. -/
theorem Forms.of_add (h : Formed [] c) (spares : Spares a c)
    (fits : c.Fits ⟨c.nextId, none, canonical, c.clock, counts, body⟩)
    (several : ∀ components, body = .disjunctive components → 2 ≤ components.length)
    (plain : body.variant = .primitive ∨ body.variant = .disjunctive)
    (apart : ∀ id ∈ body.handles, ¬ a.Loose id) :
    Forms a c.nextId (c.add none canonical counts body) := by
  have found : (c.add none canonical counts body).get c.nextId = .ok _ := get_add_nextId h.toRooted
  have fixed : ∀ target, body ≠ .recursive target := by
    rintro target rfl
    rcases plain with plain | plain <;> cases plain
  have formed := h.add fits several fun target bound ↦ absurd bound (fixed (some target))
  refine ⟨formed.done found (fixed none) (by rintro name ⟨⟩) ?_, spares.add h.toRooted apart,
    ?_, ?_, ?_⟩
  · intro _ weighted
    change body.variant = .weighted at weighted
    rcases plain with plain | plain <;> rw [plain] at weighted <;> cases weighted
  · intro sort there growing
    exact ⟨⟨sort, there, growing⟩, h.not_used_of_add fits⟩
  · intro sort there unbound
    rw [found] at there
    cases there
    exact absurd unbound (fixed none)
  · intro sort name there named
    rw [found] at there
    cases there
    cases named

/-- An attribute. -/
theorem Forms.of_weighted (h : Formed [] c) (spares : Spares a c) (found : c.get id = .ok sort)
    (nameless : sort.name = none) (weighted : sort.variant = .weighted) : Forms a id c := by
  refine ⟨h, spares, ?_, ?_, ?_⟩
  · intro record there growing
    rw [found] at there
    cases there
    exact absurd growing (SortRecord.not_growing_of_variant (by rw [weighted]; decide))
  · intro record there unbound
    rw [found] at there
    cases there
    exact absurd unbound (SortRecord.body_ne_recursive (by rw [weighted]; decide) none)
  · intro record name there named
    rw [found] at there
    cases there
    rw [nameless] at named
    cases named

/-! ### Primitive sorts and attributes -/

theorem forms_primitive {argument : Option Argument} (h : Formed [] c) (spares : Spares a c)
    (apart : ∀ linked, argument = some (.sorts linked) → ∀ id ∈ linked, ¬ a.Loose id)
    (spelled : (Body.primitive tag argument).Spelled) :
    Ends (Op.primitive categories tag argument) c (Forms a) fun _ ↦ True := by
  refine Op.ends_primitive trivial fun _ canonical _ shown plain ↦ ?_
  have linked : ∀ id ∈ (Body.primitive tag argument).handles,
      ∃ ids, argument = some (.sorts ids) ∧ id ∈ ids := by
    intro id inside
    rcases List.mem_append.mp inside with inside | inside
    · cases argument with
      | none => cases inside
      | some argument =>
        cases argument with
        | sorts ids => exact ⟨ids, rfl, inside⟩
        | _ => cases inside
    · cases inside
  have live : ∀ id ∈ (Body.primitive tag argument).handles, c.Live id := by
    intro id inside
    obtain ⟨ids, given, among⟩ := linked id inside
    obtain ⟨sort, found, -⟩ := plain ids given id among
    exact ⟨sort, found⟩
  have composed : c.Composed (.primitive tag argument) := by
    cases argument with
    | none => trivial
    | some argument =>
      cases argument with
      | sorts ids => exact plain ids rfl
      | _ => trivial
  refine Forms.of_add h spares ⟨live, ?_, fun _ ↦ shown, composed, fun _ ↦ Or.inl rfl, ?_, spelled⟩
    (by rintro components ⟨⟩) (Or.inl rfl) ?_
  · exact h.older_of_live fun id inside ↦ live id (Body.mem_handles_of_mem_parts inside)
  · rintro name ⟨⟩
  · intro id inside
    obtain ⟨ids, given, among⟩ := linked id inside
    exact apart ids given id among

/-- An attribute of a simple base and a weight that is no tuple, added and kept. -/
theorem Formed.attach {base weight : SortId} {b w : SortRecord} (h : Formed [] c)
    (foundBase : c.get base = .ok b) (foundWeight : c.get weight = .ok w) (simple : b.body.isSimple)
    (plain : w.variant ≠ .aspects) (free : c.interned[weightedText b w]? = none) :
    Formed [] ({ c.add none (weightedText b w) (.composite [b.counts, w.counts])
        (.weighted base weight) with
      interned := c.interned.insert (weightedText b w) c.nextId }.note
        (.weightedInterned (weightedText b w))) := by
  have live : ∀ id ∈ (Body.weighted base weight).handles, c.Live id := by
    intro id inside
    obtain rfl | rfl : id = base ∨ id = weight := by
      simpa [Body.handles, Body.parts, Body.bonds] using inside
    · exact ⟨b, foundBase⟩
    · exact ⟨w, foundWeight⟩
  have fits : c.Fits ⟨c.nextId, none, weightedText b w, c.clock,
      .composite [b.counts, w.counts], .weighted base weight⟩ :=
    { linked := live
      older := h.older_of_live fun id inside ↦ live id (Body.mem_handles_of_mem_parts inside)
      rendered := fun _ ↦ rendering_weighted foundBase foundWeight
      composed := ⟨⟨b, foundBase, simple⟩, w, foundWeight, plain⟩
      nameless := fun _ ↦ Or.inr (Or.inl rfl)
      named := by rintro name ⟨⟩
      spelled := trivial }
  have added := h.add fits (by rintro _ ⟨⟩) (by rintro _ ⟨⟩)
  have found : (c.add none (weightedText b w) (.composite [b.counts, w.counts])
      (.weighted base weight)).get c.nextId = .ok _ := get_add_nextId h.toRooted
  have kept := added.insertKept found rfl rfl rfl free
  exact (kept.note (.weightedInterned (weightedText b w))).done found (by rintro ⟨⟩)
    (by rintro name ⟨⟩) fun _ _ ↦ Std.ExtTreeMap.getElem?_insert_self

theorem forms_attach {base weight : SortId} (h : Formed [] c) (grown : Growth a c)
    (spares : Spares a c) (apart : ¬ a.Loose weight) :
    Ends (Op.attach base weight) c (Forms a) fun _ ↦ True := by
  refine Op.ends_attach trivial ?_ ?_
  · intro b w known _ _ _ _ entry
    obtain ⟨sort, found, nameless, weighted, -⟩ := h.kept entry
    exact Forms.of_weighted h spares found nameless weighted
  · intro b w foundBase foundWeight simple plain free
    have spared : ∀ id ∈ (Body.weighted base weight).handles, ¬ a.Loose id := by
      intro id inside
      obtain rfl | rfl : id = base ∨ id = weight := by
        simpa [Body.handles, Body.parts, Body.bonds] using inside
      · exact not_loose_of_get grown foundBase (SortRecord.not_growing_of_simple simple)
      · exact apart
    have later : Spares a (c.add none (weightedText b w) (.composite [b.counts, w.counts])
        (.weighted base weight)) := spares.add h.toRooted spared
    exact Forms.of_weighted (h.attach foundBase foundWeight simple plain free)
      (later.congr fun _ ↦ rfl) (get_add_nextId h.toRooted) rfl rfl

theorem forms_combine {base weight : SortId} (h : Formed [] c) (advance : Advance a c)
    (awaits : Awaits a c) (spares : Spares a c) (got : Obtained a c weight) :
    Ends (Op.combine base weight) c (Forms a) fun _ ↦ True := by
  refine Ends.bind (Op.ends_read trivial fun elements shown ↦ ?_)
  cases elements with
  | nil => exact absurd rfl (ne_nil_of_spineWithin shown)
  | cons first others =>
    rw [List.foldrM_cons]
    -- All but the last attribute that is made are only handed on to the next one.
    have attached : Ends (others.foldrM Op.attach weight) c
        (fun id d ↦ Yields a id d ∧ Formed [] d ∧ Spares a d) fun _ ↦ True := by
      apply Op.ends_foldrM_attach
      · exact ⟨⟨advance, awaits, got⟩, h, spares⟩
      · rintro base _ weight d ⟨yields, formed, spares⟩
        refine ((yields_attach yields.toAdvance yields.awaits).and (forms_attach formed
          yields.toGrowth spares (yields.obtained.not_loose yields.toGrowth))).mono ?_
          fun _ _ ↦ trivial
        exact fun _ _ ⟨reached, forms⟩ ↦ ⟨reached, forms.formed, forms.spares⟩
    refine Ends.bind (attached.mono ?_ fun _ _ ↦ trivial)
    rintro weight d ⟨yields, formed, spares⟩
    exact forms_attach formed yields.toGrowth spares (yields.obtained.not_loose yields.toGrowth)

/-! ### Sums -/

/-- Where all sorts fit, two sorts of different displays never add up to one component. -/
theorem Formed.not_single {l r only : SortId} {left right : SortRecord} (h : Formed waiting c)
    (foundLeft : c.get l = .ok left) (foundRight : c.get r = .ok right)
    (differ : left.display ≠ right.display)
    (joined : Op.merged c left.summands right.summands = .ok [only]) : False := by
  obtain rfl : only = l := h.eq_of_merged foundLeft joined
  have shown : ∀ id ∈ right.summands, c.display id = c.display only := by
    intro id inside
    obtain ⟨other, here, same⟩ := Op.merged_shows joined id inside
    rw [← same, List.mem_singleton.mp here]
  unfold SortRecord.summands at shown
  split at shown
  · rename_i components made nameless
    have two := h.several foundRight made
    have composed := (h.fits foundRight).composed
    rw [made] at composed
    have nodup := composed.2
    match components, two, shown, nodup with
    | first :: second :: others, _, shown, nodup =>
      have same := (shown first (by simp)).trans (shown second (by simp)).symm
      rw [List.map_cons, List.nodup_cons] at nodup
      exact nodup.1 (by rw [same]; simp)
  · have same := shown right.id (by simp)
    rw [h.placed foundRight, display, display, foundRight, foundLeft] at same
    exact differ (Except.ok.inj same).symm

/-- What a sort contributes to a disjunction can be a component. -/
theorem Formed.component_summands (h : Formed waiting c) (found : c.get id = .ok sort)
    (plain : sort.variant ≠ .aspects) : ∀ part ∈ sort.summands, c.Component part := by
  unfold SortRecord.summands
  split
  · rename_i components made _
    have composed := (h.fits found).composed
    rw [made] at composed
    exact composed.1
  · rename_i closed
    intro part inside
    rw [List.mem_singleton.mp inside, h.placed found]
    refine ⟨sort, found, plain, ?_⟩
    rintro ⟨nameless, disjunctive⟩
    cases made : sort.body <;> simp_all [SortRecord.variant, Body.variant]

/-- What a sort contributes to a disjunction shows different displays. -/
theorem Formed.nodup_summands (h : Formed waiting c) (found : c.get id = .ok sort) :
    (sort.summands.map c.display).Nodup := by
  unfold SortRecord.summands
  split
  · rename_i components made _
    have composed := (h.fits found).composed
    rw [made] at composed
    exact composed.2
  · simp

/-- What a sort contributes to a disjunction is itself, or used by it. -/
theorem Formed.mem_summands (h : Formed waiting c) (found : c.get id = .ok sort) :
    ∀ part ∈ sort.summands, part = id ∧ ¬ sort.Growing ∨ c.Used part := by
  unfold SortRecord.summands
  split
  · rename_i components made _
    intro part inside
    refine Or.inr ⟨id, sort, found, Body.mem_handles_of_mem_parts ?_⟩
    rw [made]
    exact inside
  · rename_i closed
    intro part inside
    refine Or.inl ⟨(List.mem_singleton.mp inside).trans (h.placed found), ?_⟩
    rintro ⟨nameless, disjunctive⟩
    cases made : sort.body <;> simp_all [SortRecord.variant, Body.variant]

/-- The disjunction that a sum is written as, made or grown, has the right components. -/
theorem Formed.composed_of_summed {l r : SortId} {left right : SortRecord}
    {components : List SortId} {parts : List SortRecord} (h : Formed waiting c)
    (summed : Op.Summed c l r left right components parts) :
    c.Composed (.disjunctive components) ∧ (∀ part ∈ components,
      part ∈ left.summands ∨ part ∈ right.summands) ∧
      c.rendering (.disjunctive components) =
        .ok (disjunctiveText (parts.map SortRecord.display)) := by
  obtain ⟨appended, eq, among⟩ := Op.merged_eq_append summed.joined
  have sides : ∀ part ∈ components, part ∈ left.summands ∨ part ∈ right.summands := by
    intro part inside
    rw [eq] at inside
    exact (List.mem_append.mp inside).imp_right (among part)
  refine ⟨⟨fun part inside ↦ ?_, ?_⟩, sides, ?_⟩
  · rcases sides part inside with here | there
    · exact h.component_summands summed.foundLeft summed.plainLeft part here
    · exact h.component_summands summed.foundRight summed.plainRight part there
  · exact Op.merged_nodup summed.joined (h.nodup_summands summed.foundLeft)
  · unfold rendering
    dsimp only
    rw [displays_eq_of_mapM summed.found]
    rfl

theorem mem_handles_disjunctive {components : List SortId} :
    id ∈ (Body.disjunctive components).handles ↔ id ∈ components := by
  simp [Body.handles, Body.parts, Body.bonds]

/-- A loose disjunction does not get a component that leads back to it. -/
theorem Formed.notMem_of_summed {l r : SortId} {left right : SortRecord} {components : List SortId}
    {parts : List SortRecord} (h : Formed waiting c)
    (summed : Op.Summed c l r left right components parts) (growing : left.Growing)
    (loose : c.Loose l) : l ∉ components := by
  intro inside
  obtain ⟨-, sides, -⟩ := h.composed_of_summed summed
  rcases sides l inside with mine | theirs
  · rcases h.mem_summands summed.foundLeft _ mine with ⟨-, closed⟩ | used
    · exact closed growing
    · exact loose.2 used
  · rcases h.mem_summands summed.foundRight _ theirs with ⟨rfl, -⟩ | used
    · have found := summed.foundRight
      rw [summed.foundLeft] at found
      cases found
      exact summed.differ rfl
    · exact loose.2 used

/-- A loose disjunction that has grown fits. -/
theorem Formed.fits_of_summed {l r : SortId} {left right : SortRecord} {components : List SortId}
    {parts : List SortRecord} (h : Formed waiting c)
    (summed : Op.Summed c l r left right components parts) (growing : left.Growing)
    (made : new.body = .disjunctive components)
    (text : new.canonical = disjunctiveText (parts.map SortRecord.display))
    (sameName : new.name = left.name) (sameTime : new.created = left.created) : c.Fits new := by
  obtain ⟨composed, -, written⟩ := h.composed_of_summed summed
  have nameless : new.name = none := sameName.trans growing.1
  refine ⟨fun part inside ↦ ?_, ?_, fun _ ↦ ?_, made ▸ composed, fun _ ↦ Or.inr (Or.inr ?_), ?_, ?_⟩
  · rw [made, mem_handles_disjunctive] at inside
    obtain ⟨sort, found, -⟩ := composed.1 part inside
    exact ⟨sort, found⟩
  · -- The components of the disjunction stay in front, and there were two of them.
    obtain ⟨former, before, own⟩ := growing.body_eq
    obtain ⟨appended, eq, -⟩ := Op.merged_eq_append summed.joined
    rw [own] at eq
    rcases (h.fits summed.foundLeft).older with older | ⟨-, first, later, split, several, older⟩
    · rw [before] at older
      refine Or.inr ⟨nameless, former, appended, made.trans (congrArg _ eq),
        h.several summed.foundLeft before, ?_⟩
      rw [sameTime]
      exact older
    · rw [before] at split
      cases split
      refine Or.inr ⟨nameless, first, later ++ appended, ?_, several, ?_⟩
      · rw [made, eq, List.append_assoc]
      · rw [sameTime]
        exact older
  · rw [made, text, written]
  · rw [SortRecord.variant, made]
    rfl
  · intro name carries
    rw [nameless] at carries
    cases carries
  · rw [made]
    trivial

/-- A loose disjunction grows in place. -/
theorem Forms.of_grown {l r : SortId} {left right : SortRecord} {components : List SortId}
    {parts : List SortRecord} (h : Formed [] c) (spares : Spares a c)
    (summed : Op.Summed c l r left right components parts) (growing : left.Growing)
    (loose : c.Loose l) (apart : ∀ part ∈ components, ¬ a.Loose part) (here : new.id = l)
    (made : new.body = .disjunctive components)
    (text : new.canonical = disjunctiveText (parts.map SortRecord.display))
    (sameName : new.name = left.name) (sameTime : new.created = left.created) :
    Forms a l (c.replace new) := by
  have variant : new.variant = .disjunctive := by
    rw [SortRecord.variant, made]
    rfl
  have sameVariant : new.variant = left.variant := variant.trans growing.2.symm
  have found : c.get new.id = .ok left := by
    rw [here]
    exact summed.foundLeft
  have now : (c.replace new).get new.id = .ok new := get_replace_self found
  have out : new.id ∉ new.body.handles := by
    rw [here, made, mem_handles_disjunctive]
    exact h.notMem_of_summed summed growing loose
  have still : new.Growing := ⟨sameName.trans growing.1, variant⟩
  refine ⟨?_, ?_, ?_, ?_, ?_⟩
  · refine h.replace found sameName sameTime sameVariant (by rw [growing.2]; decide) ?_
      (Or.inl (here ▸ loose.2)) (h.fits_of_summed summed growing made text sameName sameTime) out
      (by rw [made]; rintro ⟨⟩) (by rw [made]; rintro target ⟨⟩)
    intro _ same
    rw [made] at same
    cases same
    exact h.two_le_length_of_summed summed
  · refine spares.replace found sameName sameVariant fun part inside ↦ ?_
    rw [made, mem_handles_disjunctive] at inside
    exact apart part inside
  · intro sort there _
    rw [← here]
    refine ⟨⟨new, now, still⟩, ?_⟩
    rintro ⟨user, record, there, inside⟩
    rcases get_replace_cases found there with ⟨rfl, rfl⟩ | ⟨-, before⟩
    · exact out inside
    · exact loose.2 (here ▸ ⟨user, record, before, inside⟩)
  · intro sort there unbound
    rw [← here, now] at there
    cases there
    rw [made] at unbound
    cases unbound
  · intro sort name there named
    rw [← here, now] at there
    cases there
    exact absurd still (SortRecord.not_growing_of_named named)

/-- A sum is formed when its left side is handed on loose, and alone if it stands for a name under
definition that the right side shows, too. -/
theorem forms_sum {l r : SortId} (h : Formed [] c) (grown : Growth a c) (spares : Spares a c)
    (gotLeft : Obtained a c l) (gotRight : Obtained a c r)
    (loose : ∀ left, c.get l = .ok left → left.Growing → c.Loose l)
    (alone : ∀ left right, c.get l = .ok left → c.get r = .ok right →
      left.display = right.display → left.body = .recursive none →
      List.Forall₂ (Mentions l) a.pending c.pending)
    (claimed : ∀ left name, c.get l = .ok left → left.name = some name →
      ∀ pending ∈ c.pending, pending.name = name → pending.placeholder = some l) :
    Ends (Op.sum l r) c (Forms a) fun _ ↦ True := by
  have spared : ∀ {left right : SortRecord} {components parts},
      Op.Summed c l r left right components parts → ∀ part ∈ components, ¬ a.Loose part := by
    intro left right components parts summed part inside
    obtain ⟨-, sides, -⟩ := h.composed_of_summed summed
    rcases sides part inside with mine | theirs
    · rcases h.mem_summands summed.foundLeft part mine with ⟨rfl, -⟩ | used
      · exact gotLeft.not_loose grown
      · exact spares.not_used used
    · rcases h.mem_summands summed.foundRight part theirs with ⟨rfl, -⟩ | used
      · exact gotRight.not_loose grown
      · exact spares.not_used used
  refine Op.ends_sum trivial ?_ ?_ ?_ ?_
  · intro left right foundLeft foundRight same
    refine ⟨h, spares, loose, fun sort found unbound ↦ ?_, claimed⟩
    rw [foundLeft] at found
    cases found
    exact alone left right foundLeft foundRight same unbound
  · intro left right only foundLeft foundRight differ joined
    exact (h.not_single foundLeft foundRight differ joined).elim
  · intro left right components parts summed disjunctive nameless
    have growing : left.Growing := ⟨nameless, disjunctive⟩
    have here : left.id = l := h.placed summed.foundLeft
    exact Forms.of_grown h spares summed growing (loose left summed.foundLeft growing)
      (spared summed) here rfl rfl rfl rfl
  · intro left right components parts summed closed
    obtain ⟨composed, sides, written⟩ := h.composed_of_summed summed
    have linked : ∀ part ∈ (Body.disjunctive components).handles, c.Live part := by
      intro part inside
      obtain ⟨sort, found, -⟩ := composed.1 part (mem_handles_disjunctive.mp inside)
      exact ⟨sort, found⟩
    refine Forms.of_add h spares ⟨linked, ?_, fun _ ↦ written, composed,
      fun _ ↦ Or.inr (Or.inr rfl), by rintro name ⟨⟩, trivial⟩ ?_ (Or.inr rfl) ?_
    · exact h.older_of_live fun id inside ↦ linked id (Body.mem_handles_of_mem_parts inside)
    · rintro _ ⟨⟩
      exact h.two_le_length_of_summed summed
    · intro part inside
      exact spared summed part (mem_handles_disjunctive.mp inside)

end CompositeSorts.Catalog
