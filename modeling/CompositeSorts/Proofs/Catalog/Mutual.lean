import CompositeSorts.Proofs.Catalog.Failing

/-!
Tuples and their aspects. A tuple lists its aspects, and each aspect knows its tuple and its place
there: the link is kept on both sides, and both sides agree (`Mutual`). A tuple comes before its
aspects and lists them only when they are there, so in the midst of a declaration the sides do not
agree; a whole declaration, whichever way it ends, leaves them in agreement
(`mutual_declareAspects`), and no other operation touches them. A tuple and its aspects are of one
session, so they are rolled back together.
-/

set_option autoImplicit false
set_option relaxedAutoImplicit false

namespace CompositeSorts.Catalog

variable {c d : Catalog} {id owner : SortId} {sort old : SortRecord} {name : Option String}
  {canonical tag : String} {counts : ComponentCounts} {body : Body} {categories : CategoryTable}
  {aspects arguments : List SortId} {position : Nat}

/-- A tuple has an aspect for each of its arguments, at least two, as many as its category says. The
aspect at a place names the tuple and the place, and is of the tuple's session. The arguments are
there, and are not of the session if the tuple is not. -/
structure Tupled (categories : CategoryTable) (c : Catalog) (id : SortId) (tag : String)
    (aspects arguments : List SortId) : Prop where
  several : 2 ≤ aspects.length
  sized : ∃ shape, categories.lookup tag = .known shape ∧ aspects.length = shape.cardinality
  matched : aspects.length = arguments.length
  own : ∀ position aspect, aspects[position]? = some aspect →
    ∃ sort, c.get aspect = .ok sort ∧ sort.body = .aspect id position
  linked : ∀ argument ∈ arguments, c.Live argument
  together : ∀ aspect ∈ aspects, aspect ∈ c.fresh ↔ id ∈ c.fresh
  older : ∀ argument ∈ arguments, argument ∈ c.fresh → id ∈ c.fresh

/-- An aspect is listed by a tuple at its place. -/
def Listed (c : Catalog) (id owner : SortId) (position : Nat) : Prop :=
  ∃ tuple tag aspects arguments, c.get owner = .ok tuple ∧
    tuple.body = .aspects tag aspects arguments ∧ aspects[position]? = some id

/-- A steady catalog in which each tuple has its aspects, and each aspect its tuple. -/
structure Mutual (categories : CategoryTable) (c : Catalog) : Prop extends Steady c where
  tuples : ∀ {id sort tag aspects arguments}, c.get id = .ok sort →
    sort.body = .aspects tag aspects arguments → c.Tupled categories id tag aspects arguments
  places : ∀ {id sort owner position}, c.get id = .ok sort →
    sort.body = .aspect owner position → c.Listed id owner position

/-! ### What touches no tuple -/

/-- The body is that of a tuple or of an aspect. -/
def Tying : Body → Prop
  | .aspects .. | .aspect .. => True
  | _ => False

theorem not_tying {body : Body} (tuple : body.variant ≠ .aspects) (aspect : body.variant ≠ .aspect) :
    ¬ Tying body := by
  cases body with
  | aspects => exact absurd rfl tuple
  | aspect => exact absurd rfl aspect
  | _ => exact not_false

/-- From one catalog to a steady other one no sort is lost, and tuples and aspects are the same. -/
structure SameTies (c d : Catalog) : Prop extends Steady d where
  stays : ∀ {id sort}, c.get id = .ok sort →
    ∃ later, d.get id = .ok later ∧ (Tying sort.body → later.body = sort.body)
  before : ∀ {id sort}, d.get id = .ok sort → Tying sort.body →
    ∃ former, c.get id = .ok former ∧ former.body = sort.body
  session : ∀ {id}, c.Live id → (id ∈ d.fresh ↔ id ∈ c.fresh)

namespace SameTies

theorem refl (steady : c.Steady) : SameTies c c :=
  ⟨steady, fun found ↦ ⟨_, found, fun _ ↦ rfl⟩, fun found _ ↦ ⟨_, found, rfl⟩, fun _ ↦ Iff.rfl⟩

theorem live (h : SameTies c d) (live : c.Live id) : d.Live id := by
  obtain ⟨sort, found⟩ := live
  obtain ⟨later, found', -⟩ := h.stays found
  exact ⟨later, found'⟩

theorem trans {e : Catalog} (h : SameTies c d) (h' : SameTies d e) : SameTies c e where
  toSteady := h'.toSteady
  stays found := by
    obtain ⟨later, found', same⟩ := h.stays found
    obtain ⟨last, found'', same'⟩ := h'.stays found'
    refine ⟨last, found'', fun tying ↦ ?_⟩
    have kept := same tying
    exact (same' (kept ▸ tying)).trans kept
  before found tying := by
    obtain ⟨former, found', same⟩ := h'.before found tying
    obtain ⟨first, found'', same'⟩ := h.before found' (same ▸ tying)
    exact ⟨first, found'', same'.trans same⟩
  session live := (h'.session (h.live live)).trans (h.session live)

/-- Only the sorts themselves and the session count. -/
theorem of_same (steady : d.Steady) (get : ∀ id, d.get id = c.get id) (fresh : d.fresh = c.fresh) :
    SameTies c d where
  toSteady := steady
  stays found := ⟨_, (get _).trans found, fun _ ↦ rfl⟩
  before found _ := ⟨_, (get _).symm.trans found, rfl⟩
  session _ := by rw [fresh]

theorem note (h : SameTies c d) (event : Event) : SameTies c (d.note event) :=
  h.trans (of_same (h.toSteady.note event) (fun _ ↦ rfl) rfl)

theorem add (steady : c.Steady) (plain : ¬ Tying body) (several : ∀ components,
    body = .disjunctive components → 2 ≤ components.length) :
    SameTies c (c.add name canonical counts body) where
  toSteady := steady.add several
  stays found := ⟨_, get_add_of_live steady.toRooted found, fun _ ↦ rfl⟩
  before {id sort} found tying := by
    rcases get_add_cases steady.toRooted found with ⟨rfl, rfl⟩ | ⟨-, before⟩
    · exact absurd tying plain
    · exact ⟨sort, before, rfl⟩
  session {id} live := by
    refine ⟨fun inside ↦ ?_, List.mem_cons_of_mem _⟩
    rcases List.mem_cons.mp inside with rfl | inside
    · exact absurd live (not_live_nextId steady.toRooted)
    · exact inside

theorem replace (steady : (c.replace sort).Steady) (found : c.get sort.id = .ok old)
    (plain : ¬ Tying old.body) (plain' : ¬ Tying sort.body) : SameTies c (c.replace sort) where
  toSteady := steady
  stays {id record} there := by
    rcases replaced_cases found there with ⟨rfl, rfl, here⟩ | ⟨-, here⟩
    · exact ⟨sort, here, fun tying ↦ absurd tying plain⟩
    · exact ⟨record, here, fun _ ↦ rfl⟩
  before {id record} there tying := by
    rcases get_replace_cases found there with ⟨rfl, rfl⟩ | ⟨-, before⟩
    · exact absurd tying plain'
    · exact ⟨record, before, rfl⟩
  session _ := Iff.rfl

end SameTies

namespace Mutual

/-- Where tuples and aspects are the same, they go on to agree. -/
theorem sameTies (h : c.Mutual categories) (same : SameTies c d) : d.Mutual categories where
  toSteady := same.toSteady
  tuples {id sort tag aspects arguments} found made := by
    obtain ⟨former, found', made'⟩ := same.before found (made ▸ trivial)
    have tupled := h.tuples found' (made'.trans made)
    have owner : id ∈ d.fresh ↔ id ∈ c.fresh := same.session ⟨former, found'⟩
    refine ⟨tupled.several, tupled.sized, tupled.matched, fun position aspect listed ↦ ?_,
      fun argument inside ↦ same.live (tupled.linked argument inside),
      fun aspect inside ↦ ?_, fun argument inside ↦ ?_⟩
    · obtain ⟨record, there, body⟩ := tupled.own position aspect listed
      obtain ⟨later, there', kept⟩ := same.stays there
      exact ⟨later, there', (kept (body ▸ trivial)).trans body⟩
    · obtain ⟨position, listed⟩ := List.mem_iff_getElem?.mp inside
      obtain ⟨record, there, -⟩ := tupled.own position aspect listed
      rw [same.session ⟨record, there⟩, owner]
      exact tupled.together aspect inside
    · rw [same.session (tupled.linked argument inside), owner]
      exact tupled.older argument inside
  places {id sort owner position} found made := by
    obtain ⟨former, found', made'⟩ := same.before found (made ▸ trivial)
    obtain ⟨tuple, tag, aspects, arguments, there, tupled, listed⟩ :=
      h.places found' (made'.trans made)
    obtain ⟨later, there', kept⟩ := same.stays there
    exact ⟨later, tag, aspects, arguments, there',
      (kept (tupled ▸ trivial)).trans tupled, listed⟩

theorem note (h : c.Mutual categories) (event : Event) : (c.note event).Mutual categories :=
  h.sameTies (.of_same (h.toSteady.note event) (fun _ ↦ rfl) rfl)

theorem empty (home : RegistryId) : (Catalog.empty home).Mutual categories where
  toSteady := Steady.empty home
  tuples found := by simp [get_eq_ok_iff, Catalog.empty, SlotMap.get?_empty] at found
  places found := by simp [get_eq_ok_iff, Catalog.empty, SlotMap.get?_empty] at found

theorem clear (c : Catalog) : c.clear.Mutual categories where
  toSteady := Steady.clear c
  tuples found := by
    simp [get_eq_ok_iff, Catalog.clear, Catalog.empty, SlotMap.get?_empty,
      Catalog.note] at found
  places found := by
    simp [get_eq_ok_iff, Catalog.clear, Catalog.empty, SlotMap.get?_empty,
      Catalog.note] at found

theorem openSession (h : c.Mutual categories) : c.openSession.Mutual categories where
  toSteady := h.toSteady.openSession
  tuples found made := by
    have tupled := h.tuples found made
    exact ⟨tupled.several, tupled.sized, tupled.matched, tupled.own, tupled.linked,
      fun _ _ ↦ iff_of_false List.not_mem_nil List.not_mem_nil,
      fun _ _ inside ↦ absurd inside List.not_mem_nil⟩
  places found made := h.places found made

/-- A tuple is rolled back with its aspects, and its arguments only if it is, too. -/
theorem rollBack (h : c.Mutual categories) : c.rollBack.Mutual categories where
  toSteady := h.toSteady.rollBack
  tuples {id sort tag aspects arguments} found made := by
    have sound := h.toSteady.toSound
    obtain ⟨found, out⟩ := sound.get_rollBack_eq_ok_iff.mp found
    have tupled := h.tuples found made
    refine ⟨tupled.several, tupled.sized, tupled.matched, fun position aspect listed ↦ ?_,
      fun argument inside ↦ ?_, fun _ _ ↦ iff_of_false List.not_mem_nil List.not_mem_nil,
      fun _ _ inside ↦ absurd inside List.not_mem_nil⟩
    · obtain ⟨record, there, body⟩ := tupled.own position aspect listed
      have out' := (tupled.together aspect (List.mem_of_getElem? listed)).not.mpr out
      exact ⟨record, sound.get_rollBack_eq_ok_iff.mpr ⟨there, out'⟩, body⟩
    · exact sound.live_rollBack.mpr
        ⟨tupled.linked argument inside, fun new ↦ out (tupled.older argument inside new)⟩
  places {id sort owner position} found made := by
    have sound := h.toSteady.toSound
    obtain ⟨found, out⟩ := sound.get_rollBack_eq_ok_iff.mp found
    obtain ⟨tuple, tag, aspects, arguments, there, tupled, listed⟩ := h.places found made
    have together := (h.tuples there tupled).together id (List.mem_of_getElem? listed)
    exact ⟨tuple, tag, aspects, arguments,
      sound.get_rollBack_eq_ok_iff.mpr ⟨there, together.not.mp out⟩, tupled, listed⟩

end Mutual

/-- Different places of a tuple have different aspects. -/
theorem Tupled.nodup (h : c.Tupled categories id tag aspects arguments) : aspects.Nodup := by
  refine List.nodup_iff_getElem?_ne_getElem?.mpr fun i j before bound same ↦ ?_
  have there : aspects[j]? = some aspects[j] := List.getElem?_eq_getElem bound
  obtain ⟨sort, found, made⟩ := h.own j aspects[j] there
  obtain ⟨sort', found', made'⟩ := h.own i aspects[j] (same.trans there)
  rw [found] at found'
  cases found'
  rw [made] at made'
  cases made'
  exact absurd before (Nat.lt_irrefl _)

/-- The aspect at a place is linked to the argument there. -/
theorem Tupled.argumentOf (h : c.Tupled categories id tag aspects arguments)
    (found : c.get id = .ok sort) (made : sort.body = .aspects tag aspects arguments)
    {aspect : SortId} (inside : aspects[position]? = some aspect) :
    ∃ argument, arguments[position]? = some argument ∧ c.argumentOf aspect = .ok argument := by
  obtain ⟨record, there, body⟩ := h.own position aspect inside
  have bound : position < arguments.length := h.matched ▸ (List.getElem?_eq_some_iff.mp inside).1
  refine ⟨arguments[position], List.getElem?_eq_getElem bound, ?_⟩
  simp only [Catalog.argumentOf, there, body, found, made, bind, Except.bind,
    List.getElem?_eq_getElem bound]
  rfl

/-- A tuple and its aspects are rolled back together. -/
theorem Mutual.live_rollBack_iff (h : c.Mutual categories) (found : c.get id = .ok sort)
    (made : sort.body = .aspects tag aspects arguments) {aspect : SortId}
    (inside : aspect ∈ aspects) : c.rollBack.Live aspect ↔ c.rollBack.Live id := by
  have tupled := h.tuples found made
  have sound := h.toSteady.toSound
  obtain ⟨position, place⟩ := List.mem_iff_getElem?.mp inside
  obtain ⟨record, there, -⟩ := tupled.own position aspect place
  rw [sound.live_rollBack, sound.live_rollBack, tupled.together aspect inside]
  exact and_congr_left fun _ ↦ iff_of_true ⟨record, there⟩ ⟨sort, found⟩

/-! ### Operations -/

/-- The operation touches no tuple and no aspect, whichever way it ends. -/
def Untying {ε α : Type} (m : EStateM ε Catalog α) : Prop :=
  ∀ c, c.Steady → Ends m c (fun _ d ↦ SameTies c d) (SameTies c)

theorem untying_primitive (categories : CategoryTable) (tag : String)
    (argument : Option Argument) : Untying (Op.primitive categories tag argument) := by
  intro c steady
  exact Op.ends_primitive (.refl steady) fun _ _ _ _ _ ↦
    .add steady not_false (by rintro _ ⟨⟩)

theorem untying_duplicate (id : SortId) (name : String) : Untying (Op.duplicate id name) := by
  intro c steady
  refine Op.ends_duplicate (.refl steady) (fun _ _ _ ↦ .refl steady)
    fun source found _ tuple aspect _ ↦ ?_
  exact .add steady (not_tying tuple aspect) fun _ made ↦ steady.several found made

theorem untying_register (id : SortId) : Untying (Op.register id) := by
  intro c steady
  refine Op.ends_register (.refl steady) (fun _ _ _ _ _ ↦ .refl steady)
    fun sort name found named _ ↦ ?_
  have entered : SameTies c { c with names := c.names.insert name id } :=
    .of_same (steady.insertName found named) (fun _ ↦ rfl) rfl
  exact entered.note _

theorem untying_bind (recursive target : SortId) : Untying (Op.bind recursive target) := by
  intro c steady
  refine Op.ends_bind (.refl steady) fun sort goal found _ _ _ unbound ↦ ?_
  have here : c.get sort.id = .ok sort := steady.get_id found
  have open_ : sort.variant = .recursive := congrArg Body.variant unbound
  have plain : ¬ Tying sort.body := by
    rw [unbound]
    exact not_false
  have bound : SameTies c (c.replace { sort with
      canonical := goal.canonical, counts := goal.counts, body := .recursive (some target) }) :=
    .replace (steady.replace here rfl (by rw [open_]; decide) (by rintro _ ⟨⟩)) here plain not_false
  exact bound.note _

theorem untying_attach (base weight : SortId) : Untying (Op.attach base weight) := by
  intro c steady
  refine Op.ends_attach (.refl steady) (fun _ _ _ _ _ _ _ _ ↦ .refl steady) fun b w _ _ _ _ _ ↦ ?_
  have added : SameTies c (c.add none (weightedText b w) (.composite [b.counts, w.counts])
      (.weighted base weight)) :=
    .add steady not_false (by rintro _ ⟨⟩)
  have kept := added.toSteady.insertKept (get_add_nextId steady.toRooted) rfl rfl rfl
  exact .note (added.trans (.of_same kept (fun _ ↦ rfl) rfl)) _

theorem untying_combine (base weight : SortId) : Untying (Op.combine base weight) := by
  intro c steady
  refine Ends.bind (Op.ends_read (.refl steady) fun elements _ ↦ ?_)
  refine @Op.ends_foldrM_attach c _ (fun _ d ↦ SameTies c d) elements weight (.refl steady)
    fun base _ weight d reached ↦ ?_
  exact (untying_attach base weight d reached.toSteady).mono (fun _ _ ↦ reached.trans)
    fun _ ↦ reached.trans

theorem untying_sum (left right : SortId) : Untying (Op.sum left right) := by
  intro c steady
  refine Op.ends_sum (.refl steady) (fun _ _ _ _ _ ↦ .refl steady)
    (fun _ _ _ _ _ _ _ ↦ .refl steady) ?_ ?_
  · intro l r components parts summed disjunctive nameless
    have here : c.get l.id = .ok l := steady.get_id summed.foundLeft
    have plain : ¬ Tying l.body :=
      not_tying (fun tuple ↦ by cases disjunctive.symm.trans tuple)
        fun aspect ↦ by cases disjunctive.symm.trans aspect
    refine .replace ?_ here plain not_false
    refine steady.replace here rfl (by rw [disjunctive]; decide) ?_
    rintro _ ⟨⟩
    exact steady.two_le_length_of_summed summed
  · intro l r components parts summed _
    refine .add steady not_false ?_
    rintro _ ⟨⟩
    exact steady.two_le_length_of_summed summed

/-! ### Declarations -/

/-- New sorts are of the session. -/
theorem Growth.mem_fresh (grown : Growth c d) (sound : c.Sound) (sound' : d.Sound)
    (live : d.Live id) (new : ¬ c.Live id) : id ∈ d.fresh := by
  obtain ⟨made, history, fresh, -⟩ := grown.made
  have inside := (sound'.listed id).mpr live
  rw [history] at inside
  rw [fresh]
  rcases List.mem_append.mp inside with inside | inside
  · exact List.mem_append_left _ inside
  · exact absurd ((sound.listed id).mp inside) new

/-- Old sorts are of the session if they were before. -/
theorem Growth.mem_fresh_iff (grown : Growth c d) (live : c.Live id) :
    id ∈ d.fresh ↔ id ∈ c.fresh := by
  obtain ⟨made, -, fresh, apart⟩ := grown.made
  rw [fresh, List.mem_append]
  exact or_iff_right fun inside ↦ apart id inside live

/-- The aspects of an owner are made at the places from `first` on, and nothing else is. -/
theorem ends_addAspects_placed {names : List String} (first : Nat) (steady : c.Steady) :
    Ends (Op.addAspects owner canonical first names) c
      (fun aspects d ↦ aspects.length = names.length ∧
        (∀ id sort, d.get id = .ok sort → c.get id = .ok sort ∨
          ∃ k, aspects[k]? = some id ∧ sort.body = .aspect owner (first + k)) ∧
        ∀ (k : Nat) (id : SortId), aspects[k]? = some id → ¬ c.Live id ∧
          ∃ sort, d.get id = .ok sort ∧ sort.body = .aspect owner (first + k)) fun _ ↦ False := by
  induction names generalizing c first with
  | nil => exact Ends.pure ⟨rfl, fun _ _ found ↦ .inl found, by simp⟩
  | cons name names ih =>
    refine Ends.bind (Op.ends_add ?_)
    have added : Advance c (c.add (some name) (aspectText canonical first)
        ComponentCounts.ofSimple.renamed (.aspect owner first)) :=
      (Advance.refl steady).add (by rintro _ ⟨⟩)
    refine Ends.bind (((ih (first + 1) added.toSteady).and
      (Op.ends_addAspects (first + 1) added.toSteady)).mono ?_ fun _ ↦ And.left)
    rintro others d ⟨⟨length, back, placed⟩, later, -, -⟩
    refine Ends.pure ⟨congrArg (· + 1) length, fun id sort found ↦ ?_, fun k id inside ↦ ?_⟩
    · rcases back id sort found with found | ⟨k, inside, made⟩
      · rcases get_add_cases steady.toRooted found with ⟨rfl, rfl⟩ | ⟨-, before⟩
        · exact .inr ⟨0, rfl, rfl⟩
        · exact .inl before
      · refine .inr ⟨k + 1, inside, ?_⟩
        rw [made, Nat.add_assoc, Nat.add_comm 1 k]
    · cases k with
      | zero =>
        cases inside
        exact ⟨not_live_nextId steady.toRooted, _, later.stays (get_add_nextId steady.toRooted), rfl⟩
      | succ k =>
        obtain ⟨new, sort, found, made⟩ := placed k id inside
        refine ⟨fun live ↦ new (added.live live), sort, found, ?_⟩
        rw [made, Nat.add_assoc, Nat.add_comm 1 k]

/-- What the one catalog has more than the other is a tuple and the aspects that it lists, all of
them new. -/
structure Declares (c e : Catalog) (owner : SortId) (tuple : SortRecord) (aspects : List SortId) :
    Prop extends Steady e where
  found : e.get owner = .ok tuple
  stays : ∀ {id sort}, c.get id = .ok sort → e.get id = .ok sort
  ways : ∀ {id sort}, e.get id = .ok sort → c.get id = .ok sort ∨ id = owner ∧ sort = tuple ∨
    ∃ k, aspects[k]? = some id ∧ sort.body = .aspect owner k
  aspect : ∀ {k : Nat} {id : SortId}, aspects[k]? = some id →
    ∃ sort, e.get id = .ok sort ∧ sort.body = .aspect owner k
  new : owner ∈ e.fresh
  newAspect : ∀ id ∈ aspects, id ∈ e.fresh
  session : ∀ {id}, c.Live id → (id ∈ e.fresh ↔ id ∈ c.fresh)

/-- A tuple with as many aspects as its category says leaves tuples and aspects in agreement. -/
theorem Mutual.declares (h : c.Mutual categories) {e : Catalog} {tuple : SortRecord}
    (declares : Declares c e owner tuple aspects) (made : tuple.body = .aspects tag aspects arguments)
    (several : 2 ≤ aspects.length)
    (sized : ∃ shape, categories.lookup tag = .known shape ∧ aspects.length = shape.cardinality)
    (matched : aspects.length = arguments.length) (linked : ∀ id ∈ arguments, c.Live id) :
    e.Mutual categories := by
  have live {id : SortId} (live : c.Live id) : e.Live id := by
    obtain ⟨sort, found⟩ := live
    exact ⟨sort, declares.stays found⟩
  refine ⟨declares.toSteady, fun {id sort tag' own arguments'} found made' ↦ ?_,
    fun {id sort owner' position} found made' ↦ ?_⟩
  · rcases declares.ways found with before | ⟨rfl, rfl⟩ | ⟨k, -, aspect⟩
    · have tupled := h.tuples before made'
      have session : id ∈ e.fresh ↔ id ∈ c.fresh := declares.session ⟨sort, before⟩
      refine ⟨tupled.several, tupled.sized, tupled.matched, fun position aspect inside ↦ ?_,
        fun argument inside ↦ live (tupled.linked argument inside), fun aspect inside ↦ ?_,
        fun argument inside ↦ ?_⟩
      · obtain ⟨record, there, body⟩ := tupled.own position aspect inside
        exact ⟨record, declares.stays there, body⟩
      · obtain ⟨position, place⟩ := List.mem_iff_getElem?.mp inside
        obtain ⟨record, there, -⟩ := tupled.own position aspect place
        rw [declares.session ⟨record, there⟩, session]
        exact tupled.together aspect inside
      · rw [declares.session (tupled.linked argument inside), session]
        exact tupled.older argument inside
    · rw [made] at made'
      cases made'
      exact ⟨several, sized, matched, fun _ _ ↦ declares.aspect,
        fun argument inside ↦ live (linked argument inside),
        fun aspect inside ↦ iff_of_true (declares.newAspect aspect inside) declares.new,
        fun _ _ _ ↦ declares.new⟩
    · rw [aspect] at made'
      cases made'
  · rcases declares.ways found with before | ⟨rfl, rfl⟩ | ⟨k, inside, aspect⟩
    · obtain ⟨tuple', tag', own, arguments', there, tupled, place⟩ := h.places before made'
      exact ⟨tuple', tag', own, arguments', declares.stays there, tupled, place⟩
    · rw [made] at made'
      cases made'
    · rw [aspect] at made'
      cases made'
      exact ⟨tuple, tag, aspects, arguments, declares.found, made, inside⟩

/-- A declaration that is in order makes a tuple and its aspects; what is left to do then is to
register them. -/
theorem ends_declared {names displays : List String} (steady : c.Steady) :
    Ends (Op.addAspects c.nextId canonical 0 names)
      (c.add (some (tupleText names)) (aspectsText tag displays)
        ComponentCounts.ofSimple.renamed (.aspects tag [] arguments))
      (fun aspects d ↦ aspects.length = names.length ∧
        d.get c.nextId = .ok (Op.tuple c tag names displays arguments []) ∧
        Declares c (d.replace (Op.tuple c tag names displays arguments aspects)) c.nextId
          (Op.tuple c tag names displays arguments aspects) aspects) fun _ ↦ False := by
  have rooted := steady.toRooted
  have start : (c.add (some (tupleText names)) (aspectsText tag displays)
    ComponentCounts.ofSimple.renamed (.aspects tag [] arguments)).Steady :=
    steady.add (by rintro _ ⟨⟩)
  refine ((ends_addAspects_placed 0 start).and (Op.ends_addAspects 0 start)).mono ?_ fun _ ↦ And.left
  rintro aspects d ⟨⟨length, back, placed⟩, advance, -, -⟩
  simp only [Nat.zero_add] at back placed
  have there : d.get c.nextId = .ok (Op.tuple c tag names displays arguments []) :=
    advance.stays (get_add_nextId rooted)
  have other {id : SortId} (ne : id ≠ c.nextId) :
      (d.replace (Op.tuple c tag names displays arguments aspects)).get id = d.get id :=
    get_replace_of_ne there ne
  have differs {id : SortId} (live : c.Live id) : id ≠ c.nextId := by
    rintro rfl
    exact not_live_nextId rooted live
  have live {id : SortId} {sort : SortRecord} (found : c.get id = .ok sort) :
      (c.add (some (tupleText names)) (aspectsText tag displays) ComponentCounts.ofSimple.renamed
        (.aspects tag [] arguments)).get id = .ok sort := get_add_of_live rooted found
  have owned : (d.replace (Op.tuple c tag names displays arguments aspects)).get c.nextId =
      .ok (Op.tuple c tag names displays arguments aspects) := get_replace_self there
  refine ⟨length, there, advance.toSteady.replace there rfl (by rintro ⟨⟩) (by rintro _ ⟨⟩),
    owned, ?_, ?_, ?_, ?_, ?_, ?_⟩
  · intro id sort found
    exact (other (differs ⟨sort, found⟩)).trans (advance.stays (live found))
  · intro id sort found
    by_cases same : id = c.nextId
    · rw [same, owned] at found
      cases found
      exact .inr (.inl ⟨same, rfl⟩)
    · rw [other same] at found
      rcases back id sort found with found | placed
      · exact .inl ((get_add_of_ne rooted same).symm.trans found)
      · exact .inr (.inr placed)
  · intro k id inside
    obtain ⟨dead, sort, found, made⟩ := placed k id inside
    have ne : id ≠ c.nextId := by
      rintro rfl
      exact dead ⟨_, get_add_nextId rooted⟩
    exact ⟨sort, (other ne).trans found, made⟩
  · exact (advance.toGrowth.mem_fresh_iff ⟨_, get_add_nextId rooted⟩).mpr List.mem_cons_self
  · intro id inside
    obtain ⟨k, place⟩ := List.mem_iff_getElem?.mp inside
    obtain ⟨dead, sort, found, -⟩ := placed k id place
    exact advance.toGrowth.mem_fresh start.toSound advance.toSound ⟨sort, found⟩ dead
  · rintro id ⟨sort, found⟩
    refine (advance.toGrowth.mem_fresh_iff ⟨sort, live found⟩).trans ?_
    exact List.mem_cons.trans (or_iff_right (differs ⟨sort, found⟩))

/-- A declaration leaves tuples and aspects in agreement, whichever way it ends. -/
theorem mutual_declareAspects (h : c.Mutual categories) (tag : String) (names : List String)
    (arguments : List SortId) :
    Ends (Op.declareAspects categories tag names arguments) c (fun _ d ↦ d.Mutual categories)
      (Mutual categories) := by
  refine Op.ends_declareAspects h fun displays declared ↦ ?_
  refine (ends_declared h.toSteady).mono ?_ fun _ ↦ False.elim
  rintro aspects d ⟨length, there, declares⟩
  obtain ⟨shape, known, sized⟩ := declared.known
  have agree := h.declares declares rfl (length ▸ declared.several)
    ⟨shape, known, length.trans sized⟩ (length.trans declared.matched)
    fun id inside ↦ (declared.plain id inside).imp fun _ ↦ And.left
  have registered (id : SortId) (e : Catalog) (agree : e.Mutual categories) :=
    (untying_register id e agree.toSteady).mono (fun _ _ ↦ agree.sameTies) fun _ ↦ agree.sameTies
  refine ⟨there, (Ends.forM (Mutual categories) agree aspects fun id _ ↦ registered id).mono
    (fun _ e agree ↦ registered _ e agree) fun _ ↦ id⟩

end CompositeSorts.Catalog
