import CompositeSorts.Proofs.Catalog.Attributes
import CompositeSorts.Proofs.Catalog.Steps

/-!
Operations that fail. Most operations ask all their questions before they change anything, so that a
refusal leaves the catalog as it was. Two of them go on changing it: combining attaches the elements
of a spine one by one, and declaring a tuple makes and registers one sort after the other.

Combining can only be refused by the last element of the spine, which is attached first: the others
are bases of attributes, and these are simple sorts whatever was called (`Based`), so nothing
refuses them (`Based.ends_combine`). A declaration checks the names of the aspects before it makes
them, and so nothing refuses to register them; but it does not check the name that it makes up for
the tuple. If that one is taken, the declaration fails when everything else is done, and if it is
not, a declaration that fails has done nothing (`ends_declareAspects_unless_collides`).
-/

set_option autoImplicit false
set_option relaxedAutoImplicit false

namespace CompositeSorts

variable {plain : String → Prop} {may : Catalog.Touch → Prop} {c d : Catalog}
  {id base weight : SortId} {sort old : SortRecord} {name : Option String}
  {canonical tag : String} {counts : ComponentCounts} {body : Body}

namespace Catalog

/-- What attaching makes is kept, and the catalog stays steady; or nothing is changed. -/
theorem Steady.ends_attach (h : c.Steady) (base weight : SortId) : Ends (Op.attach base weight) c
    (fun id d ↦ d.Steady ∧ Growth c d ∧ d.Attached base weight id) (· = c) := by
  have any : Stepping (fun _ ↦ True) (fun _ ↦ True) (Op.attach base weight) :=
    stepping_attach base weight
  have stays := (any c h).mono (fun _ _ steps ↦ steps.steady h) fun _ _ ↦ trivial
  exact (stays.and (h.toRooted.ends_attach base weight)).mono
    (fun _ _ ⟨steady, grown, attached, _⟩ ↦ ⟨steady, grown, attached⟩) fun _ ↦ And.right

/-! ### Bases -/

/-- The base of an attribute is simple, and is not newer than the session if the attribute is
not. -/
structure Based (c : Catalog) : Prop where
  simple : ∀ {id sort base weight}, c.get id = .ok sort → sort.body = .weighted base weight →
    c.Basic base
  fresh : ∀ {id sort base weight}, c.get id = .ok sort → sort.body = .weighted base weight →
    base ∈ c.fresh → id ∈ c.fresh

namespace Based

theorem empty (home : RegistryId) : (Catalog.empty home).Based where
  simple found := by simp [get_eq_ok_iff, Catalog.empty, SlotMap.get?_empty] at found
  fresh found := by simp [get_eq_ok_iff, Catalog.empty, SlotMap.get?_empty] at found

theorem clear (c : Catalog) : c.clear.Based :=
  ⟨(empty c.home).simple, (empty c.home).fresh⟩

theorem of_same (h : c.Based) (get : ∀ id, d.get id = c.get id) (fresh : d.fresh = c.fresh) :
    d.Based where
  simple found made := by
    obtain ⟨b, there, simple⟩ := h.simple ((get _).symm.trans found) made
    exact ⟨b, (get _).trans there, simple⟩
  fresh found made := fresh ▸ h.fresh ((get _).symm.trans found) made

theorem add (h : c.Based) (rooted : c.Rooted)
    (simple : ∀ base weight, body = .weighted base weight → c.Basic base) :
    (c.add name canonical counts body).Based where
  simple {id sort base weight} found made := by
    have here : c.Basic base := by
      rcases get_add_cases rooted found with ⟨rfl, rfl⟩ | ⟨-, before⟩
      · exact simple base weight made
      · exact h.simple before made
    exact here.grow ((Growth.refl c).add rooted)
  fresh {id sort base weight} found made inside := by
    rcases get_add_cases rooted found with ⟨rfl, -⟩ | ⟨-, before⟩
    · exact List.mem_cons_self
    · obtain ⟨b, there, -⟩ := h.simple before made
      rcases List.mem_cons.mp inside with rfl | inside
      · exact absurd ⟨b, there⟩ (not_live_nextId rooted)
      · exact List.mem_cons_of_mem _ (h.fresh before made inside)

/-- A sort that is no attribute can be changed as long as it keeps its variant. -/
theorem replace (h : c.Based) (found : c.get sort.id = .ok old)
    (variant : sort.variant = old.variant) (loose : old.variant ≠ .weighted) :
    (c.replace sort).Based := by
  have before {id base weight : SortId} {record : SortRecord}
      (there : (c.replace sort).get id = .ok record) (made : record.body = .weighted base weight) :
      c.get id = .ok record := by
    rcases get_replace_cases found there with ⟨rfl, rfl⟩ | ⟨-, before⟩
    · rw [← variant, SortRecord.variant, made] at loose
      exact absurd rfl loose
    · exact before
  have basic {id : SortId} (basic : c.Basic id) : (c.replace sort).Basic id := by
    obtain ⟨b, there, simple⟩ := basic
    rcases replaced_cases found there with ⟨rfl, rfl, here⟩ | ⟨-, here⟩
    · refine ⟨sort, here, ?_⟩
      rwa [sort.isSimple_iff, variant, ← old.isSimple_iff]
    · exact ⟨b, here, simple⟩
  exact ⟨fun there made ↦ basic (h.simple (before there made) made),
    fun there made ↦ h.fresh (before there made) made⟩

theorem openSession (h : c.Based) : c.openSession.Based where
  simple := h.simple
  fresh _ _ inside := absurd inside List.not_mem_nil

theorem rollBack (h : c.Based) (sound : c.Sound) : c.rollBack.Based where
  simple found made := by
    obtain ⟨found, out⟩ := sound.get_rollBack_eq_ok_iff.mp found
    obtain ⟨b, there, simple⟩ := h.simple found made
    have kept := sound.get_rollBack_eq_ok_iff.mpr
      ⟨there, fun inside ↦ out (h.fresh found made inside)⟩
    exact ⟨b, kept, simple⟩
  fresh _ _ inside := absurd inside List.not_mem_nil

/-- Every step makes attributes over simple sorts only, and leaves these as they are. -/
theorem step (h : c.Based) (steady : c.Steady) (step : Step plain may c d) : d.Based := by
  have rooted := steady.toRooted
  cases step with
  | log | await | name => exact h.of_same (fun _ ↦ rfl) rfl
  | placeholder | primitive | sum | tuple | aspect => exact h.add rooted (by rintro _ _ ⟨⟩)
  | copy found => exact h.add rooted fun base weight made ↦ h.simple found made
  | @attach base weight b w foundBase _ simple =>
    have added : (c.add none (weightedText b w) (.composite [b.counts, w.counts])
        (.weighted base weight)).Based := h.add rooted (by rintro _ _ ⟨⟩; exact ⟨b, foundBase, simple⟩)
    exact added.of_same (fun _ ↦ rfl) rfl
  | @grow a _ left _ components parts summed disjunctive =>
    have found : c.get left.id = .ok left := rooted.get_id summed.foundLeft
    refine h.replace found ?_ (by rw [disjunctive]; decide)
    exact disjunctive.symm
  | @bind recursive target sort goal found _ unbound =>
    have variant : sort.variant = .recursive := congrArg Body.variant unbound
    have there : c.get sort.id = .ok sort := rooted.get_id found
    refine h.replace there ?_ (by rw [variant]; decide)
    exact variant.symm
  | @own old _ _ aspects found made =>
    have variant : old.variant = .aspects := congrArg Body.variant made
    refine h.replace found ?_ (by rw [variant]; decide)
    exact variant.symm

/-! ### Combining -/

/-- Once the last sort of a spine has been given the weight, the others are not refused; so what is
refused has changed nothing. -/
theorem ends_combine (h : c.Based) (steady : c.Steady) (weighed : c.Weighed)
    (base weight : SortId) : Ends (Op.combine base weight) c (fun _ _ ↦ True) (· = c) := by
  refine Ends.bind (Op.ends_read rfl fun elements walked ↦ ?_)
  obtain ⟨front, last, rfl, -, each⟩ := Walk.shape h.simple (walked ▸ weighed.walk_spine base)
  rw [List.foldrM_append, Op.foldrM_attach_singleton]
  refine Ends.bind ((steady.ends_attach last weight).mono
    (fun tail d ⟨steady', grown, attached⟩ ↦ ?_) fun _ same ↦ same)
  have attaches (base weight : SortId) (c : Catalog) (steady : c.Steady) :=
    (steady.ends_attach base weight).mono (fun _ _ ↦ id) fun _ _ ↦ trivial
  obtain ⟨id, e, run⟩ := exists_foldrM_strung attaches (fun steady ↦ steady.toRooted)
    steady' (fun base inside ↦ (each base inside).grow grown)
    (steady'.toRooted.operand_of_attached attached)
  rw [Ends, run]
  trivial

end Based

end Catalog

/-! ### Declaring -/

namespace Op

open Catalog

variable {categories : CategoryTable} {names displays : List String} {arguments : List SortId}

/-- A declaration is in order, but the name that the tuple gets is taken. -/
def Collides (c : Catalog) (categories : CategoryTable) (tag : String) (names : List String)
    (arguments : List SortId) : Prop :=
  (∃ displays, Declared c categories tag names arguments displays) ∧
    ∃ id, c.names[tupleText names]? = some id

/-- Names that are given once and are free are not refused. -/
theorem checkAspectNames_eq (earlier : List String) (free : ∀ name ∈ names, c.names[name]? = none)
    (apart : ∀ name ∈ names, name ∉ earlier) (nodup : names.Nodup) :
    checkAspectNames earlier names c = .ok () c := by
  induction names generalizing earlier with
  | nil => rfl
  | cons name names ih =>
    obtain ⟨here, behind⟩ := List.forall_mem_cons.mp free
    obtain ⟨new, apart⟩ := List.forall_mem_cons.mp apart
    obtain ⟨once, nodup⟩ := List.nodup_cons.mp nodup
    have passed := ih (name :: earlier) behind
      (fun other inside ↦ List.not_mem_cons_of_ne_of_not_mem
        (fun same ↦ once (same ▸ inside)) (apart other inside)) nodup
    have untaken : ¬ (c.sortOf name).isSome := by simp [Catalog.sortOf, here]
    have asked : (MonadState.get : Op Catalog) c = .ok c c := rfl
    rw [checkAspectNames, if_neg new]
    beta_reduce
    rw [Ends.run_bind asked, if_neg untaken]
    exact passed

/-- What is done when nothing is refused: the tuple, its aspects and then their names. -/
theorem declareAspects_eq (declared : Declared c categories tag names arguments displays) :
    declareAspects categories tag names arguments c =
      (do
        let aspects ← addAspects c.nextId (aspectsText tag displays) 0 names
        let record ← read (·.get c.nextId)
        change (·.replace { record with body := .aspects tag aspects arguments })
        aspects.forM register
        register c.nextId
        pure c.nextId : Op SortId)
      (c.add (some (tupleText names)) (aspectsText tag displays) ComponentCounts.ofSimple.renamed
        (.aspects tag [] arguments)) := by
  obtain ⟨⟨shape, known, sized⟩, several, matched, free, nodup, plain, shown⟩ := declared
  have shaped : shapeOf categories tag c = .ok shape c := by
    rw [shapeOf, known]
    rfl
  have fits : ¬ (names.length < 2 ∨ names.length ≠ shape.cardinality ∨
      names.length ≠ arguments.length) := by omega
  rw [declareAspects, Ends.run_bind shaped]
  dsimp only
  rw [if_neg fits, Ends.run_bind (checkAspectNames_eq [] free (by simp) nodup),
    Ends.run_bind (checkOperands_eq plain), read_bind shown]
  rfl

/-- The aspects are made whatever their names are, and carry these. -/
theorem ends_addAspects {owner : SortId} (first : Nat) (steady : c.Steady) :
    Ends (addAspects owner canonical first names) c
      (fun aspects d ↦ Advance c d ∧ d.names = c.names ∧ List.Forall₂ (fun id name ↦
        ∃ sort, d.get id = .ok sort ∧ sort.name = some name) aspects names) fun _ ↦ False := by
  induction names generalizing c first with
  | nil => exact Ends.pure ⟨.refl steady, rfl, .nil⟩
  | cons name names ih =>
    refine Ends.bind (ends_add ?_)
    have added : Advance c (c.add (some name) (aspectText canonical first)
        ComponentCounts.ofSimple.renamed (.aspect owner first)) :=
      (Advance.refl steady).add (by rintro components ⟨⟩)
    refine Ends.bind ((ih (first + 1) added.toSteady).mono ?_ fun _ ↦ id)
    rintro aspects d ⟨later, same, carry⟩
    refine Ends.pure ⟨added.trans later, same, .cons ?_ carry⟩
    exact ⟨_, later.stays (get_add_nextId steady.toRooted), rfl⟩

/-- A sort that carries a free name is registered. -/
theorem register_eq {sort : SortRecord} {name : String} (found : c.get id = .ok sort)
    (named : sort.name = some name) (free : c.names[name]? = none) :
    register id c =
      .ok () ({ c with names := c.names.insert name id }.note (.sortRegistered name)) := by
  have sought : c.sortOf name = none := free
  rw [register, read_bind found, named]
  change EStateM.bind EStateM.get _ c = _
  unfold EStateM.bind EStateM.get
  dsimp only
  rw [sought]
  rfl

/-- Sorts that carry names which are free and differ are registered, and no other name is given
away. -/
theorem ends_registerAll {ids : List SortId} (nodup : names.Nodup)
    (carry : List.Forall₂ (fun id name ↦ ∃ sort, c.get id = .ok sort ∧ sort.name = some name) ids
      names) (free : ∀ name ∈ names, c.names[name]? = none) :
    Ends (ids.forM register) c (fun _ d ↦ (∀ id, d.get id = c.get id) ∧ d.clock = c.clock ∧
      ∀ text ∉ names, d.names[text]? = c.names[text]?) fun _ ↦ False := by
  induction ids generalizing names c with
  | nil => exact Ends.pure ⟨fun _ ↦ rfl, rfl, fun _ _ ↦ rfl⟩
  | cons id ids ih =>
    cases carry with
    | @cons _ name _ names here others =>
    obtain ⟨sort, found, named⟩ := here
    obtain ⟨first, behind⟩ := List.forall_mem_cons.mp free
    obtain ⟨once, nodup⟩ := List.nodup_cons.mp nodup
    let e := { c with names := c.names.insert name id }.note (.sortRegistered name)
    have entries (text : String) (differs : text ≠ name) : e.names[text]? = c.names[text]? := by
      change (c.names.insert name id)[text]? = _
      rw [Std.ExtTreeMap.getElem?_insert, if_neg fun same ↦ differs ?_]
      exact (Std.LawfulEqCmp.eq_of_compare same).symm
    have rest := ih (c := e) nodup others fun other inside ↦ by
      rw [entries other fun same ↦ once (same ▸ inside)]
      exact behind other inside
    refine Ends.bind ?_
    rw [Ends, register_eq found named first]
    refine rest.mono ?_ fun _ failed ↦ failed
    rintro _ d ⟨same, clock, kept⟩
    refine ⟨same, clock, fun text apart ↦ ?_⟩
    obtain ⟨differs, apart⟩ := not_or.mp fun among ↦ apart (List.mem_cons.mpr among)
    rw [kept text apart, entries text differs]

theorem length_le_joined {separator text : String} {texts : List String} (inside : text ∈ texts) :
    text.length ≤ (Text.joined separator texts).length := by
  unfold Text.joined
  induction texts with
  | nil => cases inside
  | cons first others ih =>
    cases others with
    | nil =>
      obtain rfl := List.mem_singleton.mp inside
      rw [String.intercalate_singleton]
    | cons second others =>
      rw [String.intercalate_cons_cons, String.length_append, String.length_append]
      rcases List.mem_cons.mp inside with rfl | inside
      · omega
      · have shorter := ih inside
        omega

/-- The text of a tuple is longer than each of its names. -/
theorem tupleText_notMem (names : List String) : tupleText names ∉ names := by
  intro inside
  have shorter : (tupleText names).length ≤ (Text.joined ", " names).length :=
    length_le_joined inside
  have longer : (tupleText names).length = (Text.joined ", " names).length + 2 := by
    rw [tupleText, String.length_append, String.length_append]
    have open_ : "(".length = 1 := by decide
    have close : ")".length = 1 := by decide
    omega
  omega

/-- Once a declaration is in order it fails if and only if the name of the tuple is taken, and then
the tuple and its aspects have been made. -/
theorem ends_declareAspects_of_declared (steady : c.Steady)
    (declared : Declared c categories tag names arguments displays) :
    Ends (declareAspects categories tag names arguments) c (fun _ _ ↦ True)
      fun d ↦ d ≠ c ∧ ∃ id, c.names[tupleText names]? = some id := by
  rw [Ends, declareAspects_eq declared]
  let owned := c.add (some (tupleText names)) (aspectsText tag displays)
    ComponentCounts.ofSimple.renamed (.aspects tag [] arguments)
  have start : owned.Steady := steady.add (by rintro _ ⟨⟩)
  have there : owned.get c.nextId = .ok (tuple c tag names displays arguments []) :=
    get_add_nextId steady.toRooted
  refine Ends.bind ((ends_addAspects 0 start).mono ?_ fun _ ↦ False.elim)
  rintro aspects d ⟨advance, sameNames, carry⟩
  have found := advance.stays there
  let linked := d.replace (tuple c tag names displays arguments aspects)
  have owner : linked.get c.nextId = .ok (tuple c tag names displays arguments aspects) :=
    get_replace_self found
  unfold Ends
  rw [read_bind found]
  refine Ends.bind (ends_change ?_)
  have carry' : List.Forall₂ (fun id name ↦ ∃ sort, linked.get id = .ok sort ∧
      sort.name = some name) aspects names := by
    refine carry.imp fun id name known ↦ ?_
    obtain ⟨sort, there, named⟩ := known
    by_cases same : id = c.nextId
    · subst same
      rw [found] at there
      cases there
      exact ⟨_, owner, named⟩
    · exact ⟨sort, (get_replace_of_ne found same).trans there, named⟩
  have free : ∀ name ∈ names, linked.names[name]? = none := by
    change ∀ name ∈ names, d.names[name]? = none
    rw [sameNames]
    exact declared.free
  refine Ends.bind ((ends_registerAll declared.nodup carry' free).mono ?_ fun _ ↦ False.elim)
  rintro _ e ⟨get, clock, names_eq⟩
  have entry : e.names[tupleText names]? = c.names[tupleText names]? := by
    rw [names_eq _ (tupleText_notMem names)]
    change d.names[_]? = _
    rw [sameNames]
    rfl
  have changed : e ≠ c := by
    rintro rfl
    have later : e.clock + 1 ≤ d.clock := advance.later
    have same : e.clock = d.clock := clock
    omega
  have there := (get c.nextId).trans owner
  cases taken : c.names[tupleText names]? with
  | none =>
    refine Ends.bind ?_
    rw [Ends, register_eq there rfl (entry.trans taken)]
    trivial
  | some known =>
    refine Ends.bind (ends_register ⟨changed, known, rfl⟩ (fun _ _ _ _ _ ↦ trivial)
      fun _ _ _ _ _ ↦ trivial)

/-- A declaration that fails has done nothing, unless all was in order but the name of the tuple. -/
theorem ends_declareAspects_unless_collides (steady : c.Steady) :
    Ends (declareAspects categories tag names arguments) c (fun _ _ ↦ True)
      fun d ↦ d = c ↔ ¬ Collides c categories tag names arguments := by
  by_cases fine : ∃ displays, Declared c categories tag names arguments displays
  · obtain ⟨displays, declared⟩ := fine
    refine (ends_declareAspects_of_declared steady declared).mono (fun _ _ ↦ id) ?_
    rintro d ⟨changed, taken⟩
    exact iff_of_false changed fun clear ↦ clear ⟨⟨displays, declared⟩, taken⟩
  · have stays : Ends (declareAspects categories tag names arguments) c (fun _ _ ↦ True) (· = c) :=
      ends_declareAspects rfl fun displays declared ↦ absurd ⟨displays, declared⟩ fine
    refine stays.mono (fun _ _ _ ↦ trivial) fun d same ↦ ?_
    exact iff_of_true same fun collides ↦ fine collides.1

end Op

end CompositeSorts
