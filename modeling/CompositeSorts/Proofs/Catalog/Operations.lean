import CompositeSorts.Catalog.Algebra
import CompositeSorts.Proofs.Ends

/-!
How the operations end. For each operation there is one rule that lists the ways in which it ends,
with what is known of the catalog then; to show that a run of it ends within a condition is to show
the condition in each of these ways. All that is proved of operations is proved through the rules.
-/

set_option autoImplicit false
set_option relaxedAutoImplicit false

namespace CompositeSorts.Op

variable {α : Type} {c : Catalog} {post : α → Catalog → Prop} {done : Unit → Catalog → Prop}
  {made : SortId → Catalog → Prop} {fault : Catalog → Prop} {id : SortId}

theorem ends_read {question : Catalog → Except Refusal α} (refused : fault c)
    (answered : ∀ answer, question c = .ok answer → post answer c) :
    Ends (read question) c post fault := by
  unfold Ends read
  cases answer : question c with
  | error reason => exact refused
  | ok value => exact answered value answer

theorem ends_refuse {reason : Refusal} (refused : fault c) :
    Ends (refuse reason : Op α) c post fault := refused

theorem ends_change {step : Catalog → Catalog} (changed : done () (step c)) :
    Ends (change step) c done fault := changed

theorem ends_add {name : Option String} {canonical : String} {counts : ComponentCounts}
    {body : Body} (added : made c.nextId (c.add name canonical counts body)) :
    Ends (add name canonical counts body) c made fault := added

/-! ### Runs -/

theorem bind_eq_ok_iff {β : Type} {first : Op α} {next : α → Op β} {answer : β} {e : Catalog} :
    (first >>= next) c = .ok answer e ↔ ∃ a d, first c = .ok a d ∧ next a d = .ok answer e := by
  change EStateM.bind first next c = _ ↔ _
  unfold EStateM.bind
  cases first c with
  | ok a d => simp
  | error reason d => simp

/-- Programs run alike when their parts do. -/
theorem bind_congr {β : Type} {first first' : Op α} {next next' : α → Op β}
    (same : first c = first' c) (behind : ∀ a d, first' c = .ok a d → next a d = next' a d) :
    (first >>= next) c = (first' >>= next') c := by
  change EStateM.bind first next c = EStateM.bind first' next' c
  unfold EStateM.bind
  rw [same]
  cases run : first' c with
  | ok a d => exact behind a d run
  | error reason d => rfl

theorem read_bind {β : Type} {question : Catalog → Except Refusal α} {next : α → Op β} {answer : α}
    (answered : question c = .ok answer) : (read question >>= next) c = next answer c := by
  change EStateM.bind _ _ c = _
  rw [EStateM.bind, read, answered]

/-! ### Checks -/

theorem ends_refuseAspects {sort : SortRecord} {place : OperandPlace} (refused : fault c)
    (passed : sort.variant ≠ .aspects → done () c) :
    Ends (refuseAspects sort place) c done fault := by
  unfold refuseAspects
  split_ifs with tuple
  · exact ends_refuse refused
  · exact Ends.pure (passed tuple)

theorem refuseAspects_bind {β : Type} {sort : SortRecord} {place : OperandPlace}
    {next : Unit → Op β} (plain : sort.variant ≠ .aspects) :
    (refuseAspects sort place >>= next) c = next () c := by
  rw [refuseAspects, if_neg plain]
  rfl

/-- The handle leads to a sort that is no aspects tuple. -/
def Operand (c : Catalog) (id : SortId) : Prop :=
  ∃ sort, c.get id = .ok sort ∧ sort.variant ≠ .aspects

theorem ends_checkOperands {place : OperandPlace} (ids : List SortId) (refused : fault c)
    (passed : (∀ id ∈ ids, Operand c id) → done () c) :
    Ends (ids.forM (checkOperand place)) c done fault := by
  induction ids with
  | nil => exact Ends.pure (passed (by simp))
  | cons id ids ih =>
    change Ends (checkOperand place id >>= fun _ ↦ ids.forM (checkOperand place)) c done fault
    apply Ends.bind
    apply Ends.bind
    refine ends_read refused fun sort found ↦ ?_
    refine ends_refuseAspects refused fun plain ↦ ?_
    apply ih
    intro others
    apply passed
    intro other inside
    rcases List.mem_cons.mp inside with rfl | inside
    · exact ⟨sort, found, plain⟩
    · exact others other inside

/-- Handles that lead to sorts other than tuples are not refused. -/
theorem checkOperands_eq {place : OperandPlace} {ids : List SortId}
    (plain : ∀ id ∈ ids, Operand c id) :
    ids.forM (checkOperand place) c = .ok () c := by
  induction ids with
  | nil => rfl
  | cons id ids ih =>
    obtain ⟨sort, found, noTuple⟩ := plain id List.mem_cons_self
    change ((read (·.get id) >>= (refuseAspects · place)) >>=
      fun _ ↦ ids.forM (checkOperand place)) c = _
    rw [bind_assoc, read_bind found, refuseAspects_bind noTuple]
    exact ih fun other inside ↦ plain other (List.mem_cons_of_mem _ inside)

theorem ends_shapeOf {categories : CategoryTable} {tag : String}
    {known : ParamShape → Catalog → Prop} (stopped : fault c)
    (answered : ∀ shape, categories.lookup tag = .known shape → known shape c) :
    Ends (shapeOf categories tag) c known fault := by
  unfold shapeOf
  split
  · exact Ends.pure (answered _ ‹_›)
  · exact ends_refuse stopped
  · exact Ends.throw stopped

theorem ends_checkAspectNames {names : List String} (earlier : List String) (refused : fault c)
    (passed : (∀ name ∈ names, c.names[name]? = none ∧ name ∉ earlier) → names.Nodup →
      done () c) :
    Ends (checkAspectNames earlier names) c done fault := by
  induction names generalizing earlier with
  | nil => exact Ends.pure (passed (by simp) List.nodup_nil)
  | cons name names ih =>
    unfold checkAspectNames
    split_ifs with twice
    · exact Ends.bind (ends_refuse refused)
    · refine Ends.bind (Ends.get ?_)
      split_ifs with taken
      · exact Ends.bind (ends_refuse refused)
      · have free : c.names[name]? = none := by simpa [Catalog.sortOf] using taken
        refine ih (name :: earlier) fun others nodup ↦ passed ?_ ?_
        · intro other inside
          rcases List.mem_cons.mp inside with rfl | inside
          · exact ⟨free, twice⟩
          · obtain ⟨free', apart⟩ := others other inside
            exact ⟨free', fun among ↦ apart (List.mem_cons_of_mem _ among)⟩
        · refine List.nodup_cons.mpr ⟨fun inside ↦ ?_, nodup⟩
          exact (others name inside).2 List.mem_cons_self

/-! ### Naming -/

theorem ends_register (refused : fault c)
    (known : ∀ sort name, c.get id = .ok sort → sort.name = some name →
      c.names[name]? = some id → done () c)
    (new : ∀ sort name, c.get id = .ok sort → sort.name = some name → c.names[name]? = none →
      done () ({ c with names := c.names.insert name id }.note (.sortRegistered name))) :
    Ends (register id) c done fault := by
  refine Ends.bind (ends_read refused fun sort found ↦ ?_)
  split
  · exact ends_refuse refused
  · rename_i name named
    refine Ends.bind (Ends.get ?_)
    split
    · rename_i other entry
      split_ifs with same
      · exact Ends.pure (known sort name found named (same ▸ entry))
      · exact ends_refuse refused
    · rename_i entry
      exact ends_change (new sort name found named entry)

theorem ends_announce {name : String} (refused : fault c)
    (announced : (∀ pending ∈ c.pending, pending.name ≠ name) → c.names[name]? = none →
      done () { c with pending := ⟨name, none⟩ :: c.pending }) :
    Ends (announce name) c done fault := by
  refine Ends.bind (Ends.get ?_)
  split_ifs with twice taken
  · exact ends_refuse refused
  · exact ends_refuse refused
  · refine ends_change (announced ?_ (by simpa [Catalog.sortOf] using taken))
    intro pending inside same
    exact twice (List.any_eq_true.mpr ⟨pending, inside, by simpa using same⟩)

theorem ends_mention {name : String} {answer : Option SortId → Catalog → Prop}
    (other : (∀ pending ∈ c.pending, pending.name ≠ name) → answer none c)
    (known : ∀ (index : Nat) (placeholder : SortId),
      c.pending[index]? = some ⟨name, some placeholder⟩ → answer (some placeholder) c)
    (first : ∀ index : Nat, c.pending[index]? = some ⟨name, none⟩ →
      answer (some c.nextId) ({ c.add (some name) name .ofPlaceholder (.recursive none) with
        pending := c.pending.set index ⟨name, some c.nextId⟩ }.note (.placeholderCreated name))) :
    Ends (mention name) c answer fault := by
  refine Ends.bind (Ends.get ?_)
  split
  · rename_i absent
    apply Ends.pure
    apply other
    intro pending inside same
    rw [List.findIdx?_eq_none_iff] at absent
    simpa [same] using absent pending inside
  · rename_i index there
    obtain ⟨bound, same, -⟩ := List.findIdx?_eq_some_iff_getElem.mp there
    have entry : c.pending[index]? = some c.pending[index] := List.getElem?_eq_getElem bound
    generalize c.pending[index] = pending at same entry
    obtain ⟨found, placeholder⟩ := pending
    obtain rfl : found = name := by simpa using same
    cases placeholder with
    | some placeholder =>
      rw [entry]
      exact Ends.pure (known index placeholder entry)
    | none =>
      rw [entry]
      refine Ends.bind (ends_add ?_)
      refine Ends.bind (ends_change ?_)
      exact Ends.pure (first index entry)

theorem ends_conclude {answer : Option Pending → Catalog → Prop}
    (idle : c.pending = [] → answer none c)
    (ended : ∀ innermost outer, c.pending = innermost :: outer →
      answer (some innermost) { c with pending := outer }) :
    Ends conclude c answer fault := by
  refine Ends.bind (Ends.get ?_)
  split
  · exact Ends.pure (idle ‹_›)
  · rename_i innermost outer under
    exact Ends.bind (Ends.set (Ends.pure (ended innermost outer under)))

theorem ends_bind {recursive target : SortId} (refused : fault c)
    (bound : ∀ sort goal, c.get recursive = .ok sort → c.get target = .ok goal →
      recursive ≠ target → goal.variant ≠ .aspects → sort.body = .recursive none →
      done () ((c.replace { sort with
        canonical := goal.canonical, counts := goal.counts, body := .recursive (some target) }).note
        (.recursiveBound sort.display))) :
    Ends (bind recursive target) c done fault := by
  unfold bind
  split_ifs with same
  · exact Ends.bind (ends_refuse refused)
  · refine Ends.bind (ends_read refused fun goal there ↦ ?_)
    split_ifs with tuple
    · exact Ends.bind (ends_refuse refused)
    · refine Ends.bind (ends_read refused fun sort found ↦ ?_)
      split
      · exact ends_refuse refused
      · rename_i open_
        exact ends_change (bound sort goal found there same tuple open_)
      · exact ends_refuse refused

/-! ### The algebra -/

theorem ends_primitive {categories : CategoryTable} {tag : String} {argument : Option Argument}
    (stopped : fault c)
    (added : ∀ shape canonical, categories.lookup tag = .known shape →
      c.primitiveText tag argument = .ok canonical →
      (∀ linked, argument = some (.sorts linked) → ∀ id ∈ linked, Operand c id) →
      made c.nextId (c.add none canonical .ofSimple (.primitive tag argument))) :
    Ends (primitive categories tag argument) c made fault := by
  refine Ends.bind (ends_shapeOf stopped fun shape known ↦ ?_)
  split
  · rename_i linked
    refine Ends.bind (ends_checkOperands linked stopped fun plain ↦ ?_)
    refine Ends.bind (ends_read stopped fun canonical shown ↦ ?_)
    refine ends_add (added shape canonical known shown ?_)
    rintro _ ⟨⟩
    exact plain
  · rename_i other
    refine Ends.bind (ends_read stopped fun canonical shown ↦ ?_)
    refine ends_add (added shape canonical known shown ?_)
    rintro linked rfl
    exact absurd rfl (other linked)

/-- A primitive sort of a known category is made if the sorts linked to it are no tuples. -/
theorem primitive_eq {categories : CategoryTable} {tag canonical : String} {shape : ParamShape}
    {argument : Option Argument} (known : categories.lookup tag = .known shape)
    (plain : ∀ linked, argument = some (.sorts linked) → ∀ id ∈ linked, Operand c id)
    (written : c.primitiveText tag argument = .ok canonical) :
    primitive categories tag argument c =
      .ok c.nextId (c.add none canonical .ofSimple (.primitive tag argument)) := by
  have shaped : shapeOf categories tag c = .ok shape c := by
    rw [shapeOf, known]
    rfl
  rw [primitive, Ends.run_bind shaped]
  split
  · rename_i linked
    rw [Ends.run_bind (checkOperands_eq (plain linked rfl))]
    exact read_bind written
  · exact read_bind written

/-- The counts of a copy under a name. -/
def copiedCounts (source : SortRecord) : ComponentCounts :=
  if source.isNamed then source.counts else source.counts.renamed

theorem ends_duplicate {name : String} (refused : fault c)
    (same : ∀ source, c.get id = .ok source → source.name = some name → made id c)
    (copied : ∀ source, c.get id = .ok source → source.name ≠ some name →
      source.variant ≠ .aspects → source.variant ≠ .aspect → source.body ≠ .recursive none →
      made c.nextId (c.add (some name) source.canonical (copiedCounts source) source.body)) :
    Ends (duplicate id name) c made fault := by
  refine Ends.bind (ends_read refused fun source found ↦ ?_)
  split
  · rename_i already
    exact Ends.pure (same source found already)
  · rename_i already
    split
    · exact ends_refuse refused
    · exact ends_refuse refused
    · exact ends_refuse refused
    · rename_i noTuple noAspect bound
      refine ends_add (copied source found already ?_ ?_ bound)
      · intro tuple
        cases body : source.body <;> simp_all [SortRecord.variant, Body.variant]
      · intro tuple
        cases body : source.body <;> simp_all [SortRecord.variant, Body.variant]

theorem ends_attach {base weight : SortId} (refused : fault c)
    (known : ∀ b w id, c.get base = .ok b → c.get weight = .ok w → b.body.isSimple →
      w.variant ≠ .aspects → c.interned[Catalog.weightedText b w]? = some id → made id c)
    (new : ∀ b w, c.get base = .ok b → c.get weight = .ok w → b.body.isSimple →
      w.variant ≠ .aspects → c.interned[Catalog.weightedText b w]? = none →
      made c.nextId ({ c.add none (Catalog.weightedText b w) (.composite [b.counts, w.counts])
          (.weighted base weight) with
        interned := c.interned.insert (Catalog.weightedText b w) c.nextId }.note
          (.weightedInterned (Catalog.weightedText b w)))) :
    Ends (attach base weight) c made fault := by
  refine Ends.bind (ends_read refused fun b foundBase ↦ ?_)
  refine Ends.bind (ends_read refused fun w foundWeight ↦ ?_)
  refine Ends.bind (ends_refuseAspects refused fun _ ↦ ?_)
  refine Ends.bind (ends_refuseAspects refused fun plain ↦ ?_)
  split_ifs with composite
  · exact Ends.bind (ends_refuse refused)
  · have simple : b.body.isSimple := by simpa using composite
    refine Ends.bind (Ends.get ?_)
    split
    · rename_i entry
      exact Ends.pure (known b w _ foundBase foundWeight simple plain entry)
    · rename_i entry
      refine Ends.bind (ends_add ?_)
      refine Ends.bind (ends_change ?_)
      exact Ends.pure (new b w foundBase foundWeight simple plain entry)

/-- A simple base and a weight that is no tuple are not refused. -/
theorem attach_eq {base weight : SortId} {b w : SortRecord} (foundBase : c.get base = .ok b)
    (foundWeight : c.get weight = .ok w) (notTuple : b.variant ≠ .aspects)
    (simple : b.body.isSimple) (plain : w.variant ≠ .aspects) :
    attach base weight c = match c.interned[Catalog.weightedText b w]? with
      | some known => .ok known c
      | none => .ok c.nextId ({ c.add none (Catalog.weightedText b w)
            (.composite [b.counts, w.counts]) (.weighted base weight) with
          interned := c.interned.insert (Catalog.weightedText b w) c.nextId }.note
            (.weightedInterned (Catalog.weightedText b w))) := by
  rw [attach, read_bind foundBase, read_bind foundWeight, refuseAspects_bind notTuple,
    refuseAspects_bind plain, simple]
  change (match c.interned[Catalog.weightedText b w]? with
    | some known => (pure known : Op SortId)
    | none => _) c = _
  cases c.interned[Catalog.weightedText b w]? <;> rfl

theorem foldrM_attach_singleton (base weight : SortId) :
    [base].foldrM attach weight = attach base weight := by
  rw [List.foldrM_cons, List.foldrM_nil, pure_bind]

/-- The elements are attached from the last one to the first. -/
theorem ends_foldrM_attach {inv : SortId → Catalog → Prop}
    (elements : List SortId) {weight : SortId} (start : inv weight c)
    (step : ∀ base ∈ elements, ∀ weight c, inv weight c → Ends (attach base weight) c inv fault) :
    Ends (elements.foldrM attach weight) c inv fault := by
  induction elements generalizing c weight with
  | nil => exact Ends.pure start
  | cons base elements ih =>
    rw [List.foldrM_cons]
    refine Ends.bind ((ih start fun b inside ↦ step b (List.mem_cons_of_mem _ inside)).mono
      (fun weight c reached ↦ ?_) fun _ h ↦ h)
    exact step base List.mem_cons_self weight c reached

/-- What `a + b` goes by when it is neither `a` nor a single component. -/
structure Summed (c : Catalog) (a b : SortId) (left right : SortRecord) (components : List SortId)
    (parts : List SortRecord) : Prop where
  foundLeft : c.get a = .ok left
  foundRight : c.get b = .ok right
  plainLeft : left.variant ≠ .aspects
  plainRight : right.variant ≠ .aspects
  differ : left.display ≠ right.display
  joined : merged c left.summands right.summands = .ok components
  found : components.mapM c.get = .ok parts
  several : ∀ only, components ≠ [only]

theorem ends_sum {a b : SortId} (refused : fault c)
    (same : ∀ left right, c.get a = .ok left → c.get b = .ok right →
      left.display = right.display → made a c)
    (single : ∀ left right only, c.get a = .ok left → c.get b = .ok right →
      left.display ≠ right.display → merged c left.summands right.summands = .ok [only] →
      made only c)
    (grown : ∀ left right components parts, Summed c a b left right components parts →
      left.variant = .disjunctive → left.name = none →
      made a (c.replace { left with
        canonical := Catalog.disjunctiveText (parts.map SortRecord.display)
        counts := .composite (parts.map SortRecord.counts)
        body := .disjunctive components }))
    (added : ∀ left right components parts, Summed c a b left right components parts →
      ¬ (left.variant = .disjunctive ∧ left.name = none) →
      made c.nextId (c.add none (Catalog.disjunctiveText (parts.map SortRecord.display))
        (.composite (parts.map SortRecord.counts)) (.disjunctive components))) :
    Ends (sum a b) c made fault := by
  refine Ends.bind (ends_read refused fun left foundLeft ↦ ?_)
  refine Ends.bind (ends_read refused fun right foundRight ↦ ?_)
  refine Ends.bind (ends_refuseAspects refused fun plainLeft ↦ ?_)
  refine Ends.bind (ends_refuseAspects refused fun plainRight ↦ ?_)
  split
  · rename_i equal
    exact Ends.pure (same left right foundLeft foundRight equal)
  · rename_i differ
    refine Ends.bind (ends_read refused fun components joined ↦ ?_)
    split
    · rename_i only
      exact Ends.pure (single left right only foundLeft foundRight differ joined)
    · rename_i several
      refine Ends.bind (ends_read refused fun parts found ↦ ?_)
      have summed : Summed c a b left right components parts :=
        ⟨foundLeft, foundRight, plainLeft, plainRight, differ, joined, found, several⟩
      split
      · rename_i loose
        refine Ends.bind (ends_change ?_)
        exact Ends.pure (grown left right components parts summed loose.1 loose.2)
      · rename_i apart
        exact ends_add (added left right components parts summed apart)

/-- What was found fit for a sum is added up. -/
theorem sum_eq {a b : SortId} {left right : SortRecord} {components : List SortId}
    {parts : List SortRecord} (summed : Summed c a b left right components parts) :
    sum a b c =
      if left.variant = .disjunctive ∧ left.name = none then
        .ok a (c.replace { left with
          canonical := Catalog.disjunctiveText (parts.map SortRecord.display)
          counts := .composite (parts.map SortRecord.counts)
          body := .disjunctive components })
      else
        .ok c.nextId (c.add none (Catalog.disjunctiveText (parts.map SortRecord.display))
          (.composite (parts.map SortRecord.counts)) (.disjunctive components)) := by
  rw [sum, read_bind summed.foundLeft, read_bind summed.foundRight,
    refuseAspects_bind summed.plainLeft, refuseAspects_bind summed.plainRight, if_neg summed.differ,
    read_bind summed.joined]
  split
  · exact absurd rfl (summed.several _)
  · rw [read_bind summed.found]
    by_cases growing : left.variant = .disjunctive ∧ left.name = none
    · rw [if_pos growing, if_pos growing]
      rfl
    · rw [if_neg growing, if_neg growing]
      rfl

/-- What an aspects tuple is declared over when nothing is refused. -/
structure Declared (c : Catalog) (categories : CategoryTable) (tag : String) (names : List String)
    (arguments : List SortId) (displays : List String) : Prop where
  known : ∃ shape, categories.lookup tag = .known shape ∧ names.length = shape.cardinality
  several : 2 ≤ names.length
  matched : names.length = arguments.length
  free : ∀ name ∈ names, c.names[name]? = none
  nodup : names.Nodup
  plain : ∀ id ∈ arguments, Operand c id
  shown : c.displays arguments = .ok displays

/-- The tuple of a declaration, with the aspects it has. -/
def tuple (c : Catalog) (tag : String) (names displays : List String)
    (arguments aspects : List SortId) : SortRecord :=
  { id := c.nextId
    name := some (Catalog.tupleText names)
    canonical := Catalog.aspectsText tag displays
    created := c.clock
    counts := ComponentCounts.ofSimple.renamed
    body := .aspects tag aspects arguments }

/-- The aspects are made for a tuple that has none yet; when it has them, they are registered, and
then the tuple. -/
theorem ends_declareAspects {categories : CategoryTable} {tag : String} {names : List String}
    {arguments : List SortId} (refused : fault c)
    (declared : ∀ displays, Declared c categories tag names arguments displays →
      Ends (addAspects c.nextId (Catalog.aspectsText tag displays) 0 names)
        (c.add (some (Catalog.tupleText names)) (Catalog.aspectsText tag displays)
          ComponentCounts.ofSimple.renamed (.aspects tag [] arguments))
        (fun aspects d ↦ d.get c.nextId = .ok (tuple c tag names displays arguments []) ∧
          Ends (aspects.forM register) (d.replace (tuple c tag names displays arguments aspects))
            (fun _ e ↦ Ends (register c.nextId) e (fun _ f ↦ made c.nextId f) fault) fault) fault) :
    Ends (declareAspects categories tag names arguments) c made fault := by
  refine Ends.bind (ends_shapeOf refused fun shape known ↦ ?_)
  dsimp only
  split_ifs with mismatch
  · exact Ends.bind (ends_refuse refused)
  simp only [not_or, Nat.not_lt, Decidable.not_not] at mismatch
  obtain ⟨several, sized, matched⟩ := mismatch
  refine Ends.bind (ends_checkAspectNames [] refused fun free nodup ↦ ?_)
  refine Ends.bind (ends_checkOperands arguments refused fun plain ↦ ?_)
  refine Ends.bind (ends_read refused fun displays shown ↦ ?_)
  refine Ends.bind (ends_add ?_)
  refine Ends.bind ((declared displays ⟨⟨shape, known, sized⟩, several, matched,
    fun name inside ↦ (free name inside).1, nodup, plain, shown⟩).mono ?_ fun _ failed ↦ failed)
  rintro aspects d ⟨found, registered⟩
  unfold Ends
  rw [read_bind found]
  refine Ends.bind (ends_change ?_)
  refine Ends.bind (registered.mono (fun _ e last ↦ ?_) fun _ failed ↦ failed)
  exact Ends.bind (last.mono (fun _ f reached ↦ Ends.pure reached) fun _ failed ↦ failed)

/-! ### Merging -/

/-- Whether a display is shown is found out by looking at the displays. -/
theorem shows_eq_ok {display : String} {present : Bool} {components : List SortId}
    (h : shows c display components = .ok present) :
    present = true ↔ ∃ id ∈ components, c.display id = .ok display := by
  induction components with
  | nil =>
    cases h
    simp
  | cons id others ih =>
    unfold shows at h
    cases shown : c.display id with
    | error reason =>
      rw [shown] at h
      cases h
    | ok text =>
      rw [shown] at h
      change (if text = display then pure true else shows c display others) = _ at h
      split_ifs at h with same
      · cases h
        simp [shown, same]
      · rw [ih h]
        simp [shown, same]

/-- A component from the right is appended unless its display is there. -/
theorem merged_cons {id : SortId} {components others result : List SortId}
    (h : merged c components (id :: others) = .ok result) :
    ∃ display, c.display id = .ok display ∧
      ((∃ other ∈ components, c.display other = .ok display) ∧
          merged c components others = .ok result ∨
        (∀ other ∈ components, c.display other ≠ .ok display) ∧
          merged c (components ++ [id]) others = .ok result) := by
  unfold merged at h
  cases shown : c.display id with
  | error reason =>
    rw [shown] at h
    cases h
  | ok display =>
    rw [shown] at h
    change (shows c display components >>= fun present ↦
      merged c (if present then components else components ++ [id]) others) = _ at h
    refine ⟨display, rfl, ?_⟩
    cases present : shows c display components with
    | error reason =>
      rw [present] at h
      cases h
    | ok there =>
      rw [present] at h
      change merged c (if there then components else components ++ [id]) others = _ at h
      have found := shows_eq_ok present
      cases there with
      | true => exact Or.inl ⟨found.mp rfl, h⟩
      | false =>
        refine Or.inr ⟨fun other inside same ↦ ?_, h⟩
        exact Bool.false_ne_true (found.mpr ⟨other, inside, same⟩)

/-- The components on the left stay in front, and what is appended comes from the right. -/
theorem merged_eq_append {components others result : List SortId}
    (h : merged c components others = .ok result) :
    ∃ appended, result = components ++ appended ∧ ∀ id ∈ appended, id ∈ others := by
  induction others generalizing components with
  | nil =>
    cases h
    exact ⟨[], by simp, by simp⟩
  | cons id others ih =>
    obtain ⟨display, -, ⟨-, joined⟩ | ⟨-, joined⟩⟩ := merged_cons h
    · obtain ⟨appended, eq, among⟩ := ih joined
      exact ⟨appended, eq, fun id inside ↦ List.mem_cons_of_mem _ (among id inside)⟩
    · obtain ⟨appended, eq, among⟩ := ih joined
      refine ⟨id :: appended, ?_, ?_⟩
      · rw [eq, List.append_assoc, List.singleton_append]
      · intro other inside
        rcases List.mem_cons.mp inside with rfl | inside
        · exact List.mem_cons_self
        · exact List.mem_cons_of_mem _ (among other inside)

/-- Each component on the right is shown in the end. -/
theorem merged_shows {components others result : List SortId}
    (h : merged c components others = .ok result) :
    ∀ id ∈ others, ∃ other ∈ result, c.display other = c.display id := by
  induction others generalizing components with
  | nil => simp
  | cons id others ih =>
    intro part inside
    obtain ⟨display, shown, ⟨⟨earlier, among, same⟩, joined⟩ | ⟨-, joined⟩⟩ := merged_cons h
    all_goals
      rcases List.mem_cons.mp inside with rfl | inside
      on_goal 2 => exact ih joined part inside
    · obtain ⟨appended, rfl, -⟩ := merged_eq_append joined
      exact ⟨earlier, List.mem_append_left _ among, same.trans shown.symm⟩
    · obtain ⟨appended, rfl, -⟩ := merged_eq_append joined
      exact ⟨part, by simp, rfl⟩

/-- No display is shown twice in the end if none was in the beginning. -/
theorem merged_nodup {components others result : List SortId}
    (h : merged c components others = .ok result) (nodup : (components.map c.display).Nodup) :
    (result.map c.display).Nodup := by
  induction others generalizing components with
  | nil =>
    cases h
    exact nodup
  | cons id others ih =>
    obtain ⟨display, shown, ⟨-, joined⟩ | ⟨apart, joined⟩⟩ := merged_cons h
    · exact ih joined nodup
    · refine ih joined ?_
      rw [List.map_append, List.map_singleton]
      refine List.nodup_append.mpr ⟨nodup, by simp, fun text inside text' here ↦ ?_⟩
      obtain ⟨other, among, rfl⟩ := List.mem_map.mp inside
      rw [List.mem_singleton.mp here, shown]
      exact apart other among

end CompositeSorts.Op

namespace CompositeSorts.Catalog

/-- The spine of a sort has an element at least. -/
theorem ne_nil_of_spineWithin {c : Catalog} {id : SortId} {bound : Nat} {elements : List SortId}
    (shown : c.spineWithin bound id = .ok elements) : elements ≠ [] := by
  cases found : c.get id with
  | error reason =>
    cases bound <;> unfold spineWithin at shown <;> rw [found] at shown <;> cases shown
  | ok sort =>
    cases bound with
    | zero =>
      unfold spineWithin at shown
      rw [found] at shown
      cases shown
      exact List.cons_ne_nil _ _
    | succ bound =>
      simp only [spineWithin, found, bind, Except.bind] at shown
      split at shown
      · rename_i base weight _
        cases behind : c.spineWithin bound weight with
        | error reason =>
          rw [behind] at shown
          cases shown
        | ok others =>
          rw [behind] at shown
          cases shown
          exact List.cons_ne_nil _ _
      · cases shown
        exact List.cons_ne_nil _ _

variable {c : Catalog} {id : SortId} {sort : SortRecord}

/-- A sort that is no attribute is all of its spine. -/
theorem spineWithin_of_plain (found : c.get id = .ok sort)
    (plain : ∀ base weight, sort.body ≠ .weighted base weight) (bound : Nat) :
    c.spineWithin bound id = .ok [id] := by
  cases bound with
  | zero =>
    rw [spineWithin, found]
    rfl
  | succ bound =>
    simp only [spineWithin, found, bind, Except.bind]
    rfl

theorem spine_of_plain (found : c.get id = .ok sort)
    (plain : ∀ base weight, sort.body ≠ .weighted base weight) : c.spine id = .ok [id] :=
  spineWithin_of_plain found plain c.clock

/-- A simple base is attached as it is. -/
theorem combine_of_simple (found : c.get id = .ok sort) (simple : sort.body.isSimple)
    (weight : SortId) :
    Op.combine id weight c = Op.attach id weight c := by
  have plain : ∀ base weight, sort.body ≠ .weighted base weight := by
    intro base weight made
    rw [made] at simple
    cases simple
  rw [Op.combine, Op.read_bind (spine_of_plain found plain), Op.foldrM_attach_singleton]

end CompositeSorts.Catalog
