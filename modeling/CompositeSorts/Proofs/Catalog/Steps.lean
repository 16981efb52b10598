import CompositeSorts.Proofs.Catalog.Advance
import CompositeSorts.Proofs.Catalog.Edits

/-!
Steps. A step is an elementary edit with all that it writes: which texts, counts and bodies the
operations give to the sorts they make and change (`Step`). Every operation is a row of steps, and
this is said in one lemma for each operation; what every step preserves is preserved by all
operations. What is plain about the names, tags and numbers that operations are given, and what the
operations may touch, are parameters.
-/

set_option autoImplicit false
set_option relaxedAutoImplicit false

namespace CompositeSorts.Catalog

/-- An elementary change of a catalog with what it writes. Names, tags and numbers that come from
outside are plain, and sorts that are older than the session are touched only where that is
allowed. -/
inductive Step (plain : String → Prop) (may : Touch → Prop) (c : Catalog) : Catalog → Prop where
  | log (journal : List Event) : Step plain may c { c with journal := journal }
  | await (pending : List Pending)
    (awaited : ∀ p ∈ pending, ∀ id, p.placeholder = some id →
      ∃ sort, c.get id = .ok sort ∧ sort.name = some p.name)
    (named : ∀ p ∈ pending, plain p.name ∨ ∃ before ∈ c.pending, before.name = p.name) :
    Step plain may c { c with pending := pending }
  | placeholder {pending : Pending} (announced : pending ∈ c.pending) :
    Step plain may c (c.add (some pending.name) pending.name .ofPlaceholder (.recursive none))
  | primitive {tag canonical : String} {argument : Option Argument}
    (written : c.primitiveText tag argument = .ok canonical) (tagged : plain tag)
    (number : ∀ lexeme, argument = some (.bound lexeme) → plain lexeme)
    (operands : ∀ linked, argument = some (.sorts linked) → ∀ id ∈ linked, Op.Operand c id) :
    Step plain may c (c.add none canonical .ofSimple (.primitive tag argument))
  | copy {id : SortId} {source : SortRecord} {name : String} (found : c.get id = .ok source)
    (named : plain name) (bound : source.body ≠ .recursive none)
    (tuple : source.variant ≠ .aspects) :
    Step plain may c
      (c.add (some name) source.canonical (Op.copiedCounts source) source.body)
  | attach {base weight : SortId} {b w : SortRecord} (foundBase : c.get base = .ok b)
    (foundWeight : c.get weight = .ok w) (simple : b.body.isSimple) (operand : w.variant ≠ .aspects)
    (free : c.interned[weightedText b w]? = none) :
    Step plain may c { c.add none (weightedText b w) (.composite [b.counts, w.counts])
        (.weighted base weight) with
      interned := c.interned.insert (weightedText b w) c.nextId }
  | sum {a b : SortId} {left right : SortRecord} {components : List SortId}
    {parts : List SortRecord} (summed : Op.Summed c a b left right components parts)
    (fixed : ¬ (left.variant = .disjunctive ∧ left.name = none)) :
    Step plain may c (c.add none (disjunctiveText (parts.map SortRecord.display))
      (.composite (parts.map SortRecord.counts)) (.disjunctive components))
  | grow {a b : SortId} {left right : SortRecord} {components : List SortId}
    {parts : List SortRecord} (summed : Op.Summed c a b left right components parts)
    (disjunctive : left.variant = .disjunctive) (nameless : left.name = none)
    (allowed : a ∈ c.fresh ∨ may (.extend c a b)) :
    Step plain may c (c.replace { left with
      canonical := disjunctiveText (parts.map SortRecord.display)
      counts := .composite (parts.map SortRecord.counts)
      body := .disjunctive components })
  | bind {recursive target : SortId} {sort goal : SortRecord} (found : c.get recursive = .ok sort)
    (foundTarget : c.get target = .ok goal) (unbound : sort.body = .recursive none)
    (allowed : recursive ∈ c.fresh ∨ may (.bind c recursive target))
    (operand : goal.variant ≠ .aspects) :
    Step plain may c (c.replace { sort with
      canonical := goal.canonical, counts := goal.counts, body := .recursive (some target) })
  | tuple {categories : CategoryTable} {tag : String} {names displays : List String}
    {arguments : List SortId} (declared : Op.Declared c categories tag names arguments displays)
    (named : ∀ name ∈ names, plain name) :
    Step plain may c (c.add (some (tupleText names)) (aspectsText tag displays)
      ComponentCounts.ofSimple.renamed (.aspects tag [] arguments))
  | aspect {name : String} (owner : SortId) (canonical : String) (position : Nat)
    (named : plain name) :
    Step plain may c (c.add (some name) (aspectText canonical position)
      ComponentCounts.ofSimple.renamed (.aspect owner position))
  | own {old : SortRecord} {tag : String} {arguments : List SortId} (aspects : List SortId)
    (found : c.get old.id = .ok old) (made : old.body = .aspects tag [] arguments)
    (new : old.id ∈ c.fresh) :
    Step plain may c (c.replace { old with body := .aspects tag aspects arguments })
  | name {id : SortId} {sort : SortRecord} {text : String} (found : c.get id = .ok sort)
    (carries : sort.name = some text) (free : c.names[text]? = none)
    (allowed : id ∈ c.fresh ∨ may (.name id)) :
    Step plain may c { c with names := c.names.insert text id }

/-- One step after another. -/
abbrev Steps (plain : String → Prop) (may : Touch → Prop) : Catalog → Catalog → Prop :=
  Relation.ReflTransGen (Step plain may)

section

variable {plain : String → Prop} {may may' : Touch → Prop} {c d : Catalog} {id : SortId}

theorem Step.mono (h : Step plain may c d) (more : ∀ touch, may touch → may' touch) :
    Step plain may' c d := by
  cases h with
  | log journal => exact .log journal
  | await pending awaited named => exact .await pending awaited named
  | placeholder announced => exact .placeholder announced
  | primitive written tagged number operands => exact .primitive written tagged number operands
  | copy found named bound tuple => exact .copy found named bound tuple
  | attach foundBase foundWeight simple operand free =>
    exact .attach foundBase foundWeight simple operand free
  | sum summed fixed => exact .sum summed fixed
  | grow summed disjunctive nameless allowed =>
    exact .grow summed disjunctive nameless (allowed.imp_right (more _))
  | bind found foundTarget unbound allowed operand =>
    exact .bind found foundTarget unbound (allowed.imp_right (more _)) operand
  | tuple declared named => exact .tuple declared named
  | aspect owner canonical position named => exact .aspect owner canonical position named
  | own aspects found made new => exact .own aspects found made new
  | name found carries free allowed => exact .name found carries free (allowed.imp_right (more _))

theorem Steps.mono (h : Steps plain may c d) (more : ∀ touch, may touch → may' touch) :
    Steps plain may' c d :=
  Relation.ReflTransGen.mono (fun _ _ (step : Step plain may _ _) ↦ step.mono more) _ _ h

/-- A step is an edit. -/
theorem Step.edit (h : Step plain may c d) (sound : c.Sound) : Edit may c d := by
  cases h with
  | log journal => exact .log journal
  | await pending => exact .await pending
  | placeholder => exact .add _ _ _ _ (by rintro _ _ ⟨⟩) (.inr (by rintro ⟨⟩))
  | primitive => exact .add _ _ _ _ (by rintro _ _ ⟨⟩) (.inr (by rintro ⟨⟩))
  | @copy id source name found _ _ _ =>
    exact .add _ _ _ _ (fun _ _ _ ↦ .inr ⟨id, source, found, rfl⟩) (.inl (Option.some_ne_none name))
  | @attach base weight b w _ foundWeight _ _ free =>
    exact .attach _ _ base weight ⟨w, foundWeight⟩ free
  | sum => exact .add _ _ _ _ (by rintro _ _ ⟨⟩) (.inr (by rintro ⟨⟩))
  | @grow a b left right components parts summed disjunctive nameless allowed =>
    obtain rfl := sound.placed summed.foundLeft
    obtain ⟨appended, rfl, -⟩ := Op.merged_eq_append summed.joined
    cases made : left.body with
    | disjunctive former =>
      have own : left.summands = former := by
        unfold SortRecord.summands
        rw [made, nameless]
      rw [own]
      exact .extend _ _ appended summed.foundLeft made nameless
        (allowed.imp_right fun ask ↦ ⟨b, ask⟩)
    | _ =>
      rw [SortRecord.variant, made] at disjunctive
      cases disjunctive
  | @bind recursive target sort goal found _ unbound allowed =>
    obtain rfl := sound.placed found
    exact .bind goal.canonical goal.counts target found unbound allowed
  | tuple => exact .add _ _ _ _ (by rintro _ _ ⟨⟩) (.inr (by rintro ⟨⟩))
  | aspect => exact .add _ _ _ _ (by rintro _ _ ⟨⟩) (.inr (by rintro ⟨⟩))
  | own aspects found made new => exact .own aspects found made new
  | name found carries free allowed => exact .name found carries free allowed

/-- A step keeps a catalog steady. -/
theorem Step.steady (h : Step plain may c d) (steady : c.Steady) : d.Steady := by
  cases h with
  | log journal =>
    exact ⟨⟨⟨steady.slots, steady.placed, steady.named, steady.kept⟩, steady.listed, steady.recent⟩,
      steady.several, steady.awaited⟩
  | await pending awaited => exact steady.withPending awaited
  | placeholder => exact steady.add (by rintro _ ⟨⟩)
  | primitive => exact steady.add (by rintro _ ⟨⟩)
  | copy found => exact steady.add fun _ made ↦ steady.several found made
  | attach =>
    exact (steady.add (by rintro _ ⟨⟩)).insertKept (get_add_nextId steady.toRooted) rfl rfl rfl
  | sum summed =>
    refine steady.add ?_
    rintro _ ⟨⟩
    exact steady.two_le_length_of_summed summed
  | @grow a b left _ _ _ summed disjunctive =>
    have here : c.get left.id = .ok left := steady.get_id summed.foundLeft
    refine steady.replace here rfl (by rw [disjunctive]; decide) ?_
    rintro _ ⟨⟩
    exact steady.two_le_length_of_summed summed
  | @bind _ _ sort _ found _ unbound =>
    have here : c.get sort.id = .ok sort := steady.get_id found
    refine steady.replace here rfl ?_ (by rintro _ ⟨⟩)
    rw [SortRecord.variant, unbound]
    rintro ⟨⟩
  | tuple => exact steady.add (by rintro _ ⟨⟩)
  | aspect => exact steady.add (by rintro _ ⟨⟩)
  | own aspects found made =>
    refine steady.replace found rfl ?_ (by rintro _ ⟨⟩)
    rw [SortRecord.variant, made]
    rintro ⟨⟩
  | name found carries => exact steady.insertName found carries

theorem Steps.steady (h : Steps plain may c d) (steady : c.Steady) : d.Steady := by
  induction h with
  | refl => exact steady
  | tail _ step steady => exact step.steady steady

theorem Steps.edits (h : Steps plain may c d) (steady : c.Steady) : Edits may c d := by
  induction h with
  | refl => exact .refl
  | tail before step edits =>
    exact edits.tail (step.edit (Steps.steady before steady).toSound)

/-- What is new stays new. -/
theorem Steps.fresh (h : Steps plain may c d) (steady : c.Steady) (new : id ∈ c.fresh) :
    id ∈ d.fresh := (h.edits steady).fresh new

end

/-! ### Operations -/

variable {ε α β : Type} {plain : String → Prop} {may : Touch → Prop} {c d : Catalog}
  {id : SortId} {canonical tag : String}

/-- What a computation does to a steady catalog is a row of steps, whichever way it ends. -/
def Stepping (plain : String → Prop) (may : Touch → Prop) (m : EStateM ε Catalog α) : Prop :=
  ∀ c, c.Steady → Ends m c (fun _ d ↦ Steps plain may c d) (Steps plain may c)

namespace Stepping

theorem pure (a : α) : Stepping plain may (Pure.pure a : EStateM ε Catalog α) :=
  fun _ _ ↦ Ends.pure .refl

theorem throw (reason : ε) :
    Stepping plain may (MonadExcept.throw reason : EStateM ε Catalog α) :=
  fun _ _ ↦ Ends.throw .refl

theorem get : Stepping plain may (MonadState.get : EStateM ε Catalog Catalog) :=
  fun _ _ ↦ Ends.get .refl

theorem bind {m : EStateM ε Catalog α} {f : α → EStateM ε Catalog β} (h : Stepping plain may m)
    (h' : ∀ a, Stepping plain may (f a)) : Stepping plain may (m >>= f) := by
  intro c steady
  refine Ends.bind ((h c steady).mono (fun a d first ↦ ?_) fun _ failed ↦ failed)
  exact (h' a d (first.steady steady)).mono (fun _ _ next ↦ first.trans next)
    fun _ failed ↦ first.trans failed

end Stepping

theorem stepping_primitive (categories : CategoryTable) {argument : Option Argument}
    (tagged : plain tag) (number : ∀ lexeme, argument = some (.bound lexeme) → plain lexeme) :
    Stepping plain may (Op.primitive categories tag argument) := by
  intro c _
  exact Op.ends_primitive .refl fun _ canonical _ written operands ↦
    .single (.primitive written tagged number operands)

theorem stepping_duplicate (id : SortId) {name : String} (named : plain name) :
    Stepping plain may (Op.duplicate id name) := by
  intro c _
  refine Op.ends_duplicate .refl (fun _ _ _ ↦ .refl) fun source found _ tuple _ bound ↦ ?_
  exact .single (.copy found named bound tuple)

/-- Registering touches the sort that is registered, if it is an older one. -/
theorem steps_register (allowed : id ∈ c.fresh ∨ may (.name id)) :
    Ends (Op.register id) c (fun _ d ↦ Steps plain may c d) (Steps plain may c) := by
  refine Op.ends_register .refl (fun _ _ _ _ _ ↦ .refl) fun sort name found named free ↦ ?_
  exact .tail (.single (.name found named free allowed)) (.log _)

/-- Binding touches the recursive sort, if it is an older one. -/
theorem steps_bind {target : SortId} (allowed : id ∈ c.fresh ∨ may (.bind c id target)) :
    Ends (Op.bind id target) c (fun _ d ↦ Steps plain may c d) (Steps plain may c) := by
  refine Op.ends_bind .refl fun sort goal found there _ operand unbound ↦ ?_
  exact .tail (.single (.bind found there unbound allowed operand)) (.log _)

theorem stepping_attach (base weight : SortId) :
    Stepping plain may (Op.attach base weight) := by
  intro c _
  refine Op.ends_attach .refl (fun _ _ _ _ _ _ _ _ ↦ .refl) fun b w foundBase foundWeight simple
    operand free ↦ ?_
  exact .tail (.single (.attach foundBase foundWeight simple operand free)) (.log _)

theorem stepping_combine (base weight : SortId) :
    Stepping plain may (Op.combine base weight) := by
  intro c steady
  refine Ends.bind (Op.ends_read .refl fun elements _ ↦ ?_)
  refine Op.ends_foldrM_attach elements .refl fun base _ weight d reached ↦ ?_
  exact (stepping_attach base weight d (reached.steady steady)).mono
    (fun _ _ steps ↦ reached.trans steps) fun _ steps ↦ reached.trans steps

/-- A sum touches the sort on the left, if it is an older one. -/
theorem steps_sum {right : SortId} (allowed : id ∈ c.fresh ∨ may (.extend c id right)) :
    Ends (Op.sum id right) c (fun _ d ↦ Steps plain may c d) (Steps plain may c) := by
  refine Op.ends_sum .refl (fun _ _ _ _ _ ↦ .refl) (fun _ _ _ _ _ _ _ ↦ .refl) ?_ ?_
  · intro left other components parts summed disjunctive nameless
    exact .single (.grow summed disjunctive nameless allowed)
  · intro left other components parts summed fixed
    exact .single (.sum summed fixed)

/-- The aspects of an owner are new, and nothing else is changed. -/
theorem steps_addAspects {owner : SortId} {names : List String} (named : ∀ name ∈ names, plain name)
    (first : Nat) (steady : c.Steady) :
    Ends (Op.addAspects owner canonical first names) c
      (fun aspects d ↦ Steps plain may c d ∧ (∀ id ∈ aspects, id ∈ d.fresh) ∧
        ∀ id sort, c.get id = .ok sort → d.get id = .ok sort) (Steps plain may c) := by
  induction names generalizing c first with
  | nil => exact Ends.pure ⟨.refl, by simp, fun _ _ found ↦ found⟩
  | cons name names ih =>
    obtain ⟨here, behind⟩ := List.forall_mem_cons.mp named
    refine Ends.bind (Op.ends_add ?_)
    have added : Step plain may c (c.add (some name) (aspectText canonical first)
        ComponentCounts.ofSimple.renamed (.aspect owner first)) :=
      .aspect owner canonical first here
    refine Ends.bind ((ih behind (first + 1) (added.steady steady)).mono
      (fun aspects d ⟨later, new, stays⟩ ↦ ?_) fun d failed ↦ .head added failed)
    refine Ends.pure ⟨.head added later, fun id inside ↦ ?_,
      fun id sort found ↦ stays id sort (get_add_of_live steady.toRooted found)⟩
    rcases List.mem_cons.mp inside with rfl | inside
    · exact later.fresh (added.steady steady) List.mem_cons_self
    · exact new id inside

theorem steps_registerAll {ids : List SortId} (steady : c.Steady) (new : ∀ id ∈ ids, id ∈ c.fresh) :
    Ends (ids.forM Op.register) c (fun _ d ↦ Steps plain may c d) (Steps plain may c) := by
  refine Ends.forM (Steps plain may c) .refl ids fun id inside d reached ↦ ?_
  exact (steps_register (.inl (reached.fresh steady (new id inside)))).mono
    (fun _ _ steps ↦ reached.trans steps) fun _ steps ↦ reached.trans steps

theorem stepping_declareAspects (categories : CategoryTable) (tag : String) {names : List String}
    (arguments : List SortId) (named : ∀ name ∈ names, plain name) :
    Stepping plain may (Op.declareAspects categories tag names arguments) := by
  intro c steady
  refine Op.ends_declareAspects .refl fun displays declared ↦ ?_
  have atOwner : Step plain may c (c.add (some (tupleText names)) (aspectsText tag displays)
      ComponentCounts.ofSimple.renamed (.aspects tag [] arguments)) := .tuple declared named
  have owner := atOwner.steady steady
  refine (steps_addAspects named 0 owner).mono
    (fun aspects d ⟨later, new, stays⟩ ↦ ?_) fun _ failed ↦ .head atOwner failed
  have owned : c.nextId ∈ d.fresh := later.fresh owner List.mem_cons_self
  have found : d.get c.nextId = .ok (Op.tuple c tag names displays arguments []) :=
    stays _ _ (get_add_nextId steady.toRooted)
  have link : Step plain may d (d.replace (Op.tuple c tag names displays arguments aspects)) :=
    @Step.own plain may d (Op.tuple c tag names displays arguments []) _ _ aspects found rfl owned
  have linked : Steps plain may c (d.replace (Op.tuple c tag names displays arguments aspects)) :=
    .tail (.head atOwner later) link
  have steady' := linked.steady steady
  refine ⟨found, (steps_registerAll (c := d.replace _) steady' new).mono (fun _ e named ↦ ?_)
    fun _ failed ↦ linked.trans failed⟩
  exact (steps_register (.inl (named.fresh steady' owned))).mono
    (fun _ _ last ↦ linked.trans (named.trans last))
    fun _ failed ↦ linked.trans (named.trans failed)

end CompositeSorts.Catalog
