import CompositeSorts.Proofs.Catalog.Attributes

/-!
Attributes associate. Whether `x ^ y` is made first or `y ^ z`, the same sorts are attached to `z`
in the end, up to displays; and an attribute is kept under its text, so the same attribute is
answered (`combine_associative`). A refused attribute leaves everything as it was, however deep in
the spine it is refused.
-/

set_option autoImplicit false
set_option relaxedAutoImplicit false

namespace CompositeSorts

namespace Op

/-- The attribute `(x ^ y) ^ z`. -/
def leftFirst (x y z : SortId) : Op SortId := do combine (← combine x y) z

/-- The attribute `x ^ (y ^ z)`. -/
def rightFirst (x y z : SortId) : Op SortId := do combine x (← combine y z)

end Op

namespace Catalog

variable {c d e : Catalog} {id x y z base inner weight : SortId} {sort : SortRecord}

theorem Basic.of_grow (h : d.Basic id) (grown : Growth c d) (live : c.Live id) : c.Basic id := by
  obtain ⟨sort, found⟩ := live
  obtain ⟨record, there, simple⟩ := h
  rw [grown.stays found] at there
  cases there
  exact ⟨sort, found, simple⟩

theorem operand_of_grow (h : Op.Operand d id) (grown : Growth c d) (live : c.Live id) :
    Op.Operand c id := by
  obtain ⟨sort, found⟩ := live
  obtain ⟨record, there, plain⟩ := h
  rw [grown.stays found] at there
  cases there
  exact ⟨sort, found, plain⟩

namespace Rested

theorem live_of_spine (h : c.Rested) {chain : List SortId} (walked : c.spine id = .ok chain) :
    ∀ part ∈ chain, c.Live part := by
  obtain ⟨front, last, rfl, live, each⟩ := h.spine_shape walked
  intro part inside
  rcases List.mem_append.mp inside with inside | inside
  · obtain ⟨sort, found, -⟩ := each part inside
    exact ⟨sort, found⟩
  · exact List.mem_singleton.mp inside ▸ live

/-- What can be given a weight can be a weight. -/
theorem operand_of_weighable (h : c.Rested) (weighable : c.Weighable id) : Op.Operand c id := by
  obtain ⟨chain, walked, each⟩ := weighable
  have walk := h.weighed.walk_spine id
  rw [walked] at walk
  generalize ended : (Except.ok chain : Except Refusal (List SortId)) = ends at walk
  cases walk with
  | missing => cases ended
  | last found plain =>
    cases ended
    exact (each id (List.mem_singleton_self id)).operand
  | link found made _ => exact ⟨_, found, by rw [SortRecord.variant, made]; rintro ⟨⟩⟩

theorem weighable_grow (h : c.Rested) (h' : d.Rested) (grown : Growth c d)
    (weighable : c.Weighable id) : d.Weighable id := by
  obtain ⟨chain, walked, each⟩ := weighable
  exact ⟨chain, h.weighed.spine_grow h'.weighed grown walked,
    fun part inside ↦ (each part inside).grow grown⟩

theorem weighable_of_grow (h : c.Rested) (h' : d.Rested) (grown : Growth c d) (live : c.Live id)
    (weighable : d.Weighable id) : c.Weighable id := by
  obtain ⟨chain, walked, -⟩ :=
    h.exists_spine (operand_of_grow (h'.operand_of_weighable weighable) grown live)
  obtain ⟨chain', walked', each⟩ := weighable
  rw [h.weighed.spine_grow h'.weighed grown walked] at walked'
  cases walked'
  exact ⟨chain, walked, fun part inside ↦
    (each part inside).of_grow grown (h.live_of_spine walked part inside)⟩

/-- What is made of a weight by attaching sorts to it can be given a weight if that weight can. -/
theorem weighable_of_strung_iff (h : c.Rested) {elements : List SortId}
    (strung : c.Strung weight elements id) (operand : Op.Operand c weight) :
    c.Weighable id ↔ c.Weighable weight := by
  obtain ⟨behind, walked, -⟩ := h.exists_spine operand
  obtain ⟨chain, shown, twins⟩ := h.exists_spine_of_strung walked strung
  have basic_iff : (∀ part ∈ chain, c.Basic part) ↔ ∀ part ∈ elements ++ behind, c.Basic part := by
    clear shown
    generalize elements ++ behind = all at twins
    induction twins with
    | nil => simp
    | cons here _ ih =>
      rw [List.forall_mem_cons, List.forall_mem_cons, ih]
      exact and_congr_left' ⟨h.basic_of_twins here.symm, h.basic_of_twins here⟩
  have each : c.Weighable id ↔ ∀ part ∈ chain, c.Basic part := by
    constructor
    · rintro ⟨_, same, each⟩
      rw [shown] at same
      cases same
      exact each
    · exact fun each ↦ ⟨chain, shown, each⟩
  have each' : c.Weighable weight ↔ ∀ part ∈ behind, c.Basic part := by
    constructor
    · rintro ⟨_, same, each⟩
      rw [walked] at same
      cases same
      exact each
    · exact fun each ↦ ⟨behind, walked, each⟩
  rw [each, each', basic_iff, List.forall_mem_append]
  exact and_iff_right strung.basic

/-- Of `(x ^ y) ^ z` nothing is refused when all sorts in the spines of `x` and `y` are simple and
`z` is no tuple. -/
theorem exists_leftFirst_iff (h : c.Rested) (liveZ : c.Live z) :
    (∃ id e, Op.leftFirst x y z c = .ok id e) ↔ c.Weighable x ∧ c.Weighable y ∧ Op.Operand c z := by
  constructor
  · rintro ⟨id, e, run⟩
    obtain ⟨v, d, first, second⟩ := Op.bind_eq_ok_iff.mp run
    obtain ⟨rested, grown, weighableX, operandY, _, -, strung⟩ := (h.ends_combine x y).of_ok first
    obtain ⟨-, -, weighableV, operandZ, -⟩ := (rested.ends_combine v z).of_ok second
    have weighableY := (rested.weighable_of_strung_iff strung (operandY.grow grown)).mp weighableV
    obtain ⟨sort, found, -⟩ := operandY
    exact ⟨weighableX, h.weighable_of_grow rested grown ⟨sort, found⟩ weighableY,
      operand_of_grow operandZ grown liveZ⟩
  · rintro ⟨weighableX, weighableY, operandZ⟩
    have operandY := h.operand_of_weighable weighableY
    obtain ⟨v, d, first⟩ := h.exists_combine weighableX operandY
    obtain ⟨rested, grown, -, -, _, -, strung⟩ := (h.ends_combine x y).of_ok first
    have weighableV := (rested.weighable_of_strung_iff strung (operandY.grow grown)).mpr
      (h.weighable_grow rested grown weighableY)
    obtain ⟨id, e, second⟩ := rested.exists_combine weighableV (operandZ.grow grown)
    exact ⟨id, e, Op.bind_eq_ok_iff.mpr ⟨v, d, first, second⟩⟩

/-- Nor is anything refused of `x ^ (y ^ z)` then. -/
theorem exists_rightFirst_iff (h : c.Rested) (liveX : c.Live x) :
    (∃ id e, Op.rightFirst x y z c = .ok id e) ↔
      c.Weighable x ∧ c.Weighable y ∧ Op.Operand c z := by
  constructor
  · rintro ⟨id, e, run⟩
    obtain ⟨u, d, first, second⟩ := Op.bind_eq_ok_iff.mp run
    obtain ⟨rested, grown, weighableY, operandZ, -⟩ := (h.ends_combine y z).of_ok first
    obtain ⟨-, -, weighableX, -⟩ := (rested.ends_combine x u).of_ok second
    exact ⟨h.weighable_of_grow rested grown liveX weighableX, weighableY, operandZ⟩
  · rintro ⟨weighableX, weighableY, operandZ⟩
    obtain ⟨u, d, first⟩ := h.exists_combine weighableY operandZ
    obtain ⟨rested, grown, -, -, _, -, strung⟩ := (h.ends_combine y z).of_ok first
    obtain ⟨id, e, second⟩ := rested.exists_combine (h.weighable_grow rested grown weighableX)
      (rested.operand_of_strung (operandZ.grow grown) strung)
    exact ⟨id, e, Op.bind_eq_ok_iff.mpr ⟨u, d, first, second⟩⟩

/-- After `(x ^ y) ^ z`, all of `x ^ (y ^ z)` is kept. -/
theorem rightFirst_of_leftFirst (h : c.Rested) (run : Op.leftFirst x y z c = .ok id e) :
    Op.rightFirst x y z e = .ok id e := by
  obtain ⟨v, d, first, second⟩ := Op.bind_eq_ok_iff.mp run
  obtain ⟨rested, grown, -, operandY, xs, walkedX, strung⟩ := (h.ends_combine x y).of_ok first
  obtain ⟨ys, walkedY, -⟩ := h.exists_spine operandY
  obtain ⟨chain, walkedV, twins⟩ :=
    rested.exists_spine_of_strung (h.weighed.spine_grow rested.weighed grown walkedY) strung
  obtain ⟨rested', further, -, -, chain', same, strung'⟩ := (rested.ends_combine v z).of_ok second
  rw [walkedV] at same
  cases same
  have whole := rested'.strung_of_twins
    (twins.flip.imp fun _ _ twins ↦ (Twins.grow twins further).symm) strung'
  obtain ⟨u, inner, outer⟩ := Strung.append_iff.mp whole
  have grew := grown.trans further
  exact Op.bind_eq_ok_iff.mpr ⟨u, e,
    combine_of_strung (h.weighed.spine_grow rested'.weighed grew walkedY) inner,
    combine_of_strung (h.weighed.spine_grow rested'.weighed grew walkedX) outer⟩

/-- After `x ^ (y ^ z)`, only the attribute `x ^ y` may have to be made for `(x ^ y) ^ z`. -/
theorem leftFirst_of_rightFirst (h : c.Rested) (run : Op.rightFirst x y z c = .ok id e) :
    ∃ f, Op.leftFirst x y z e = .ok id f := by
  obtain ⟨u, d, first, second⟩ := Op.bind_eq_ok_iff.mp run
  obtain ⟨rested, grown, weighableY, operandZ, ys, walkedY, inner⟩ :=
    (h.ends_combine y z).of_ok first
  obtain ⟨rested', further, weighableX, -, xs, walkedX, outer⟩ :=
    (rested.ends_combine x u).of_ok second
  have whole : e.Strung z (xs ++ ys) id := Strung.append_iff.mpr ⟨u, inner.grow further, outer⟩
  have walkedX' := rested.weighed.spine_grow rested'.weighed further walkedX
  have walkedY' := h.weighed.spine_grow rested'.weighed (grown.trans further) walkedY
  have weighableY' := h.weighable_grow rested' (grown.trans further) weighableY
  obtain ⟨v, f, third⟩ := rested'.exists_combine (rested.weighable_grow rested' further weighableX)
    (rested'.operand_of_weighable weighableY')
  obtain ⟨rested'', more, -, -, xs', same, strung⟩ := (rested'.ends_combine x y).of_ok third
  rw [walkedX'] at same
  cases same
  obtain ⟨chain, walkedV, twins⟩ :=
    rested''.exists_spine_of_strung
      (rested'.weighed.spine_grow rested''.weighed more walkedY') strung
  exact ⟨f, Op.bind_eq_ok_iff.mpr ⟨v, f, third,
    combine_of_strung walkedV (rested''.strung_of_twins twins (whole.grow more))⟩⟩

/-- Combining an attribute combines its weight and then its base. -/
theorem combine_weighted (h : c.Rested) (found : c.get id = .ok sort)
    (made : sort.body = .weighted base inner) (weight : SortId) :
    Op.combine id weight c = Op.rightFirst base inner weight c := by
  have composed := (h.fits found).composed
  rw [made] at composed
  obtain ⟨⟨b, foundBase, simple⟩, operand⟩ := composed
  obtain ⟨behind, walked, -⟩ := h.exists_spine operand
  have whole : c.spine id = .ok (base :: behind) := by
    rw [h.weighed.spine_of_weighted found made, walked]
    rfl
  rw [Op.combine, Op.read_bind whole, List.foldrM_cons]
  refine Op.bind_congr (by rw [Op.combine, Op.read_bind walked]) fun tail d run ↦ ?_
  rw [Op.combine, Op.read_bind walked] at run
  obtain ⟨rested, grown, -⟩ := (h.ends_foldrM behind weight).of_ok run
  rw [combine_of_simple (grown.stays foundBase) simple]

end Rested

end Catalog

namespace Registry

open Catalog

variable {r : Registry}

/-- The calls by which texts are defined, undone, dropped and matched, and those that combine
sorts. -/
def ByTextOrCombining (r : Registry) (call : Call) : Prop :=
  r.ByText call ∨ ∃ base weight, call = .combine base weight

theorem exists_operate_iff {α : Type} {operation : Op α} :
    (∃ answer, (r.operate operation).1 = .ok answer) ↔
      ∃ answer c, operation r.catalog = .ok answer c := by
  constructor
  · rintro ⟨answer, answered⟩
    exact ⟨answer, exists_of_operate answered⟩
  · rintro ⟨answer, c, run⟩
    exact ⟨answer, by rw [operate_of_ok run]⟩

theorem rested_combine (h : r.catalog.Rested) (base weight : SortId) :
    (r.operate (.combine base weight)).2.catalog.Rested := by
  have ends := h.ends_combine base weight
  unfold operate
  split
  · rename_i run
    exact (ends.of_ok run).1
  · rename_i run
    rw [ends.of_error run]
    exact h

theorem Reachable.rested_of_combining (reached : Reachable ByTextOrCombining r) :
    r.catalog.Rested := by
  induction reached with
  | empty id _ _ => exact Rested.empty id
  | step before call allow rested =>
    rcases allow with text | ⟨base, weight, rfl⟩
    · exact rested_perform before.proper rested call text
    · exact rested_combine rested base weight

/-- Whatever texts are defined and undone and whatever sorts are combined: of `(x ^ y) ^ z` and
`x ^ (y ^ z)` both are refused or none; and whichever is made first, the other one is then the same
sort. What is refused leaves the registry as it was; and combining an attribute combines its weight
and then its base, so this holds at every depth. -/
theorem combine_associative (reached : Reachable ByTextOrCombining r) :
    (∀ x y z, r.catalog.Live x → r.catalog.Live y → r.catalog.Live z →
      let left := Op.leftFirst x y z
      let right := Op.rightFirst x y z
      ((∃ id, (r.operate left).1 = .ok id) ↔ ∃ id, (r.operate right).1 = .ok id) ∧
        ∀ id, ((r.operate left).1 = .ok id → ((r.operate left).2.operate right).1 = .ok id) ∧
          ((r.operate right).1 = .ok id → ((r.operate right).2.operate left).1 = .ok id)) ∧
      (∀ base weight reason, (r.operate (.combine base weight)).1 = .error reason →
        (r.operate (.combine base weight)).2 = r) ∧
      ∀ id sort base inner weight, r.catalog.get id = .ok sort → sort.body = .weighted base inner →
        r.operate (.combine id weight) = r.operate (.rightFirst base inner weight) := by
  have rested := reached.rested_of_combining
  refine ⟨fun x y z liveX _ liveZ ↦ ⟨?_, fun id ↦ ⟨fun answered ↦ ?_, fun answered ↦ ?_⟩⟩,
    fun base weight reason failed ↦ ?_, fun id sort base inner weight found made ↦ ?_⟩
  · rw [exists_operate_iff, exists_operate_iff, rested.exists_leftFirst_iff liveZ,
      rested.exists_rightFirst_iff liveX]
  · obtain ⟨c, run⟩ := exists_of_operate answered
    rw [operate_of_ok run, operate_of_ok (rested.rightFirst_of_leftFirst run)]
  · obtain ⟨c, run⟩ := exists_of_operate answered
    obtain ⟨d, run'⟩ := rested.leftFirst_of_rightFirst run
    rw [operate_of_ok run, operate_of_ok run']
  · have ends := rested.ends_combine base weight
    unfold operate at failed ⊢
    split
    · rename_i run
      rw [run] at failed
      cases failed
    · rename_i run
      rw [ends.of_error run]
  · unfold operate
    rw [rested.combine_weighted found made weight]

/-- An attribute with the name `n`, and a disjunction that is shown like the one in an attribute
which is kept. -/
theorem combine_associative_sample :
    let r := sample.perform (.defineAll "n: [Flag] ^ [Label] b; [Flag] ^ (n + [Flag]); n + [Flag]")
    let n : SortId := ⟨⟨0⟩, ⟨3, 0⟩⟩
    let flag : SortId := ⟨⟨0⟩, ⟨4, 0⟩⟩
    let sum : SortId := ⟨⟨0⟩, ⟨9, 0⟩⟩
    (r.operate (.leftFirst n flag sum)).1 = .ok ⟨⟨0⟩, ⟨13, 0⟩⟩ ∧
      (r.operate (.rightFirst n flag sum)).1 = .ok ⟨⟨0⟩, ⟨11, 0⟩⟩ ∧
      ((r.operate (.leftFirst n flag sum)).2.operate (.rightFirst n flag sum)).1 =
        .ok ⟨⟨0⟩, ⟨13, 0⟩⟩ ∧
      ((r.operate (.rightFirst n flag sum)).2.operate (.leftFirst n flag sum)).1 =
        .ok ⟨⟨0⟩, ⟨11, 0⟩⟩ ∧
      (r.operate (.combine sum n)).2 = r ∧
      r.operate (.combine n sum) =
        r.operate (.rightFirst ⟨⟨0⟩, ⟨0, 0⟩⟩ ⟨⟨0⟩, ⟨1, 0⟩⟩ sum) := by
  intro r n flag sum
  obtain ⟨finished, liveN, liveFlag, liveSum, first, second, failed, made⟩ :
      (sample.defineAll "n: [Flag] ^ [Label] b; [Flag] ^ (n + [Flag]); n + [Flag]").1 ≠
        .error .abandoned ∧
      (n.registry = r.catalog.home ∧ (r.catalog.store.get? n.key).isSome) ∧
      (flag.registry = r.catalog.home ∧ (r.catalog.store.get? flag.key).isSome) ∧
      (sum.registry = r.catalog.home ∧ (r.catalog.store.get? sum.key).isSome) ∧
      (r.operate (.leftFirst n flag sum)).1 = .ok ⟨⟨0⟩, ⟨13, 0⟩⟩ ∧
      (r.operate (.rightFirst n flag sum)).1 = .ok ⟨⟨0⟩, ⟨11, 0⟩⟩ ∧
      (r.operate (.combine sum n)).1 =
        .error (.refused (.compositeBase "[Flag]+n" .disjunctive)) ∧
      (r.catalog.get n).toOption.map SortRecord.body =
        some (.weighted ⟨⟨0⟩, ⟨0, 0⟩⟩ ⟨⟨0⟩, ⟨1, 0⟩⟩) := by decide +kernel
  obtain ⟨associates, refused, deeper⟩ :=
    combine_associative (r := r) (.step (reachable_sample _) _ (.inl finished))
  obtain ⟨-, both⟩ := associates n flag sum (live_iff.mpr liveN) (live_iff.mpr liveFlag)
    (live_iff.mpr liveSum)
  refine ⟨first, second, (both _).1 first, (both _).2 second, refused _ _ _ failed, ?_⟩
  obtain ⟨sort, found, weighted⟩ := exists_of_seen made
  exact deeper n sort _ _ _ found weighted

end Registry

end CompositeSorts
