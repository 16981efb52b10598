import CompositeSorts.Proofs.Matching.Assigning
import CompositeSorts.Proofs.Matching.Parallels

/-!
Disjunctions in another order. When the components of a disjunction are listed in another order,
their findings are asked for in another order, and it is the order that breaks ties. Beside a sort
that is no disjunction, the best component is answered for, the first one of those that are tied
(`tells_disjunction`). Of two disjunctions, the pairings of components are taken, and of those that
are tied the ones that come first (`tells_composition`); what they add up to does not depend on
their order (`agrees_combined`).
-/

set_option autoImplicit false
set_option relaxedAutoImplicit false

namespace CompositeSorts

open Catalog Matching

/-! ### Closeness -/

/-- The finding is at least as close as the other one, when there is so much in excess beside each,
whatever their grades and scales are. -/
def Finding.AsClose (excess : Nat) (finding other : Finding) : Prop :=
  finding.node.level.rank < other.node.level.rank ∨
    finding.node.level.rank = other.node.level.rank ∧
      (finding.node.tally.add { excess := excess }).penalty ≤
        (other.node.tally.add { excess := excess }).penalty

/-- Of matches of the same scale, the preferred one is of a lower rank, or of the same rank and has
no larger penalty. -/
theorem MatchNode.rank_lt_or_of_prefer {a b : MatchNode} (scale : a.scale = b.scale)
    (preferred : (a.prefer b).isLE) :
    a.level.rank < b.level.rank ∨
      a.level.rank = b.level.rank ∧ a.tally.penalty ≤ b.tally.penalty := by
  rcases Nat.lt_trichotomy a.level.rank b.level.rank with lower | equal | higher
  · exact .inl lower
  · refine .inr ⟨equal, ?_⟩
    unfold prefer at preferred
    rw [incongruous_eq, incongruous_eq, equal] at preferred
    simp only [Std.ReflCmp.compare_self, Ordering.eq_then] at preferred
    have scores : (a.compareScores b).isLE := by
      unfold compareScores
      revert preferred
      cases a.score.compare b.score <;> simp
    rw [isLE_compareScores_iff] at scores
    unfold score Tally.score Ratio.of at scores
    rw [scale] at scores
    exact Nat.le_of_mul_le_mul_right scores
      (Nat.lt_of_lt_of_le Nat.one_pos (Nat.le_max_right _ _))
  · refine absurd preferred ?_
    unfold prefer
    rw [incongruous_eq, incongruous_eq, Nat.compare_eq_gt.mpr higher]
    have bounded : a.level.rank ≤ 5 := by cases a.level <;> decide
    have congruous : b.level.rank ≠ 5 := by omega
    rw [decide_eq_false congruous]
    cases decide (a.level.rank = 5) <;> simp [Nat.compare_eq_gt.mpr Nat.one_pos]

/-! ### Sums in any order -/

instance : RightCommutative Level.worst :=
  ⟨fun a b c ↦ by rw [Level.worst_assoc, Level.worst_comm b, ← Level.worst_assoc]⟩

instance : RightCommutative Grade.combine :=
  ⟨fun a b c ↦ by rw [Grade.combine_assoc, Grade.combine_comm b, ← Grade.combine_assoc]⟩

instance : RightCommutative Tally.add :=
  ⟨fun a b c ↦ by simp only [Tally.add, Counter.add_right_comm]⟩

namespace Rule

theorem foldl_combine_filter (grades : List Grade) (start : Grade) :
    (grades.filter (· ≠ .concordant)).foldl .combine start = grades.foldl .combine start := by
  induction grades generalizing start with
  | nil => rfl
  | cons grade grades ih =>
    by_cases concordant : grade = .concordant
    · have kept : start.combine grade = start := by
        subst concordant
        cases start <;> rfl
      rw [List.filter_cons_of_neg (by simpa using concordant), List.foldl_cons, kept, ih]
    · rw [List.filter_cons_of_pos (by simpa using concordant), List.foldl_cons, List.foldl_cons, ih]

theorem foldl_combine_mixed (grades : List Grade) :
    grades.foldl Grade.combine .mixed = .mixed := by
  induction grades with
  | nil => rfl
  | cons grade grades ih => cases grade <;> exact ih

/-- The grade that contributions add up to is put together of them one by one. -/
theorem jointGrade_eq_foldl (contributions : List Grade) :
    jointGrade contributions = contributions.foldl .combine .concordant := by
  have plain : ∀ grade ∈ contributions.filter (· ≠ .concordant), grade ≠ .concordant := by simp
  rw [← foldl_combine_filter]
  unfold jointGrade
  generalize contributions.filter (· ≠ .concordant) = directed at plain
  cases directed with
  | nil => rfl
  | cons first others =>
    obtain ⟨directed, rest⟩ := List.forall_mem_cons.mp plain
    dsimp only
    rw [List.foldl_cons]
    change _ = others.foldl .combine first
    induction others with
    | nil => rfl
    | cons other others ih =>
      obtain ⟨directed', rest⟩ := List.forall_mem_cons.mp rest
      have ih := ih (List.forall_mem_cons.mpr ⟨directed, rest⟩) rest
      by_cases equal : other = first
      · have again : first.combine other = first := by
          subst equal
          cases other <;> rfl
        rw [List.foldl_cons, again, ← ih]
        simp [equal]
      · have mixed : first.combine other = .mixed := by
          cases first <;> cases other <;> first | rfl | contradiction
        rw [List.foldl_cons, mixed, foldl_combine_mixed]
        simp [equal]

theorem jointGrade_perm {contributions contributions' : List Grade}
    (permuted : contributions.Perm contributions') :
    jointGrade contributions = jointGrade contributions' := by
  rw [jointGrade_eq_foldl, jointGrade_eq_foldl]
  exact permuted.foldl_eq _

/-- The positions are free or taken. -/
theorem countFree_add_length {length : Nat} {taken : List Nat} (nodup : taken.Nodup)
    (inside : ∀ i ∈ taken, i < length) : countFree length taken + taken.length = length := by
  have counted : (List.range length).countP (· ∈ taken) = taken.length := by
    rw [List.countP_eq_length_filter]
    refine List.Perm.length_eq ((List.perm_ext_iff_of_nodup (List.nodup_range.filter _) nodup).mpr
      fun i ↦ ?_)
    simp only [List.mem_filter, List.mem_range, decide_eq_true_eq, and_iff_right_iff_imp]
    exact inside i
  have all := List.length_eq_countP_add_countP (l := List.range length) (· ∈ taken)
  rw [List.length_range, counted] at all
  unfold countFree
  simpa [Nat.add_comm] using all.symm

end Rule

namespace Appraisal

variable {same : Tally → Tally → Prop} {l l' r r' : SortRecord}

/-- What accepted pairings add up to does not depend on their order, and resembles what resembling
ones add up to. -/
theorem agrees_combined (equates : Tally.Congruence same)
    (scale : commonScale l r = commonScale l' r') {left left' right right' : List SortId}
    {accepted accepted' : List Pairing} {findings : List Finding}
    (permuted : (accepted.map Pairing.finding).Perm findings)
    (each : List.Forall₂ (Finding.Resembles same) findings (accepted'.map Pairing.finding))
    (excess : Rule.countFree left.length (accepted.map Pairing.left) =
      Rule.countFree left'.length (accepted'.map Pairing.left))
    (omits : Rule.countFree right.length (accepted.map Pairing.right) =
      Rule.countFree right'.length (accepted'.map Pairing.right)) :
    (combined l r left right accepted).Agrees same (combined l' r' left' right' accepted') := by
  have each := List.forall₂_map_right_iff.mp each
  have listed {γ : Type} (read : MatchNode → γ) : (accepted.map fun p ↦ read p.finding.node).Perm
      (findings.map fun finding ↦ read finding.node) := by
    have mapped := permuted.map fun finding ↦ read finding.node
    rwa [List.map_map] at mapped
  have levels : ((accepted.map (·.finding.node.level)).foldl Level.worst .identical).rank =
      ((accepted'.map (·.finding.node.level)).foldl Level.worst .identical).rank := by
    rw [(listed MatchNode.level).foldl_eq]
    refine List.rel_foldl (P := fun a b : Level ↦ a.rank = b.rank) (R := fun a b ↦ a.rank = b.rank)
      (fun _ _ h _ _ h' ↦ ?_) rfl ?_
    · dsimp only
      rw [Level.rank_worst, Level.rank_worst]
      exact congrArg₂ max h h'
    · exact List.forall₂_map_left_iff.mpr
        (List.forall₂_map_right_iff.mpr (each.imp fun _ _ near ↦ near.rank))
  have tallies : same ((accepted.map (·.finding.node.tally)).foldl Tally.add .none)
      ((accepted'.map (·.finding.node.tally)).foldl Tally.add .none) := by
    rw [(listed MatchNode.tally).foldl_eq]
    refine List.rel_foldl (P := same) (R := same) (fun _ _ h _ _ h' ↦ equates.add h h')
      (equates.refl _) ?_
    exact List.forall₂_map_left_iff.mpr
      (List.forall₂_map_right_iff.mpr (each.imp fun _ _ near ↦ near.tally))
  have grades : (accepted.map (·.finding.node.grade)).Perm
      (accepted'.map (·.finding.node.grade)) := by
    have equal : findings.map (·.node.grade) = accepted'.map (·.finding.node.grade) := by
      rw [← List.forall₂_eq_eq_eq]
      exact List.forall₂_map_left_iff.mpr
        (List.forall₂_map_right_iff.mpr (each.imp fun _ _ near ↦ near.grade))
    exact equal ▸ listed MatchNode.grade
  unfold combined
  rw [excess, omits]
  refine .node equates scale ?_ (Rule.jointGrade_perm ?_) ?_
  · exact Level.lifted_congr levels
  · exact (grades.append_right _).append_right _
  · exact equates.add tallies (equates.refl { excess := _, omits := _ })

/-! ### What computations tell -/

section

variable {α β ι : Type} {near : SortId → Prop} {table : SortId → SortId → Option Finding}
  {rule : Appraiser → Appraisal α}

theorem Tells.unique {answer answer' : α} (h : Tells table rule answer)
    (h' : Tells table rule answer') :
    answer = answer' := by
  obtain ⟨later, run⟩ := h
  obtain ⟨later', run'⟩ := h'
  rw [run] at run'
  cases run'
  rfl

theorem tells_bind_iff {next : α → Appraiser → Appraisal β} {answer : β} (asks : Asks near rule) :
    Tells table (fun relate ↦ rule relate >>= fun found ↦ next found relate) answer ↔
      ∃ found, Tells table rule found ∧ Tells table (next found) answer := by
  induction asks with
  | pure found =>
    refine ⟨fun h ↦ ⟨found, .pure found, h⟩, ?_⟩
    rintro ⟨_, told, h⟩
    rwa [told.eq_of_pure] at h
  | throw reason =>
    refine ⟨fun h ↦ (not_tells_throw h).elim, ?_⟩
    rintro ⟨_, told, -⟩
    exact (not_tells_throw told).elim
  | @ask left right inner _ _ _ ih =>
    have assoc : (fun relate : Appraiser ↦
        (relate left right >>= fun finding ↦ inner finding relate) >>= fun found ↦
          next found relate) = fun relate ↦ relate left right >>= fun finding ↦
            inner finding relate >>= fun found ↦ next found relate :=
      funext fun relate ↦ bind_assoc _ _ _
    rw [assoc, tells_ask_iff]
    simp only [ih, tells_ask_iff]
    exact ⟨fun ⟨finding, entry, found, told, h⟩ ↦ ⟨found, ⟨finding, entry, told⟩, h⟩,
      fun ⟨found, ⟨finding, entry, told⟩, h⟩ ↦ ⟨finding, entry, found, told, h⟩⟩

theorem tells_mapM_iff {items : List ι} {work : ι → Appraiser → Appraisal α} {answers : List α}
    (asks : ∀ item, Asks near (work item)) :
    Tells table (fun relate ↦ items.mapM fun item ↦ work item relate) answers ↔
      List.Forall₂ (fun item answer ↦ Tells table (work item) answer) items answers := by
  induction items generalizing answers with
  | nil =>
    refine ⟨fun h ↦ ?_, fun h ↦ ?_⟩
    · rw [h.eq_of_pure]
      exact .nil
    · cases h
      exact .pure []
  | cons item items ih =>
    simp only [List.mapM_cons]
    rw [tells_bind_iff (asks item)]
    simp only [tells_bind_iff (Asks.mapM fun item _ ↦ asks item), ih]
    constructor
    · rintro ⟨answer, first, rest, each, told⟩
      rw [told.eq_of_pure]
      exact .cons first each
    · intro h
      cases h with
      | cons first each => exact ⟨_, first, _, each, .pure _⟩

/-- A question that is answered by what is made of its finding. -/
theorem tells_ask_pure_iff {left right : SortId} {make : Finding → α} {answer : α} :
    Tells table (fun relate ↦ relate left right >>= fun finding ↦ Pure.pure (make finding)) answer ↔
      ∃ finding, table left right = some finding ∧ answer = make finding := by
  refine tells_ask_iff.trans (exists_congr fun finding ↦ and_congr_right fun _ ↦
    ⟨fun h ↦ h.eq_of_pure, ?_⟩)
  rintro rfl
  exact .pure _

end

/-! ### Disjunctions -/

section

variable {alike : SortId → SortId → Prop} {left left' right right' : List SortId}
  {table table' : SortId → SortId → Option Finding} {found found' : SortId → SortId → Finding}

/-- The pairings of components with these findings. -/
def pairingsOf (found : SortId → SortId → Finding) (left right : List SortId) : List Pairing :=
  (left.zipIdx.map fun l ↦ (right.zipIdx.map fun r ↦
    if (found l.1 r.1).node.incongruous then [] else [⟨l.2, r.2, found l.1 r.1⟩]).flatten).flatten

theorem mem_pairingsOf_iff {p : Pairing} : p ∈ pairingsOf found left right ↔
    ∃ pair : SortId × SortId, p.Of left right found pair ∧
      (found pair.1 pair.2).node.incongruous = false := by
  unfold pairingsOf
  simp only [List.mem_flatten, List.mem_map]
  constructor
  · rintro ⟨_, ⟨⟨a, i⟩, atLeft, rfl⟩, here⟩
    obtain ⟨_, inside, here⟩ := List.mem_flatten.mp here
    obtain ⟨⟨b, j⟩, atRight, rfl⟩ := List.mem_map.mp inside
    rw [List.mem_zipIdx_iff_getElem?] at atLeft atRight
    split_ifs at here with incongruous
    · cases here
    · obtain rfl := List.mem_singleton.mp here
      exact ⟨(a, b), ⟨atLeft, atRight, rfl⟩, Bool.eq_false_iff.mpr incongruous⟩
  · rintro ⟨⟨a, b⟩, is, congruous⟩
    refine ⟨_, ⟨(a, p.left), List.mem_zipIdx_iff_getElem?.mpr is.left, rfl⟩, List.mem_flatten.mpr
      ⟨_, List.mem_map.mpr ⟨(b, p.right), List.mem_zipIdx_iff_getElem?.mpr is.right, rfl⟩, ?_⟩⟩
    rw [if_neg (Bool.eq_false_iff.mp congruous), ← is.finding]
    exact List.mem_singleton_self p

theorem asks_pairing (a b : SortId × Nat) :
    Asks (fun _ ↦ True) fun relate ↦ pairing relate a b :=
  .ask trivial trivial fun _ ↦ .pure _

theorem asks_pairings (a : SortId × Nat) (right : List SortId) :
    Asks (fun _ ↦ True) fun relate ↦
      (right.zipIdx.mapM fun b ↦ pairing relate a b) >>= fun row ↦ Pure.pure row.flatten :=
  .bind (.mapM fun b _ ↦ asks_pairing a b) fun _ ↦ .pure _

theorem asks_allPairings (left right : List SortId) :
    Asks (fun _ ↦ True) fun relate ↦ allPairings relate left right :=
  .bind (.mapM fun a _ ↦ asks_pairings a right) fun _ ↦ .pure _

/-- All findings of components are asked for. -/
theorem exists_of_tells_allPairings {pairings : List Pairing}
    (told : Tells table (fun relate ↦ allPairings relate left right) pairings) :
    ∀ a ∈ left, ∀ b ∈ right, ∃ finding, table a b = some finding := by
  intro a inLeft b inRight
  obtain ⟨rows, told, -⟩ := (tells_bind_iff (.mapM fun a _ ↦ asks_pairings a right)).mp told
  have each := (tells_mapM_iff fun a ↦ asks_pairings a right).mp told
  obtain ⟨i, atLeft⟩ := List.mem_iff_getElem?.mp inLeft
  obtain ⟨j, atRight⟩ := List.mem_iff_getElem?.mp inRight
  have atLeft : (a, i) ∈ left.zipIdx := List.mem_zipIdx_iff_getElem?.mpr atLeft
  have atRight : (b, j) ∈ right.zipIdx := List.mem_zipIdx_iff_getElem?.mpr atRight
  obtain ⟨row, -, told⟩ := rel_of_mem_left each atLeft
  obtain ⟨cells, told, -⟩ := (tells_bind_iff (.mapM fun b _ ↦ asks_pairing (a, i) b)).mp told
  have each := (tells_mapM_iff fun b ↦ asks_pairing (a, i) b).mp told
  obtain ⟨cell, -, told⟩ := rel_of_mem_left each atRight
  obtain ⟨finding, entry, -⟩ := tells_ask_pure_iff.mp told
  exact ⟨finding, entry⟩

/-- When all findings of components are there, the pairings are those with these findings. -/
theorem tells_allPairings (total : ∀ a ∈ left, ∀ b ∈ right, table a b = some (found a b)) :
    Tells table (fun relate ↦ allPairings relate left right) (pairingsOf found left right) := by
  refine (tells_bind_iff (.mapM fun a _ ↦ asks_pairings a right)).mpr ⟨_,
    (tells_mapM_iff fun a ↦ asks_pairings a right).mpr ?_, .pure _⟩
  refine List.forall₂_map_right_iff.mpr (List.forall₂_same.mpr fun a inLeft ↦ ?_)
  refine (tells_bind_iff (.mapM fun b _ ↦ asks_pairing a b)).mpr ⟨_,
    (tells_mapM_iff fun b ↦ asks_pairing a b).mpr ?_, .pure _⟩
  refine List.forall₂_map_right_iff.mpr (List.forall₂_same.mpr fun b inRight ↦ ?_)
  exact tells_ask_pure_iff.mpr ⟨_, total _ (List.fst_mem_of_mem_zipIdx inLeft) _
    (List.fst_mem_of_mem_zipIdx inRight), rfl⟩

/-- Components that are not in an accepted pairing are free. -/
theorem countFree_accept (found : SortId → SortId → Finding) (left right : List SortId) :
    let accepted := accept (pairingsOf found left right)
    Rule.countFree left.length (accepted.map Pairing.left) + accepted.length = left.length ∧
      Rule.countFree right.length (accepted.map Pairing.right) + accepted.length =
        right.length := by
  intro accepted
  obtain ⟨known, apart, -⟩ := accept_spec (pairingsOf found left right)
  have placed (p : Pairing) (here : p ∈ accepted) :
      p.left < left.length ∧ p.right < right.length := by
    obtain ⟨pair, is, -⟩ := mem_pairingsOf_iff.mp (known p here)
    exact ⟨(List.getElem?_eq_some_iff.mp is.left).1, (List.getElem?_eq_some_iff.mp is.right).1⟩
  have apartLeft : (accepted.map Pairing.left).Nodup :=
    apart.map _ fun _ _ clear same ↦ clear (.inl same)
  have apartRight : (accepted.map Pairing.right).Nodup :=
    apart.map _ fun _ _ clear same ↦ clear (.inr same)
  have onLeft : Rule.countFree left.length (accepted.map Pairing.left) + _ = left.length :=
    Rule.countFree_add_length apartLeft fun i inside ↦ by
      obtain ⟨p, here, rfl⟩ := List.mem_map.mp inside
      exact (placed p here).1
  have onRight : Rule.countFree right.length (accepted.map Pairing.right) + _ = right.length :=
    Rule.countFree_add_length apartRight fun i inside ↦ by
      obtain ⟨p, here, rfl⟩ := List.mem_map.mp inside
      exact (placed p here).2
  rw [List.length_map] at onLeft onRight
  exact ⟨onLeft, onRight⟩

/-- Two disjunctions, and disjunctions with corresponding components. -/
theorem tells_composition (equates : Tally.Congruence same)
    (single : ∀ {a a' b b'}, alike a a' → alike b b' → (a = b ↔ a' = b'))
    (inside : ∀ {a a' b b' finding}, alike a a' → alike b b' → table a b = some finding →
      ∃ finding', table' a' b' = some finding' ∧ finding.Agrees same finding')
    (sameLeft : l.Rearranged alike l') (sameRight : r.Rearranged alike r')
    (ofLeft : Paired alike left left') (ofRight : Paired alike right right')
    (lengths : left.length = left'.length ∧ right.length = right'.length)
    (nodups : left.Nodup ∧ right.Nodup) (nodups' : left'.Nodup ∧ right'.Nodup)
    (uncontested : l.canonical ≠ r.canonical → ∀ found : SortId → SortId → Finding,
      (∀ a ∈ left, ∀ b ∈ right, table a b = some (found a b)) → Uncontested same left right found)
    {answer : Finding}
    (told : Tells table (fun relate ↦ composition relate l r left right) answer) :
    ∃ answer', Tells table' (fun relate ↦ composition relate l' r' left' right') answer' ∧
      answer.Agrees same answer' := by
  have scale := commonScale_eq sameLeft sameRight
  unfold composition at told ⊢
  rw [← sameLeft.canonical, ← sameRight.canonical]
  by_cases equal : l.canonical = r.canonical
  · simp only [if_pos equal] at told ⊢
    rw [told.eq_of_pure]
    exact ⟨_, .pure _, Finding.agrees_equivalent equates scale _⟩
  simp only [if_neg equal] at told ⊢
  obtain ⟨pairings, asked, answered⟩ := (tells_bind_iff (asks_allPairings left right)).mp told
  let found (a b : SortId) : Finding := (table a b).getD answer
  let found' (a b : SortId) : Finding := (table' a b).getD answer
  have total : ∀ a ∈ left, ∀ b ∈ right, table a b = some (found a b) := by
    intro a inLeft b inRight
    obtain ⟨finding, entry⟩ := exists_of_tells_allPairings asked a inLeft b inRight
    simp only [found, entry, Option.getD_some]
  have near {a a' b b' : SortId} (inLeft : a ∈ left) (inRight : b ∈ right) (ofLeft : alike a a')
      (ofRight : alike b b') : table' a' b' = some (found' a' b') ∧
        (found a b).Agrees same (found' a' b') := by
    obtain ⟨finding', entry, agrees⟩ := inside ofLeft ofRight (total a inLeft b inRight)
    have read : found' a' b' = finding' := by simp only [found', entry, Option.getD_some]
    rw [read]
    exact ⟨entry, agrees⟩
  have total' : ∀ a' ∈ left', ∀ b' ∈ right', table' a' b' = some (found' a' b') := by
    intro a' inLeft' b' inRight'
    obtain ⟨a, inLeft, ofLeft⟩ := ofLeft.back a' inLeft'
    obtain ⟨b, inRight, ofRight⟩ := ofRight.back b' inRight'
    exact (near inLeft inRight ofLeft ofRight).1
  obtain rfl := asked.unique (tells_allPairings total)
  refine ⟨_, (tells_bind_iff (asks_allPairings left' right')).mpr ⟨_, tells_allPairings total',
    .pure _⟩, ?_⟩
  rw [answered.eq_of_pure]
  obtain ⟨findings, permuted, each⟩ :=
    exists_perm_accept equates (uncontested equal found total) single
    ofLeft ofRight (fun inLeft inRight ofLeft ofRight ↦
      (near inLeft inRight ofLeft ofRight).2.toResembles)
    (exists_settles nodups.1 nodups.2 fun _ ↦ mem_pairingsOf_iff)
    (exists_settles nodups'.1 nodups'.2 fun _ ↦ mem_pairingsOf_iff)
  have many : (accept (pairingsOf found left right)).length =
      (accept (pairingsOf found' left' right')).length := by
    have counted := permuted.length_eq.trans each.length_eq
    rwa [List.length_map, List.length_map] at counted
  obtain ⟨onLeft, onRight⟩ := countFree_accept found left right
  obtain ⟨onLeft', onRight'⟩ := countFree_accept found' left' right'
  simp only [List.isEmpty_iff_length_eq_zero, many]
  split_ifs
  · exact Finding.agrees_incongruous equates scale
  · exact agrees_combined equates scale permuted each (by omega) (by omega)

/-- The finding of a component, as one of the whole disjunction. -/
def amid (l r : SortRecord) (extra : Nat) (inner : Finding) : Finding :=
  .like l r inner fun node ↦ { node with
    tally := node.tally.add { excess := extra }
    grade := if extra > 0 then node.grade.combine .subsumptive else node.grade }

/-- It is never identical. -/
theorem lifted_amid (l r : SortRecord) (extra : Nat) (inner : Finding) :
    (amid l r extra inner).node.level.lifted = (amid l r extra inner).node.level := by
  unfold amid Finding.like Matching.node
  dsimp only [Finding.node_mk]
  cases inner.node.level <;> rfl

theorem agrees_amid {finding finding' : Finding} (equates : Tally.Congruence same)
    (scale : commonScale l r = commonScale l' r') (near : finding.Agrees same finding')
    (extra : Nat) : (amid l r extra finding).Agrees same (amid l' r' extra finding') := by
  refine .node equates scale near.lifted ?_
    (equates.add near.tally (equates.refl { excess := extra }))
  exact congrArg
    (fun grade : Grade ↦ if extra > 0 then grade.combine .subsumptive else grade) near.grade

/-- What a disjunction beside another sort is answered from. -/
theorem tells_disjunction_iff {components : List SortId} {answer : Finding} :
    Tells table (fun relate ↦ disjunction relate l r components) answer ↔
      ∃ candidates, List.Forall₂ (fun component candidate ↦ ∃ finding,
          table component r.id = some finding ∧
            candidate = amid l r (components.length - 1) finding) components candidates ∧
        answer = .chooseOrIncongruous l r candidates [] := by
  have asks (component : SortId) : Asks (fun _ ↦ True) fun relate ↦
      relate component r.id >>= fun inner ↦ Pure.pure (amid l r (components.length - 1) inner) :=
    .ask trivial trivial fun _ ↦ .pure _
  have made : (fun relate ↦ disjunction relate l r components) = fun relate : Appraiser ↦
      (components.mapM fun component ↦ relate component r.id >>= fun inner ↦
        Pure.pure (amid l r (components.length - 1) inner)) >>= fun candidates ↦
          Pure.pure (Finding.chooseOrIncongruous l r candidates []) := rfl
  rw [made, tells_bind_iff (.mapM fun component _ ↦ asks component)]
  refine exists_congr fun candidates ↦ and_congr ?_ ⟨fun h ↦ h.eq_of_pure, fun h ↦ h ▸ .pure _⟩
  rw [tells_mapM_iff asks]
  simp only [tells_ask_pure_iff]

theorem asClose_of_amid {extra : Nat} {finding other : Finding}
    (preferred : ((amid l r extra finding).node.prefer (amid l r extra other).node).isLE) :
    finding.AsClose extra other := by
  have scale : (amid l r extra finding).node.scale = (amid l r extra other).node.scale := rfl
  have close := MatchNode.rank_lt_or_of_prefer scale preferred
  have rank (inner : Finding) : (amid l r extra inner).node.level.rank = inner.node.level.rank :=
    Level.rank_lifted _
  rw [rank, rank] at close
  exact close

/-- Where components correspond, so do those that are best of all, as long as findings that are as
close as any agree. -/
theorem agrees_of_chosen {found found' : SortId → Finding} {extra : Nat} {best best' : Finding}
    (equates : Tally.Congruence same) (scale : commonScale l r = commonScale l' r')
    (ofLeft : Paired alike left left')
    (near : ∀ {k k'}, k ∈ left → alike k k' → (found k).Agrees same (found' k'))
    (agreed : ∀ a ∈ left, ∀ b ∈ left, (∀ k ∈ left, (found a).AsClose extra (found k) ∧
      (found b).AsClose extra (found k)) → same (found a).node.tally (found b).node.tally)
    (chosen : Finding.choose (left.map fun k ↦ amid l r extra (found k)) = some best)
    (chosen' : Finding.choose (left'.map fun k ↦ amid l' r' extra (found' k)) = some best') :
    best.Agrees same best' := by
  obtain ⟨inside, first⟩ := Finding.choose_spec chosen
  obtain ⟨inside', first'⟩ := Finding.choose_spec chosen'
  obtain ⟨k, inLeft, rfl⟩ := List.mem_map.mp inside
  obtain ⟨m', inLeft', rfl⟩ := List.mem_map.mp inside'
  obtain ⟨m, inLeft'', ofLeft'⟩ := ofLeft.back m' inLeft'
  have agrees {a a' : SortId} (inLeft : a ∈ left) (ofLeft : alike a a') :=
    agrees_amid equates scale (near inLeft ofLeft) extra
  -- The component that corresponds to the one that is best there is best here as well.
  have best (a : SortId) (inLeft : a ∈ left) :
      ((amid l r extra (found m)).node.prefer (amid l r extra (found a)).node).isLE := by
    obtain ⟨a', inLeft', ofLeft⟩ := ofLeft.forth a inLeft
    rw [(agrees inLeft'' ofLeft').prefer (agrees inLeft ofLeft).toResembles]
    exact first' _ (List.mem_map_of_mem inLeft')
  have best' (a : SortId) (inLeft : a ∈ left) :
      ((amid l r extra (found k)).node.prefer (amid l r extra (found a)).node).isLE :=
    first _ (List.mem_map_of_mem inLeft)
  have between : (amid l r extra (found k)).Resembles same (amid l r extra (found m)) := by
    refine ⟨?_, ?_, rfl⟩
    · exact MatchNode.standing_eq_of_prefer
        (MatchNode.prefer_eq_of_isLE (best' m inLeft'') (best k inLeft)) rfl
    · exact equates.add (agreed k inLeft m inLeft'' fun a inLeft ↦
        ⟨asClose_of_amid (best' a inLeft), asClose_of_amid (best a inLeft)⟩)
        (equates.refl { excess := extra })
  have all := between.trans equates (agrees inLeft'' ofLeft').toResembles
  exact ⟨all, (lifted_amid l r extra (found k)).symm.trans
    (all.lifted.trans (lifted_amid l' r' extra (found' m')))⟩

/-- A disjunction beside another sort, and one with corresponding components. -/
theorem tells_disjunction (equates : Tally.Congruence same)
    (sameLeft : l.Rearranged alike l') (sameRight : r.Rearranged alike r')
    (rights : alike r.id r'.id)
    (inside : ∀ {a a' b b' finding}, alike a a' → alike b b' → table a b = some finding →
      ∃ finding', table' a' b' = some finding' ∧ finding.Agrees same finding')
    (ofLeft : Paired alike left left') (length : left.length = left'.length)
    (agreed : ∀ found : SortId → Finding, (∀ k ∈ left, table k r.id = some (found k)) →
      ∀ a ∈ left, ∀ b ∈ left, (∀ k ∈ left, (found a).AsClose (left.length - 1) (found k) ∧
        (found b).AsClose (left.length - 1) (found k)) →
        same (found a).node.tally (found b).node.tally)
    {answer : Finding} (told : Tells table (fun relate ↦ disjunction relate l r left) answer) :
    ∃ answer', Tells table' (fun relate ↦ disjunction relate l' r' left') answer' ∧
      answer.Agrees same answer' := by
  have scale := commonScale_eq sameLeft sameRight
  obtain ⟨candidates, each, rfl⟩ := tells_disjunction_iff.mp told
  generalize extra : left.length - 1 = more at each agreed
  have extra' : left'.length - 1 = more := length ▸ extra
  let spare : Finding := .incongruous l r []
  let found (k : SortId) : Finding := (table k r.id).getD spare
  let found' (k : SortId) : Finding := (table' k r'.id).getD spare
  have total : ∀ k ∈ left, table k r.id = some (found k) := by
    intro k inLeft
    obtain ⟨_, -, finding, entry, -⟩ := rel_of_mem_left each inLeft
    simp only [found, entry, Option.getD_some]
  have near {k k' : SortId} (inLeft : k ∈ left) (ofLeft : alike k k') :
      table' k' r'.id = some (found' k') ∧ (found k).Agrees same (found' k') := by
    obtain ⟨finding', entry, agrees⟩ := inside ofLeft rights (total k inLeft)
    have read : found' k' = finding' := by simp only [found', entry, Option.getD_some]
    rw [read]
    exact ⟨entry, agrees⟩
  have listed : candidates = left.map fun k ↦ amid l r more (found k) := by
    rw [← List.forall₂_eq_eq_eq]
    refine List.forall₂_map_right_iff.mpr (each.imp fun k candidate made ↦ ?_).flip
    obtain ⟨finding, entry, rfl⟩ := made
    simp only [found, entry, Option.getD_some, flip]
  refine ⟨.chooseOrIncongruous l' r' (left'.map fun k ↦ amid l' r' more (found' k)) [],
    tells_disjunction_iff.mpr ⟨_, List.forall₂_map_right_iff.mpr
      (List.forall₂_same.mpr fun k' inLeft' ↦ ?_), rfl⟩, ?_⟩
  · obtain ⟨k, inLeft, ofLeft⟩ := ofLeft.back k' inLeft'
    exact ⟨_, (near inLeft ofLeft).1, by rw [extra']⟩
  rw [listed]
  unfold Finding.chooseOrIncongruous
  cases chosen : Finding.choose (left.map fun k ↦ amid l r more (found k)) with
  | none =>
    cases left with
    | nil =>
      rw [List.length_eq_zero_iff.mp length.symm]
      exact Finding.agrees_incongruous equates scale
    | cons _ _ => cases chosen
  | some best =>
    cases chosen' : Finding.choose (left'.map fun k ↦ amid l' r' more (found' k)) with
    | none =>
      cases left' with
      | nil =>
        rw [List.length_eq_zero_iff.mp length] at chosen
        cases chosen
      | cons _ _ => cases chosen'
    | some best' =>
      exact agrees_of_chosen equates scale ofLeft (fun inLeft ofLeft ↦ (near inLeft ofLeft).2)
        (agreed found total) chosen chosen'

end

end Appraisal

end CompositeSorts
