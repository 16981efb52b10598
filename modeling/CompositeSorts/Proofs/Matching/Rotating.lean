import CompositeSorts.Proofs.Matching.Arranging
import CompositeSorts.Proofs.Matching.Fixed
import Mathlib.Data.List.Rotate

/-!
Chains that are rotated. Two chains of the same length can both be split, each at an offset of its
own, so that elements stand side by side that did not (`aligned`). Only the left one is split in a
search for the best rotation, and this is enough: up to the order of the pairs, two offsets come to
the same as one (`perm_aligned`), which takes no more swaps (`swaps_shift_le`); what an alignment
says does not depend on the order of its pairs; and a pair that was matched once is matched alike
whenever it is matched again. So the search finds an alignment whenever there is one in which all
pairs are close, and no other one is preferred to what it finds, as long as the swaps of the other
one can be counted (`ends_bestRotation_arranges`).
-/

set_option autoImplicit false
set_option relaxedAutoImplicit false

namespace CompositeSorts

open Matchings Matching Rule

variable {α : Type} {relate : Relate} {t t' : Matchings} {id : MatchId} {l r : SortRecord}
  {left right : List SortId} {pairs : List (SortId × SortId)} {pair : SortId × SortId}
  {length n m swapped : Nat} {v w : Verdict} {vs ws : List Verdict}

/-! ### What alignments say -/

namespace Verdict

/-- What two matches say together. -/
def add (v w : Verdict) : Verdict :=
  ⟨v.level.worst w.level, v.grade.combine w.grade, v.tally.add w.tally⟩

instance : RightCommutative add := ⟨fun u v w ↦ by
  unfold add
  congr 1
  · exact (inferInstance : RightCommutative Level.worst).right_comm ..
  · exact (inferInstance : RightCommutative Grade.combine).right_comm ..
  · exact (inferInstance : RightCommutative Tally.add).right_comm ..⟩

/-- The sorts are convertible or better. -/
def Close (v : Verdict) : Prop := v.level.rank ≤ Level.convertible.rank

/-- What matches say together, after so many swaps. -/
def joint (swapped : Nat) (vs : List Verdict) : Verdict :=
  vs.foldl add ⟨.convertible, .concordant, { swapped := swapped }⟩

theorem foldl_add_add (v w : Verdict) (vs : List Verdict) :
    vs.foldl add (v.add w) = (vs.foldl add v).add w := by
  induction vs generalizing v with
  | nil => rfl
  | cons u vs ih =>
    have comm : (v.add w).add u = (v.add u).add w :=
      (inferInstance : RightCommutative add).right_comm ..
    rw [List.foldl_cons, List.foldl_cons, comm, ih]

/-- The swaps only add to the tally. -/
theorem joint_eq (swapped : Nat) (vs : List Verdict) :
    joint swapped vs = (joint 0 vs).add ⟨.identical, .concordant, { swapped := swapped }⟩ := by
  unfold joint
  rw [← foldl_add_add]
  simp [add, Level.worst, Level.rank, Grade.combine, Tally.add]

theorem joint_perm (permuted : vs.Perm ws) (swapped : Nat) : joint swapped vs = joint swapped ws :=
  permuted.foldl_eq _

end Verdict

/-- A match of two sorts that says this, and of which nothing else is known. -/
def MatchNode.saying (l r : SortRecord) (v : Verdict) : MatchNode :=
  node l r v.level v.grade v.tally []

/-- Of two matches that differ in their tallies only, the one with the smaller penalty is
preferred. -/
theorem MatchNode.isLE_prefer_of_penalty {a b : MatchNode} (rank : a.level.rank = b.level.rank)
    (scale : a.scale = b.scale) (grade : a.grade = b.grade)
    (fewer : a.tally.penalty ≤ b.tally.penalty) : (a.prefer b).isLE := by
  have scores : (compareScores a b).isLE := by
    rw [isLE_compareScores_iff]
    unfold score Tally.score Ratio.of
    rw [scale]
    exact Nat.mul_le_mul_right _ fewer
  unfold prefer
  rw [incongruous_eq, incongruous_eq, rank, grade]
  simp only [Std.ReflCmp.compare_self, Ordering.eq_then]
  unfold compareScores at scores
  revert scores
  cases a.score.compare b.score <;> simp

/-- The fewer swaps the better, as long as they can be counted. -/
theorem MatchNode.isLE_prefer_saying_joint {fewer more : Nat} (le : fewer ≤ more)
    (l r : SortRecord) (vs : List Verdict)
    (room : (Verdict.joint 0 vs).tally.swapped.value + more < UInt32.size) :
    ((saying l r (.joint fewer vs)).prefer (saying l r (.joint more vs))).isLE := by
  have counted (n : Nat) (few : n ≤ more) :
      ((Verdict.joint 0 vs).tally.swapped + (n : Counter)).value =
        (Verdict.joint 0 vs).tally.swapped.value + n := by
    rw [Counter.value_add_eq_mod, Counter.value_natCast, Nat.add_mod_mod,
      Nat.mod_eq_of_lt (by omega)]
  rw [Verdict.joint_eq fewer, Verdict.joint_eq more]
  refine isLE_prefer_of_penalty rfl rfl rfl ?_
  simp only [saying, node, Verdict.add, Tally.add, Tally.penalty, Tally.structural,
    Tally.demotions, counted fewer le, counted more le_rfl]
  omega

/-! ### Offsets -/

/-- The pairs of elements that stand side by side when both chains are split at an offset. -/
def aligned (left right : List SortId) (n m : Nat) : List (SortId × SortId) :=
  (left.rotate n).zip (right.rotate m)

theorem rotateLeft_eq_rotate (items : List α) (n : Nat) : items.rotateLeft n = items.rotate n := by
  unfold List.rotateLeft
  dsimp only
  split_ifs with short
  · match items, short with
    | [], _ => rw [List.rotate_nil]
    | [item], _ => rw [List.rotate_singleton]
  · exact List.rotate_eq_drop_append_take_mod.symm

/-- The swaps that it takes to split a chain of this length at an offset. -/
def swaps (length n : Nat) : Nat := min n (length - n)

/-- The single offset that two offsets come to. -/
def shift (length n m : Nat) : Nat := if m ≤ n then n - m else n + length - m

theorem shift_lt (left : n < length) (right : m < length) : shift length n m < length := by
  unfold shift
  split_ifs <;> omega

theorem swaps_shift_le (left : n < length) (right : m < length) :
    swaps length (shift length n m) ≤ swaps length n + swaps length m := by
  unfold swaps shift
  split_ifs <;> omega

theorem swaps_zero (length : Nat) : swaps length 0 = 0 := Nat.zero_min _

/-- Up to the order of the pairs, two offsets come to the same as one. -/
theorem perm_aligned (same : left.length = right.length) (onRight : m < left.length) :
    (aligned left right n m).Perm (aligned left right (shift left.length n m) 0) := by
  have turned : left.rotate (shift left.length n m + m) = left.rotate n := by
    unfold shift
    split_ifs with le
    · rw [Nat.sub_add_cancel le]
    · rw [Nat.sub_add_cancel (Nat.le_add_left_of_le onRight.le), ← List.rotate_mod,
        Nat.add_mod_right, List.rotate_mod]
  have rotated : (aligned left right (shift left.length n m) 0).rotate m =
      aligned left right n m := by
    unfold aligned
    refine (List.zipWith_rotate_distrib Prod.mk _ _ _ (by simp [same])).trans ?_
    rw [List.rotate_rotate, List.rotate_rotate, turned, Nat.zero_add]
    rfl
  exact rotated ▸ List.rotate_perm _ m

/-! ### Alignments that fit -/

/-- At some time from `t` on, the two sorts are matched like this. -/
def Tells (relate : Relate) (t : Matchings) (pair : SortId × SortId) (v : Verdict) : Prop :=
  ∃ u id u', Retains t u ∧ relate pair.1 pair.2 u = .ok id u' ∧ u'.Gives id v

theorem Fixed.tells (h : Fixed relate t pair v) (barred : t.Barred) : Tells relate t pair v := by
  obtain ⟨id, u, run, gives⟩ := h t (.refl t) barred
  exact ⟨t, id, u, .refl t, run, gives⟩

theorem Fixed.eq_of_tells (h : Fixed relate t pair v) (barred : t.Barred)
    (tells : Tells relate t pair w) : w = v := by
  obtain ⟨u, id, u', later, run, gives⟩ := tells
  obtain ⟨id', u'', run', gives'⟩ := h u later (later.barred barred)
  rw [run] at run'
  cases run'
  exact gives.unique gives'

/-- The elements that stand side by side when the chains are split at these offsets are close; `vs`
is what their matches say. -/
structure Fits (relate : Relate) (t : Matchings) (left right : List SortId) (n m : Nat)
    (vs : List Verdict) : Prop where
  tells : List.Forall₂ (Tells relate t) (aligned left right n m) vs
  close : ∀ v ∈ vs, v.Close

/-- The swaps that an alignment takes are counted without leaving the range of the counter. -/
def Roomy (length n m : Nat) (vs : List Verdict) : Prop :=
  (Verdict.joint 0 vs).tally.swapped.value + (swaps length n + swaps length m) < UInt32.size

/-- The match that comes of an alignment. -/
def arranged (l r : SortRecord) (length n m : Nat) (vs : List Verdict) : MatchNode :=
  .saying l r (.joint (swaps length n + swaps length m) vs)

theorem Fits.close_of_fixed (h : Fits relate t left right n m vs) (barred : t.Barred)
    (inside : pair ∈ aligned left right n m) (fixed : Fixed relate t pair v) : v.Close := by
  obtain ⟨w, among, tells⟩ := rel_of_mem_left h.tells inside
  exact fixed.eq_of_tells barred tells ▸ h.close w among

/-- Pairs that stand in another order say the same, in another order. -/
theorem Fits.perm_of_fixed (h : Fits relate t left right n m vs) (barred : t.Barred)
    (permuted : (aligned left right n m).Perm pairs)
    (fixed : List.Forall₂ (Fixed relate t) pairs ws) : vs.Perm ws := by
  obtain ⟨us, fixed, permuted⟩ := List.perm_comp_forall₂ permuted fixed
  have equal : List.Forall₂ (· = ·) vs us :=
    forall₂_join h.tells fixed fun _ _ _ _ tells fixed ↦ fixed.eq_of_tells barred tells
  rw [List.forall₂_eq_eq_eq] at equal
  exact equal ▸ permuted

/-- The best of all alignments. There is none if and only if none fits. Otherwise it splits the left
chain only, at an offset `n`; no alignment is preferred to it that splits the left chain only or
whose swaps can be counted; and it is preferred to all that split the left chain only, at a smaller
offset. -/
structure Arranges (relate : Relate) (l r : SortRecord) (left right : List SortId) (t : Matchings)
    (best : Option MatchId) : Prop where
  none_iff : best = none ↔ ∀ n < left.length, ∀ m < left.length, ∀ vs,
    ¬ Fits relate t left right n m vs
  some : ∀ id, best = some id → ∃ node n vs, t.get? id = some node ∧ n < left.length ∧
    Fits relate t left right n 0 vs ∧ node.alone = arranged l r left.length n 0 vs ∧
    (∀ n' < left.length, ∀ m' < left.length, ∀ ws, Fits relate t left right n' m' ws →
      m' = 0 ∨ Roomy left.length n' m' ws →
      (node.prefer (arranged l r left.length n' m' ws)).isLE) ∧
    ∀ n' < n, ∀ ws, Fits relate t left right n' 0 ws →
      node.prefer (arranged l r left.length n' 0 ws) = .lt

/-! ### Searching -/

/-- What the elements that are aligned so far say together. -/
def Rule.Alignment.verdict (sofar : Rule.Alignment) : Verdict :=
  ⟨sofar.level, sofar.grade, sofar.tally⟩

/-- What comes of matching pairs one after the other: what they say, fixed, or a pair that is not
close. -/
def Judges (relate : Relate) (t : Matchings) (pairs : List (SortId × SortId)) (sofar : Verdict) :
    Option Rule.Alignment → Prop
  | some found => ∃ vs, List.Forall₂ (Fixed relate t) pairs vs ∧ (∀ v ∈ vs, v.Close) ∧
    found.verdict = vs.foldl .add sofar
  | none => ∃ pair ∈ pairs, ∃ v, Fixed relate t pair v ∧ ¬ v.Close

/-- What comes of trying an offset: a match that says what the alignment does, or a pair that is not
close. -/
def Turns (relate : Relate) (l r : SortRecord) (left right : List SortId) (t : Matchings)
    (n : Nat) : Option MatchId → Prop
  | some id => ∃ node vs, t.get? id = some node ∧
    List.Forall₂ (Fixed relate t) (aligned left right n 0) vs ∧ (∀ v ∈ vs, v.Close) ∧
    node.alone = arranged l r left.length n 0 vs
  | none => ∃ pair ∈ aligned left right n 0, ∃ v, Fixed relate t pair v ∧ ¬ v.Close

theorem MatchNode.alone_of_untied {node node' : MatchNode} (same : node'.untied = node.untied) :
    node'.alone = node.alone := by
  have eq := congrArg MatchNode.alone same
  exact eq

theorem Turns.later {found : Option MatchId} (h : Turns relate l r left right t n found)
    (later : Retains t t') : Turns relate l r left right t' n found := by
  cases found with
  | none =>
    obtain ⟨pair, inside, v, fixed, far⟩ := h
    exact ⟨pair, inside, v, fixed.later later, far⟩
  | some id =>
    obtain ⟨node, vs, here, fixed, close, told⟩ := h
    obtain ⟨node', here', same⟩ := later.nodes _ _ here
    exact ⟨node', vs, here', fixed.imp fun _ _ fixed ↦ fixed.later later, close,
      (MatchNode.alone_of_untied same).trans told⟩

section

variable (steadfast : Steadfast relate)

include steadfast

theorem ends_align_judges (pairs : List (SortId × SortId)) (barred : t.Barred)
    (sofar : Rule.Alignment) :
    Ends (align relate sofar pairs) t (fun found t' ↦ Retains t t' ∧
      Judges relate t' pairs sofar.verdict found) fun _ ↦ True := by
  induction pairs generalizing t sofar with
  | nil => exact Ends.pure ⟨.refl t, [], .nil, by simp, rfl⟩
  | cons pair pairs ih =>
    refine Ends.bind (((steadfast.retains pair.1 pair.2 t).and (ends_answered _ t)).mono
      (fun element t₁ made ↦ ?_) fun _ _ ↦ trivial)
    obtain ⟨retains, run⟩ := made
    have barred₁ := retains.barred barred
    refine Ends.bind (ends_nodeOf trivial fun node here ↦ ?_)
    have fixed := steadfast.fixed barred run ⟨node, here, rfl⟩
    split_ifs with far
    · exact Ends.pure ⟨retains, pair, List.mem_cons_self, _, fixed, Nat.not_le.mpr far⟩
    refine (ih barred₁ _).mono (fun found t' made ↦ ⟨retains.trans made.1, ?_⟩) fun _ _ ↦ trivial
    obtain ⟨later, judges⟩ := made
    cases found with
    | none =>
      obtain ⟨other, among, v, fixed', far'⟩ := judges
      exact ⟨other, List.mem_cons_of_mem _ among, v, fixed', far'⟩
    | some found =>
      obtain ⟨vs, each, close, told⟩ := judges
      exact ⟨node.verdict :: vs, .cons (fixed.later later) each,
        List.forall_mem_cons.mpr ⟨Nat.le_of_not_lt far, close⟩, told⟩

theorem ends_rotation_turns (l r : SortRecord) (left right : List SortId) (n : Nat)
    (barred : t.Barred) :
    Ends (Rule.rotation relate l r left right n) t (fun found t' ↦ Retains t t' ∧
      Turns relate l r left right t' n found) fun _ ↦ True := by
  have paired : (left.rotateLeft n).zip right = aligned left right n 0 := by
    rw [aligned, rotateLeft_eq_rotate, List.rotate_zero]
  unfold Rule.rotation
  rw [paired]
  refine Ends.bind ((ends_align_judges steadfast _ barred _).mono (fun found t₁ made ↦ ?_)
    fun _ _ ↦ trivial)
  obtain ⟨retains, judges⟩ := made
  cases found with
  | none => exact Ends.pure ⟨retains, judges⟩
  | some found =>
    obtain ⟨vs, each, close, told⟩ := judges
    obtain ⟨level, grade, tally, elements⟩ := found
    refine Ends.bind (Ends.get ?_)
    dsimp only
    rw [map_eq_pure_bind]
    refine Ends.bind (ends_push (Ends.pure ?_))
    have later := tolerant_retains.gentle.push t₁
      (node l r level grade tally (nontrivial t₁ elements))
    refine ⟨retains.trans later, _, vs, get?_push_size _,
      each.imp fun _ _ fixed ↦ fixed.later later, close, ?_⟩
    have verdict : (⟨level, grade, tally⟩ : Verdict) =
        .joint (swaps left.length n + swaps left.length 0) vs := by
      rw [swaps_zero]
      exact told
    rw [arranged, ← verdict]
    rfl

end

/-! ### Choosing -/

/-- The best candidate is the first one that no other is preferred to. -/
theorem exists_first_best (first : Candidate) (others : List Candidate) :
    ∃ before after, first :: others = before ++ others.foldl better first :: after ∧
      (∀ a ∈ before, (others.foldl better first).2.prefer a.2 = .lt) ∧
      ∀ a ∈ after, ((others.foldl better first).2.prefer a.2).isLE := by
  induction others using List.reverseRecOn with
  | nil => exact ⟨[], [], rfl, by simp, by simp⟩
  | append_singleton others last ih =>
    obtain ⟨before, after, split, strict, weak⟩ := ih
    rw [List.foldl_append, List.foldl_cons, List.foldl_nil]
    generalize others.foldl better first = best at split strict weak ⊢
    unfold better
    split_ifs with beats
    · refine ⟨first :: others, [], rfl, fun a inside ↦ ?_, by simp⟩
      have least : (best.2.prefer a.2).isLE := by
        rw [split] at inside
        rcases List.mem_append.mp inside with among | among
        · rw [strict a among]
          rfl
        · rcases List.mem_cons.mp among with rfl | among
          · exact Std.ReflCmp.isLE_rfl
          · exact weak a among
      exact Std.TransCmp.lt_of_lt_of_isLE beats least
    · refine ⟨before, after ++ [last], ?_, strict, fun a inside ↦ ?_⟩
      · rw [← List.cons_append, split, List.append_assoc, List.cons_append]
      · rcases List.mem_append.mp inside with among | among
        · exact weak a among
        · obtain rfl := List.mem_singleton.mp among
          rw [MatchNode.prefer_swap]
          revert beats
          cases a.2.prefer best.2 <;> simp

/-- Choosing answers the first match that no other is preferred to. -/
theorem ends_choose_first (config : Configuration) (ids : List MatchId) :
    Ends (choose config ids) t (fun best t' ↦ Retains t t' ∧ (best = none ∧ ids = [] ∨
      ∃ id before after, best = some id ∧ ids = before ++ id :: after ∧
        ∀ node, t'.get? id = some node →
          (∀ other ∈ before, ∀ node', t'.get? other = some node' → node.prefer node' = .lt) ∧
          ∀ other ∈ after, ∀ node', t'.get? other = some node' → (node.prefer node').isLE))
      fun _ ↦ True := by
  refine ends_choose (fun candidates _ t' ↦ Retains t t' ∧
    ∀ candidate ∈ candidates, t.get? candidate.1 = some candidate.2) trivial
    (fun empty ↦ ⟨.refl t, .inl ⟨rfl, empty⟩⟩) (fun first others _ there ↦ ⟨.refl t, there⟩)
    (fun candidates best candidate _ _ _ t' reached ↦ ?_) fun first others t' same reached ↦ ?_
  · exact (Respects.chain tolerant_retains config best.1 candidate.1 t').mono
      (fun _ _ next ↦ ⟨reached.1.trans next, reached.2⟩) fun _ _ ↦ trivial
  · obtain ⟨retains, there⟩ := reached
    obtain ⟨before, after, split, strict, weak⟩ := exists_first_best first others
    rw [split] at there same
    rw [List.map_append, List.map_cons] at same
    -- Ties do not change what the preference goes by.
    have standing (candidate : Candidate)
        (inside : candidate ∈ before ++ others.foldl better first :: after) (node : MatchNode)
        (here : t'.get? candidate.1 = some node) : node.standing = candidate.2.standing := by
      obtain ⟨node', here', untied⟩ := retains.nodes _ _ (there candidate inside)
      rw [here] at here'
      cases here'
      exact MatchNode.standing_of_untied untied
    refine ⟨retains, .inr ⟨_, _, _, rfl, same.symm, fun node here ↦
      ⟨fun other among node' here' ↦ ?_, fun other among node' here' ↦ ?_⟩⟩⟩
    · obtain ⟨candidate, inside, rfl⟩ := List.mem_map.mp among
      rw [MatchNode.prefer_congr (standing _ (by simp) node here)
        (standing candidate (by simp [inside]) node' here')]
      exact strict candidate inside
    · obtain ⟨candidate, inside, rfl⟩ := List.mem_map.mp among
      rw [MatchNode.prefer_congr (standing _ (by simp) node here)
        (standing candidate (by simp [inside]) node' here')]
      exact weak candidate inside

/-- Where the items that are there are split at one of them, that one has a place such that all
before it are among the first ones. -/
theorem exists_place_of_reduceOption {items : List (Option α)} {before after : List α} {a : α}
    (split : items.reduceOption = before ++ a :: after) : ∃ n : Nat, items[n]? = some (some a) ∧
      ∀ i < n, ∀ b, items[i]? = some (some b) → b ∈ before := by
  obtain ⟨first, rest, rfl, rfl, onwards⟩ := List.filterMap_eq_append_iff.mp split
  obtain ⟨gaps, _, last, rfl, none, rfl, -⟩ := List.filterMap_eq_cons_iff.mp onwards
  refine ⟨(first ++ gaps).length, ?_, fun i lower b here ↦ ?_⟩
  · rw [← List.append_assoc, List.getElem?_append_right le_rfl, Nat.sub_self]
    rfl
  · rw [← List.append_assoc, List.getElem?_append_left lower] at here
    rcases List.mem_append.mp (List.mem_of_getElem? here) with among | among
    · exact List.mem_filterMap.mpr ⟨_, among, rfl⟩
    · cases none _ among

/-! ### The best rotation -/

section

variable {found : Option MatchId} {node : MatchNode}

/-- If an alignment fits, trying the single offset that its offsets come to makes a match, to which
it is not preferred; and the two say the same if the right chain is not split. -/
theorem Fits.exists_turned (h : Fits relate t left right n m ws) (barred : t.Barred)
    (same : left.length = right.length) (onLeft : n < left.length) (onRight : m < left.length)
    (turns : Turns relate l r left right t (shift left.length n m) found) :
    ∃ id node, found = some id ∧ t.get? id = some node ∧
      (m = 0 → node.alone = arranged l r left.length n m ws) ∧
      (m = 0 ∨ Roomy left.length n m ws →
        (node.prefer (arranged l r left.length n m ws)).isLE) := by
  have permuted := perm_aligned (n := n) same onRight
  cases found with
  | none =>
    obtain ⟨pair, inside, v, fixed, far⟩ := turns
    exact absurd (h.close_of_fixed barred (permuted.mem_iff.mpr inside) fixed) far
  | some id =>
    obtain ⟨node, vs, here, fixed, -, told⟩ := turns
    have joint := Verdict.joint_perm (h.perm_of_fixed barred permuted fixed)
    have alike : m = 0 → node.alone = arranged l r left.length n m ws := by
      rintro rfl
      rw [told, arranged, arranged, joint, shift, if_pos (Nat.zero_le n), Nat.sub_zero]
    refine ⟨id, node, rfl, here, alike, ?_⟩
    rintro (single | room)
    · rw [MatchNode.prefer_congr (alike single ▸ (MatchNode.standing_alone node).symm) rfl]
      exact Std.ReflCmp.isLE_rfl
    · have standing : node.standing =
          (arranged l r left.length (shift left.length n m) 0 vs).standing := by
        rw [← told, MatchNode.standing_alone]
      rw [Roomy, joint] at room
      rw [MatchNode.prefer_congr standing rfl, arranged, arranged, joint, swaps_zero]
      exact MatchNode.isLE_prefer_saying_joint (swaps_shift_le onLeft onRight) l r vs room

end

section

variable {founds : List (Option MatchId)}

/-- What comes of trying every offset in turn. -/
structure Tried (relate : Relate) (l r : SortRecord) (left right : List SortId) (t : Matchings)
    (founds : List (Option MatchId)) : Prop where
  length : founds.length = left.length
  turns : ∀ n < left.length, ∃ found, founds[n]? = some found ∧
    Turns relate l r left right t n found

theorem Tried.later (h : Tried relate l r left right t founds) (later : Retains t t') :
    Tried relate l r left right t' founds where
  length := h.length
  turns n inside :=
    let ⟨found, place, turns⟩ := h.turns n inside
    ⟨found, place, turns.later later⟩

theorem ends_tried (steadfast : Steadfast relate) (l r : SortRecord) (left right : List SortId)
    (barred : t.Barred) :
    Ends ((List.range left.length).mapM (Rule.rotation relate l r left right)) t
      (fun founds t' ↦ Retains t t' ∧ Tried relate l r left right t' founds) fun _ ↦ True := by
  have tries : Ends ((List.range left.length).mapM (Rule.rotation relate l r left right)) t _ _ :=
    ends_mapM_occurs tolerant_retains.gentle fun n _ ↦
      respects_rotation tolerant_retains.gentle steadfast.retains l r left right n
  refine tries.mono (fun founds t' made ↦ ?_) fun _ _ ↦ trivial
  obtain ⟨retains, occurs⟩ := made
  have length : left.length = founds.length := by
    rw [← occurs.length_eq, List.length_range]
  refine ⟨retains, length.symm, fun n inside ↦ ?_⟩
  obtain ⟨s, s', started, run, ended⟩ :=
    occurs.get (i := n) (by simpa using inside) (length ▸ inside)
  refine ⟨founds[n], List.getElem?_eq_getElem _, ?_⟩
  have made := (ends_rotation_turns steadfast l r left right n (started.barred barred)).of_ok
    (by simpa using run)
  exact made.2.later ended

/-- For every alignment that fits, a match was found that it is not preferred to. -/
theorem Tried.exists_turned (h : Tried relate l r left right t founds) (barred : t.Barred)
    (same : left.length = right.length) (onLeft : n < left.length) (onRight : m < left.length)
    (fits : Fits relate t left right n m ws) : ∃ id node,
      founds[shift left.length n m]? = some (some id) ∧ id ∈ founds.reduceOption ∧
      t.get? id = some node ∧ (m = 0 → node.alone = arranged l r left.length n m ws) ∧
      (m = 0 ∨ Roomy left.length n m ws →
        (node.prefer (arranged l r left.length n m ws)).isLE) := by
  obtain ⟨found, place, turns⟩ := h.turns _ (shift_lt onLeft onRight)
  obtain ⟨id, node, rfl, made⟩ := fits.exists_turned barred same onLeft onRight turns
  exact ⟨id, node, place, List.reduceOption_mem_iff.mpr (List.mem_of_getElem? place), made⟩

/-- What was found first among all that nothing found is preferred to is the best of all
alignments. -/
theorem Tried.arranges {before after : List MatchId} (h : Tried relate l r left right t founds)
    (barred : t.Barred) (same : left.length = right.length)
    (split : founds.reduceOption = before ++ id :: after)
    (first : ∀ node, t.get? id = some node →
      (∀ other ∈ before, ∀ node', t.get? other = some node' → node.prefer node' = .lt) ∧
      ∀ other ∈ after, ∀ node', t.get? other = some node' → (node.prefer node').isLE) :
    Arranges relate l r left right t (some id) := by
  obtain ⟨n, place, firsts⟩ := exists_place_of_reduceOption split
  have inside : n < left.length := h.length ▸ (List.getElem?_eq_some_iff.mp place).1
  obtain ⟨found, place', turns⟩ := h.turns n inside
  rw [place] at place'
  cases place'
  obtain ⟨node, vs, here, fixed, close, told⟩ := turns
  have fits : Fits relate t left right n 0 vs :=
    ⟨fixed.imp fun _ _ fixed ↦ fixed.tells barred, close⟩
  obtain ⟨strict, weak⟩ := first node here
  refine ⟨iff_of_false (by simp) fun none ↦ none n inside 0 (by omega) vs fits, ?_⟩
  rintro _ ⟨⟩
  refine ⟨node, n, vs, here, inside, fits, told, fun n' onLeft m' onRight ws fits' counted ↦ ?_,
    fun n' lower ws fits' ↦ ?_⟩
  · obtain ⟨id', node', -, among, here', -, le⟩ := h.exists_turned barred same onLeft onRight fits'
    refine Std.TransCmp.isLE_trans ?_ (le counted)
    rw [split, List.mem_append, List.mem_cons] at among
    rcases among with earlier | rfl | later
    · rw [strict id' earlier node' here']
      rfl
    · rw [here] at here'
      cases here'
      exact Std.ReflCmp.isLE_rfl
    · exact weak id' later node' here'
  · obtain ⟨id', node', place', -, here', told', -⟩ :=
      h.exists_turned barred same (lower.trans inside) (Nat.zero_lt_of_lt inside) fits'
    rw [shift, if_pos (Nat.zero_le n'), Nat.sub_zero] at place'
    rw [← told' rfl]
    exact strict id' (firsts n' lower id' place') node' here'

end

section

variable {c : Catalog} {config : Configuration}

/-- The search for the best rotation finds the best of all alignments. -/
theorem ends_bestRotation_arranges (steadfast : Steadfast relate) (barred : t.Barred)
    (ofLeft : c.spine l.id = .ok left) (ofRight : c.spine r.id = .ok right)
    (several : 2 ≤ left.length) (same : left.length = right.length) :
    Ends (bestRotation c config relate l r) t (fun best t' ↦
      t'.Barred ∧ Arranges relate l r left right t' best) fun _ ↦ True := by
  unfold bestRotation
  rw [ofLeft, ofRight]
  change Ends (if left.length < 2 ∨ left.length ≠ right.length then _ else _) t _ _
  rw [if_neg (by omega)]
  refine Ends.bind ((ends_tried steadfast l r left right barred).mono (fun founds t₁ made ↦ ?_)
    fun _ _ ↦ trivial)
  obtain ⟨retains, tried⟩ := made
  refine (ends_choose_first config founds.reduceOption).mono (fun best t' made ↦ ?_)
    fun _ _ ↦ trivial
  obtain ⟨later, chosen⟩ := made
  have barred' := later.barred (retains.barred barred)
  refine ⟨barred', ?_⟩
  obtain ⟨rfl, none⟩ | ⟨id, before, after, rfl, split, first⟩ := chosen
  · refine ⟨iff_of_true rfl fun n onLeft m onRight ws fits ↦ ?_, by simp⟩
    obtain ⟨id, -, -, among, -⟩ :=
      (tried.later later).exists_turned barred' same onLeft onRight fits
    rw [none] at among
    cases among
  · exact (tried.later later).arranges barred' same split first

end

end CompositeSorts
