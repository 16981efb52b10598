import CompositeSorts.Proofs.Matching.Tables
import Mathlib.Data.List.Sort

/-!
Taking pairings. When two disjunctions are matched in a table, each pair of components gives not
only its own match but those tied behind it. They are equally good and of the same two components,
so the sort, which is stable, puts them behind the match they are tied to; and by then these
components are no longer both free. So what is taken is what is taken without ties
(`forall₂_accept`).

The pairings of one pair of components are a `Cell`; that the pairings of a sorted list are the ones
to be taken, with others between them that cannot be, is `Led`.
-/

set_option autoImplicit false
set_option relaxedAutoImplicit false

namespace CompositeSorts

/-! ### Sorting -/

/-- To sort a list is to sort its tail and to insert its head. -/
theorem mergeSort_cons_eq_orderedInsert {α : Type} (le : α → α → Bool)
    (trans : ∀ a b c, le a b → le b c → le a c) (total : ∀ a b, le a b || le b a) (a : α)
    (items : List α) : (a :: items).mergeSort le =
      (items.mergeSort le).orderedInsert (fun x y ↦ le x y = true) a := by
  obtain ⟨before, after, sorted, rest, smaller⟩ := List.mergeSort_cons trans total a items
  have order := List.pairwise_mergeSort trans total (a :: items)
  rw [sorted] at order
  rw [sorted, rest]
  clear sorted rest
  induction before with
  | nil =>
    cases after with
    | nil => rfl
    | cons b after =>
      have first : le a b = true := (List.pairwise_cons.mp order).1 b List.mem_cons_self
      exact (List.orderedInsert_cons_of_le (fun x y ↦ le x y = true) after first).symm
  | cons b before ih =>
    have later : ¬ le a b = true := by simpa using smaller b List.mem_cons_self
    rw [List.cons_append, List.cons_append,
      List.orderedInsert_of_not_le (fun x y ↦ le x y = true) _ later]
    exact congrArg (b :: ·) (ih (fun b inside ↦ smaller b (List.mem_cons_of_mem _ inside))
      (List.pairwise_cons.mp order).2)

/-- Whatever has matches is preordered by the preference between them. -/
theorem transCmp_prefer {α : Type} (node : α → MatchNode) :
    Std.TransCmp fun a b ↦ (node a).prefer (node b) where
  eq_swap := Std.OrientedCmp.eq_swap
  isLE_trans := Std.TransCmp.isLE_trans

instance : Std.TransCmp Rule.Pairing.compare :=
  haveI := transCmp_prefer Rule.Pairing.node
  inferInstanceAs (Std.TransCmp (compareLex (fun a b ↦ a.node.prefer b.node)
    (compareLex (compareOn Rule.Pairing.left) (compareOn Rule.Pairing.right))))

instance : Std.TransCmp Appraisal.Pairing.compare :=
  haveI := transCmp_prefer fun pairing : Appraisal.Pairing ↦ pairing.finding.node
  inferInstanceAs (Std.TransCmp (compareLex
    (fun a b : Appraisal.Pairing ↦ a.finding.node.prefer b.finding.node)
    (compareLex (compareOn Appraisal.Pairing.left) (compareOn Appraisal.Pairing.right))))

/-- The order in which pairings are taken, in a table and without. -/
abbrev Rule.Pairing.le (a b : Rule.Pairing) : Bool := (a.compare b).isLE

abbrev Appraisal.Pairing.le (a b : Appraisal.Pairing) : Bool := (a.compare b).isLE

theorem isLE_total {α : Type} {cmp : α → α → Ordering} [Std.OrientedCmp cmp] (a b : α) :
    (cmp a b).isLE || (cmp b a).isLE := by
  rw [@Std.OrientedCmp.eq_swap _ cmp _ b a]
  cases cmp a b <;> rfl

/-! ### Pairings with ties -/

open Matchings

variable {t t' u : Matchings} {a b : Rule.Pairing} {p q : Appraisal.Pairing}
  {found rest : List Rule.Pairing} {plain plainRest : List Appraisal.Pairing}
  {blocked blocked' : Rule.Pairing → Prop}

/-- The pairing shows the other one, with a match that was not loose at `u`. -/
structure Pairs (u t : Matchings) (a : Rule.Pairing) (p : Appraisal.Pairing) : Prop where
  left : a.left = p.left
  right : a.right = p.right
  usable : Usable u t a.id p.finding
  node : a.node.alone = p.finding.node

/-- The pairings are of the same components. -/
def SameCell (a b : Rule.Pairing) : Prop := a.left = b.left ∧ a.right = b.right

/-- What two components give: nothing, or the match that shows the pairing and such as are as
good. -/
def Cell (u t : Matchings) (found : List Rule.Pairing) (plain : List Appraisal.Pairing) : Prop :=
  found = [] ∧ plain = [] ∨ ∃ head ties p, found = head :: ties ∧ plain = [p] ∧ Pairs u t head p ∧
    ∀ tie ∈ ties, SameCell head tie ∧ tie.node.standing = head.node.standing

theorem Pairs.compare_eq (h : Pairs u t a p) (h' : Pairs u t b q) : a.compare b = p.compare q := by
  have prefers : a.node.prefer b.node = p.finding.node.prefer q.finding.node := by
    rw [← h.node, ← h'.node]
    exact MatchNode.prefer_congr (MatchNode.standing_alone _).symm (MatchNode.standing_alone _).symm
  unfold Rule.Pairing.compare Appraisal.Pairing.compare
  rw [prefers, h.left, h.right, h'.left, h'.right]

theorem Pairs.later (h : Pairs u t a p) (later : Extends t t') : Pairs u t' a p :=
  ⟨h.left, h.right, h.usable.later later, h.node⟩

theorem Cell.later (h : Cell u t found plain) (later : Extends t t') : Cell u t' found plain := by
  rcases h with nothing | ⟨head, ties, p, made, plainMade, pairs, tied⟩
  · exact Or.inl nothing
  · exact Or.inr ⟨head, ties, p, made, plainMade, pairs.later later, tied⟩

/-- The pairings of the first list are those of the second, with blocked ones between them: those of
the same components as an earlier pairing, and those that are blocked from the start. -/
inductive Led (u t : Matchings) :
    (Rule.Pairing → Prop) → List Rule.Pairing → List Appraisal.Pairing → Prop where
  | nil {blocked : Rule.Pairing → Prop} : Led u t blocked [] []
  | take {blocked : Rule.Pairing → Prop} {a : Rule.Pairing} {p : Appraisal.Pairing}
      {found : List Rule.Pairing} {plain : List Appraisal.Pairing} (pairs : Pairs u t a p)
      (rest : Led u t (fun b ↦ blocked b ∨ SameCell a b) found plain) :
      Led u t blocked (a :: found) (p :: plain)
  | skip {blocked : Rule.Pairing → Prop} {a : Rule.Pairing} {found : List Rule.Pairing}
      {plain : List Appraisal.Pairing} (here : blocked a) (rest : Led u t blocked found plain) :
      Led u t blocked (a :: found) plain

namespace Led

theorem mono (h : Led u t blocked found plain) (more : ∀ b ∈ found, blocked b → blocked' b) :
    Led u t blocked' found plain := by
  induction h generalizing blocked' with
  | nil => exact .nil
  | take pairs _ ih =>
    exact .take pairs (ih fun b inside ↦ Or.imp_left (more b (List.mem_cons_of_mem _ inside)))
  | skip here _ ih =>
    exact .skip (more _ List.mem_cons_self here)
      (ih fun b inside ↦ more b (List.mem_cons_of_mem _ inside))

theorem exists_pairs (h : Led u t blocked found plain) (inside : p ∈ plain) :
    ∃ a ∈ found, Pairs u t a p := by
  induction h with
  | nil => cases inside
  | take pairs _ ih =>
    rcases List.mem_cons.mp inside with rfl | inside
    · exact ⟨_, List.mem_cons_self, pairs⟩
    · obtain ⟨a, there, pairs'⟩ := ih inside
      exact ⟨a, List.mem_cons_of_mem _ there, pairs'⟩
  | skip _ _ ih =>
    obtain ⟨a, there, pairs⟩ := ih inside
    exact ⟨a, List.mem_cons_of_mem _ there, pairs⟩

/-- A blocked pairing can be inserted. -/
theorem insert (h : Led u t blocked found plain) (here : blocked a) :
    Led u t blocked (found.orderedInsert (fun x y ↦ x.le y = true) a) plain := by
  induction h with
  | nil => exact .skip here .nil
  | take pairs rest ih =>
    rw [List.orderedInsert_cons]
    split_ifs
    · exact .skip here (.take pairs rest)
    · exact .take pairs (ih (Or.inl here))
  | skip here' rest ih =>
    rw [List.orderedInsert_cons]
    split_ifs
    · exact .skip here (.skip here' rest)
    · exact .skip here' (ih here)

/-- A pairing is inserted on both sides. What was blocked only for its sake comes behind it. -/
theorem insert_both (h : Led u t blocked found plain)
    (sorted : found.Pairwise fun x y ↦ x.le y = true) (pairs : Pairs u t a p)
    (spared : ∀ b, blocked b → blocked' b ∨ a.le b = true ∧ SameCell a b) :
    Led u t blocked' (found.orderedInsert (fun x y ↦ x.le y = true) a)
      (plain.orderedInsert (fun x y ↦ x.le y = true) p) := by
  induction h generalizing blocked' with
  | nil => exact .take pairs .nil
  | @take blocked b q found plain pairs' rest ih =>
    have same : a.le b = p.le q := by
      unfold Rule.Pairing.le Appraisal.Pairing.le
      rw [pairs.compare_eq pairs']
    rw [List.orderedInsert_cons, List.orderedInsert_cons, same]
    split_ifs
    · exact .take pairs ((Led.take pairs' rest).mono fun b _ was ↦
        (spared b was).imp_right And.right)
    · refine .take pairs' (ih (List.pairwise_cons.mp sorted).2 fun b' was ↦ ?_)
      rcases was with was | cell
      · exact (spared b' was).imp_left Or.inl
      · exact Or.inl (Or.inr cell)
  | @skip blocked b found plain here rest ih =>
    obtain ⟨first, sorted⟩ := List.pairwise_cons.mp sorted
    rw [List.orderedInsert_cons]
    split_ifs with before
    · have least : plain.orderedInsert (fun x y ↦ x.le y = true) p = p :: plain := by
        cases plain with
        | nil => rfl
        | cons q plain =>
          obtain ⟨b', inside, pairs'⟩ := rest.exists_pairs List.mem_cons_self
          have after : p.le q = true := by
            unfold Appraisal.Pairing.le
            rw [← pairs.compare_eq pairs']
            exact Std.TransCmp.isLE_trans before (first b' inside)
          exact List.orderedInsert_cons_of_le (fun x y ↦ x.le y = true) plain after
      rw [least]
      exact .take pairs ((Led.skip here rest).mono fun b _ was ↦ (spared b was).imp_right And.right)
    · refine .skip ((spared b here).resolve_right fun cell ↦ before cell.1) ?_
      exact ih sorted spared

end Led

/-- The sorted pairings of all components are those without ties, with ties between them. -/
theorem led_mergeSort {cells : List (List Rule.Pairing)}
    {plainCells : List (List Appraisal.Pairing)}
    (each : List.Forall₂ (Cell u t) cells plainCells) : Led u t (fun _ ↦ False)
      (cells.flatten.mergeSort Rule.Pairing.le)
      (plainCells.flatten.mergeSort Appraisal.Pairing.le) := by
  have cons (a : Rule.Pairing) (items : List Rule.Pairing) :=
    mergeSort_cons_eq_orderedInsert Rule.Pairing.le
      (fun _ _ _ ↦ Std.TransCmp.isLE_trans) isLE_total a items
  have plainCons (p : Appraisal.Pairing) (items : List Appraisal.Pairing) :=
    mergeSort_cons_eq_orderedInsert Appraisal.Pairing.le
      (fun _ _ _ ↦ Std.TransCmp.isLE_trans) isLE_total p items
  induction each with
  | nil =>
    rw [List.flatten_nil, List.flatten_nil, List.mergeSort_nil, List.mergeSort_nil]
    exact .nil
  | @cons cell plainCell cells plainCells first _ ih =>
    rcases first with ⟨rfl, rfl⟩ | ⟨head, ties, p, rfl, rfl, pairs, tied⟩
    · exact ih
    rw [List.flatten_cons, List.flatten_cons, List.cons_append, List.cons_append, List.nil_append,
      cons, plainCons]
    have behind : Led u t (fun b ↦ head.le b = true ∧ SameCell head b)
        ((ties ++ cells.flatten).mergeSort Rule.Pairing.le)
        (plainCells.flatten.mergeSort Appraisal.Pairing.le) := by
      induction ties with
      | nil => exact ih.mono fun _ _ ↦ False.elim
      | cons tie ties ih' =>
        rw [List.cons_append, cons]
        refine (ih' fun other inside ↦ tied other (List.mem_cons_of_mem _ inside)).insert ?_
        obtain ⟨cell, standing⟩ := tied tie List.mem_cons_self
        refine ⟨?_, cell⟩
        have equal : head.node.prefer tie.node = .eq :=
          (MatchNode.prefer_congr rfl standing).trans (Std.ReflCmp.compare_self)
        unfold Rule.Pairing.le Rule.Pairing.compare
        rw [equal, cell.1, cell.2]
        simp
    refine behind.insert_both ?_ pairs fun b was ↦ Or.inr was
    exact List.pairwise_mergeSort (fun _ _ _ ↦ Std.TransCmp.isLE_trans) isLE_total _

/-- Blocked pairings are not taken. -/
theorem Led.forall₂_takeFree (h : Led u t blocked found plain) :
    ∀ {taken plainTaken}, List.Forall₂ (Pairs u t) taken plainTaken →
      (∀ b, blocked b → ∃ a ∈ taken, a.left = b.left ∨ a.right = b.right) →
      List.Forall₂ (Pairs u t) (Rule.takeFree taken found)
        (Appraisal.takeFree plainTaken plain) := by
  induction h with
  | nil => exact fun same _ ↦ same
  | @take blocked a p found plain pairs _ ih =>
    intro taken plainTaken same covers
    have meets : (taken.any fun earlier ↦ earlier.left = a.left || earlier.right = a.right) =
        plainTaken.any fun earlier ↦ earlier.left = p.left || earlier.right = p.right := by
      clear covers ih
      induction same with
      | nil => rfl
      | cons first _ ih =>
        rw [List.any_cons, List.any_cons, ih, first.left, first.right, pairs.left, pairs.right]
    rw [Rule.takeFree, Appraisal.takeFree, meets]
    split_ifs with busy
    · rw [← meets] at busy
      refine ih same fun b was ↦ ?_
      rcases was with was | cell
      · exact covers b was
      · obtain ⟨earlier, inside, meet⟩ := List.any_eq_true.mp busy
        refine ⟨earlier, inside, ?_⟩
        rw [← cell.1, ← cell.2]
        simpa using meet
    · refine ih (List.rel_append same (.cons pairs .nil)) fun b was ↦ ?_
      rcases was with was | cell
      · obtain ⟨earlier, inside, meet⟩ := covers b was
        exact ⟨earlier, List.mem_append_left _ inside, meet⟩
      · exact ⟨a, List.mem_append_right _ List.mem_cons_self, Or.inl cell.1⟩
  | @skip blocked a found plain here _ ih =>
    intro taken plainTaken same covers
    obtain ⟨earlier, inside, meet⟩ := covers a here
    have busy : (taken.any fun earlier ↦ earlier.left = a.left || earlier.right = a.right) = true :=
      List.any_eq_true.mpr ⟨earlier, inside, by simpa using meet⟩
    rw [Rule.takeFree, if_pos busy]
    exact ih same covers

/-- What is taken with ties is what is taken without. -/
theorem forall₂_accept {cells : List (List Rule.Pairing)}
    {plainCells : List (List Appraisal.Pairing)} (each : List.Forall₂ (Cell u t) cells plainCells) :
    List.Forall₂ (Pairs u t) (Rule.accept cells.flatten) (Appraisal.accept plainCells.flatten) :=
  (led_mergeSort each).forall₂_takeFree .nil fun _ ↦ False.elim

end CompositeSorts
