import CompositeSorts.Proofs.Matching.Arranging
import CompositeSorts.Proofs.Matching.Keeping

/-!
What two disjunctions add up to. Every component on the left is matched with every one on the right,
and the congruous matches that come of it, with those chained behind them, are the candidates
(`Gathered`). Candidates are taken in the order of preference as long as their components are free,
so a candidate that is not taken meets one that is and comes no later (`Picked`); then no two
components are left over that have a congruous match. The match of the disjunctions says what the
ones that are taken add up to, with the components that are left over (`AddsUp`), whatever the table
was when they were matched (`ends_composition_exact`). Counters that are added one after the other
come to the sum of their values, of which 32 bits are kept (`Counter.Totals`).
-/

set_option autoImplicit false
set_option relaxedAutoImplicit false

namespace CompositeSorts

open Matchings Matching Rule

variable {α β : Type} {relate : Relate} {t t' s s' : Matchings}
  {l r : SortRecord} {left right : List SortId} {found taken : List Rule.Pairing}
  {p q : Rule.Pairing}

/-! ### Candidates -/

/-- What matching two components brought: the match that was answered, and the table then. -/
structure Cross where
  head : MatchId
  table : Matchings

/-- The match is the one that was answered or one chained behind it, and it is congruous. -/
def Cross.Offers (cross : Cross) (id : MatchId) (node : MatchNode) : Prop :=
  id ∈ cross.head :: cross.table.alternatives cross.head ∧ cross.table.get? id = some node ∧
    node.incongruous = false

/-- The two components were matched at some time from `t` to `t'`. -/
def Cross.Answers (relate : Relate) (t t' : Matchings) (a b : SortId) (cross : Cross) : Prop :=
  ∃ before, Keeps t before ∧ relate a b before = .ok cross.head cross.table ∧
    Keeps cross.table t'

theorem Cross.Answers.within {a b : SortId} {cross : Cross} (h : cross.Answers relate s s' a b)
    (before : Keeps t s) (later : Keeps s' t') : cross.Answers relate t t' a b := by
  obtain ⟨u, started, run, ended⟩ := h
  exact ⟨u, before.trans started, run, ended.trans later⟩

/-- Each two components were matched, and the candidates are the matches that this offers. -/
structure Gathered (relate : Relate) (left right : List SortId) (t t' : Matchings)
    (cross : Nat → Nat → Cross) (found : List Pairing) : Prop where
  answered : ∀ {i j : Nat} {a b : SortId}, left[i]? = some a → right[j]? = some b →
    (cross i j).Answers relate t t' a b
  found_iff : ∀ p, p ∈ found ↔ p.left < left.length ∧ p.right < right.length ∧
    (cross p.left p.right).Offers p.id p.node

theorem Gathered.later {cross : Nat → Nat → Cross}
    (h : Gathered relate left right t s cross found) (later : Keeps s t') :
    Gathered relate left right t t' cross found where
  answered isLeft isRight := (h.answered isLeft isRight).within (.refl t) later
  found_iff := h.found_iff

/-- The pairings of two components are those that their match offers. -/
theorem ends_pairings_offered
    (leftComponent rightComponent : SortId × Nat) :
    Ends (pairings relate leftComponent rightComponent) t (fun cell t' ↦ ∃ cross : Cross,
      cross.Answers relate t t' leftComponent.1 rightComponent.1 ∧ ∀ p, p ∈ cell ↔
        p.left = leftComponent.2 ∧ p.right = rightComponent.2 ∧ cross.Offers p.id p.node)
      fun _ ↦ True := by
  refine Ends.bind ((ends_answered _ t).mono (fun head seen run ↦ ?_) fun _ _ ↦ trivial)
  refine Ends.bind (Ends.get ?_)
  refine Ends.bind ((Ends.mapM (fun before read s ↦ s = seen ∧ ∀ p : Pairing, p ∈ read ↔
    p.left = leftComponent.2 ∧ p.right = rightComponent.2 ∧ p.id ∈ before ∧
      seen.get? p.id = some p.node) (head :: seen.alternatives head) ⟨rfl, by simp⟩ ?_).mono ?_
      fun _ failed ↦ failed)
  · rintro id - before read _ ⟨rfl, known⟩
    refine Ends.bind (ends_nodeOf trivial fun node here ↦ Ends.pure ⟨rfl, fun p ↦ ?_⟩)
    rw [List.mem_append, List.mem_append, known, List.mem_singleton, List.mem_singleton]
    constructor
    · rintro (⟨onLeft, onRight, inside, there⟩ | rfl)
      · exact ⟨onLeft, onRight, .inl inside, there⟩
      · exact ⟨rfl, rfl, .inr rfl, here⟩
    · rintro ⟨onLeft, onRight, inside | this, there⟩
      · exact .inl ⟨onLeft, onRight, inside, there⟩
      · obtain ⟨i, j, id', node'⟩ := p
        cases onLeft
        cases onRight
        cases this
        rw [here] at there
        cases there
        exact .inr rfl
  · rintro read _ ⟨rfl, known⟩
    refine Ends.pure ⟨⟨head, _⟩, ⟨t, .refl t, run, .refl _⟩, fun p ↦ ?_⟩
    rw [List.mem_filter, known, Bool.not_eq_true']
    exact ⟨fun ⟨⟨onLeft, onRight, inside, there⟩, close⟩ ↦ ⟨onLeft, onRight, inside, there, close⟩,
      fun ⟨onLeft, onRight, inside, there, close⟩ ↦ ⟨⟨onLeft, onRight, inside, there⟩, close⟩⟩

/-- What is related to the elements of a list with their positions is related place by place. -/
theorem getElem?_of_forall₂_zipIdx {related : α × Nat → β → Prop} {items : List α}
    {answers : List β} (h : List.Forall₂ related items.zipIdx answers) :
    (∀ i a, items[i]? = some a → ∃ b, answers[i]? = some b ∧ related (a, i) b) ∧
      ∀ i b, answers[i]? = some b → ∃ a, items[i]? = some a ∧ related (a, i) b := by
  have length := h.length_eq
  rw [List.length_zipIdx] at length
  have here (i : Nat) (inside : i < items.length) : related (items[i], i) answers[i] := by
    simpa using h.get (i := i) (by simpa using inside) (length ▸ inside)
  refine ⟨fun i a is ↦ ?_, fun i b is ↦ ?_⟩
  · obtain ⟨inside, rfl⟩ := List.getElem?_eq_some_iff.mp is
    exact ⟨_, List.getElem?_eq_getElem (length ▸ inside), here i inside⟩
  · obtain ⟨inside, rfl⟩ := List.getElem?_eq_some_iff.mp is
    exact ⟨_, List.getElem?_eq_getElem (length ▸ inside), here i (length ▸ inside)⟩

/-- Where all elements of each list have their place in common, each is in the list at its place. -/
theorem mem_flatten_iff_of_placed (place : α → Nat) {rows : List (List α)}
    (placed : ∀ i row, rows[i]? = some row → ∀ a ∈ row, place a = i) (a : α) :
    a ∈ rows.flatten ↔ ∃ row, rows[place a]? = some row ∧ a ∈ row := by
  rw [List.mem_flatten]
  constructor
  · rintro ⟨row, among, here⟩
    obtain ⟨i, is⟩ := List.mem_iff_getElem?.mp among
    obtain rfl := placed i row is a here
    exact ⟨row, is, here⟩
  · rintro ⟨row, is, here⟩
    exact ⟨row, List.mem_of_getElem? is, here⟩

/-- The pairings of a component on the left with all on the right. -/
structure Row (relate : Relate) (t t' : Matchings) (right : List SortId) (component : SortId × Nat)
    (row : List Pairing) : Prop where
  placed : ∀ p ∈ row, p.left = component.2 ∧ p.right < right.length
  crossed : ∀ {j : Nat} {b : SortId}, right[j]? = some b → ∃ cross : Cross,
    cross.Answers relate t t' component.1 b ∧ ∀ p : Pairing, p.right = j →
      (p ∈ row ↔ p.left = component.2 ∧ cross.Offers p.id p.node)

theorem Row.within {component : SortId × Nat} {row : List Pairing}
    (h : Row relate s s' right component row) (before : Keeps t s) (later : Keeps s' t') :
    Row relate t t' right component row where
  placed := h.placed
  crossed is := by
    obtain ⟨cross, answers, offers⟩ := h.crossed is
    exact ⟨cross, answers.within before later, offers⟩

/-- Matches a component on the left with all on the right. -/
def row (relate : Relate) (right : List SortId) (component : SortId × Nat) :
    Matching (List Pairing) := do
  return (← right.zipIdx.mapM fun other ↦ pairings relate component other).flatten

theorem ends_row (inside : ∀ a b, Respects Keeps (relate a b)) (component : SortId × Nat) :
    Ends (row relate right component) t
      (fun row t' ↦ Keeps t t' ∧ Row relate t t' right component row) fun _ ↦ True := by
  refine Ends.bind ((ends_mapM_occurs gentle_keeps fun other _ ↦ respects_pairings gentle_keeps
    inside component other).mono (fun cells t' made ↦ Ends.pure ⟨made.1, ?_⟩) fun _ _ ↦ trivial)
  obtain ⟨forth, back⟩ := getElem?_of_forall₂_zipIdx (made.2.imp fun other cell occurs ↦
    show ∃ cross : Cross, cross.Answers relate t t' component.1 other.1 ∧ ∀ p, p ∈ cell ↔
      p.left = component.2 ∧ p.right = other.2 ∧ cross.Offers p.id p.node by
    obtain ⟨s, s', started, run, ended⟩ := occurs
    obtain ⟨cross, answers, offers⟩ := (ends_pairings_offered component other).of_ok run
    exact ⟨cross, answers.within started ended, offers⟩)
  have mem := mem_flatten_iff_of_placed Pairing.right fun j cell is p here ↦ by
    obtain ⟨b, -, cross, -, offers⟩ := back j cell is
    exact ((offers p).mp here).2.1
  constructor
  · intro p here
    obtain ⟨cell, is, here⟩ := (mem p).mp here
    obtain ⟨b, onRight, cross, -, offers⟩ := back _ cell is
    exact ⟨((offers p).mp here).1, (List.getElem?_eq_some_iff.mp onRight).1⟩
  · intro j b onRight
    obtain ⟨cell, is, cross, answers, offers⟩ := forth j b onRight
    refine ⟨cross, answers, fun p at_ ↦ ?_⟩
    rw [mem, at_, is]
    simp [offers, at_]

/-- The pairings of all components are the candidates. -/
theorem ends_allPairings_gathered (inside : ∀ a b, Respects Keeps (relate a b)) :
    Ends (allPairings relate left right) t (fun found t' ↦ Keeps t t' ∧
      ∃ cross, Gathered relate left right t t' cross found) fun _ ↦ True := by
  have kept (component : SortId × Nat) : Respects Keeps (row relate right component) :=
    fun t ↦ Respects.bind gentle_keeps (Respects.mapM gentle_keeps _ fun other _ ↦
      respects_pairings gentle_keeps inside component other)
      (fun _ ↦ Respects.pure gentle_keeps _) t
  have rows : Ends (left.zipIdx.mapM (row relate right)) t _ _ :=
    ends_mapM_occurs gentle_keeps fun component _ ↦ kept component
  refine Ends.bind (rows.mono (fun rows t' made ↦ Ends.pure ⟨made.1, ?_⟩) fun _ _ ↦ trivial)
  obtain ⟨forth, back⟩ := getElem?_of_forall₂_zipIdx (made.2.imp fun component row occurs ↦
    show Row relate t t' right component row by
    obtain ⟨s, s', started, run, ended⟩ := occurs
    exact ((ends_row inside component).of_ok run).2.within started ended)
  have mem := mem_flatten_iff_of_placed Pairing.left fun i row is p here ↦ by
    obtain ⟨a, -, known⟩ := back i row is
    exact (known.placed p here).1
  have chosen (i j : Nat) : ∃ cross : Cross, ∀ a b, left[i]? = some a → right[j]? = some b →
      cross.Answers relate t t' a b ∧ ∀ p : Pairing, p.left = i → p.right = j →
        (p ∈ rows.flatten ↔ cross.Offers p.id p.node) := by
    by_cases there : ∃ a b, left[i]? = some a ∧ right[j]? = some b
    · obtain ⟨a, b, onLeft, onRight⟩ := there
      obtain ⟨row, is, known⟩ := forth i a onLeft
      obtain ⟨cross, answers, offers⟩ := known.crossed onRight
      refine ⟨cross, fun a' b' onLeft' onRight' ↦ ?_⟩
      rw [onLeft] at onLeft'
      rw [onRight] at onRight'
      cases onLeft'
      cases onRight'
      refine ⟨answers, fun p atLeft atRight ↦ ?_⟩
      rw [mem, atLeft, is]
      simp [offers p atRight, atLeft]
    · exact ⟨⟨⟨0⟩, t⟩, fun a b onLeft onRight ↦ absurd ⟨a, b, onLeft, onRight⟩ there⟩
  choose cross spec using chosen
  refine ⟨cross, fun onLeft onRight ↦ (spec _ _ _ _ onLeft onRight).1, fun p ↦ ?_⟩
  constructor
  · intro here
    obtain ⟨row, is, there⟩ := (mem p).mp here
    obtain ⟨a, onLeft, known⟩ := back _ row is
    obtain ⟨-, inRight⟩ := known.placed p there
    have onRight := List.getElem?_eq_getElem inRight
    exact ⟨(List.getElem?_eq_some_iff.mp onLeft).1, inRight,
      ((spec _ _ _ _ onLeft onRight).2 p rfl rfl).mp here⟩
  · rintro ⟨inLeft, inRight, offers⟩
    exact ((spec _ _ _ _ (List.getElem?_eq_getElem inLeft)
      (List.getElem?_eq_getElem inRight)).2 p rfl rfl).mpr offers

/-! ### What is taken -/

/-- Candidates are taken such that no component is in two of them; and one that is not taken shares
a component with one that is and that comes no later. -/
structure Picked (found taken : List Pairing) : Prop where
  known : ∀ p ∈ taken, p ∈ found
  left : (taken.map Pairing.left).Nodup
  right : (taken.map Pairing.right).Nodup
  excluded : ∀ p ∈ found, p ∉ taken →
    ∃ q ∈ taken, (q.left = p.left ∨ q.right = p.right) ∧ (q.compare p).isLE

namespace Rule

/-- Whether the pairings share a component. -/
def Pairing.meets (p q : Pairing) : Bool := p.left = q.left || p.right = q.right

theorem Pairing.meets_iff : p.meets q = true ↔ p.left = q.left ∨ p.right = q.right := by
  simp [meets]

theorem takeFree_eq_greedy (taken others : List Pairing) :
    takeFree taken others = greedy Pairing.meets taken others := by
  induction others generalizing taken with
  | nil => rfl
  | cons other others ih =>
    rw [takeFree, greedy, ih, ih]
    rfl

theorem picked_accept (found : List Pairing) : Picked found (accept found) := by
  have sorted : (found.mergeSort Pairing.le).Pairwise fun p q ↦ p.le q = true :=
    List.pairwise_mergeSort (fun _ _ _ ↦ Std.TransCmp.isLE_trans) isLE_total _
  have apart : (accept found).Pairwise fun p q ↦ ¬ p.meets q := by
    unfold accept
    rw [takeFree_eq_greedy]
    exact pairwise_greedy .nil
  refine ⟨fun p here ↦ ?_, ?_, ?_, fun p here _ ↦ ?_⟩
  · unfold accept at here
    rw [takeFree_eq_greedy] at here
    exact List.mem_mergeSort.mp ((mem_or_mem_of_mem_greedy here).resolve_left List.not_mem_nil)
  · exact apart.map _ fun p q clear same ↦ clear (Pairing.meets_iff.mpr (.inl same))
  · exact apart.map _ fun p q clear same ↦ clear (Pairing.meets_iff.mpr (.inr same))
  · unfold accept
    rw [takeFree_eq_greedy]
    obtain ⟨q, there, meets, le⟩ := exists_mem_greedy
      (fun p ↦ ⟨Pairing.meets_iff.mpr (.inl rfl), Std.ReflCmp.isLE_rfl⟩) sorted
      (fun p (nothing : p ∈ []) ↦ absurd nothing List.not_mem_nil) (List.mem_mergeSort.mpr here)
    exact ⟨q, there, Pairing.meets_iff.mp meets, le⟩

/-- Candidates that do not share components are all taken. -/
theorem accept_perm_of_apart (apart : found.Pairwise fun p q ↦ ¬ p.meets q) :
    (accept found).Perm found := by
  have picked := picked_accept found
  have unlike {p q : Pairing} (clear : ¬ p.meets q) : p ≠ q := by
    rintro rfl
    exact clear (Pairing.meets_iff.mpr (.inl rfl))
  have distinct : (accept found).Nodup := picked.left.of_map _
  refine (List.perm_ext_iff_of_nodup distinct (apart.imp unlike)).mpr fun p ↦
    ⟨picked.known p, fun here ↦ ?_⟩
  by_contra out
  obtain ⟨q, there, meets, -⟩ := picked.excluded p here out
  have : Std.Symm fun p q : Pairing ↦ ¬ p.meets q := ⟨fun p q clear ↦ by
    rw [Pairing.meets_iff] at clear ⊢
    tauto⟩
  have differ : q ≠ p := fun same ↦ out (same ▸ there)
  exact apart.forall (picked.known q there) here differ (Pairing.meets_iff.mpr meets)

end Rule

/-- Of two components that are both left over no match is a candidate. -/
theorem Picked.covers (h : Picked found taken) (here : p ∈ found) :
    p.left ∈ taken.map Pairing.left ∨ p.right ∈ taken.map Pairing.right := by
  by_cases among : p ∈ taken
  · exact .inl (List.mem_map_of_mem among)
  · obtain ⟨q, there, meets, -⟩ := h.excluded p here among
    exact meets.imp (fun same ↦ List.mem_map.mpr ⟨q, there, same⟩)
      fun same ↦ List.mem_map.mpr ⟨q, there, same⟩

theorem Picked.eq_nil_iff (h : Picked found taken) : taken = [] ↔ found = [] := by
  constructor
  · rintro rfl
    refine List.eq_nil_iff_forall_not_mem.mpr fun p here ↦ ?_
    rcases h.covers here with nothing | nothing <;> cases nothing
  · rintro rfl
    exact List.eq_nil_iff_forall_not_mem.mpr fun p here ↦ by cases h.known p here

/-! ### What it adds up to -/

/-- The worst of several levels. -/
theorem Level.exists_foldl_worst (levels : List Level) (start : Level) :
    ∃ level ∈ start :: levels, (levels.foldl .worst start).rank = level.rank ∧
      ∀ other ∈ start :: levels, other.rank ≤ level.rank := by
  induction levels generalizing start with
  | nil => exact ⟨start, List.mem_cons_self, rfl, by simp⟩
  | cons first others ih =>
    obtain ⟨level, inside, rank, most⟩ := ih (start.worst first)
    have bound := most _ List.mem_cons_self
    rw [rank_worst] at bound
    have most' : ∀ other ∈ start :: first :: others, other.rank ≤ level.rank := by
      intro other among
      rcases List.mem_cons.mp among with rfl | among
      · exact (Nat.le_max_left ..).trans bound
      · rcases List.mem_cons.mp among with rfl | among
        · exact (Nat.le_max_right ..).trans bound
        · exact most other (List.mem_cons_of_mem _ among)
    rw [List.foldl_cons]
    rcases List.mem_cons.mp inside with rfl | inside
    · rcases Nat.le_total start.rank first.rank with le | le
      · have same : (start.worst first).rank = first.rank := by rw [rank_worst, max_eq_right le]
        exact ⟨first, by simp, rank.trans same, fun other among ↦ same ▸ most' other among⟩
      · have same : (start.worst first).rank = start.rank := by rw [rank_worst, max_eq_left le]
        exact ⟨start, by simp, rank.trans same, fun other among ↦ same ▸ most' other among⟩
    · exact ⟨level, List.mem_cons_of_mem _ (List.mem_cons_of_mem _ inside), rank, most'⟩

theorem Level.lifted_eq_of_rank {a b : Level} (same : a.rank = b.rank) : a.lifted = b.lifted := by
  revert same
  cases a <;> cases b <;> decide

theorem Level.eq_incongruous_of_lifted {level : Level} (h : level.lifted = .incongruous) :
    level = .incongruous := by
  cases level <;> first | rfl | cases h

/-! ### Sums of counters -/

namespace Counter

/-- What counters come to when all of them are added: the sum of their values, of which 32 bits are
kept; and it has carried just if one of them has, or if their values are out of range together. -/
structure Totals (summands : List Counter) (total : Counter) : Prop where
  value : total.value = (summands.map Counter.value).sum % UInt32.size
  carried_iff : total.carried = true ↔
    (∃ n ∈ summands, n.carried = true) ∨ UInt32.size ≤ (summands.map Counter.value).sum

/-- To begin with the sum of two counters is to begin with the first and go on with the second. -/
theorem Totals.of_add {a b : Counter} {summands : List Counter} {total : Counter}
    (h : Totals ((a + b) :: summands) total) : Totals (a :: b :: summands) total where
  value := by
    rw [h.value, List.map_cons, List.sum_cons, value_add_eq_mod, Nat.mod_add_mod, List.map_cons,
      List.map_cons, List.sum_cons, List.sum_cons, Nat.add_assoc]
  carried_iff := by
    rw [h.carried_iff]
    simp only [List.mem_cons, exists_eq_or_imp, List.map_cons, List.sum_cons, carried_add_iff]
    rcases Nat.lt_or_ge (a.value + b.value) UInt32.size with small | large
    · rw [value_add_eq_mod, Nat.mod_eq_of_lt small, Nat.add_assoc]
      grind
    · have beyond : UInt32.size ≤ a.value + (b.value + (summands.map Counter.value).sum) := by omega
      simp only [large, beyond, or_true, true_or]

/-- Counters that are added one after the other. -/
theorem totals_foldl (start : Counter) (summands : List Counter) :
    Totals (start :: summands) (summands.foldl (· + ·) start) := by
  induction summands generalizing start with
  | nil =>
    have small := start.value_lt
    refine ⟨(Nat.mod_eq_of_lt small).symm, ?_⟩
    simp [Nat.not_le.mpr small]
  | cons n summands ih => exact (ih (start + n)).of_add

/-- As long as nothing has carried, values add up. -/
theorem Totals.value_eq {summands : List Counter} {total : Counter} (h : Totals summands total)
    (exact : total.carried = false) : total.value = (summands.map Counter.value).sum := by
  have within := mt h.carried_iff.mpr (Bool.eq_false_iff.mp exact)
  rw [not_or, Nat.not_le] at within
  rw [h.value, Nat.mod_eq_of_lt within.2]

end Counter

/-! ### What is taken together with what is left over -/

/-- The components that are left over, counted: the left ones are in excess, the right ones are
omitted. -/
def leftOver (left right : List SortId) (taken : List Pairing) : Tally where
  excess := countFree left.length (taken.map Pairing.left)
  omits := countFree right.length (taken.map Pairing.right)

/-- The node says what the pairings that are taken add up to, with the components that are left
over: the worst of their levels, where sorts that are only alike are not identical; the sum of their
tallies, with each left component in excess and each right one omitted; and the grade that comes of
all their grades and of those of the components left over, in any order. Each counter is the sum of
theirs as far as 32 bits hold it, and it has carried just if that sum is out of range or one of
theirs has carried; where it has not, it is the sum. -/
structure AddsUp (left right : List SortId) (taken : List Pairing) (node : MatchNode) : Prop where
  level : ∃ worst ∈ taken, node.level = worst.node.level.lifted ∧
    ∀ p ∈ taken, p.node.level.rank ≤ worst.node.level.rank
  tally : node.tally =
    ((taken.map (·.node.tally)).foldl Tally.add .none).add (leftOver left right taken)
  counters : ∀ place ∈ Tally.places, Counter.Totals
    (taken.map (place ·.node.tally) ++ [place (leftOver left right taken)]) (place node.tally)
  sums : ∀ place ∈ Tally.places, (place node.tally).carried = false →
    (place node.tally).value = (taken.map fun p ↦ (place p.node.tally).value).sum +
      (place (leftOver left right taken)).value
  grade : ∀ grades : List Grade, grades.Perm (taken.map (·.node.grade) ++
      List.replicate (countFree left.length (taken.map Pairing.left)) .subsumptive ++
      List.replicate (countFree right.length (taken.map Pairing.right)) .partOf) →
    node.grade = grades.foldl .combine .concordant

/-- The level that is worked out pairing by pairing is that of the worst one. -/
theorem exists_worst (some : taken ≠ []) : ∃ worst ∈ taken,
    ((taken.map (·.node.level)).foldl Level.worst .identical).lifted = worst.node.level.lifted ∧
      ∀ p ∈ taken, p.node.level.rank ≤ worst.node.level.rank := by
  obtain ⟨level, inside, rank, most⟩ :=
    Level.exists_foldl_worst (taken.map (·.node.level)) .identical
  have bound (p : Pairing) (here : p ∈ taken) : p.node.level.rank ≤ level.rank :=
    most _ (List.mem_cons_of_mem _ (List.mem_map_of_mem here))
  obtain ⟨worst, here, equal⟩ : ∃ worst ∈ taken, worst.node.level.rank = level.rank := by
    rcases List.mem_cons.mp inside with rfl | among
    · obtain ⟨first, here⟩ := List.exists_mem_of_ne_nil taken some
      exact ⟨first, here, Nat.le_zero.mp (bound first here)⟩
    · obtain ⟨worst, here, rfl⟩ := List.mem_map.mp among
      exact ⟨worst, here, rfl⟩
  exact ⟨worst, here, Level.lifted_eq_of_rank (rank.trans equal.symm),
    fun p there ↦ equal ▸ bound p there⟩

theorem totals_place {place : Tally → Counter} (among : place ∈ Tally.places)
    (tallies : List Tally) (last : Tally) : Counter.Totals (tallies.map place ++ [place last])
      (place ((tallies.foldl Tally.add .none).add last)) := by
  have totals := Counter.totals_foldl 0 (tallies.map place ++ [place last])
  rw [List.foldl_append, List.foldl_cons, List.foldl_nil, ← Tally.place_none among,
    ← Tally.place_foldl among, ← Tally.place_add among] at totals
  refine ⟨?_, ?_⟩
  · rw [totals.value, List.map_cons, List.sum_cons, Tally.place_none among, Counter.value_zero,
      Nat.zero_add]
  · simp only [totals.carried_iff, List.mem_cons, exists_eq_or_imp, List.map_cons, List.sum_cons,
      Tally.place_none among, Counter.value_zero, Nat.zero_add]
    simp

/-- What was composed: the candidates of all components, those of them that are taken, and the match
that says what they add up to. It is incongruous if and only if there are no candidates. -/
structure Composes (relate : Relate) (l r : SortRecord) (left right : List SortId)
    (t t' : Matchings) (cross : Nat → Nat → Cross) (found taken : List Pairing) (node : MatchNode) :
    Prop where
  gathered : Gathered relate left right t t' cross found
  picked : Picked found taken
  leftover : ∀ i < left.length, ∀ j < right.length, i ∉ taken.map Pairing.left →
    j ∉ taken.map Pairing.right → ∀ id node, ¬ (cross i j).Offers id node
  sides : node.left = l.id ∧ node.right = r.id
  incongruous_iff : node.incongruous = true ↔ found = []
  addsUp : found ≠ [] → AddsUp left right taken node

/-- The match of two disjunctions of which some candidates were found. -/
theorem exists_composed (differ : l.canonical ≠ r.canonical)
    (run : allPairings relate left right t = .ok found t') (several : found ≠ []) :
    ∃ id node t'', composition relate l r left right t = .ok id t'' ∧ t''.get? id = some node ∧
      node.tally = (((accept found).map (·.node.tally)).foldl Tally.add .none).add
        (leftOver left right (accept found)) := by
  have taken : (accept found).isEmpty = false :=
    List.isEmpty_eq_false_iff.mpr fun empty ↦ several ((picked_accept found).eq_nil_iff.mp empty)
  unfold composition
  rw [if_neg differ, Ends.run_bind run]
  simp only [taken]
  exact ⟨_, _, _, rfl, get?_push_size _, rfl⟩

/-- Two disjunctions of different definitions are composed. -/
theorem ends_composition_exact (inside : ∀ a b, Respects Keeps (relate a b))
    (differ : l.canonical ≠ r.canonical) :
    Ends (composition relate l r left right) t (fun id t' ↦ ∃ cross found taken node,
      t'.get? id = some node ∧ Composes relate l r left right t t' cross found taken node)
      fun _ ↦ True := by
  unfold composition
  rw [if_neg differ]
  refine Ends.bind ((ends_allPairings_gathered inside).mono (fun found t₁ made ↦ ?_)
    fun _ _ ↦ trivial)
  obtain ⟨-, cross, gathered⟩ := made
  have picked := picked_accept found
  have leftover : ∀ i < left.length, ∀ j < right.length, i ∉ (accept found).map Pairing.left →
      j ∉ (accept found).map Pairing.right → ∀ id node, ¬ (cross i j).Offers id node := by
    intro i inLeft j inRight free free' id node offers
    have here : (⟨i, j, id, node⟩ : Pairing) ∈ found :=
      (gathered.found_iff _).mpr ⟨inLeft, inRight, offers⟩
    exact (picked.covers here).elim free free'
  have kept (node : MatchNode) : Keeps t₁ (t₁.push node) := gentle_keeps.push t₁ node
  dsimp only
  split_ifs with none
  · have empty : found = [] := picked.eq_nil_iff.mp (List.isEmpty_iff.mp none)
    refine ends_push ⟨cross, found, accept found, _, get?_push_size _, gathered.later (kept _),
      picked, leftover, ⟨rfl, rfl⟩, iff_of_true rfl empty, fun some ↦ absurd empty some⟩
  · have some : accept found ≠ [] := fun empty ↦ none (List.isEmpty_iff.mpr empty)
    refine Ends.bind (Ends.get (ends_push ⟨cross, found, accept found, _, get?_push_size _,
      gathered.later (kept _), picked, leftover, ⟨rfl, rfl⟩, iff_of_false ?_ ?_, fun _ ↦ ?_⟩))
    · obtain ⟨worst, here, level, -⟩ := exists_worst some
      obtain ⟨-, -, -, -, close⟩ := (gathered.found_iff worst).mp (picked.known worst here)
      intro apart
      have same : worst.node.level.lifted = .incongruous := level ▸ of_decide_eq_true apart
      exact of_decide_eq_false close (Level.eq_incongruous_of_lifted same)
    · exact fun empty ↦ some (picked.eq_nil_iff.mpr empty)
    · have totals {place : Tally → Counter} (among : place ∈ Tally.places) :=
        totals_place among ((accept found).map (·.node.tally)) (leftOver left right (accept found))
      simp only [List.map_map] at totals
      refine ⟨exists_worst some, rfl, fun place ↦ totals, fun place among inRange ↦ ?_,
        fun grades permuted ↦ (jointGrade_eq_foldl _).trans (permuted.symm.foldl_eq _)⟩
      have sum := (totals among).value_eq inRange
      rw [List.map_append, List.sum_append, List.map_map, List.map_singleton,
        List.sum_singleton] at sum
      exact sum

end CompositeSorts
