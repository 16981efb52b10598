import CompositeSorts.Proofs.Matching.Guarding
import Mathlib.Data.List.ReduceOption

/-!
What is there stays. Matching appends; whatever matches there were before are the same afterwards,
the ties of theirs included, and so is what was remembered of pairs and of identities
(`keeps_relate`). Ties are the only thing that is ever written on a match that is there, and they
are written by choices alone. The candidates of a choice are matches that the rule has made for it
and that are not tied yet, so the chain behind the best of them never leaves the candidates
(`Enclosed.chainEnd_mem`).
-/

set_option autoImplicit false
set_option relaxedAutoImplicit false

namespace CompositeSorts

open Matchings Matching Rule

variable {α β : Type} {c : Catalog} {config : Configuration} {t t' u : Matchings} {id : MatchId}
  {ids : List MatchId} {node : MatchNode} {l r : SortRecord} {left right : SortId}

namespace Matchings

/-- Every match that was there is there unchanged, and so is what was remembered. -/
structure Keeps (t t' : Matchings) : Prop where
  nodes : ∀ {id : MatchId} {node : MatchNode}, t.get? id = some node → t'.get? id = some node
  memo : ∀ {key : PairKey} {id : MatchId}, t.memo[key]? = some id → t'.memo[key]? = some id
  identities : ∀ {sort : SortId} {id : MatchId}, t.identities[sort]? = some id →
    t'.identities[sort]? = some id

namespace Keeps

theorem of_same (nodes : t'.nodes = t.nodes) (memo : t'.memo = t.memo)
    (identities : t'.identities = t.identities) : Keeps t t' where
  nodes found := by
    unfold get? at found ⊢
    rw [nodes]
    exact found
  memo entry := memo ▸ entry
  identities entry := identities ▸ entry

theorem refl (t : Matchings) : Keeps t t := of_same rfl rfl rfl

theorem trans (h : Keeps t t') (h' : Keeps t' u) : Keeps t u :=
  ⟨fun found ↦ h'.nodes (h.nodes found), fun entry ↦ h'.memo (h.memo entry),
    fun entry ↦ h'.identities (h.identities entry)⟩

/-- A match that is not there later was not there before. -/
theorem get?_eq_none (h : Keeps t t') (new : t'.get? id = none) : t.get? id = none := by
  by_contra there
  obtain ⟨node, found⟩ := Option.ne_none_iff_exists'.mp there
  rw [h.nodes found] at new
  cases new

end Keeps

theorem gentle_keeps : Gentle Keeps where
  refl := .refl
  append t nodes := by
    refine ⟨fun {id node} found ↦ ?_, fun entry ↦ entry, fun entry ↦ entry⟩
    have inside : id.index < t.nodes.size := (Array.getElem?_eq_some_iff.mp found).1
    unfold get? append
    rw [Array.getElem?_append_left inside]
    exact found
  trans := .trans

/-! ### Candidates -/

/-- The match was made since `u` and is not tied. -/
def Fresh (u t : Matchings) (id : MatchId) : Prop :=
  u.get? id = none ∧ ∃ node, t.get? id = some node ∧ node.tiedWith = none

theorem Fresh.later (h : Fresh u t id) (kept : Keeps t t') : Fresh u t' id := by
  obtain ⟨new, node, found, untied⟩ := h
  exact ⟨new, node, kept.nodes found, untied⟩

theorem Fresh.since (h : Fresh t t' id) (kept : Keeps u t) : Fresh u t' id :=
  ⟨kept.get?_eq_none h.1, h.2⟩

theorem fresh_push (t : Matchings) (untied : node.tiedWith = none) :
    Fresh t (t.push node) ⟨t.nodes.size⟩ := by
  refine ⟨?_, node, get?_push_size node, untied⟩
  unfold get?
  exact Array.getElem?_eq_none (Nat.le_refl _)

/-- The matches were made since `u`, and their ties lead to each other. -/
def Enclosed (u t : Matchings) (ids : List MatchId) : Prop :=
  ∀ id ∈ ids, u.get? id = none ∧
    ∀ node next, t.get? id = some node → node.tiedWith = some next → next ∈ ids

theorem enclosed_of_fresh (fresh : ∀ id ∈ ids, Fresh u t id) : Enclosed u t ids := by
  intro id inside
  obtain ⟨new, node, found, untied⟩ := fresh id inside
  refine ⟨new, fun node' next found' tied ↦ ?_⟩
  rw [found] at found'
  cases found'
  rw [untied] at tied
  cases tied

/-- Following ties from a candidate ends at a candidate. -/
theorem Enclosed.chainEnd_mem (h : Enclosed u t ids)
    {alternative cursor last : MatchId} {room : Nat} (inside : cursor ∈ ids)
    (found : t.chainEnd alternative room cursor = some last) :
    last ∈ ids := by
  induction room generalizing cursor with
  | zero => cases found
  | succ room ih =>
    unfold chainEnd at found
    split_ifs at found
    split at found
    · cases found
    · rename_i node there
      split at found
      · cases found
        exact inside
      · rename_i next tied
        exact ih ((h cursor inside).2 node next there tied) found

/-- Tying one candidate behind another writes on nothing older. -/
theorem Enclosed.tie (h : Enclosed u t ids) (kept : Keeps u t) {last alternative : MatchId}
    (inside : last ∈ ids) (among : alternative ∈ ids)
    (nodes : t'.nodes = t.nodes.modify last.index fun node ↦
      { node with tiedWith := some alternative })
    (memo : t'.memo = t.memo) (identities : t'.identities = t.identities) :
    Keeps u t' ∧ Enclosed u t' ids := by
  have apart : ∀ {id : MatchId}, last ≠ id → t'.get? id = t.get? id := by
    intro id differ
    have indices : last.index ≠ id.index := fun same ↦ differ (congrArg MatchId.mk same)
    unfold get?
    rw [nodes, Array.getElem?_modify, if_neg indices]
  have here : t'.get? last =
      (t.get? last).map fun node ↦ { node with tiedWith := some alternative } := by
    unfold get?
    rw [nodes, Array.getElem?_modify, if_pos rfl]
  refine ⟨⟨fun {id node} found ↦ ?_, fun entry ↦ memo ▸ kept.memo entry,
    fun entry ↦ identities ▸ kept.identities entry⟩, fun id candidate ↦ ?_⟩
  · have differ : last ≠ id := by
      rintro rfl
      rw [(h last inside).1] at found
      cases found
    rw [apart differ]
    exact kept.nodes found
  · refine ⟨(h id candidate).1, fun node next found tied ↦ ?_⟩
    by_cases same : last = id
    · subst same
      rw [here] at found
      obtain ⟨old, -, rfl⟩ := Option.map_eq_some_iff.mp found
      cases tied
      exact among
    · rw [apart same] at found
      exact (h id candidate).2 node next found tied

end Matchings

/-! ### Choices -/

theorem keeps_choose (kept : Keeps u t) (fresh : ∀ id ∈ ids, Fresh u t id) :
    Ends (choose config ids) t (fun _ t' ↦ Keeps u t') (Keeps u) := by
  refine ends_choose (fun candidates best t' ↦ (Keeps u t' ∧ Enclosed u t' ids) ∧
    best ∈ candidates ∧ candidates.map Prod.fst = ids) kept (fun _ ↦ kept) ?_ ?_ ?_
  · intro first others same _
    exact ⟨⟨kept, enclosed_of_fresh fresh⟩, foldl_better_mem first others, same⟩
  · rintro candidates best candidate among - - t' ⟨⟨kept, enclosed⟩, inside, same⟩
    have bestIn : best.1 ∈ ids := same ▸ List.mem_map_of_mem inside
    have otherIn : candidate.1 ∈ ids := same ▸ List.mem_map_of_mem among
    refine ends_chain ⟨⟨kept, enclosed⟩, inside, same⟩ fun last found ↦ ⟨?_, inside, same⟩
    exact enclosed.tie kept (enclosed.chainEnd_mem bestIn found) otherIn rfl rfl rfl
  · exact fun _ _ _ _ reached ↦ reached.1.1

theorem keeps_chooseOrIncongruous {parts : List MatchId} (kept : Keeps u t)
    (fresh : ∀ id ∈ ids, Fresh u t id) :
    Ends (chooseOrIncongruous config l r ids parts) t (fun _ t' ↦ Keeps u t') (Keeps u) := by
  refine Ends.bind ((keeps_choose kept fresh).mono (fun best t' chosen ↦ ?_) fun _ failed ↦ failed)
  split
  · exact Ends.pure chosen
  · exact ends_push (chosen.trans (gentle_keeps.push t' _))

/-- What is there stays, and the matches that the answer offers are new and not tied. -/
def Makes (offered : α → List MatchId) (m : Matching α) : Prop :=
  ∀ t, Ends m t (fun a t' ↦ Keeps t t' ∧ ∀ id ∈ offered a, Fresh t t' id) (Keeps t)

namespace Makes

theorem pure {offered : α → List MatchId} {a : α} (none : offered a = []) :
    Makes offered (Pure.pure a : Matching α) :=
  fun t ↦ Ends.pure ⟨.refl t, by simp [none]⟩

theorem bind {offered : β → List MatchId} {m : Matching α} {f : α → Matching β}
    (h : Respects Keeps m) (h' : ∀ a, Makes offered (f a)) : Makes offered (m >>= f) := by
  intro t
  refine Ends.bind ((h t).mono (fun a t' kept ↦ ?_) fun _ failed ↦ failed)
  exact (h' a t').mono
    (fun b t'' made ↦ ⟨kept.trans made.1, fun id inside ↦ (made.2 id inside).since kept⟩)
    fun _ failed ↦ kept.trans failed

/-- A match is appended, and offered in the answer. -/
theorem push {offered : β → List MatchId} {f : MatchId → β} (untied : node.tiedWith = none)
    (one : ∀ id, offered (f id) = [id]) :
    Makes offered (Matching.push node >>= fun id ↦ Pure.pure (f id)) := by
  intro t
  refine Ends.bind (ends_push (Ends.pure ⟨gentle_keeps.push t node, fun id inside ↦ ?_⟩))
  rw [one, List.mem_singleton] at inside
  exact inside ▸ fresh_push t untied

theorem pushLike {offered : β → List MatchId} {f : MatchId → β} {inner : MatchId}
    {adjust : MatchNode → MatchNode} (untied : ∀ node, (adjust node).tiedWith = node.tiedWith)
    (one : ∀ id, offered (f id) = [id]) :
    Makes offered (Matching.pushLike l r inner adjust >>= fun id ↦ Pure.pure (f id)) := by
  intro t
  refine Ends.bind (ends_pushLike (.refl t) fun source _ ↦ ?_)
  refine Ends.pure ⟨gentle_keeps.push t _, fun id inside ↦ ?_⟩
  rw [one, List.mem_singleton] at inside
  exact inside ▸ fresh_push t (untied _)

theorem mapM {offered : β → List MatchId} {work : α → Matching β} (items : List α)
    (h : ∀ a ∈ items, Makes offered (work a)) :
    Makes (fun answers ↦ answers.flatMap offered) (items.mapM work) := by
  intro t
  refine Ends.mapM (fun _ answers t' ↦ Keeps t t' ∧ ∀ id ∈ answers.flatMap offered, Fresh t t' id)
    items ⟨.refl t, by simp⟩ ?_
  rintro a inside _ answers t' ⟨kept, fresh⟩
  refine (h a inside t').mono (fun b t'' made ↦ ⟨kept.trans made.1, fun id among ↦ ?_⟩)
    fun _ failed ↦ kept.trans failed
  rw [List.flatMap_append, List.mem_append] at among
  rcases among with before | now
  · exact (fresh id before).later made.1
  · rw [List.flatMap_singleton] at now
    exact (made.2 id now).since kept

/-- Candidates are made, and one of them is chosen. -/
theorem choose {ids : α → List MatchId} {m : Matching α} (h : Makes ids m) :
    Respects Keeps (m >>= fun a ↦ Matching.choose config (ids a)) := by
  intro t
  refine Ends.bind ((h t).mono (fun a t' made ↦ ?_) fun _ failed ↦ failed)
  exact keeps_choose made.1 made.2

theorem chooseOrIncongruous {ids : α → List MatchId} {parts : List MatchId} {m : Matching α}
    (h : Makes ids m) :
    Respects Keeps (m >>= fun a ↦ Matching.chooseOrIncongruous config l r (ids a) parts) := by
  intro t
  refine Ends.bind ((h t).mono (fun a t' made ↦ ?_) fun _ failed ↦ failed)
  exact keeps_chooseOrIncongruous made.1 made.2

end Makes

/-! ### Rules -/

section

variable {relate : Relate} (inside : ∀ left right, Respects Keeps (relate left right))

include inside

theorem makes_like (l r : SortRecord) (left right : SortId) (adjust : MatchNode → MatchNode)
    (untied : ∀ node, (adjust node).tiedWith = node.tiedWith) :
    Makes (fun id ↦ [id]) (relate left right >>= fun inner ↦ Matching.pushLike l r
      inner adjust) := by
  refine Makes.bind (inside left right) fun inner ↦ ?_
  rw [← bind_pure (Matching.pushLike l r inner adjust)]
  exact Makes.pushLike untied fun _ ↦ rfl

theorem keeps_disjunction (l r : SortRecord) (components : List SortId) :
    Respects Keeps (disjunction config relate l r components) := by
  have made := Makes.mapM components fun component _ ↦
    makes_like inside l r component r.id (fun node ↦ { node with
      tally := node.tally.add { excess := (components.length - 1 : Nat) }
      grade := if components.length - 1 > 0 then node.grade.combine .subsumptive else node.grade })
      fun _ ↦ rfl
  simp only [List.flatMap_singleton'] at made
  exact made.chooseOrIncongruous

theorem keeps_weightedBesideSimple (l r : SortRecord) (base weight : SortId) :
    Respects Keeps (weightedBesideSimple c config relate l r base weight) := by
  intro t
  refine Ends.bind ((Respects.ask gentle_keeps _ t).mono (fun simple t₀ asked ↦ ?_)
    fun _ failed ↦ failed)
  rw [← bind_assoc]
  refine Ends.bind ((makes_like inside l r base r.id (diminished simple.counts.simple)
    (fun _ ↦ rfl) t₀).mono (fun byBase t₁ made ↦ ?_) fun _ failed ↦ asked.trans failed)
  rw [← bind_assoc]
  refine Ends.bind ((makes_like inside l r weight r.id (diminished 1) (fun _ ↦ rfl) t₁).mono
    (fun byWeight t₂ made' ↦ ?_) fun _ failed ↦ (asked.trans made.1).trans failed)
  refine keeps_chooseOrIncongruous ((asked.trans made.1).trans made'.1) fun id candidate ↦ ?_
  rcases List.mem_pair.mp candidate with rfl | rfl
  · exact ((made.2 id List.mem_cons_self).later made'.1).since asked
  · exact (made'.2 id List.mem_cons_self).since (asked.trans made.1)

theorem makes_rotation (l r : SortRecord) (left right : List SortId) (shift : Nat) :
    Makes Option.toList (rotation relate l r left right shift) := by
  refine Makes.bind (respects_align gentle_keeps inside _ _) fun found ↦ ?_
  split
  · exact Makes.pure rfl
  · refine Makes.bind (Respects.get gentle_keeps) fun _ ↦ ?_
    rw [map_eq_pure_bind]
    exact Makes.push rfl fun _ ↦ rfl

theorem keeps_bestRotation (l r : SortRecord) :
    Respects Keeps (bestRotation c config relate l r) := by
  refine Respects.bind gentle_keeps (Respects.ask gentle_keeps _) fun left ↦ ?_
  refine Respects.bind gentle_keeps (Respects.ask gentle_keeps _) fun right ↦ ?_
  split_ifs
  · exact Respects.pure gentle_keeps _
  · have made := Makes.mapM (List.range left.length) fun shift _ ↦
      makes_rotation inside l r left right shift
    have fitting (answers : List (Option MatchId)) :
        answers.flatMap Option.toList = answers.reduceOption :=
      (List.filterMap_eq_flatMap_toList id answers).symm
    simp only [fitting] at made
    exact made.choose

omit inside in
theorem makes_halves (l r : SortRecord) (base weight : MatchId × MatchNode) :
    Makes (fun ids ↦ ids) (halves l r base weight) := by
  unfold halves
  split_ifs
  · refine Makes.bind (Respects.get gentle_keeps) fun _ ↦ ?_
    exact Makes.push rfl fun _ ↦ rfl
  · split
    · exact Makes.pure rfl
    · refine Makes.bind (Respects.get gentle_keeps) fun _ ↦ ?_
      exact Makes.push rfl fun _ ↦ rfl

theorem makes_augmented (l r : SortRecord) (rightBase rightWeight : SortId) :
    Makes (fun ids ↦ ids) (augmented c relate l r rightBase rightWeight) := by
  refine Makes.bind (Respects.ask gentle_keeps _) fun _ ↦ ?_
  refine Makes.bind (inside _ _) fun inner ↦ ?_
  refine Makes.bind (Respects.nodeOf gentle_keeps _) fun node ↦ ?_
  split_ifs
  · exact Makes.pure rfl
  · exact Makes.pushLike (fun _ ↦ rfl) fun _ ↦ rfl

theorem makes_lessened (l r : SortRecord) (leftBase leftWeight : SortId) :
    Makes (fun ids ↦ ids) (lessened c relate l r leftBase leftWeight) := by
  refine Makes.bind (Respects.ask gentle_keeps _) fun _ ↦ ?_
  refine Makes.bind (inside _ _) fun inner ↦ ?_
  refine Makes.bind (Respects.nodeOf gentle_keeps _) fun node ↦ ?_
  split_ifs
  · exact Makes.pure rfl
  · exact Makes.pushLike (fun _ ↦ rfl) fun _ ↦ rfl

theorem keeps_weighted (l r : SortRecord) (leftBase leftWeight rightBase rightWeight : SortId) :
    Respects Keeps (weighted c config relate l r leftBase leftWeight rightBase rightWeight) := by
  unfold weighted
  split_ifs
  · exact respects_equivalent gentle_keeps l r _
  refine Respects.bind gentle_keeps (inside _ _) fun baseId ↦ ?_
  refine Respects.bind gentle_keeps (inside _ _) fun weightId ↦ ?_
  refine Respects.bind gentle_keeps (Respects.nodeOf gentle_keeps _) fun base ↦ ?_
  refine Respects.bind gentle_keeps (Respects.nodeOf gentle_keeps _) fun weight ↦ ?_
  split
  · exact Respects.bind gentle_keeps (Respects.get gentle_keeps) fun _ ↦
      Respects.push gentle_keeps _
  refine Respects.bind gentle_keeps (keeps_bestRotation inside l r) fun rotated ↦ ?_
  split
  · exact Respects.pure gentle_keeps _
  intro t
  refine Ends.bind ((makes_halves l r (baseId, base) (weightId, weight) t).mono
    (fun byHalves t₁ halved ↦ ?_) fun _ failed ↦ failed)
  refine Ends.bind ((makes_augmented inside l r rightBase rightWeight t₁).mono
    (fun byRight t₂ added ↦ ?_) fun _ failed ↦ halved.1.trans failed)
  have first := halved.1.trans added.1
  refine Ends.bind ((makes_lessened inside l r leftBase leftWeight t₂).mono
    (fun byLeft t₃ removed ↦ ?_) fun _ failed ↦ first.trans failed)
  refine keeps_chooseOrIncongruous (first.trans removed.1) fun id candidate ↦ ?_
  rcases List.mem_append.mp candidate with before | left
  · rcases List.mem_append.mp before with half | right
    · exact (halved.2 id half).later (added.1.trans removed.1)
    · exact ((added.2 id right).since halved.1).later removed.1
  · exact (removed.2 id left).since first

/-- Every rule keeps what the matching of the sorts inside keeps. -/
theorem keeps_forVariants (l r : SortRecord) :
    Respects Keeps (forVariants c config relate l r) := by
  unfold forVariants
  dsimp only
  split
  · exact respects_tuples gentle_keeps l r
  · exact Respects.throw gentle_keeps _
  · exact Respects.throw gentle_keeps _
  · split_ifs
    · exact respects_exchanged gentle_keeps inside l r
    · exact respects_recursive gentle_keeps inside l r _
  · exact respects_recursive gentle_keeps inside l r _
  · exact respects_exchanged gentle_keeps inside l r
  · split_ifs
    · exact respects_exchanged gentle_keeps inside l r
    · exact respects_composition gentle_keeps inside l r _ _
  · exact keeps_disjunction inside l r _
  · exact respects_exchanged gentle_keeps inside l r
  · split_ifs
    · exact respects_exchanged gentle_keeps inside l r
    · exact keeps_weighted inside l r _ _ _ _
  · exact keeps_weightedBesideSimple inside l r _ _
  · exact respects_exchanged gentle_keeps inside l r
  · exact respects_primitives gentle_keeps l r _ _
  · split_ifs
    · exact respects_exchanged gentle_keeps inside l r
    · exact respects_aspects gentle_keeps inside l r _ _ _ _
  · exact respects_incongruous gentle_keeps l r _

end

/-! ### Matching -/

/-- An entry that is made where there was none leaves the others. -/
theorem getElem?_insert_of_none {κ : Type} {cmp : κ → κ → Ordering} [Std.TransCmp cmp]
    [Std.LawfulEqCmp cmp] {entries : Std.ExtTreeMap κ MatchId cmp} {key other : κ}
    {known : MatchId} (none : entries[key]? = none) (entry : entries[other]? = some known) :
    (entries.insert key id)[other]? = some known := by
  refine (getElem?_insert_of_ne entries ?_).trans entry
  rintro rfl
  rw [none] at entry
  cases entry

theorem keeps_identity (sort : SortRecord) : Respects Keeps (identity sort) := by
  intro t
  refine Ends.bind (Ends.get ?_)
  split
  · exact Ends.pure (.refl t)
  · rename_i new
    refine Ends.bind (ends_push (Ends.bind (Ends.modify (Ends.pure ?_))))
    have pushed := gentle_keeps.push t (node sort sort .identical .concordant .none [])
    exact ⟨pushed.nodes, pushed.memo,
      fun entry ↦ getElem?_insert_of_none new entry⟩

theorem keeps_breakCycle (key : PairKey) (l r : SortRecord) :
    Respects Keeps (breakCycle key l r) := by
  intro t
  refine Ends.bind (Ends.modify (Ends.bind (Ends.get ?_)))
  dsimp only
  split
  · exact Ends.pure (.of_same rfl rfl rfl)
  · refine Ends.bind (ends_push (Ends.bind (Ends.modify (Ends.pure ?_))))
    have pushed := gentle_keeps.push t
      { node l r .incongruous .concordant .none [] with sentinel := true }
    exact ⟨pushed.nodes, pushed.memo, pushed.identities⟩

/-- Matching keeps every match that is there, and everything that is remembered. -/
theorem keeps_relate (c : Catalog) (config : Configuration) (keys : List PairKey)
    (left right : SortId) : Respects Keeps (relate c config keys left right) := by
  rw [relate]
  split
  · exact Respects.throw gentle_keeps _
  · exact Respects.throw gentle_keeps _
  rename_i l r foundLeft foundRight
  split
  · exact keeps_identity l
  dsimp only
  split
  · exact keeps_breakCycle _ l r
  rename_i idle
  have inside := keeps_relate c config (⟨l.display, r.display⟩ :: keys)
  have guarded : Respects (Guarded (⟨l.display, r.display⟩ :: keys)) (forVariants c config _ l r) :=
    respects_forVariants (tolerant_guarded _) (guarded_relate c config _) l r
  intro t
  refine ends_consult_new guarded (fun _ _ _ _ ↦ .of_same rfl rfl rfl) fun _ ↦ ?_
  refine (keeps_forVariants inside l r _).mono (fun id t' kept new ↦ ?_) fun _ kept ↦ ?_
  · exact ⟨kept.nodes, fun entry ↦ getElem?_insert_of_none new (kept.memo entry), kept.identities⟩
  · exact ⟨kept.nodes, kept.memo, kept.identities⟩
termination_by (unvisited c.pairKeys keys).length
decreasing_by
  exact length_unvisited_cons_lt (Catalog.pairKey_mem_pairKeys ‹_› ‹_›) ‹_›

end CompositeSorts
