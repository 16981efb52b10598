import CompositeSorts.Proofs.Catalog.Sound
import CompositeSorts.Proofs.Matching.Labels

/-!
What is remembered is about live sorts. Every match that can be found again relates two sorts that
are live, so forgetting the sorts of a session takes nothing away that is about other sorts.
-/

set_option autoImplicit false
set_option relaxedAutoImplicit false

namespace CompositeSorts

open Matchings Matching Rule

variable {c d : Catalog} {config : Configuration} {t t' : Matchings} {id : MatchId}

namespace Matchings

/-- The match is there and relates live sorts. -/
def Alive (c : Catalog) (t : Matchings) (id : MatchId) : Prop :=
  ∃ node, t.get? id = some node ∧ c.Live node.left ∧ c.Live node.right

/-- Whatever is remembered is about live sorts. -/
structure Current (c : Catalog) (t : Matchings) : Prop where
  memo : ∀ (key : PairKey) (id : MatchId), t.memo[key]? = some id → Alive c t id
  sentinels : ∀ (key : PairKey) (id : MatchId), t.sentinels[key]? = some id → Alive c t id
  identities : ∀ (sort : SortId) (id : MatchId), t.identities[sort]? = some id → c.Live sort

theorem Alive.extend (h : Alive c t id) (later : Extends t t') : Alive c t' id := by
  obtain ⟨node, found, here, there⟩ := h
  obtain ⟨node', found', same⟩ := later id node found
  obtain ⟨left, right⟩ := MatchNode.sides_of_untied same
  exact ⟨node', found', left ▸ here, right ▸ there⟩

theorem Labelled.alive {left right : SortId} (h : Labelled left right t id) (here : c.Live left)
    (there : c.Live right) : Alive c t id := by
  obtain ⟨node, found, rfl, rfl⟩ := h
  exact ⟨node, found, here, there⟩

theorem Alive.mono (h : Alive c t id) (live : ∀ sort, c.Live sort → d.Live sort) :
    Alive d t id := by
  obtain ⟨node, found, here, there⟩ := h
  exact ⟨node, found, live _ here, live _ there⟩

theorem Current.mono (h : Current c t) (live : ∀ sort, c.Live sort → d.Live sort) :
    Current d t where
  memo key id entry := (h.memo key id entry).mono live
  sentinels key id entry := (h.sentinels key id entry).mono live
  identities sort id entry := live sort (h.identities sort id entry)

theorem current_empty (c : Catalog) : Current c empty where
  memo key id entry := by simp [empty] at entry
  sentinels key id entry := by simp [empty] at entry
  identities sort id entry := by simp [empty] at entry

/-- Keeping current what was current, while nodes stay what they are. -/
def Upkeep (c : Catalog) (t t' : Matchings) : Prop := Extends t t' ∧ (Current c t → Current c t')

theorem Upkeep.of_quiet (quiet : Quiet t t') : Upkeep c t t' := by
  refine ⟨quiet.nodes, fun h ↦ ⟨fun key id entry ↦ ?_, fun key id entry ↦ ?_,
    fun sort id entry ↦ ?_⟩⟩
  · rw [quiet.memo] at entry
    exact (h.memo key id entry).extend quiet.nodes
  · rw [quiet.sentinels] at entry
    exact (h.sentinels key id entry).extend quiet.nodes
  · rw [quiet.identities] at entry
    exact h.identities sort id entry

theorem tolerant_upkeep (c : Catalog) : Tolerant (Upkeep c) where
  still still := .of_quiet still.toQuiet
  trans first next := ⟨first.1.trans next.1, fun h ↦ next.2 (first.2 h)⟩

/-- An entry that is about live sorts keeps the memo current. -/
theorem Current.insertMemo (h : Current c t) {key : PairKey} (alive : Alive c t id) :
    Current c { t with memo := t.memo.insert key id } where
  memo other known entry := by
    rw [Std.ExtTreeMap.getElem?_insert] at entry
    split at entry
    · cases entry
      exact alive
    · exact h.memo other known entry
  sentinels := h.sentinels
  identities := h.identities

theorem Current.insertSentinel (h : Current c t) {key : PairKey} (alive : Alive c t id) :
    Current c { t with sentinels := t.sentinels.insert key id } where
  memo := h.memo
  sentinels other known entry := by
    rw [Std.ExtTreeMap.getElem?_insert] at entry
    split at entry
    · cases entry
      exact alive
    · exact h.sentinels other known entry
  identities := h.identities

theorem Current.insertIdentity (h : Current c t) {sort : SortId} (live : c.Live sort) :
    Current c { t with identities := t.identities.insert sort id } where
  memo := h.memo
  sentinels := h.sentinels
  identities other known entry := by
    rw [Std.ExtTreeMap.getElem?_insert] at entry
    split at entry
    · rename_i same
      rw [Std.LawfulEqCmp.compare_eq_iff_eq] at same
      exact same ▸ live
    · exact h.identities other known entry

/-! ### Forgetting -/

/-- A match that is there and relates sorts which are not gone is not forgotten. -/
theorem mentions_eq_false_iff {gone : List SortId} : t.mentions gone id = false ↔
    ∃ node, t.get? id = some node ∧ node.left ∉ gone ∧ node.right ∉ gone := by
  unfold mentions
  cases t.get? id with
  | none => simp
  | some node => simp

theorem Alive.mentions_eq_false (h : Alive c t id) {gone : List SortId}
    (dead : ∀ sort ∈ gone, ¬ c.Live sort) : t.mentions gone id = false := by
  obtain ⟨node, found, here, there⟩ := h
  exact mentions_eq_false_iff.mpr
    ⟨node, found, fun inside ↦ dead _ inside here, fun inside ↦ dead _ inside there⟩

/-- Nothing is forgotten of sorts that are not live. -/
theorem Current.forget_eq (h : Current c t) {gone : List SortId}
    (dead : ∀ sort ∈ gone, ¬ c.Live sort) : t.forget gone = (0, t) := by
  have memo : (t.memo.filter fun _ id ↦ !t.mentions gone id) = t.memo := by
    refine Std.ExtTreeMap.filter_eq_self_iff.mpr fun key inside ↦ ?_
    have entry := Std.ExtTreeMap.getElem?_eq_some_getElem inside
    rw [(h.memo key _ entry).mentions_eq_false dead]
    rfl
  have sentinels : (t.sentinels.filter fun _ id ↦ !t.mentions gone id) = t.sentinels := by
    refine Std.ExtTreeMap.filter_eq_self_iff.mpr fun key inside ↦ ?_
    have entry := Std.ExtTreeMap.getElem?_eq_some_getElem inside
    rw [(h.sentinels key _ entry).mentions_eq_false dead]
    rfl
  have identities : (t.identities.filter fun sort _ ↦ sort ∉ gone) = t.identities := by
    refine Std.ExtTreeMap.filter_eq_self_iff.mpr fun sort inside ↦ ?_
    have entry := Std.ExtTreeMap.getElem?_eq_some_getElem inside
    rw [Std.ExtTreeMap.getKey_eq inside]
    exact decide_eq_true fun gone ↦ dead sort gone (h.identities sort _ entry)
  unfold forget
  dsimp only
  rw [memo, sentinels, identities, Nat.sub_self]
  rfl

/-- What is still remembered is about the sorts that are left. -/
theorem Current.forget (h : Current c t) {gone : List SortId}
    (left : ∀ sort, c.Live sort → sort ∉ gone → d.Live sort) :
    Current d (t.forget gone).2 := by
  have kept : ∀ {id}, Alive c t id → (!t.mentions gone id) = true → Alive d t id := by
    intro id alive kept
    obtain ⟨node, found, here, there⟩ := alive
    obtain ⟨node', found', out, out'⟩ := mentions_eq_false_iff.mp (by simpa using kept)
    rw [found] at found'
    cases found'
    exact ⟨node, found, left _ here out, left _ there out'⟩
  refine ⟨fun key id entry ↦ ?_, fun key id entry ↦ ?_, fun sort id entry ↦ ?_⟩
  · change (t.memo.filter _)[key]? = some id at entry
    rw [Std.ExtTreeMap.getElem?_filter', Option.filter_eq_some_iff] at entry
    exact kept (h.memo key id entry.1) entry.2
  · change (t.sentinels.filter _)[key]? = some id at entry
    rw [Std.ExtTreeMap.getElem?_filter', Option.filter_eq_some_iff] at entry
    exact kept (h.sentinels key id entry.1) entry.2
  · change (t.identities.filter _)[sort]? = some id at entry
    rw [Std.ExtTreeMap.getElem?_filter', Option.filter_eq_some_iff] at entry
    exact left sort (h.identities sort id entry.1) (by simpa using entry.2)

end Matchings

/-! ### Matching -/

theorem respects_identity {sort : SortRecord} (live : c.Live sort.id) :
    Respects (Upkeep c) (identity sort) := by
  intro t
  have here : Upkeep c t t := .of_quiet (Quiet.refl t)
  refine Ends.bind (Ends.get ?_)
  split
  · exact Ends.pure here
  · refine Ends.bind (ends_push ?_)
    refine Ends.bind (Ends.modify ?_)
    refine Ends.pure ⟨extends_push _, fun h ↦ ?_⟩
    exact ((Upkeep.of_quiet (quiet_push _)).2 h).insertIdentity live

theorem respects_breakCycle {key : PairKey} {l r : SortRecord} (here : c.Live l.id)
    (there : c.Live r.id) : Respects (Upkeep c) (breakCycle key l r) := by
  intro t
  have noted : Upkeep c t ({ t with metrics := t.metrics.recordCycle }.note
      (.cycleBroken l.id r.id)) := .of_quiet (quiet_aside t _ _ _)
  refine Ends.bind (Ends.modify ?_)
  refine Ends.bind (Ends.get ?_)
  dsimp only
  split
  · exact Ends.pure noted
  · refine Ends.bind (ends_push ?_)
    refine Ends.bind (Ends.modify ?_)
    refine Ends.pure ((tolerant_upkeep c).trans noted ⟨extends_push _, fun h ↦ ?_⟩)
    refine ((Upkeep.of_quiet (quiet_push _)).2 h).insertSentinel ?_
    exact Labelled.alive (labelled_push rfl rfl) here there

/-- Matching keeps what is remembered current. -/
theorem respects_relate (c : Catalog) (sound : c.Rooted) (config : Configuration)
    (underWay : List PairKey) (left right : SortId) :
    Respects (Upkeep c) (relate c config underWay left right) := by
  have tolerant := tolerant_upkeep c
  rw [relate]
  split
  · exact Respects.throw tolerant.gentle _
  · exact Respects.throw tolerant.gentle _
  · rename_i l r foundLeft foundRight
    have here : c.Live l.id := sound.placed foundLeft ▸ ⟨l, foundLeft⟩
    have there : c.Live r.id := sound.placed foundRight ▸ ⟨r, foundRight⟩
    split
    · exact respects_identity here
    · dsimp only
      split
      · exact respects_breakCycle here there
      · rename_i idle
        have inside : ∀ left right, Respects (Upkeep c)
            (relate c config (⟨l.display, r.display⟩ :: underWay) left right) :=
          fun left right ↦ respects_relate c sound config _ left right
        have nodes : ∀ left right, Respects Extends
            (relate c config (⟨l.display, r.display⟩ :: underWay) left right) :=
          fun left right t ↦ (inside left right t).mono (fun _ _ h ↦ h.1) fun _ h ↦ h.1
        intro t
        refine ends_consult (fun id _ metrics journal ↦ ?_) fun _ ↦ ?_
        · exact .of_quiet (quiet_aside t _ _ _)
        let begun := { t with metrics := t.metrics.recordMiss }.begin ⟨l.display, r.display⟩
        have first : Upkeep c t begun := .of_quiet (quiet_aside t _ _ _)
        have ended : ∀ {t'}, Upkeep c begun t' →
            Upkeep c t (t'.finish ⟨l.display, r.display⟩) := fun made ↦
          tolerant.trans first (tolerant.trans made (.of_quiet (quiet_finish _ _)))
        refine ((respects_forVariants tolerant inside l r begun).and
          (labels_forVariants nodes l r begun)).mono (fun id t' made ↦ ?_)
          fun _ failed ↦ ended failed.1
        refine ends_remember (fun known _ t'' still ↦ ?_) fun _ ↦ ?_
        · exact tolerant.trans (ended made.1) (tolerant.still still)
        · refine tolerant.trans (ended made.1) ⟨Extends.refl t', fun h ↦ ?_⟩
          have alive : Alive c (t'.finish ⟨l.display, r.display⟩) id := made.2.alive here there
          have kept : Current c { (t'.finish ⟨l.display, r.display⟩) with
              memo := t'.memo.insert ⟨l.display, r.display⟩ id } := h.insertMemo alive
          exact ⟨kept.memo, kept.sentinels, kept.identities⟩
termination_by (unvisited c.pairKeys underWay).length
decreasing_by
  exact length_unvisited_cons_lt (Catalog.pairKey_mem_pairKeys ‹_› ‹_›) ‹_›

end CompositeSorts
