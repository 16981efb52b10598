import CompositeSorts.Proofs.Matching.Respects

/-!
Pairs under way. While the match of a pair is being computed its pair is among those under way, and
whatever ends the computation takes it out again; and as long as it is there nothing is remembered
of it, because matching answers it with a sentinel. So a match that has just been computed is the
first one to be remembered for its pair (`Guarded.new`), and in the end the same pairs are under way
as in the beginning (`guarded_relate`).
-/

set_option autoImplicit false
set_option relaxedAutoImplicit false

namespace CompositeSorts

open Matchings Matching Rule

variable {c : Catalog} {config : Configuration} {t t' u : Matchings} {id : MatchId}
  {key : PairKey} {keys : List PairKey} {l r : SortRecord} {left right : SortId}
  {post : MatchId → Matchings → Prop} {fault : Matchings → Prop}

namespace Matchings

/-- If these pairs are under way at first they are so in the end, and no others; and what is
remembered of them is the same. -/
structure Guarded (keys : List PairKey) (t t' : Matchings) : Prop where
  underWay : t.underWay = keys → t'.underWay = keys
  memo : ∀ key ∈ keys, t'.memo[key]? = t.memo[key]?

theorem Guarded.of_eq (memo : t'.memo = t.memo) (underWay : t'.underWay = t.underWay) :
    Guarded keys t t' := ⟨fun same ↦ underWay.trans same, fun _ _ ↦ by rw [memo]⟩

theorem tolerant_guarded (keys : List PairKey) : Tolerant (Guarded keys) where
  still still := .of_eq still.memo still.underWay
  trans first next := ⟨fun same ↦ next.underWay (first.underWay same),
    fun key inside ↦ (next.memo key inside).trans (first.memo key inside)⟩

/-- One more pair is under way, and then no longer. -/
theorem Guarded.during (idle : key ∉ keys) (h : Guarded (key :: keys) (t.begin key) t') :
    Guarded keys t (t'.finish key) where
  underWay same := by
    have begun : (t.begin key).underWay = key :: keys := by
      change t.underWay.insert key = _
      rw [same, List.insert_of_not_mem idle]
    change t'.underWay.erase key = keys
    rw [h.underWay begun, List.erase_cons_head]
  memo other inside := h.memo other (List.mem_cons_of_mem _ inside)

/-- Of the pair that was under way nothing is remembered yet. -/
theorem Guarded.new (h : Guarded (key :: keys) (t.begin key) t') (new : t.memo[key]? = none) :
    (t'.finish key).memo[key]? = none := (h.memo key List.mem_cons_self).trans new

/-- An entry is not touched when another one is made. -/
theorem getElem?_insert_of_ne {κ : Type} {cmp : κ → κ → Ordering} [Std.TransCmp cmp]
    [Std.LawfulEqCmp cmp] (entries : Std.ExtTreeMap κ MatchId cmp) {key other : κ}
    (differ : key ≠ other) : (entries.insert key id)[other]? = entries[other]? := by
  rw [Std.ExtTreeMap.getElem?_insert, if_neg]
  rwa [Std.LawfulEqCmp.compare_eq_iff_eq]

end Matchings

/-- What is computed for a pair, of which nothing is remembered, is remembered for it. -/
theorem ends_consult_new {m : Matching MatchId}
    (guarded : Respects (Guarded (key :: keys)) m)
    (known : ∀ id, t.memo[key]? = some id → ∀ metrics journal, post id { t with metrics, journal })
    (new : t.memo[key]? = none → Ends m ({ t with metrics := t.metrics.recordMiss }.begin key)
      (fun id t' ↦ (t'.finish key).memo[key]? = none → post id { t'.finish key with
        memo := (t'.finish key).memo.insert key id
        metrics := (t'.finish key).metrics.recordComputed })
      fun t' ↦ fault (t'.finish key)) : Ends (consult config key m) t post fault := by
  refine ends_consult known fun missed ↦ ?_
  refine ((guarded _).and (new missed)).mono (fun id t' made ↦ ?_) fun _ failed ↦ failed.2
  have first : (t'.finish key).memo[key]? = none := made.1.new missed
  refine ends_remember (fun other entry ↦ ?_) fun _ ↦ made.2 first
  rw [first] at entry
  cases entry

theorem guarded_identity (sort : SortRecord) : Respects (Guarded keys) (identity sort) := by
  intro t
  refine Ends.bind (Ends.get ?_)
  split
  · exact Ends.pure (.of_eq rfl rfl)
  · exact Ends.bind (ends_push (Ends.bind (Ends.modify (Ends.pure (.of_eq rfl rfl)))))

theorem guarded_breakCycle (key : PairKey) (l r : SortRecord) :
    Respects (Guarded keys) (breakCycle key l r) := by
  intro t
  refine Ends.bind (Ends.modify (Ends.bind (Ends.get ?_)))
  dsimp only
  split
  · exact Ends.pure (.of_eq rfl rfl)
  · exact Ends.bind (ends_push (Ends.bind (Ends.modify (Ends.pure (.of_eq rfl rfl)))))

/-- Matching leaves the same pairs under way, and what is remembered of them. -/
theorem guarded_relate (c : Catalog) (config : Configuration) (keys : List PairKey)
    (left right : SortId) : Respects (Guarded keys) (relate c config keys left right) := by
  have tolerant := tolerant_guarded keys
  rw [relate]
  split
  · exact Respects.throw tolerant.gentle _
  · exact Respects.throw tolerant.gentle _
  rename_i l r foundLeft foundRight
  split
  · exact guarded_identity l
  dsimp only
  split
  · exact guarded_breakCycle _ l r
  rename_i idle
  have inside := guarded_relate c config (⟨l.display, r.display⟩ :: keys)
  have rule : Respects (Guarded (⟨l.display, r.display⟩ :: keys)) (forVariants c config _ l r) :=
    respects_forVariants (tolerant_guarded _) inside l r
  intro t
  refine ends_consult_new rule (fun _ _ _ _ ↦ .of_eq rfl rfl) fun _ ↦ ?_
  refine (rule _).mono (fun id t' made _ ↦ ?_) fun _ failed ↦ ?_
  · have ended := made.during idle
    refine ⟨ended.underWay, fun other inside ↦ ?_⟩
    have differ : (⟨l.display, r.display⟩ : PairKey) ≠ other := by
      rintro rfl
      exact idle inside
    exact (getElem?_insert_of_ne _ differ).trans (ended.memo other inside)
  · have ended := failed.during idle
    exact ⟨ended.underWay, ended.memo⟩
termination_by (unvisited c.pairKeys keys).length
decreasing_by
  exact length_unvisited_cons_lt (Catalog.pairKey_mem_pairKeys ‹_› ‹_›) ‹_›

end CompositeSorts
