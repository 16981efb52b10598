import CompositeSorts.Proofs.Matching.Keeping
import CompositeSorts.Proofs.Matching.Mirrors

/-!
Asking again. Matching remembers whatever it answers, but for the sentinels of pairs under way, and
those are incongruous, one like the other (`Barred`). So two sorts that were matched once get the
same verdict whenever they are matched again, as long as the same pairs are under way and nothing is
forgotten (`fixed_of_relate`).
-/

set_option autoImplicit false
set_option relaxedAutoImplicit false

namespace CompositeSorts

open Matchings Matching Rule

variable {c : Catalog} {config : Configuration} {underWay : List PairKey}
  {t t' u : Matchings} {id : MatchId} {l r : SortRecord} {left right : SortId} {key : PairKey}
  {v w : Verdict}

namespace Matchings

/-- Whatever stands for a pair under way says that its sorts do not correspond. -/
def Barred (t : Matchings) : Prop :=
  ∀ (key : PairKey) (id : MatchId), t.sentinels[key]? = some id → t.Gives id .bare

theorem Barred.extend (h : t.Barred) (nodes : Extends t t') (sentinels : t'.sentinels = t.sentinels) :
    t'.Barred := fun key id entry ↦ (h key id (sentinels ▸ entry)).extend nodes

theorem Barred.insert (h : t.Barred) (gives : t.Gives id .bare) (key : PairKey) :
    Barred { t with sentinels := t.sentinels.insert key id } := by
  intro other known entry
  rw [Std.ExtTreeMap.getElem?_insert] at entry
  split_ifs at entry
  · cases entry
    exact gives
  · exact h other known entry

theorem barred_empty : Barred empty := fun key id entry ↦ by simp [empty] at entry

theorem Barred.forget (h : t.Barred) (gone : List SortId) : (t.forget gone).2.Barred := by
  intro key id entry
  change (t.sentinels.filter _)[key]? = some id at entry
  rw [Std.ExtTreeMap.getElem?_filter', Option.filter_eq_some_iff] at entry
  exact h key id entry.1

/-- Matches stay but for their ties, and so does what is remembered; sentinels stay bare. -/
structure Retains (t t' : Matchings) : Prop where
  nodes : Extends t t'
  memo : ∀ {key : PairKey} {id : MatchId}, t.memo[key]? = some id → t'.memo[key]? = some id
  identities : ∀ {sort : SortId} {id : MatchId}, t.identities[sort]? = some id →
    t'.identities[sort]? = some id
  barred : t.Barred → t'.Barred

theorem Retains.of_quiet (quiet : Quiet t t') : Retains t t' where
  nodes := quiet.nodes
  memo entry := quiet.memo ▸ entry
  identities entry := quiet.identities ▸ entry
  barred h := h.extend quiet.nodes quiet.sentinels

theorem Retains.refl (t : Matchings) : Retains t t := .of_quiet (.refl t)

theorem Retains.trans (h : Retains t t') (h' : Retains t' u) : Retains t u :=
  ⟨h.nodes.trans h'.nodes, fun entry ↦ h'.memo (h.memo entry),
    fun entry ↦ h'.identities (h.identities entry), fun barred ↦ h'.barred (h.barred barred)⟩

theorem tolerant_retains : Tolerant Retains := ⟨fun still ↦ .of_quiet still.toQuiet, .trans⟩

/-- Sentinels stay bare. -/
def Bars (t t' : Matchings) : Prop := Extends t t' ∧ (t.Barred → t'.Barred)

theorem tolerant_bars : Tolerant Bars :=
  ⟨fun still ↦ ⟨still.nodes, fun h ↦ h.extend still.nodes still.sentinels⟩,
    fun h h' ↦ ⟨h.1.trans h'.1, fun barred ↦ h'.2 (h.2 barred)⟩⟩

end Matchings

/-- A pair under way is answered by a bare match. -/
theorem ends_breakCycle_bars (key : PairKey) (l r : SortRecord) :
    Ends (breakCycle key l r) t (fun id t' ↦ Bars t t' ∧ (t.Barred → t'.Gives id .bare))
      fun _ ↦ False := by
  refine Ends.bind (Ends.modify (Ends.bind (Ends.get ?_)))
  dsimp only
  split
  · rename_i known
    exact Ends.pure ⟨⟨Extends.refl t, fun h ↦ h⟩, fun h ↦ h _ _ (Option.filter_eq_some_iff.mp known).1⟩
  · refine Ends.bind (ends_push (Ends.bind (Ends.modify (Ends.pure ?_))))
    have pushed := still_push (t := { t with metrics := t.metrics.recordCycle }.note
      (.cycleBroken l.id r.id)) { node l r .incongruous .concordant .none [] with sentinel := true }
    have gives := Gives.push (t := { t with metrics := t.metrics.recordCycle }.note
      (.cycleBroken l.id r.id)) { node l r .incongruous .concordant .none [] with sentinel := true }
    exact ⟨⟨pushed.nodes, fun h ↦ (h.extend pushed.nodes pushed.sentinels).insert gives key⟩,
      fun _ ↦ gives⟩

theorem bars_relate (c : Catalog) (config : Configuration) (underWay : List PairKey)
    (left right : SortId) : Respects Bars (relate c config underWay left right) := by
  have gentle := tolerant_bars.gentle
  rw [relate]
  split
  · exact Respects.throw gentle _
  · exact Respects.throw gentle _
  rename_i l r foundLeft foundRight
  split
  · intro t
    refine Ends.bind (Ends.get ?_)
    split
    · exact Ends.pure (gentle.refl t)
    · refine Ends.bind (ends_push (Ends.bind (Ends.modify (Ends.pure ?_))))
      exact gentle.push t (node l l .identical .concordant .none [])
  dsimp only
  split
  · exact fun t ↦ (ends_breakCycle_bars _ l r).mono (fun _ _ made ↦ made.1) fun _ ↦ False.elim
  rename_i idle
  have inside := bars_relate c config (⟨l.display, r.display⟩ :: underWay)
  intro t
  refine ends_consult (fun _ _ _ _ ↦ ⟨Extends.refl t, fun h ↦ h⟩) fun _ ↦ ?_
  refine (respects_forVariants tolerant_bars inside l r _).mono (fun id t' made ↦ ?_)
    fun _ failed ↦ failed
  have ended : Bars t (t'.finish ⟨l.display, r.display⟩) := made
  exact ends_remember (fun known _ t'' still ↦ tolerant_bars.trans ended (tolerant_bars.still still))
    fun _ ↦ ended
termination_by (unvisited c.pairKeys underWay).length
decreasing_by
  exact length_unvisited_cons_lt (Catalog.pairKey_mem_pairKeys ‹_› ‹_›) ‹_›

theorem retains_relate (c : Catalog) (config : Configuration) (underWay : List PairKey)
    (left right : SortId) : Respects Retains (relate c config underWay left right) := by
  have retains {t t' : Matchings} (h : Keeps t t' ∧ Bars t t') : Retains t t' :=
    ⟨h.2.1, h.1.memo, h.1.identities, h.2.2⟩
  exact fun t ↦ ((keeps_relate c config underWay left right t).and
    (bars_relate c config underWay left right t)).mono (fun _ _ ↦ retains) fun _ ↦ retains

/-! ### Fixed verdicts -/

/-- Whenever the two sorts are matched from `t` on, this is the verdict. -/
def Fixed (relate : Relate) (t : Matchings) (pair : SortId × SortId) (v : Verdict) : Prop :=
  ∀ u, Retains t u → u.Barred →
    ∃ id u', relate pair.1 pair.2 u = .ok id u' ∧ u'.Gives id v

theorem Fixed.later {relate : Relate} {pair : SortId × SortId} (h : Fixed relate t pair v)
    (later : Retains t t') : Fixed relate t' pair v := fun u retains ↦ h u (later.trans retains)

/-- There is one verdict. -/
theorem Fixed.unique {relate : Relate} {pair : SortId × SortId} (h : Fixed relate t pair v)
    (h' : Fixed relate t pair w) (barred : t.Barred) : v = w := by
  obtain ⟨id, u, run, gives⟩ := h t (.refl t) barred
  obtain ⟨id', u', run', gives'⟩ := h' t (.refl t) barred
  rw [run] at run'
  cases run'
  exact gives.unique gives'

theorem ends_identity_entered (sort : SortRecord) :
    Ends (identity sort) t (fun id t' ↦ t'.identities[sort.id]? = some id) fun _ ↦ False := by
  refine Ends.bind (Ends.get ?_)
  split
  · exact Ends.pure ‹_›
  · exact Ends.bind (ends_push (Ends.bind (Ends.modify
      (Ends.pure Std.ExtTreeMap.getElem?_insert_self))))

theorem ends_consult_entered {m : Matching MatchId} :
    Ends (consult config key m) t (fun id t' ↦ t'.memo[key]? = some id) fun _ ↦ True := by
  refine ends_consult (fun _ entry _ _ ↦ entry) fun _ ↦ Ends.of_forall fun id t' ↦ ?_
  refine ends_remember (fun known entry t'' still ↦ ?_) fun _ ↦ Std.ExtTreeMap.getElem?_insert_self
  rw [still.memo]
  exact entry

theorem ends_consult_of_entry {m : Matching MatchId} (entry : t.memo[key]? = some id) :
    Ends (consult config key m) t (fun known t' ↦ known = id ∧ Extends t t') fun _ ↦ False := by
  refine ends_consult (fun known here _ _ ↦ ⟨?_, Extends.refl t⟩) fun new ↦ ?_
  · rw [entry] at here
    cases here
    rfl
  · rw [entry] at new
    cases new

/-- The verdict on two sorts that were matched is fixed. -/
theorem fixed_of_relate (barred : t.Barred) (run : relate c config underWay left right t = .ok id t')
    (gives : t'.Gives id v) : Fixed (relate c config underWay) t' (left, right) v := by
  obtain ⟨l, r, foundLeft, foundRight⟩ := live_of_relate run
  intro u later barred'
  refine Ends.exists_ok ?_
  rw [relate_of_found foundLeft foundRight] at run ⊢
  split_ifs at run ⊢ with same busy
  · have entry := (ends_identity_entered l).of_ok run
    refine Ends.bind (Ends.get ?_)
    rw [later.identities entry]
    exact Ends.pure (gives.extend later.nodes)
  · obtain rfl := gives.unique (((ends_breakCycle_bars _ l r).of_ok run).2 barred)
    exact (ends_breakCycle_bars _ l r).mono (fun _ _ made ↦ made.2 barred') fun _ ↦ False.elim
  · have entry := ends_consult_entered.of_ok run
    refine (ends_consult_of_entry (later.memo entry)).mono (fun known u' made ↦ ?_) fun _ ↦ False.elim
    rw [made.1]
    exact (gives.extend later.nodes).extend made.2

/-- Matching of which the verdicts are fixed. -/
structure Steadfast (relate : Relate) : Prop where
  retains : ∀ a b, Respects Retains (relate a b)
  fixed : ∀ {a b : SortId} {t t' : Matchings} {id : MatchId} {v : Verdict}, t.Barred →
    relate a b t = .ok id t' → t'.Gives id v → Fixed relate t' (a, b) v

theorem steadfast_relate (c : Catalog) (config : Configuration) (underWay : List PairKey) :
    Steadfast (relate c config underWay) :=
  ⟨retains_relate c config underWay, fixed_of_relate⟩

end CompositeSorts
