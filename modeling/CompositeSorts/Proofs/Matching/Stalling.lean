import CompositeSorts.Proofs.Follows
import CompositeSorts.Proofs.Matching.Guarding
import CompositeSorts.Proofs.Matching.Routines

/-!
Pairs whose computation is refused. To see how many computations a refusal ends, matching is carried
out once more such that a pair stays under way when its computation is refused
(`Matching.relateStalling`). It answers the same, and is refused for the same reason, with a table
that is the same but for the pairs under way (`stalls_relate`). Every match that was not found is
then accounted for: it was computed and remembered, or its pair is still under way
(`accounted_relate`).
-/

set_option autoImplicit false
set_option relaxedAutoImplicit false

namespace CompositeSorts

open Matchings Matching Rule

variable {α β : Type} {c : Catalog} {config : Configuration} {t t' u : Matchings} {id : MatchId}
  {l r : SortRecord} {key : PairKey} {keys : List PairKey} {near : SortId → SortId → Prop}
  {told made free ids : List MatchId} {relate relate' : Relate}

namespace Matching

/-- Carries out a computation while the match of a pair is under way. If it is refused, the pair
stays under way. -/
def stalling {α : Type} (key : PairKey) (computation : Matching α) : Matching α := fun t ↦
  match computation (t.begin key) with
  | .ok value t' => .ok value (t'.finish key)
  | .error reason t' => .error reason t'

/-- Consults what is remembered as `consult` does, but leaves the pair under way if its computation
is refused. -/
def consultStalling (config : Configuration) (key : PairKey) (computation : Matching MatchId) :
    Matching MatchId := do
  match ← lookUp key with
  | some known => pure known
  | none =>
    let id ← stalling key computation
    remember config key id

/-- Matches two sorts as `relate` does, but leaves the pairs under way whose computations are
refused. -/
def relateStalling (c : Catalog) (config : Configuration) (underWay : List PairKey)
    (left right : SortId) : Matching MatchId :=
  match _left : c.get left, _right : c.get right with
  | .error reason, _ => throw reason
  | .ok _, .error reason => throw reason
  | .ok l, .ok r => do
    if left = right then identity l
    else
      let key : PairKey := ⟨l.display, r.display⟩
      if _idle : key ∈ underWay then breakCycle key l r
      else
        consultStalling config key
          (Rule.forVariants c config (relateStalling c config (key :: underWay)) l r)
termination_by (unvisited c.pairKeys underWay).length
decreasing_by exact length_unvisited_cons_lt (Catalog.pairKey_mem_pairKeys _left _right) _idle

end Matching

/-! ### Steps that are not counted -/

namespace Matchings

/-- The same is remembered of pairs, the same pairs are under way, and the counts that are accounted
for are the same. -/
structure Unmoved (t t' : Matchings) : Prop where
  memo : t'.memo = t.memo
  underWay : t'.underWay = t.underWay
  misses : t'.metrics.memoMisses = t.metrics.memoMisses
  computed : t'.metrics.computed = t.metrics.computed
  purged : t'.metrics.purged = t.metrics.purged

theorem Unmoved.refl (t : Matchings) : Unmoved t t := ⟨rfl, rfl, rfl, rfl, rfl⟩

theorem Unmoved.trans (h : Unmoved t t') (h' : Unmoved t' u) : Unmoved t u :=
  ⟨h'.memo.trans h.memo, h'.underWay.trans h.underWay, h'.misses.trans h.misses,
    h'.computed.trans h.computed, h'.purged.trans h.purged⟩

end Matchings

/-- Choosing answers one of the matches, if any, and only ties them. -/
theorem Matching.ends_choose_unmoved (config : Configuration) (ids : List MatchId) (t : Matchings) :
    Ends (choose config ids) t (fun best t' ↦ Unmoved t t' ∧ best.toList ⊆ ids) (Unmoved t) := by
  refine ends_choose (fun candidates best t' ↦ best ∈ candidates ∧
    candidates.map Prod.fst = ids ∧ Unmoved t t') (.refl t) (fun _ ↦ ⟨.refl t, by simp⟩)
    (fun first others same _ ↦ ⟨foldl_better_mem first others, same, .refl t⟩)
    (fun candidates best candidate _ _ _ t' reached ↦ ?_) fun first others t' _ reached ↦ ?_
  · obtain ⟨inside, same, unmoved⟩ := reached
    exact ends_chain ⟨inside, same, unmoved⟩ fun last _ ↦
      ⟨inside, same, unmoved.trans ⟨rfl, rfl, rfl, rfl, rfl⟩⟩
  · obtain ⟨inside, same, unmoved⟩ := reached
    refine ⟨unmoved, fun id one ↦ ?_⟩
    obtain rfl := List.mem_singleton.mp one
    exact same ▸ List.mem_map_of_mem inside

/-! ### The same way -/

/-- The first computation goes the way of the second, but for the pairs that it leaves under way
when it is refused. -/
abbrev Stalls (m' m : Matching α) : Prop := ∀ t, Follows m' m t t (fun a b s w ↦ a = b ∧ s = w)
  fun s w ↦ ∃ keys, s = { w with underWay := keys }

namespace Stalls

theorem refl (m : Matching α) : Stalls m m := by
  intro t
  unfold Follows
  cases run : m t with
  | ok a t' => exact ⟨a, t', rfl, rfl, rfl⟩
  | error reason t' => exact ⟨t', rfl, t'.underWay, rfl⟩

theorem bind {m m' : Matching α} {f f' : α → Matching β} (h : Stalls m' m)
    (more : ∀ a, Stalls (f' a) (f a)) : Stalls (m' >>= f') (m >>= f) := by
  refine fun t ↦ Follows.bind ((h t).mono (fun a _ s _ same ↦ ?_) fun _ _ failed ↦ failed)
  obtain ⟨rfl, rfl⟩ := same
  exact more a s

/-- Whatever holds when the second computation answers holds when the first does. -/
theorem ends {m m' : Matching α} {post : α → Matchings → Prop} {fault : Matchings → Prop}
    (h : Stalls m' m) (ends : Ends m t post fault) : Ends m' t post fun _ ↦ True := by
  refine ((h t).ends ends).mono (fun a t' together ↦ ?_) fun _ _ ↦ trivial
  obtain ⟨_, _, reached, rfl, rfl⟩ := together
  exact reached

/-- A computation during which another pair may stay under way. -/
theorem stalling {m m' : Matching α} (h : Stalls m' m) (key : PairKey) :
    Stalls (Matching.stalling key m') (during key m) := by
  intro t
  have follows := h (t.begin key)
  unfold Follows at follows ⊢
  unfold Matching.stalling during
  cases run : m (t.begin key) with
  | ok a t' =>
    rw [run] at follows
    obtain ⟨_, _, run', rfl, rfl⟩ := follows
    rw [run']
    exact ⟨_, _, rfl, rfl, rfl⟩
  | error reason t' =>
    rw [run] at follows
    obtain ⟨_, run', keys, rfl⟩ := follows
    rw [run']
    exact ⟨_, rfl, keys, rfl⟩

end Stalls

/-- A rule goes the same way if it is told so of the matches that it asks for. -/
theorem Routine.stalls {good : List MatchId → List MatchId → List MatchId → α → Prop}
    {rule : Relate → Matching α}
    (inside : ∀ left right, Stalls (relate' left right) (relate left right))
    (routine : Routine config near l r good told made free rule) :
    Stalls (rule relate') (rule relate) := by
  induction routine with
  | pure | throw => exact .refl _
  | ask _ _ ih => exact (inside _ _).bind ih
  | nodeOf _ ih => exact (Stalls.refl _).bind ih
  | get _ ih => exact (Stalls.refl _).bind ih
  | alternatives _ _ ih => exact (Stalls.refl _).bind fun t ↦ ih _
  | push _ _ _ ih => exact (Stalls.refl _).bind ih
  | @choose _ _ free _ own _ ih =>
    refine fun t ↦ Follows.bind (((Stalls.refl _ t).and
      (ends_choose_unmoved config free t)).mono (fun best _ s _ made ↦ ?_)
      fun _ _ failed ↦ failed.1)
    obtain ⟨⟨rfl, rfl⟩, -, among⟩ := made
    exact ih best (List.Subset.trans among own) s
  | turn _ _ ih => exact ((inside _ _).bind fun _ ↦ .refl _).bind ih

/-- The rule for two sorts goes the same way. -/
theorem stalls_forVariants (foundLeft : c.get l.id = .ok l) (foundRight : c.get r.id = .ok r)
    (inside : ∀ left right, Stalls (relate' left right) (relate left right)) :
    Stalls (forVariants c config relate' l r) (forVariants c config relate l r) := by
  have routine : Routine config (c.Inside l.id r.id) l r Routine.Own [] [] [] fun relate ↦
      forVariants c config relate l r := routine_forVariants foundLeft foundRight
  exact routine.stalls inside

/-- Live sorts are related by their displays. -/
theorem relateStalling_of_found {underWay : List PairKey} {left right : SortId}
    (foundLeft : c.get left = .ok l) (foundRight : c.get right = .ok r) :
    relateStalling c config underWay left right =
      if left = right then identity l
      else if (⟨l.display, r.display⟩ : PairKey) ∈ underWay then
        breakCycle ⟨l.display, r.display⟩ l r
      else consultStalling config ⟨l.display, r.display⟩ (Rule.forVariants c config
        (relateStalling c config (⟨l.display, r.display⟩ :: underWay)) l r) := by
  rw [relateStalling]
  split
  · rename_i found
    rw [foundLeft] at found
    cases found
  · rename_i found
    rw [foundRight] at found
    cases found
  · rename_i foundLeft' foundRight'
    rw [foundLeft] at foundLeft'
    rw [foundRight] at foundRight'
    cases foundLeft'
    cases foundRight'
    rfl

/-- A pair is looked up, and computed if it is not found, in both ways. -/
theorem Stalls.consult {m m' : Matching MatchId} (h : Stalls m' m) (config : Configuration)
    (key : PairKey) : Stalls (consultStalling config key m') (Matching.consult config key m) := by
  refine (Stalls.refl _).bind fun found ↦ ?_
  cases found with
  | some known => exact .refl _
  | none => exact (h.stalling key).bind fun _ ↦ .refl _

/-- Matching goes the same way when pairs are left under way. -/
theorem stalls_relate (rooted : c.Rooted) (config : Configuration) (keys : List PairKey)
    (left right : SortId) :
    Stalls (relateStalling c config keys left right)
      (Matching.relate c config keys left right) := by
  cases foundLeft : c.get left with
  | error reason =>
    rw [relateStalling, Matching.relate, foundLeft]
    exact .refl _
  | ok l =>
  cases foundRight : c.get right with
  | error reason =>
    rw [relateStalling, Matching.relate, foundLeft, foundRight]
    exact .refl _
  | ok r =>
  obtain rfl := rooted.placed foundLeft
  obtain rfl := rooted.placed foundRight
  rw [relateStalling_of_found foundLeft foundRight, relate_of_found foundLeft foundRight]
  split_ifs with same idle
  · exact .refl _
  · exact .refl _
  · exact (stalls_forVariants foundLeft foundRight (stalls_relate rooted config _)).consult config _
termination_by (unvisited c.pairKeys keys).length
decreasing_by
  exact length_unvisited_cons_lt (Catalog.pairKey_mem_pairKeys ‹_› ‹_›) ‹_›

/-! ### Accounts -/

namespace Matchings

/-- What was not found since `u` is accounted for: it was computed and is remembered, or its pair is
still under way. -/
structure Accounted (u t : Matchings) : Prop where
  stored : t.metrics.computed + u.memo.size = u.metrics.computed + t.memo.size
  missed : t.metrics.memoMisses + u.metrics.computed + u.underWay.length =
    u.metrics.memoMisses + t.metrics.computed + t.underWay.length
  purged : t.metrics.purged = u.metrics.purged

theorem Accounted.trans (h : Accounted t t') (h' : Accounted t' u) : Accounted t u where
  stored := by
    have := h.stored
    have := h'.stored
    omega
  missed := by
    have := h.missed
    have := h'.missed
    omega
  purged := h'.purged.trans h.purged

theorem Unmoved.accounted (h : Unmoved t t') : Accounted t t' := by
  refine ⟨?_, ?_, h.purged⟩
  · rw [h.memo, h.computed]
  · rw [h.misses, h.computed, h.underWay]

/-- What is accounted for, with the pairs that are under way. -/
structure AccountedAt (keys : List PairKey) (u t : Matchings) : Prop extends Accounted u t where
  underWay : t.underWay = keys

theorem AccountedAt.unmoved (h : AccountedAt keys u t) (unmoved : Unmoved t t') :
    AccountedAt keys u t' where
  toAccounted := h.toAccounted.trans unmoved.accounted
  underWay := unmoved.underWay.trans h.underWay

/-- A miss begins a computation. -/
theorem accountedAt_begin (here : t.underWay = keys) (idle : key ∉ keys) :
    AccountedAt (key :: keys) t ({ t with metrics := t.metrics.recordMiss }.begin key) := by
  have begun : t.underWay.insert key = key :: t.underWay :=
    List.insert_of_not_mem (here ▸ idle)
  refine ⟨⟨rfl, ?_, rfl⟩, begun.trans (here ▸ rfl)⟩
  change t.metrics.memoMisses + 1 + t.metrics.computed + t.underWay.length =
    t.metrics.memoMisses + t.metrics.computed + (t.underWay.insert key).length
  rw [begun, List.length_cons]
  omega

/-- A computation that has answered ends, and its answer is remembered. -/
theorem AccountedAt.remember (h : AccountedAt (key :: keys) u t) (new : t.memo[key]? = none)
    (id : MatchId) : AccountedAt keys u { t.finish key with
      memo := (t.finish key).memo.insert key id
      metrics := (t.finish key).metrics.recordComputed } := by
  have finished : t.underWay.erase key = keys := by
    rw [h.underWay, List.erase_cons_head]
  have absent : ¬ t.memo.contains key = true := by
    rw [Std.ExtTreeMap.contains_eq_isSome_getElem?, new]
    simp
  have size : (t.memo.insert key id).size = t.memo.size + 1 := by
    rw [Std.ExtTreeMap.size_insert, if_neg absent]
  have stored := h.stored
  have missed := h.missed
  rw [h.underWay, List.length_cons] at missed
  refine ⟨⟨?_, ?_, h.purged⟩, finished⟩
  · change t.metrics.computed + 1 + u.memo.size = u.metrics.computed + (t.memo.insert key id).size
    omega
  · change t.metrics.memoMisses + u.metrics.computed + u.underWay.length =
      u.metrics.memoMisses + (t.metrics.computed + 1) + (t.underWay.erase key).length
    rw [finished]
    omega

end Matchings

/-- The steps of a rule are not counted. -/
theorem carries_accountedAt (config : Configuration) (l r : SortRecord) (keys : List PairKey)
    (u : Matchings) :
    Routine.Carries config l r (fun _ _ _ ↦ AccountedAt keys u) (Accounted u) where
  failed counted := counted.toAccounted
  alternatives counted _ := counted
  push counted _ _ := counted.unmoved ⟨rfl, rfl, rfl, rfl, rfl⟩
  choose {_ _ free t} counted _ := (ends_choose_unmoved config free t).mono
    (fun _ _ made ↦ ⟨counted.unmoved made.1, made.2⟩)
    fun _ failed ↦ (counted.unmoved failed).toAccounted

/-- Reversing is not counted. -/
theorem ends_reverse_unmoved (id : MatchId) (left right : SortId) (t : Matchings) :
    Ends (reverse id left right) t (fun _ ↦ Unmoved t) (Unmoved t) :=
  ends_reverse (fun _ ↦ ⟨rfl, rfl, rfl, rfl, rfl⟩) fun _ _ _ _ _ ↦ ⟨rfl, rfl, rfl, rfl, rfl⟩

theorem ends_identity_unmoved (sort : SortRecord) (t : Matchings) :
    Ends (identity sort) t (fun _ ↦ Unmoved t) (Unmoved t) := by
  refine Ends.bind (Ends.get ?_)
  split
  · exact Ends.pure (.refl t)
  · exact Ends.bind (ends_push (Ends.bind (Ends.modify (Ends.pure ⟨rfl, rfl, rfl, rfl, rfl⟩))))

theorem ends_breakCycle_unmoved (key : PairKey) (l r : SortRecord) (t : Matchings) :
    Ends (breakCycle key l r) t (fun _ ↦ Unmoved t) (Unmoved t) := by
  refine Ends.bind (Ends.modify (Ends.bind (Ends.get ?_)))
  dsimp only
  split
  · exact Ends.pure ⟨rfl, rfl, rfl, rfl, rfl⟩
  · exact Ends.bind (ends_push (Ends.bind (Ends.modify (Ends.pure ⟨rfl, rfl, rfl, rfl, rfl⟩))))

/-- A match that is found is not counted as missed. Another one is computed and remembered, or its
pair stays under way. -/
theorem ends_consultStalling {m : Matching MatchId} {post : MatchId → Matchings → Prop}
    {fault : Matchings → Prop}
    (known : ∀ id, t.memo[key]? = some id →
      post id ({ t with metrics := t.metrics.recordHit }.note (.memoHit id)))
    (new : t.memo[key]? = none → Ends m ({ t with metrics := t.metrics.recordMiss }.begin key)
      (fun id t' ↦ Ends (remember config key id) (t'.finish key) post fault) fault) :
    Ends (consultStalling config key m) t post fault := by
  refine Ends.bind (Ends.bind (Ends.get ?_))
  split
  · exact Ends.bind (Ends.modify (Ends.pure (Ends.pure (known _ ‹_›))))
  · refine Ends.bind (Ends.modify (Ends.pure (Ends.bind ?_)))
    have computed := new ‹_›
    unfold Ends at computed ⊢
    unfold stalling
    cases run : m ({ t with metrics := t.metrics.recordMiss }.begin key) with
    | ok id t' =>
      rw [run] at computed
      exact computed
    | error reason t' =>
      rw [run] at computed
      exact computed

/-- Matching accounts for every match that was not found. -/
theorem accounted_relate (rooted : c.Rooted) (config : Configuration) (keys : List PairKey)
    (left right : SortId) (t : Matchings) (here : t.underWay = keys) :
    Ends (relateStalling c config keys left right) t (fun _ ↦ AccountedAt keys t)
      (Accounted t) := by
  have start : AccountedAt keys t t := ⟨(Unmoved.refl t).accounted, here⟩
  cases foundLeft : c.get left with
  | error reason =>
    rw [relateStalling, foundLeft]
    exact Ends.throw start.toAccounted
  | ok l =>
  cases foundRight : c.get right with
  | error reason =>
    rw [relateStalling, foundLeft, foundRight]
    exact Ends.throw start.toAccounted
  | ok r =>
  obtain rfl := rooted.placed foundLeft
  obtain rfl := rooted.placed foundRight
  rw [relateStalling_of_found foundLeft foundRight]
  have uncounted {m : Matching MatchId} (ends : Ends m t (fun _ ↦ Unmoved t) (Unmoved t)) :
      Ends m t (fun _ ↦ AccountedAt keys t) (Accounted t) :=
    ends.mono (fun _ _ unmoved ↦ start.unmoved unmoved) fun _ unmoved ↦ unmoved.accounted
  split_ifs with same idle
  · exact uncounted (ends_identity_unmoved l t)
  · exact uncounted (ends_breakCycle_unmoved _ l r t)
  let key : PairKey := ⟨l.display, r.display⟩
  have inside := accounted_relate rooted config (key :: keys)
  have routine : Routine config (c.Inside l.id r.id) l r Routine.Own [] [] [] fun relate ↦
      forVariants c config relate l r := routine_forVariants foundLeft foundRight
  -- A computation that answers goes the way of the one that is guarded, so its pair is new.
  have guarded : Respects (Guarded (key :: keys)) (forVariants c config _ l r) :=
    respects_forVariants (tolerant_guarded _) (guarded_relate c config _) l r
  have stalls : Stalls (forVariants c config _ l r) (forVariants c config _ l r) :=
    stalls_forVariants foundLeft foundRight (stalls_relate rooted config (key :: keys))
  refine ends_consultStalling (fun id _ ↦ start.unmoved ⟨rfl, rfl, rfl, rfl, rfl⟩) fun missed ↦ ?_
  have begun := accountedAt_begin here idle
  refine ((stalls.ends (guarded _)).and (Routine.run
    (carries_accountedAt config l r (key :: keys) t)
    (fun left right _ _ _ t' _ counted ↦ ?_) (fun _ _ _ t' _ counted ↦ ?_) routine begun)).mono
    (fun id t' made ↦ ?_) fun _ failed ↦ failed.2
  · exact (inside left right t' counted.underWay).mono
      (fun _ _ made ↦ ⟨counted.toAccounted.trans made.toAccounted, made.underWay⟩)
      fun _ failed ↦ counted.toAccounted.trans failed
  · refine Ends.bind ((inside r.id l.id t' counted.underWay).mono (fun forward t'' made ↦ ?_)
      fun _ failed ↦ counted.toAccounted.trans failed)
    have counted : AccountedAt (key :: keys) t t'' :=
      ⟨counted.toAccounted.trans made.toAccounted, made.underWay⟩
    exact (ends_reverse_unmoved forward l.id r.id t'').mono
      (fun _ _ unmoved ↦ counted.unmoved unmoved)
      fun _ unmoved ↦ (counted.unmoved unmoved).toAccounted
  · obtain ⟨guarded, _, _, _, -, counted⟩ := made
    have new : t'.memo[key]? = none := guarded.new missed
    refine ends_remember (fun known entry ↦ ?_) fun _ ↦ counted.remember new id
    rw [show (t'.finish key).memo[key]? = none from new] at entry
    cases entry
termination_by (unvisited c.pairKeys keys).length
decreasing_by
  exact length_unvisited_cons_lt (Catalog.pairKey_mem_pairKeys ‹_› ‹_›) ‹_›

end CompositeSorts
