import CompositeSorts.Proofs.Matching.Guarding
import Mathlib.Data.Finset.Card

/-!
How deep matching goes. `relateWithin` matches with a table that knows which pairs are under way,
and with a bound on how many computations of pairs may stand inside each other; a computation that
would stand deeper is handed to a function of which nothing is known. A rule asks for one match
after the other and leaves the same pairs under way (`concur_forVariants`), so each computation
inside another is one of a pair that was not under way. There are not more of them than pairs of
displays of live sorts; with a bound of so many, nothing is ever handed over, and the matches are
those that matching makes (`concur_relateWithin`).
-/

set_option autoImplicit false
set_option relaxedAutoImplicit false

namespace CompositeSorts

open Matchings Matching Rule

variable {α β : Type} {c : Catalog} {config : Configuration} {t t' : Matchings}
    {keys : List PairKey}
  {l r : SortRecord} {left right : SortId}

namespace Matching

/-- Matches two sorts, and computes the match of a pair as given if it is neither remembered nor
under way. -/
def relateBy (c : Catalog) (config : Configuration)
    (compute : SortRecord → SortRecord → Matching MatchId) : Relate := fun left right ↦
  match c.get left, c.get right with
  | .error reason, _ => throw reason
  | .ok _, .error reason => throw reason
  | .ok l, .ok r => do
    if left = right then identity l
    else
      let key : PairKey := ⟨l.display, r.display⟩
      if key ∈ (← get).underWay then breakCycle key l r
      else consult config key (compute l r)

/-- Matches two sorts; `depth` computations of pairs may stand inside each other, and what stands
inside of so many goes `beyond`. -/
def relateWithin (c : Catalog) (config : Configuration)
    (beyond : SortRecord → SortRecord → Matching MatchId) : (depth : Nat) → Relate
  | 0 => relateBy c config beyond
  | depth + 1 => relateBy c config
      (Rule.forVariants c config (relateWithin c config beyond depth))

end Matching

/-! ### Computations while pairs are under way -/

theorem gentle_guarded (keys : List PairKey) : Gentle (Guarded keys) :=
  (tolerant_guarded keys).gentle

/-- While these pairs are under way, and no others, the computations do the same, and they leave
them under way when they answer. -/
def Concur (keys : List PairKey) (m m' : Matching α) : Prop :=
  ∀ t, t.underWay = keys → m t = m' t ∧ Ends m' t (fun _ t' ↦ t'.underWay = keys) fun _ ↦ True

namespace Concur

variable {m m' : Matching α} {f f' : α → Matching β}

theorem of_ends (h : ∀ t, t.underWay = keys →
    Ends m t (fun _ t' ↦ t'.underWay = keys) fun _ ↦ True) : Concur keys m m :=
  fun t same ↦ ⟨rfl, h t same⟩

theorem refl (h : Respects (Guarded keys) m) : Concur keys m m := of_ends fun t same ↦
  (h t).mono (fun _ _ guarded ↦ guarded.underWay same) fun _ _ ↦ trivial

theorem bind (h : Concur keys m m') (h' : ∀ a, Concur keys (f a) (f' a)) :
    Concur keys (m >>= f) (m' >>= f') := by
  intro t same
  obtain ⟨eq, ends⟩ := h t same
  refine ⟨?_, Ends.bind (ends.mono (fun a t' still ↦ (h' a t' still).2) fun _ _ ↦ trivial)⟩
  change EStateM.bind m f t = EStateM.bind m' f' t
  unfold EStateM.bind
  rw [eq]
  split
  · rename_i a t' run
    have still := ends.of_ok run
    exact (h' a t' still).1
  · rfl

theorem nodeOf (id : MatchId) : Concur keys (Matching.nodeOf id) (Matching.nodeOf id) :=
  refl (Respects.nodeOf (gentle_guarded keys) id)

theorem ask (answer : Except Refusal α) : Concur keys (Matching.ask answer) (Matching.ask answer) :=
  refl (Respects.ask (gentle_guarded keys) answer)

theorem mapM {work work' : α → Matching β} (items : List α)
    (each : ∀ a, Concur keys (work a) (work' a)) :
    Concur keys (items.mapM work) (items.mapM work') := by
  induction items with
  | nil => exact refl (Respects.pure (gentle_guarded keys) [])
  | cons a items ih =>
    rw [List.mapM_cons, List.mapM_cons]
    exact (each a).bind fun _ ↦ ih.bind fun _ ↦ refl (Respects.pure (gentle_guarded keys) _)

end Concur

/-! ### Rules -/

section

variable {relate relate' : Relate} (inside : ∀ left right, Concur keys (relate left right)
  (relate' left right))

include inside

theorem concur_exchanged (l r : SortRecord) :
    Concur keys (exchanged relate l r) (exchanged relate' l r) :=
  (inside _ _).bind fun _ ↦ .refl (Respects.reverse (gentle_guarded keys) _ _ _)

theorem concur_aspects (l r : SortRecord) (leftOwner rightOwner : SortId)
    (leftPosition rightPosition : Nat) :
    Concur keys (aspects c relate l r leftOwner rightOwner leftPosition rightPosition)
      (aspects c relate' l r leftOwner rightOwner leftPosition rightPosition) := by
  have gentle := gentle_guarded keys
  refine (inside _ _).bind fun owners ↦ (Concur.nodeOf owners).bind fun node ↦ ?_
  split_ifs
  · exact .refl (respects_incongruous gentle l r _)
  · exact .refl (Respects.bind gentle (Respects.get gentle) fun _ ↦ Respects.push gentle _)
  · refine (Concur.ask _).bind fun _ ↦ (Concur.ask _).bind fun _ ↦ ?_
    refine (inside _ _).bind fun arguments ↦ (Concur.nodeOf arguments).bind fun node ↦ ?_
    split_ifs
    · exact .refl (respects_incongruous gentle l r _)
    · exact .refl (Respects.pushLike gentle l r _ _)

theorem concur_recursive (l r : SortRecord) (target : Option SortId) :
    Concur keys (recursive relate l r target) (recursive relate' l r target) := by
  have gentle := gentle_guarded keys
  unfold recursive
  split
  · exact .refl (Respects.throw gentle _)
  · split_ifs
    · exact .refl (respects_equivalent gentle l r _)
    all_goals
      refine (inside _ _).bind fun inner ↦ (Concur.nodeOf inner).bind fun source ↦ ?_
      exact .refl (Respects.push gentle _)

theorem concur_like (l r : SortRecord) (left right : SortId) (adjust : MatchNode → MatchNode) :
    Concur keys (relate left right >>= fun inner ↦ pushLike l r inner adjust)
      (relate' left right >>= fun inner ↦ pushLike l r inner adjust) :=
  (inside _ _).bind fun _ ↦ .refl (Respects.pushLike (gentle_guarded keys) l r _ _)

theorem concur_disjunction (l r : SortRecord) (components : List SortId) :
    Concur keys (disjunction config relate l r components)
      (disjunction config relate' l r components) :=
  (Concur.mapM components fun component ↦ concur_like inside l r component r.id _).bind fun _ ↦
    .refl (Respects.chooseOrIncongruous (tolerant_guarded keys) config l r _ _)

theorem concur_weightedBesideSimple (l r : SortRecord) (base weight : SortId) :
    Concur keys (weightedBesideSimple c config relate l r base weight)
      (weightedBesideSimple c config relate' l r base weight) := by
  have gentle := gentle_guarded keys
  refine (Concur.ask _).bind fun _ ↦ ?_
  refine (inside _ _).bind fun _ ↦ (Concur.refl (Respects.pushLike gentle l r _ _)).bind fun _ ↦ ?_
  refine (inside _ _).bind fun _ ↦ (Concur.refl (Respects.pushLike gentle l r _ _)).bind fun _ ↦ ?_
  exact .refl (Respects.chooseOrIncongruous (tolerant_guarded keys) config l r _ _)

theorem concur_align (sofar : Rule.Alignment) (pairs : List (SortId × SortId)) :
    Concur keys (align relate sofar pairs) (align relate' sofar pairs) := by
  have gentle := gentle_guarded keys
  induction pairs generalizing sofar with
  | nil => exact .refl (Respects.pure gentle _)
  | cons pair pairs ih =>
    refine (inside _ _).bind fun element ↦ (Concur.nodeOf element).bind fun node ↦ ?_
    split_ifs
    · exact .refl (Respects.pure gentle _)
    · exact ih _

theorem concur_rotation (l r : SortRecord) (left right : List SortId) (shift : Nat) :
    Concur keys (rotation relate l r left right shift) (rotation relate' l r left right shift) := by
  have gentle := gentle_guarded keys
  refine (concur_align inside _ _).bind fun found ↦ .refl ?_
  split
  · exact Respects.pure gentle _
  · refine Respects.bind gentle (Respects.get gentle) fun _ ↦ ?_
    rw [map_eq_pure_bind]
    exact Respects.bind gentle (Respects.push gentle _) fun _ ↦ Respects.pure gentle _

theorem concur_bestRotation (l r : SortRecord) :
    Concur keys (bestRotation c config relate l r) (bestRotation c config relate' l r) := by
  have gentle := gentle_guarded keys
  refine (Concur.ask _).bind fun left ↦ (Concur.ask _).bind fun right ↦ ?_
  split_ifs
  · exact .refl (Respects.pure gentle _)
  · exact (Concur.mapM _ fun shift ↦ concur_rotation inside l r left right shift).bind fun _ ↦
      .refl (Respects.choose (tolerant_guarded keys) config _)

theorem concur_augmented (l r : SortRecord) (rightBase rightWeight : SortId) :
    Concur keys (augmented c relate l r rightBase rightWeight)
      (augmented c relate' l r rightBase rightWeight) := by
  have gentle := gentle_guarded keys
  refine (Concur.ask _).bind fun _ ↦ (inside _ _).bind fun inner ↦
    (Concur.nodeOf inner).bind fun node ↦ .refl ?_
  split_ifs
  · exact Respects.pure gentle _
  · exact Respects.bind gentle (Respects.pushLike gentle l r _ _) fun _ ↦ Respects.pure gentle _

theorem concur_lessened (l r : SortRecord) (leftBase leftWeight : SortId) :
    Concur keys (lessened c relate l r leftBase leftWeight)
      (lessened c relate' l r leftBase leftWeight) := by
  have gentle := gentle_guarded keys
  refine (Concur.ask _).bind fun _ ↦ (inside _ _).bind fun inner ↦
    (Concur.nodeOf inner).bind fun node ↦ .refl ?_
  split_ifs
  · exact Respects.pure gentle _
  · exact Respects.bind gentle (Respects.pushLike gentle l r _ _) fun _ ↦ Respects.pure gentle _

theorem concur_weighted (l r : SortRecord) (leftBase leftWeight rightBase rightWeight : SortId) :
    Concur keys (weighted c config relate l r leftBase leftWeight rightBase rightWeight)
      (weighted c config relate' l r leftBase leftWeight rightBase rightWeight) := by
  have gentle := gentle_guarded keys
  unfold weighted
  split_ifs
  · exact .refl (respects_equivalent gentle l r _)
  refine (inside _ _).bind fun baseId ↦ (inside _ _).bind fun weightId ↦ ?_
  refine (Concur.nodeOf baseId).bind fun base ↦ (Concur.nodeOf weightId).bind fun weight ↦ ?_
  split
  · exact .refl (Respects.bind gentle (Respects.get gentle) fun _ ↦ Respects.push gentle _)
  refine (concur_bestRotation inside l r).bind fun rotated ↦ ?_
  split
  · exact .refl (Respects.pure gentle _)
  refine (Concur.refl (respects_halves gentle l r _ _)).bind fun _ ↦ ?_
  refine (concur_augmented inside l r _ _).bind fun _ ↦
    (concur_lessened inside l r _ _).bind fun _ ↦ ?_
  exact .refl (Respects.chooseOrIncongruous (tolerant_guarded keys) config l r _ _)

theorem concur_pairings (left right : SortId × Nat) :
    Concur keys (pairings relate left right) (pairings relate' left right) := by
  have gentle := gentle_guarded keys
  refine (inside _ _).bind fun head ↦ .refl ?_
  refine Respects.bind gentle (Respects.get gentle) fun _ ↦ ?_
  refine Respects.bind gentle (Respects.mapM gentle _ fun id _ ↦ ?_) fun _ ↦
    Respects.pure gentle _
  exact Respects.bind gentle (Respects.nodeOf gentle _) fun _ ↦ Respects.pure gentle _

theorem concur_composition (l r : SortRecord) (left right : List SortId) :
    Concur keys (composition relate l r left right) (composition relate' l r left right) := by
  have gentle := gentle_guarded keys
  unfold composition
  split_ifs
  · exact .refl (respects_equivalent gentle l r _)
  have all : Concur keys (allPairings relate left right) (allPairings relate' left right) := by
    refine (Concur.mapM _ fun l ↦ ?_).bind fun _ ↦ .refl (Respects.pure gentle _)
    refine (Concur.mapM _ fun r ↦ ?_).bind fun _ ↦ .refl (Respects.pure gentle _)
    exact concur_pairings inside l r
  refine all.bind fun found ↦ .refl ?_
  dsimp only
  split_ifs
  · exact respects_incongruous gentle l r _
  · exact Respects.bind gentle (Respects.get gentle) fun _ ↦ Respects.push gentle _

/-- The rule for two sorts does the same whichever of two functions matches the sorts inside, if
these do the same while the same pairs are under way. -/
theorem concur_forVariants (l r : SortRecord) :
    Concur keys (forVariants c config relate l r) (forVariants c config relate' l r) := by
  have gentle := gentle_guarded keys
  unfold forVariants
  dsimp only
  split
  · exact .refl (respects_tuples gentle l r)
  · exact .refl (Respects.throw gentle _)
  · exact .refl (Respects.throw gentle _)
  · split_ifs
    · exact concur_exchanged inside l r
    · exact concur_recursive inside l r _
  · exact concur_recursive inside l r _
  · exact concur_exchanged inside l r
  · split_ifs
    · exact concur_exchanged inside l r
    · exact concur_composition inside l r _ _
  · exact concur_disjunction inside l r _
  · exact concur_exchanged inside l r
  · split_ifs
    · exact concur_exchanged inside l r
    · exact concur_weighted inside l r _ _ _ _
  · exact concur_weightedBesideSimple inside l r _ _
  · exact concur_exchanged inside l r
  · exact .refl (respects_primitives gentle l r _ _)
  · split_ifs
    · exact concur_exchanged inside l r
    · exact concur_aspects inside l r _ _ _ _
  · exact .refl (respects_incongruous gentle l r _)

end

/-! ### The bound -/

/-- The computation of a pair that was not under way leaves the same pairs under way as before. -/
theorem Concur.during {key : PairKey} {m m' : Matching α} (idle : key ∉ keys)
    (h : Concur (key :: keys) m m') :
    Concur keys (Matching.during key m) (Matching.during key m') := by
  intro t same
  have begun : (t.begin key).underWay = key :: keys := by
    change t.underWay.insert key = _
    rw [same, List.insert_of_not_mem idle]
  obtain ⟨eq, ends⟩ := h (t.begin key) begun
  refine ⟨?_, ends_during (ends.mono (fun _ t' still ↦ ?_) fun _ _ ↦ trivial)⟩
  · unfold Matching.during
    rw [eq]
  · change t'.underWay.erase key = keys
    rw [still, List.erase_cons_head]

theorem Concur.consult {key : PairKey} {m m' : Matching MatchId} (idle : key ∉ keys)
    (h : Concur (key :: keys) m m') :
    Concur keys (Matching.consult config key m) (Matching.consult config key m') := by
  have lookUp : Concur keys (lookUp key) (lookUp key) := by
    refine .of_ends fun t same ↦ Ends.bind (Ends.get ?_)
    split
    · exact Ends.bind (Ends.modify (Ends.pure same))
    · exact Ends.bind (Ends.modify (Ends.pure same))
  refine lookUp.bind fun known ↦ ?_
  split
  · exact .refl (Respects.pure (gentle_guarded keys) _)
  · refine (h.during idle).bind fun id ↦ .of_ends fun t same ↦ ?_
    exact ends_remember (fun _ _ _ still ↦ still.underWay.trans same) fun _ ↦ same

/-- Two sorts are matched alike if pairs that are not under way are computed alike. -/
theorem concur_relateBy {compute : SortRecord → SortRecord → Matching MatchId}
    (computed : ∀ l r, c.get left = .ok l → c.get right = .ok r →
      (⟨l.display, r.display⟩ : PairKey) ∉ keys →
      Concur (⟨l.display, r.display⟩ :: keys) (compute l r)
        (forVariants c config (relate c config (⟨l.display, r.display⟩ :: keys)) l r)) :
    Concur keys (relateBy c config compute left right) (relate c config keys left right) := by
  unfold relateBy
  cases foundLeft : c.get left with
  | error reason =>
    rw [relate, foundLeft]
    exact .refl (Respects.throw (gentle_guarded keys) reason)
  | ok l =>
  cases foundRight : c.get right with
  | error reason =>
    rw [relate, foundLeft, foundRight]
    exact .refl (Respects.throw (gentle_guarded keys) reason)
  | ok r =>
  rw [relate_of_found foundLeft foundRight]
  dsimp only
  split_ifs with same under
  · exact .refl (guarded_identity l)
  · intro t still
    have guarded (key : PairKey) : Respects (Guarded keys) (breakCycle key l r) :=
      guarded_breakCycle key l r
    obtain ⟨-, ends⟩ := Concur.refl (guarded _) t still
    refine ⟨?_, ends⟩
    change (if _ ∈ t.underWay then breakCycle _ l r else Matching.consult config _
      (compute l r)) t = _
    rw [still, if_pos under]
  · intro t still
    obtain ⟨eq, ends⟩ := Concur.consult under (computed l r foundLeft foundRight under) t still
    refine ⟨?_, ends⟩
    change (if _ ∈ t.underWay then breakCycle _ l r else Matching.consult config _
      (compute l r)) t = _
    rw [still, if_neg under]
    exact eq

/-- With as many computations inside each other as there are pairs of displays that are not under
way, none is handed over. -/
theorem concur_relateWithin (beyond : SortRecord → SortRecord → Matching MatchId) (depth : Nat)
    (keys : List PairKey) (distinct : keys.Nodup) (known : keys ⊆ c.pairKeys)
    (enough : c.pairKeys.toFinset.card ≤ depth + keys.length) (left right : SortId) :
    Concur keys (relateWithin c config beyond depth left right)
    (relate c config keys left right) := by
  induction depth generalizing keys left right with
  | zero =>
    refine concur_relateBy fun l r foundLeft foundRight idle ↦ absurd ?_ idle
    have all : keys.toFinset = c.pairKeys.toFinset := by
      refine Finset.eq_of_subset_of_card_le (fun key inside ↦ ?_) ?_
      · exact List.mem_toFinset.mpr (known (List.mem_toFinset.mp inside))
      · rw [List.toFinset_card_of_nodup distinct]
        omega
    rw [← List.mem_toFinset, all, List.mem_toFinset]
    exact Catalog.pairKey_mem_pairKeys foundLeft foundRight
  | succ depth ih =>
    refine concur_relateBy fun l r foundLeft foundRight idle ↦ ?_
    refine concur_forVariants (fun left right ↦ ih _ ?_ ?_ ?_ left right) l r
    · exact List.nodup_cons.mpr ⟨idle, distinct⟩
    · exact List.cons_subset.mpr ⟨Catalog.pairKey_mem_pairKeys foundLeft foundRight, known⟩
    · rw [List.length_cons]
      omega

end CompositeSorts
