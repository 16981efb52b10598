import CompositeSorts.Proofs.Matching.Arranging

/-!
Decided sorts. Where the order of components cannot be seen in what is answered, the sorts are
*decided* (`Catalog.Decided`): components that are tied for the best beside another sort agree in
their tallies, and tied pairings of the components of two disjunctions do not contest a component.
Decided sorts have the same unaided findings as the sorts that correspond to them in an arrangement,
but for their parts (`Arrangement.unaided`). The proof goes by the depth to which findings are
worked out; each rule is run side by side with the rule for the corresponding sorts.
-/

set_option autoImplicit false
set_option relaxedAutoImplicit false

namespace CompositeSorts

open Catalog Matching Appraisal

variable {same : Tally → Tally → Prop} {c c' : Catalog} {alike : SortId → SortId → Prop}
  {near : SortId → Prop} {left right left' right' : SortId} {l l' r r' : SortRecord}
  {finding : Finding} {depth : Nat}

namespace Catalog

/-- No disjunction lists a component twice. -/
def Unrepeated (c : Catalog) : Prop :=
  ∀ {id sort components}, c.get id = .ok sort →
    sort.body = .disjunctive components → components.Nodup

/-- The sorts are disjunctions of these components, and of different canonical texts. -/
def Opposed (c : Catalog) (left right : SortId) (lefts rights : List SortId) : Prop :=
  ∃ l r, c.get left = .ok l ∧ c.get right = .ok r ∧ l.body = .disjunctive lefts ∧
    r.body = .disjunctive rights ∧ l.canonical ≠ r.canonical

/-- The sorts are a disjunction of these components and a sort that is no disjunction. -/
def Beside (c : Catalog) (left right : SortId) (lefts : List SortId) : Prop :=
  ∃ l r, c.get left = .ok l ∧ c.get right = .ok r ∧ l.body = .disjunctive lefts ∧
    r.variant ≠ .disjunctive

/-- It makes no difference which of equally good components are matched, as far as tallies of this
kind are the same. -/
structure Decided (c : Catalog) (same : Tally → Tally → Prop) (near : SortId → Prop) : Prop where
  uncontested : ∀ {left right lefts rights}, near left → near right →
    c.Opposed left right lefts rights → ∀ found : SortId → SortId → Finding,
    (∀ a ∈ lefts, ∀ b ∈ rights, c.Unaided a b (found a b)) → Uncontested same lefts rights found
  agreed : ∀ {left right lefts}, near left → near right → c.Beside left right lefts →
    ∀ found : SortId → Finding, (∀ k ∈ lefts, c.Unaided k right (found k)) →
    ∀ a ∈ lefts, ∀ b ∈ lefts,
      (∀ k ∈ lefts, (found a).AsClose (lefts.length - 1) (found k) ∧
        (found b).AsClose (lefts.length - 1) (found k)) →
      same (found a).node.tally (found b).node.tally

end Catalog

namespace Catalog.Arrangement

/-- The rule for a sort that is no disjunction goes side by side with that for a corresponding
one. -/
theorem parallel_forVariants (arranged : c.Arrangement c' alike) (equates : Tally.Congruence same)
    (weighed : c.Weighed) (weighed' : c'.Weighed)
    (lefts : alike l.id l'.id) (rights : alike r.id r'.id) (sameLeft : l.Rearranged alike l')
    (sameRight : r.Rearranged alike r') (plain : ∀ components, l.body ≠ .disjunctive components) :
    Parallel alike (Finding.Agrees same) (Finding.Agrees same)
      (fun relate ↦ forVariants c relate l r) fun relate ↦ forVariants c' relate l' r' := by
  have turned := parallel_exchanged equates lefts rights
  have incongruous : Parallel alike (Finding.Agrees same) (Finding.Agrees same)
      (fun _ ↦ Pure.pure (Finding.incongruous l r [])) fun _ ↦ Pure.pure
      (Finding.incongruous l' r' []) :=
    .pure (Finding.agrees_incongruous equates (commonScale_eq sameLeft sameRight))
  have bodyLeft := sameLeft.body
  have bodyRight := sameRight.body
  unfold forVariants
  rw [← sameLeft.display, ← sameRight.display]
  generalize l.body = body at bodyLeft plain ⊢
  generalize l'.body = body' at bodyLeft ⊢
  generalize r.body = other at bodyRight ⊢
  generalize r'.body = other' at bodyRight ⊢
  cases bodyLeft with
  | disjunctive each permuted => exact (plain _ rfl).elim
  | primitive tag =>
    cases bodyRight with
    | primitive tag' => exact .pure (agrees_primitives equates sameLeft sameRight tag tag')
    | weighted | disjunctive | recursive => exact turned
    | aspects => exact .throw _ _
    | aspect => exact incongruous
  | weighted bases weights =>
    cases bodyRight with
    | primitive | aspect =>
      exact parallel_weightedBesideSimple equates arranged rights sameLeft sameRight bases weights
    | weighted others anothers =>
      exact .ite Iff.rfl (fun _ ↦ turned) fun _ ↦ parallel_weighted equates arranged lefts rights
        sameLeft sameRight weighed weighed' bases weights others anothers
    | disjunctive | recursive => exact turned
    | aspects => exact .throw _ _
  | aspects =>
    cases bodyRight with
    | aspects => exact .pure (agrees_tuples equates sameLeft sameRight)
    | _ => exact .throw _ _
  | aspect owners position =>
    cases bodyRight with
    | primitive => exact incongruous
    | weighted | disjunctive | recursive => exact turned
    | aspects => exact .throw _ _
    | aspect others position' =>
      exact .ite Iff.rfl (fun _ ↦ turned) fun _ ↦ parallel_aspects equates arranged lefts rights
        sameLeft sameRight owners others position position'
  | recursive targets =>
    have unfolded := parallel_recursive equates rights sameLeft sameRight targets
    cases bodyRight with
    | aspects => exact .throw _ _
    | recursive => exact .ite Iff.rfl (fun _ ↦ turned) fun _ ↦ unfolded
    | _ => exact unfolded

/-- The rule for a disjunction and that for a corresponding one, when the findings that are asked
for resemble each other. -/
theorem tells_of_disjunctive (arranged : c.Arrangement c' alike) (equates : Tally.Congruence same)
    (unrepeated : c.Unrepeated) (unrepeated' : c'.Unrepeated)
    (decided : c.Decided same fun id ↦ ∃ id', alike id id')
    (inside : ∀ {a a' b b' finding}, alike a a' → alike b b' → c.unaided depth a b = some finding →
      ∃ finding', c'.unaided depth a' b' = some finding' ∧ finding.Agrees same finding')
    (foundLeft : c.get l.id = .ok l) (foundLeft' : c'.get l'.id = .ok l')
    (foundRight : c.get r.id = .ok r) (foundRight' : c'.get r'.id = .ok r')
    (lefts : alike l.id l'.id) (rights : alike r.id r'.id) (sameLeft : l.Rearranged alike l')
    (sameRight : r.Rearranged alike r') {components : List SortId}
    (made : l.body = .disjunctive components)
    (told : Tells (c.unaided depth) (fun relate ↦ forVariants c relate l r) finding) :
    ∃ finding', Tells (c'.unaided depth) (fun relate ↦ forVariants c' relate l' r') finding' ∧
      finding.Agrees same finding' := by
  have turned : Parallel alike (Finding.Agrees same) (Finding.Agrees same)
      (fun relate ↦ exchanged relate l r) fun relate ↦ exchanged relate l' r' :=
    parallel_exchanged equates lefts rights
  have bodyLeft := sameLeft.body
  have bodyRight := sameRight.body
  rw [made] at bodyLeft
  generalize madeThere : l'.body = body at bodyLeft
  cases bodyLeft with
  | @disjunctive _ listed components' each permuted =>
    have ofLeft := Paired.of_perm each permuted
    have length := each.length_eq.trans permuted.length_eq
    have beside (isPlain : r.variant ≠ .disjunctive)
        (told : Tells (c.unaided depth) (fun relate ↦ disjunction relate l r components) finding) :=
      tells_disjunction equates sameLeft sameRight rights inside ofLeft length (fun found total ↦
        decided.agreed ⟨_, lefts⟩ ⟨_, rights⟩ ⟨l, r, foundLeft, foundRight, made, isPlain⟩ found
          fun k here ↦ ⟨depth, total k here⟩) told
    unfold forVariants at told ⊢
    rw [← sameLeft.display, ← sameRight.display, madeThere]
    rw [made] at told
    unfold SortRecord.variant at beside
    generalize madeRight : r.body = other at bodyRight told beside
    generalize madeRight' : r'.body = other' at bodyRight
    cases bodyRight with
    | primitive | weighted | aspect => exact beside nofun told
    | aspects => exact (not_tells_throw told).elim
    | recursive => exact turned.tells inside told
    | @disjunctive others listed' others' each' permuted' =>
      dsimp only at told ⊢
      by_cases descending : r.display < l.display
      · simp only [if_pos descending] at told ⊢
        exact turned.tells inside told
      · simp only [if_neg descending] at told ⊢
        refine tells_composition equates arranged.single inside sameLeft sameRight ofLeft
          (.of_perm each' permuted') ⟨length, each'.length_eq.trans permuted'.length_eq⟩
          ⟨unrepeated foundLeft made, unrepeated foundRight madeRight⟩
          ⟨unrepeated' foundLeft' madeThere, unrepeated' foundRight' madeRight'⟩
          (fun differ found total ↦ ?_) told
        exact decided.uncontested ⟨_, lefts⟩ ⟨_, rights⟩
          ⟨l, r, foundLeft, foundRight, made, madeRight, differ⟩ found
          fun a inLeft b inRight ↦ ⟨depth, total a inLeft b inRight⟩

/-- Findings of decided sorts do not depend on the order of components: the findings of
corresponding sorts agree. -/
theorem unaided (arranged : c.Arrangement c' alike) (equates : Tally.Congruence same)
    (rooted : c.Rooted) (rooted' : c'.Rooted) (weighed : c.Weighed) (weighed' : c'.Weighed)
    (unrepeated : c.Unrepeated) (unrepeated' : c'.Unrepeated)
    (decided : c.Decided same fun id ↦ ∃ id', alike id id')
    (lefts : alike left left') (rights : alike right right')
    (worked : c.unaided depth left right = some finding) :
    ∃ finding', c'.unaided depth left' right' = some finding' ∧ finding.Agrees same finding' := by
  induction depth generalizing left right left' right' finding with
  | zero => cases worked
  | succ depth ih =>
    obtain ⟨l, l', foundLeft, foundLeft', sameLeft⟩ := arranged.rearranged lefts
    obtain ⟨r, r', foundRight, foundRight', sameRight⟩ := arranged.rearranged rights
    by_cases equal : left = right
    · subst equal
      obtain rfl := (arranged.single lefts rights).mp rfl
      rw [unaided_same foundLeft] at worked
      cases worked
      exact ⟨_, unaided_same foundLeft' depth,
        Finding.agrees_identity equates (commonScale_eq sameLeft sameLeft)⟩
    · have apart : left' ≠ right' := fun equal' ↦ equal ((arranged.single lefts rights).mpr equal')
      rw [unaided_eq_some_iff foundLeft foundRight equal] at worked
      simp only [unaided_eq_some_iff foundLeft' foundRight' apart]
      obtain rfl := rooted.placed foundLeft
      obtain rfl := rooted.placed foundRight
      obtain rfl := rooted'.placed foundLeft'
      obtain rfl := rooted'.placed foundRight'
      by_cases listed : ∃ components, l.body = .disjunctive components
      · obtain ⟨components, made⟩ := listed
        exact arranged.tells_of_disjunctive equates unrepeated unrepeated' decided ih foundLeft
          foundLeft' foundRight foundRight' lefts rights sameLeft sameRight made worked
      · exact (arranged.parallel_forVariants equates weighed weighed' lefts rights
          sameLeft sameRight
          (not_exists.mp listed)).tells ih worked

end Catalog.Arrangement

end CompositeSorts
