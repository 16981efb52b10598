import CompositeSorts.Proofs.Matching.Composing
import CompositeSorts.Proofs.Matching.Rotating
import CompositeSorts.Proofs.Registry.Grounds
import CompositeSorts.Proofs.Registry.Repeating

/-!
How composite sorts are compared. In whatever registry and whatever pairs are under way, two
disjunctions are matched by taking candidates in the order of preference (`composition_exact`), and
two attributes whose bases or weights are not close by the best of all alignments of their chains
(`bestRotation_exact`). Of sorts that texts have built, neither is ever refused. Both count in 32
bits, which short texts can exceed (`summit`): then counters are not what is added up in them, and
what is found is not the best.
-/

set_option autoImplicit false
set_option relaxedAutoImplicit false

namespace CompositeSorts.Registry

open Catalog Matchings Matching Rule

variable {r : Registry} {l s : SortRecord} {left right : List SortId} {memory : Memory}
  {t : Matchings}

/-! ### Answers -/

/-- Whatever was called, what stands for a pair under way says that its sorts do not correspond. -/
theorem Reachable.barred {allowed : Registry → Call → Prop} (reached : Reachable allowed r) :
    r.matchings.Barred := by
  have lasting : Endures fun _ t ↦ t.Barred := {
    empty := fun _ ↦ barred_empty
    clear := fun _ ↦ barred_empty
    forget := fun gone barred ↦ barred.forget gone
    unlogged := fun barred ↦ barred
    relate := fun {c config t} left right _ barred ↦
      (retains_relate c config [] left right t).mono (fun _ _ later ↦ later.barred barred)
        fun _ later ↦ later.barred barred }
  exact reached.endures lasting

/-- In a table that renders what is attested, no rotation is refused. -/
theorem exists_bestRotation (reached : Reachable ByText r) (isLeft : r.catalog.get l.id = .ok l)
    (isRight : r.catalog.get s.id = .ok s) (differ : l.id ≠ s.id)
    (ofLeft : l.variant = .weighted) (ofRight : s.variant = .weighted)
    (renders : t.Renders r.catalog memory) (attested : memory.Attested r.catalog)
    (underWay : List PairKey) : ∃ best t',
      bestRotation r.catalog r.config (relate r.catalog r.config underWay) l s t = .ok best t' := by
  have inside := Appraisal.grounding_relate reached.rested reached.suited underWay
  have rendering := rendering_relate reached.proper.steady.toRooted r.config underWay
  obtain ⟨found, later, run, -⟩ := (Appraisal.ends_bestRotation reached.rested inside attested
    ⟨l, isLeft, by rw [ofLeft]; decide⟩ ⟨s, isRight, by rw [ofRight]; decide⟩).exists_ok
  obtain ⟨best, t', answered, -⟩ := (follows_bestRotation differ rendering renders).of_ok run
  exact ⟨best, t', answered⟩

theorem exists_composition (reached : Reachable ByText r) (isLeft : r.catalog.get l.id = .ok l)
    (isRight : r.catalog.get s.id = .ok s) (ofLeft : l.body = .disjunctive left)
    (ofRight : s.body = .disjunctive right) (renders : t.Renders r.catalog memory)
    (attested : memory.Attested r.catalog) (underWay : List PairKey) : ∃ id t',
      composition (relate r.catalog r.config underWay) l s left right t = .ok id t' := by
  have inside := Appraisal.grounding_relate reached.rested reached.suited underWay
  have rendering := rendering_relate reached.proper.steady.toRooted r.config underWay
  obtain ⟨found, later, run, -⟩ := (Appraisal.judged_composition isLeft isRight reached.rested
    inside attested ofLeft ofRight).exists_ok
  obtain ⟨id, t', answered, -⟩ := (follows_composition rendering renders left right).of_ok run
  exact ⟨id, t', answered⟩

/-! ### Sorts with large counters -/

/-- Two aspects of a tuple, and the attribute that each of them makes with itself; these attributes
are what the two aspects of the next tuple are linked to, and so on. -/
def staircase : Nat → Registry
  | 0 => sample.performAll [.primitive "Label" (some (.identifier "p")),
      .primitive "Label" (some (.identifier "q")),
      .declareAspects "Relation" ["x0", "y0"] [⟨⟨0⟩, ⟨0, 0⟩⟩, ⟨⟨0⟩, ⟨1, 0⟩⟩]]
  | levels + 1 =>
    let id (slot : Nat) : SortId := ⟨⟨0⟩, ⟨5 * levels + slot, 0⟩⟩
    (staircase levels).performAll [.combine (id 3) (id 3), .combine (id 4) (id 4),
      .declareAspects "Relation" ["x" ++ toString (levels + 1), "y" ++ toString (levels + 1)]
        [id 5, id 6]]

theorem reachable_staircase (levels : Nat) : Reachable AnyCall (staircase levels) := by
  induction levels with
  | zero => exact (reachable_sample _).performAll _ fun _ _ _ ↦ trivial
  | succ levels ih => exact ih.performAll _ fun _ _ _ ↦ trivial

/-- The first and the last aspects of a staircase of 32 steps, summed up on both sides. The last two
were matched, which takes `2 ^ 32 - 1` swaps. -/
def summit : Registry :=
  (staircase 31).performAll [.sum ⟨⟨0⟩, ⟨158, 0⟩⟩ ⟨⟨0⟩, ⟨3, 0⟩⟩,
    .sum ⟨⟨0⟩, ⟨159, 0⟩⟩ ⟨⟨0⟩, ⟨4, 0⟩⟩, .matchSorts ⟨⟨0⟩, ⟨158, 0⟩⟩ ⟨⟨0⟩, ⟨159, 0⟩⟩]

theorem reachable_summit : Reachable AnyCall summit :=
  (reachable_staircase 31).performAll _ fun _ _ _ ↦ trivial

/-- What the two aspects of the last step but one say when they are matched. -/
def summitVerdict : Verdict :=
  ⟨.convertible, .concordant, { swapped := 2147483647, byArgument := 1073741824 }⟩

/-- The swaps of the pairs of components, and the preference between the best rotation of the two
attributes of the last step but one and the alignment in which both are turned by one. -/
theorem summit_looks :
    let id (slot : Nat) : SortId := ⟨⟨0⟩, ⟨slot, 0⟩⟩
    let c := summit.catalog
    let relate := relate c summit.config []
    (c.get (id 160)).toOption.map (fun l ↦ (l.id, l.canonical, l.body)) =
        some (id 160, "x0+x31", .disjunctive [id 158, id 3]) ∧
      (c.get (id 161)).toOption.map (fun s ↦ (s.id, s.canonical, s.body)) =
        some (id 161, "y0+y31", .disjunctive [id 159, id 4]) ∧
      look (fun found _ ↦ found.map fun p ↦ (p.left, p.right, p.node.tally.swapped.value))
        (allPairings relate [id 158, id 3] [id 159, id 4] summit.matchings) =
          some [(0, 0, 4294967295), (1, 1, 1)] ∧
      c.spine (id 155) = .ok [id 153, id 153] ∧ c.spine (id 156) = .ok [id 154, id 154] ∧
      (c.get (id 155)).toOption.map SortRecord.id = some (id 155) ∧
      (c.get (id 156)).toOption.map SortRecord.id = some (id 156) ∧
      ((c.get (id 155)).toOption.bind fun l ↦ (c.get (id 156)).toOption.bind fun s ↦
        look (fun best t ↦
            ((best.bind t.get?).map (·.prefer (arranged l s 2 1 1 [summitVerdict, summitVerdict])),
              look (fun told t' ↦ (t'.get? told).map MatchNode.verdict)
                (relate (id 153) (id 154) t)))
          (bestRotation c summit.config relate l s summit.matchings)) =
        some (some .gt, some (some summitVerdict)) := by
  decide +kernel

/-! ### Disjunctions -/

/-- Two disjunctions of different canonical texts are composed, in any registry, whatever is
remembered and whichever pairs are under way: of the candidates, which are all congruous matches of
two components and those chained behind them, such are taken that no component is in two of them and
that every other candidate shares a component with one that is taken and comes no later; no two
components are left over that have a candidate; the sorts are incongruous if and only if there are
no candidates; and otherwise their match says what is taken and what is left over add up to, as far
as counters can (`Composes`). Of live disjunctions that texts have built, this is always
answered. -/
theorem composition_exact (differ : l.canonical ≠ s.canonical) (left right : List SortId) :
    (∀ c config underWay t id t',
      composition (relate c config underWay) l s left right t = .ok id t' →
        ∃ cross found taken node, t'.get? id = some node ∧
          Composes (relate c config underWay) l s left right t t' cross found taken node) ∧
    ∀ r, Reachable ByText r → r.catalog.get l.id = .ok l → r.catalog.get s.id = .ok s →
      l.body = .disjunctive left → s.body = .disjunctive right →
        (∃ memory, r.Recalls memory ∧ memory.Attested r.catalog) ∧
        ∀ t memory, t.Renders r.catalog memory → memory.Attested r.catalog → ∀ underWay,
          ∃ id t', composition (relate r.catalog r.config underWay) l s left right t = .ok id t' := by
  refine ⟨fun c config underWay t id t' run ↦ ?_, fun r reached isLeft isRight ofLeft ofRight ↦
    ⟨reached.recalls_attested, fun t memory renders attested underWay ↦
      exists_composition reached isLeft isRight ofLeft ofRight renders attested underWay⟩⟩
  exact (ends_composition_exact (keeps_relate c config underWay) differ).of_ok run

/-- One component is on both sides, one on the left is convertible to two on the right, and the
third one on the right is left over. -/
theorem composition_exact_sample :
    let id (number : Nat) : SortId := ⟨⟨0⟩, ⟨number, 0⟩⟩
    let r := sample.perform
      (.defineAll "p: [Label] a + [Label] b; q: [Label] b + [Label] c + [Flag]")
    ∃ l s, r.catalog.get (id 2) = .ok l ∧ r.catalog.get (id 6) = .ok s ∧
      l.canonical ≠ s.canonical ∧ ∃ answer t', composition (relate r.catalog r.config []) l s
        [id 0, id 1] [id 4, id 5, id 7] r.matchings = .ok answer t' ∧
      ∃ cross found taken node, t'.get? answer = some node ∧
        Composes (relate r.catalog r.config []) l s [id 0, id 1] [id 4, id 5, id 7] r.matchings t'
          cross found taken node := by
  intro id r
  have reached : Reachable ByText r := (reachable_sample _).next (by decide +kernel)
  obtain ⟨l, isLeft, looks⟩ : ∃ sort, r.catalog.get (id 2) = .ok sort ∧
      (sort.id, sort.canonical, sort.body) =
        (id 2, "[Label] a+[Label] b", .disjunctive [id 0, id 1]) :=
    exists_of_seen (by decide +kernel)
  obtain ⟨s, isRight, looks'⟩ : ∃ sort, r.catalog.get (id 6) = .ok sort ∧
      (sort.id, sort.canonical, sort.body) =
        (id 6, "[Flag]+[Label] b+[Label] c", .disjunctive [id 4, id 5, id 7]) :=
    exists_of_seen (by decide +kernel)
  simp only [Prod.mk.injEq] at looks looks'
  obtain ⟨here, canonical, ofLeft⟩ := looks
  obtain ⟨there, canonical', ofRight⟩ := looks'
  have differ : l.canonical ≠ s.canonical := by
    rw [canonical, canonical']
    decide
  obtain ⟨composes, answers⟩ := composition_exact differ [id 0, id 1] [id 4, id 5, id 7]
  obtain ⟨⟨memory, recalls, attested⟩, answers⟩ :=
    answers r reached (here ▸ isLeft) (there ▸ isRight) ofLeft ofRight
  obtain ⟨answer, t', run⟩ := answers _ memory recalls attested []
  exact ⟨l, s, isLeft, isRight, differ, answer, t', run, composes _ _ _ _ _ _ run⟩

/-- Pairings of which this is seen, as at the summit, share no component, and their swaps together
are one more than 32 bits hold. -/
theorem apart_of_swaps {found : List Pairing}
    (swaps : (found.map fun p ↦ (p.left, p.right, p.node.tally.swapped.value)) =
      [(0, 0, 4294967295), (1, 1, 1)]) :
    (found.Pairwise fun p q ↦ ¬ p.meets q) ∧
      (found.map fun p ↦ p.node.tally.swapped.value).sum = UInt32.size := by
  have places : (found.map fun p ↦ (p.left, p.right)) = [(0, 0), (1, 1)] := by
    have := congrArg (List.map fun x : Nat × Nat × Nat ↦ (x.1, x.2.1)) swaps
    rwa [List.map_map] at this
  have clear : (found.map fun p ↦ (p.left, p.right)).Pairwise
      fun a b ↦ ¬ (a.1 = b.1 ∨ a.2 = b.2) := by
    rw [places]
    decide
  have total := congrArg (fun list ↦ (List.map (fun x : Nat × Nat × Nat ↦ x.2.2) list).sum) swaps
  rw [List.map_map] at total
  exact ⟨(List.pairwise_map.mp clear).imp fun clear meets ↦ clear (Pairing.meets_iff.mp meets),
    total⟩

/-- Counters do not add up where their sum takes more than 32 bits: the components of the summit are
matched pair by pair, but the swaps of the disjunctions are not those of the pairs together. -/
theorem exists_sum_out_of_range :
    ¬ ∀ r, Reachable AnyCall r → ∀ (l s : SortRecord) (left right : List SortId),
      r.catalog.get l.id = .ok l → r.catalog.get s.id = .ok s → l.body = .disjunctive left →
      s.body = .disjunctive right → l.canonical ≠ s.canonical → ∀ found t id t' node,
      allPairings (relate r.catalog r.config []) left right r.matchings = .ok found t →
      composition (relate r.catalog r.config []) l s left right r.matchings = .ok id t' →
      t'.get? id = some node → found ≠ [] → ∀ place ∈ Tally.places,
        (place node.tally).value = ((accept found).map fun p ↦ (place p.node.tally).value).sum +
          (place (leftOver left right (accept found))).value := by
  intro addUp
  obtain ⟨seenLeft, seenRight, pairs, -⟩ := summit_looks
  obtain ⟨l, isLeft, looks⟩ := exists_of_seen seenLeft
  obtain ⟨s, isRight, looks'⟩ := exists_of_seen seenRight
  simp only [Prod.mk.injEq] at looks looks'
  obtain ⟨here, canonical, ofLeft⟩ := looks
  obtain ⟨there, canonical', ofRight⟩ := looks'
  obtain ⟨found, t, run, swaps⟩ := exists_of_looked pairs
  have several : found ≠ [] := by
    rintro rfl
    cases swaps
  have differ : l.canonical ≠ s.canonical := by
    rw [canonical, canonical']
    decide
  obtain ⟨id, node, t', answered, found', -⟩ := exists_composed differ run several
  have equal := addUp summit reachable_summit l s _ _ (here ▸ isLeft) (there ▸ isRight) ofLeft
    ofRight differ found t id t' node run answered found' several Tally.swapped
    (by simp [Tally.places])
  obtain ⟨apart, total⟩ := apart_of_swaps swaps
  have small := node.tally.swapped.value_lt
  rw [((accept_perm_of_apart apart).map _).sum_eq, total] at equal
  omega

/-! ### Chains -/

/-- The chains of two sorts, of the same length, are aligned as well as they can be: in any
registry, whatever was matched since and whichever pairs are under way, the search finds nothing if
and only if no alignment fits; otherwise it finds one that splits the left chain only. No alignment
of this kind is preferred to it, nor one that splits both chains and whose swaps can be counted, and
it is preferred to those of its kind with a smaller offset (`Arranges`). Of live attributes that
texts have built, this is always answered. -/
theorem bestRotation_exact (reached : Reachable AnyCall r)
    (ofLeft : r.catalog.spine l.id = .ok left) (ofRight : r.catalog.spine s.id = .ok right)
    (several : 2 ≤ left.length)
    (same : left.length = right.length) (underWay : List PairKey) :
    (∀ t, Retains r.matchings t → ∀ best t',
      bestRotation r.catalog r.config (relate r.catalog r.config underWay) l s t = .ok best t' →
        Arranges (relate r.catalog r.config underWay) l s left right t' best) ∧
    (Reachable ByText r → r.catalog.get l.id = .ok l → r.catalog.get s.id = .ok s → l.id ≠ s.id →
      l.variant = .weighted → s.variant = .weighted →
        (∃ memory, r.Recalls memory ∧ memory.Attested r.catalog) ∧
        ∀ t memory, t.Renders r.catalog memory → memory.Attested r.catalog → ∃ best t',
          bestRotation r.catalog r.config (relate r.catalog r.config underWay) l s t =
            .ok best t') := by
  refine ⟨fun t later best t' run ↦ ?_, fun byText isLeft isRight differ weighted weighted' ↦
    ⟨byText.recalls_attested, fun t memory renders attested ↦
      exists_bestRotation byText isLeft isRight differ weighted weighted' renders attested
        underWay⟩⟩
  have steadfast := steadfast_relate r.catalog r.config underWay
  exact ((ends_bestRotation_arranges steadfast (later.barred reached.barred) ofLeft ofRight several
    same).of_ok run).2

/-- A chain of three is turned by one element. -/
theorem bestRotation_exact_sample :
    let id (number : Nat) : SortId := ⟨⟨0⟩, ⟨number, 0⟩⟩
    let r := sample.perform
      (.defineAll "p: [Count] 1 ^ [Flag] ^ [Label] a; q: [Label] a ^ [Count] 1 ^ [Flag]")
    ∃ l s, r.catalog.get (id 4) = .ok l ∧ r.catalog.get (id 10) = .ok s ∧ ∃ best t',
      bestRotation r.catalog r.config (relate r.catalog r.config []) l s r.matchings = .ok best t' ∧
      Arranges (relate r.catalog r.config []) l s [id 0, id 1, id 2] [id 6, id 7, id 8] t'
        best := by
  intro id r
  have reached : Reachable ByText r := (reachable_sample _).next (by decide +kernel)
  obtain ⟨l, isLeft, looks⟩ : ∃ sort, r.catalog.get (id 4) = .ok sort ∧
      (sort.id, sort.variant) = (id 4, .weighted) :=
    exists_of_seen (by decide +kernel)
  obtain ⟨s, isRight, looks'⟩ : ∃ sort, r.catalog.get (id 10) = .ok sort ∧
      (sort.id, sort.variant) = (id 10, .weighted) :=
    exists_of_seen (by decide +kernel)
  obtain ⟨here, weighted⟩ := Prod.mk.inj looks
  obtain ⟨there, weighted'⟩ := Prod.mk.inj looks'
  have ofLeft : r.catalog.spine l.id = .ok [id 0, id 1, id 2] := by
    rw [here]
    decide +kernel
  have ofRight : r.catalog.spine s.id = .ok [id 6, id 7, id 8] := by
    rw [there]
    decide +kernel
  obtain ⟨arranges, answers⟩ := bestRotation_exact (reached.mono fun _ _ _ ↦ trivial) ofLeft ofRight
    (by decide) rfl []
  obtain ⟨⟨memory, recalls, attested⟩, answers⟩ := answers reached (here ▸ isLeft) (there ▸ isRight)
    (by rw [here, there]; decide) weighted weighted'
  obtain ⟨best, t', run⟩ := answers _ memory recalls attested
  exact ⟨l, s, isLeft, isRight, best, t', run, arranges _ (.refl _) best t' run⟩

/-- An alignment that splits both chains can be preferred to what the search finds: where the swaps
of the elements already come to `2 ^ 32 - 2`, two more of them make none. -/
theorem exists_alignment_preferred :
    ¬ ∀ r, Reachable AnyCall r → ∀ (l s : SortRecord) (left right : List SortId),
      r.catalog.get l.id = .ok l → r.catalog.get s.id = .ok s →
      r.catalog.spine l.id = .ok left → r.catalog.spine s.id = .ok right → 2 ≤ left.length →
      left.length = right.length → ∀ id t node,
      bestRotation r.catalog r.config (relate r.catalog r.config []) l s r.matchings =
        .ok (some id) t →
      t.get? id = some node → ∀ n < left.length, ∀ m < left.length, ∀ vs,
        Fits (relate r.catalog r.config []) t left right n m vs →
          (node.prefer (arranged l s left.length n m vs)).isLE := by
  intro best
  obtain ⟨-, -, -, ofLeft, ofRight, seenLeft, seenRight, turned⟩ := summit_looks
  obtain ⟨l, isLeft, here⟩ := exists_of_seen seenLeft
  obtain ⟨s, isRight, there⟩ := exists_of_seen seenRight
  rw [bind_of_seen isLeft, bind_of_seen isRight] at turned
  obtain ⟨found, t, run, looks⟩ := exists_of_looked turned
  obtain ⟨ordering, told⟩ := Prod.mk.inj looks
  obtain ⟨node, is, greater⟩ := Option.map_eq_some_iff.mp ordering
  obtain ⟨id, rfl, is⟩ := Option.bind_eq_some_iff.mp is
  obtain ⟨answer, t', answered, gives⟩ := exists_of_looked told
  have tells : Tells (relate summit.catalog summit.config []) t
      (⟨⟨0⟩, ⟨153, 0⟩⟩, ⟨⟨0⟩, ⟨154, 0⟩⟩) summitVerdict :=
    ⟨t, answer, t', .refl t, answered, Option.map_eq_some_iff.mp gives⟩
  have fits : Fits (relate summit.catalog summit.config []) t [⟨⟨0⟩, ⟨153, 0⟩⟩, ⟨⟨0⟩, ⟨153, 0⟩⟩]
      [⟨⟨0⟩, ⟨154, 0⟩⟩, ⟨⟨0⟩, ⟨154, 0⟩⟩] 1 1 [summitVerdict, summitVerdict] := by
    refine ⟨.cons tells (.cons tells .nil), ?_⟩
    simp [Verdict.Close, summitVerdict, Level.rank]
  have least := best summit reachable_summit l s _ _ (here ▸ isLeft) (there ▸ isRight)
    (here ▸ ofLeft) (there ▸ ofRight) (by simp) (by simp) id t node run is 1 (by simp) 1 (by simp) _
    fits
  change (node.prefer (arranged l s 2 1 1 [summitVerdict, summitVerdict])).isLE at least
  rw [greater] at least
  cases least

end CompositeSorts.Registry
