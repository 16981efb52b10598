import CompositeSorts.Proofs.Matching.Answering
import CompositeSorts.Proofs.Registry.Grounds
import CompositeSorts.Proofs.Registry.Repeating

/-!
What an answer is about. A match that is asked for may have been made for other sorts, for it is
remembered for two displays. But it is always of live sorts that display as those do that were asked
about, also after sorts were rolled back and their names defined anew; it is never the one that
stands for a match under way, and it is that of a sort with itself just when one sort was asked
about (`answers_of_matchSorts`). So no match is remembered for two pairs of displays.
-/

set_option autoImplicit false
set_option relaxedAutoImplicit false

namespace CompositeSorts

open Catalog Matchings Matching

namespace Registry

variable {r r' : Registry} {left right : SortId} {id : MatchId} {l s : SortRecord}
  {node : MatchNode}

/-- Whatever was called, what is remembered for two displays is settled, of two different sorts. -/
theorem Reachable.genuine {allowed : Registry → Call → Prop} (reached : Reachable allowed r) :
    r.matchings.Genuine := by
  have lasting : Endures fun _ t ↦ t.Genuine := {
    empty := fun _ ↦ genuine_empty
    clear := fun _ ↦ ⟨genuine_empty.memo, genuine_empty.sentinels⟩
    forget := fun gone genuine ↦ genuine.forget gone
    unlogged := fun genuine ↦ ⟨genuine.memo, genuine.sentinels⟩
    relate := fun {_ config _} left right rooted genuine ↦
      (genuine_relate rooted config [] left right _ genuine).mono
        (fun _ _ made ↦ made.1.1) fun _ kept ↦ kept.1 }
  exact reached.endures lasting

/-- What is remembered for two displays is of live sorts of these displays. -/
theorem exists_displays_of_memo (reached : Reachable ByText r) {key : PairKey}
    (entry : r.matchings.memo[key]? = some id) (found : r.matchings.get? id = some node) :
    ∃ l s, r.catalog.get node.left = .ok l ∧ r.catalog.get node.right = .ok s ∧
      key = ⟨l.display, s.display⟩ := by
  obtain ⟨memory, recalls, attested⟩ := reached.recalls_attested
  have remembered := recalls.memo key
  rw [entry] at remembered
  generalize known : memory.known key = finding at remembered
  cases remembered with
  | some shows =>
    obtain ⟨l, s, foundLeft, foundRight, shown, -⟩ := attested key _ known
    obtain ⟨node', found', alone, -⟩ := shows_iff.mp shows
    rw [found] at found'
    cases found'
    rw [← alone] at foundLeft foundRight
    exact ⟨l, s, foundLeft, foundRight, shown⟩

/-- The match answers for these two sorts: it is of live sorts that display as they do, it does not
stand for a match under way, and it is that of a sort with itself just when they are one sort. -/
structure Answers (r : Registry) (left right : SortId) (node : MatchNode) : Prop where
  onLeft : r.catalog.SameDisplay node.left left
  onRight : r.catalog.SameDisplay node.right right
  settled : node.sentinel = false
  identical : node.level = .identical ↔ left = right
  itself : node.left = node.right ↔ left = right

theorem answers_of_remembered (reached : Reachable ByText r)
    (foundLeft : r.catalog.get left = .ok l) (foundRight : r.catalog.get right = .ok s)
    (entry : r.matchings.remembered left right l s = some id) :
    ∃ node, r.matchings.get? id = some node ∧ r.Answers left right node := by
  unfold remembered at entry
  split_ifs at entry with same
  · subst same
    obtain ⟨memory, recalls, -⟩ := reached.recalls_attested
    obtain ⟨sort, found, shows⟩ := recalls.identities entry
    obtain ⟨node, here, alone, -⟩ := shows_iff.mp shows
    have placed : l.id = left := reached.rested.placed foundLeft
    rw [placed, foundLeft] at found
    cases found
    have level := congrArg MatchNode.level alone
    have sentinel := congrArg MatchNode.sentinel alone
    have onLeft := (congrArg MatchNode.left alone).trans placed
    have onRight := (congrArg MatchNode.right alone).trans placed
    have shown : r.catalog.SameDisplay left left := ⟨l, l, foundLeft, foundLeft, rfl⟩
    refine ⟨node, here, ?_, ?_, sentinel, iff_of_true level rfl, iff_of_true ?_ rfl⟩
    · exact onLeft.symm ▸ shown
    · exact onRight.symm ▸ shown
    · exact onLeft.trans onRight.symm
  · obtain ⟨one, other, differ, node, found, rfl, rfl, settled, unlike⟩ :=
      reached.genuine.memo entry
    obtain ⟨a, b, liveLeft, liveRight, shown⟩ := exists_displays_of_memo reached entry found
    obtain ⟨sameLeft, sameRight⟩ := PairKey.mk.inj shown
    exact ⟨node, found, ⟨a, l, liveLeft, foundLeft, sameLeft.symm⟩,
      ⟨b, s, liveRight, foundRight, sameRight.symm⟩, settled, iff_of_false unlike same,
      iff_of_false differ same⟩

/-- Whatever texts were defined, undone, dropped and matched before: a match that is answered is of
live sorts that display as those do that were asked about, it does not stand for a match under way,
and it is that of a sort with itself just when one sort was asked about. No match is remembered for
two pairs of displays. -/
theorem answers_of_matchSorts (reached : Reachable ByText r) :
    (∀ left right id r', r.matchSorts left right = (.ok id, r') →
      ∃ node, r'.matchings.get? id = some node ∧ r'.Answers left right node) ∧
    ∀ (key key' : PairKey) (id : MatchId), r.matchings.memo[key]? = some id →
      r.matchings.memo[key']? = some id → key = key' := by
  refine ⟨fun left right id r' answered ↦ ?_, fun key key' id entry entry' ↦ ?_⟩
  · have next : Reachable ByText r' := by
      have step := reached.step (.matchSorts left right) trivial
      change Reachable ByText (r.matchSorts left right).2 at step
      rwa [answered] at step
    obtain ⟨id', t, answer, l, s, foundLeft, foundRight, entry⟩ | ⟨reason, t, answer, -⟩ :=
      ends_matchSorts (remembered_relate r.catalog r.config left right r.matchings)
    · rw [answered] at answer
      cases answer
      exact answers_of_remembered next foundLeft foundRight entry
    · rw [answered] at answer
      cases answer
  · obtain ⟨_, _, _, node, found, -⟩ := reached.genuine.memo entry
    obtain ⟨l, s, foundLeft, foundRight, shown⟩ := exists_displays_of_memo reached entry found
    obtain ⟨l', s', foundLeft', foundRight', shown'⟩ := exists_displays_of_memo reached entry' found
    rw [foundLeft] at foundLeft'
    rw [foundRight] at foundRight'
    cases foundLeft'
    cases foundRight'
    rw [shown, shown']

/-- A name that was matched, rolled back, and defined as something else, and a sort that displays as
one that was matched since: the match that is answered was made for the other one. -/
theorem answers_of_matchSorts_sample :
    let before := (sample.perform (.defineAll "p: [Label] a; [Label] b")).perform
      (.matchSorts ⟨⟨0⟩, ⟨1, 0⟩⟩ ⟨⟨0⟩, ⟨2, 0⟩⟩)
    let r := ((before.perform .undo).perform (.defineAll "p: [Label] c; [Label] b; [Label] b")).perform
      (.matchSorts ⟨⟨0⟩, ⟨1, 1⟩⟩ ⟨⟨0⟩, ⟨2, 1⟩⟩)
    ∃ node, (r.matchSorts ⟨⟨0⟩, ⟨1, 1⟩⟩ ⟨⟨0⟩, ⟨3, 0⟩⟩).2.matchings.get? ⟨1⟩ = some node ∧
      node.right = ⟨⟨0⟩, ⟨2, 1⟩⟩ ∧ (r.matchSorts ⟨⟨0⟩, ⟨1, 1⟩⟩ ⟨⟨0⟩, ⟨3, 0⟩⟩).2.Answers
        ⟨⟨0⟩, ⟨1, 1⟩⟩ ⟨⟨0⟩, ⟨3, 0⟩⟩ node := by
  intro before r
  have matched : Reachable ByText before :=
    .step ((reachable_sample _).next (by decide +kernel)) _ trivial
  have reached : Reachable ByText r :=
    .step ((matched.step .undo trivial).next (by decide +kernel)) _ trivial
  have answered : (r.matchSorts ⟨⟨0⟩, ⟨1, 1⟩⟩ ⟨⟨0⟩, ⟨3, 0⟩⟩).1 = .ok ⟨1⟩ := by decide +kernel
  have other : ((r.matchSorts ⟨⟨0⟩, ⟨1, 1⟩⟩ ⟨⟨0⟩, ⟨3, 0⟩⟩).2.matchings.get? ⟨1⟩).map MatchNode.right =
      some ⟨⟨0⟩, ⟨2, 1⟩⟩ := by decide +kernel
  obtain ⟨node, found, answers⟩ := (answers_of_matchSorts reached).1 _ _ _ _ (Prod.ext answered rfl)
  rw [found] at other
  exact ⟨node, found, Option.some.inj other, answers⟩

end Registry

end CompositeSorts
