import CompositeSorts.Proofs.Matching.Tables
import Mathlib.Data.List.Nodup
import Mathlib.Data.List.Perm.Subperm
import Mathlib.Logic.Relation

/-!
Chains. A match is tied to at most one other, so the matches behind it form a chain
(`Matchings.Chain`). In an orderly table the chain ends, no match is in it twice, and all of them
have the standing of the match in front. So the two walks that the code makes see all of it: the
alternatives of a match are its chain (`Chain.alternatives_eq`), and a match can be added at the end
as long as there is room and it is not in the chain yet (`Chain.end_spec`).
-/

set_option autoImplicit false
set_option relaxedAutoImplicit false

namespace CompositeSorts

namespace Matchings

variable {t t' : Matchings} {id next tie alternative last : MatchId} {node other : MatchNode}
  {ties ties' : List MatchId} {rank : MatchId → Nat}

/-- The matches are tied behind the match, one behind the other, and there are no more. -/
inductive Chain (t : Matchings) : MatchId → List MatchId → Prop where
  | last {id : MatchId} {node : MatchNode} (found : t.get? id = some node)
    (untied : node.tiedWith = none) : Chain t id []
  | more {id next : MatchId} {node : MatchNode} {ties : List MatchId}
    (found : t.get? id = some node) (tied : node.tiedWith = some next) (rest : Chain t next ties) :
    Chain t id (next :: ties)

namespace Chain

theorem exists_get (h : t.Chain id ties) : ∃ node, t.get? id = some node := by
  cases h with
  | last found _ => exact ⟨_, found⟩
  | more found _ _ => exact ⟨_, found⟩

theorem unique (h : t.Chain id ties) (h' : t.Chain id ties') : ties = ties' := by
  induction h generalizing ties' with
  | last found untied =>
    cases h' with
    | last _ _ => rfl
    | more found' tied _ =>
      rw [found] at found'
      cases found'
      rw [untied] at tied
      cases tied
  | more found tied _ ih =>
    cases h' with
    | last found' untied =>
      rw [found] at found'
      cases found'
      rw [untied] at tied
      cases tied
    | more found' tied' rest =>
      rw [found] at found'
      cases found'
      rw [tied] at tied'
      cases tied'
      rw [ih rest]

/-- A chain stays as long as its matches do. -/
theorem kept (h : t.Chain id ties) (same : ∀ member ∈ id :: ties, t'.get? member = t.get? member) :
    t'.Chain id ties := by
  induction h with
  | last found untied => exact .last ((same _ List.mem_cons_self).trans found) untied
  | more found tied _ ih =>
    exact .more ((same _ List.mem_cons_self).trans found) tied
      (ih fun member inside ↦ same member (List.mem_cons_of_mem _ inside))

/-- Behind a match of a chain is what is left of the chain. -/
theorem of_mem (h : t.Chain id ties) (inside : tie ∈ ties) :
    ∃ rest, t.Chain tie rest ∧ rest ⊆ ties ∧ rest.length < ties.length := by
  induction h with
  | last _ _ => cases inside
  | @more id next node ties _ _ rest ih =>
    rcases List.mem_cons.mp inside with rfl | inside
    · exact ⟨ties, rest, List.subset_cons_self _ _, Nat.lt_succ_self _⟩
    · obtain ⟨rest', behind, subset, shorter⟩ := ih inside
      exact ⟨rest', behind, List.Subset.trans subset (List.subset_cons_self _ _),
        Nat.lt_succ_of_lt shorter⟩

theorem exists_of_mem (h : t.Chain id ties) (inside : tie ∈ ties) :
    ∃ node, t.get? tie = some node :=
  (h.of_mem inside).elim fun _ rest ↦ rest.1.exists_get

/-- Something leads to each match of a chain. -/
theorem linked_of_mem (h : t.Chain id ties) (inside : tie ∈ ties) :
    ∃ (other : MatchId) (node : MatchNode), t.get? other = some node ∧ tie ∈ node.links := by
  induction h with
  | last _ _ => cases inside
  | more found tied _ ih =>
    rcases List.mem_cons.mp inside with rfl | inside
    · exact ⟨_, _, found, MatchNode.mem_links_of_tied tied⟩
    · exact ih inside

/-! ### Chains in an orderly table -/

/-- The matches of a chain have the standing of the match in front, and are of different sorts. -/
theorem standing_eq (h : t.Chain id ties) (orderly : t.Orderly) (found : t.get? id = some node)
    (inside : tie ∈ ties) (there : t.get? tie = some other) :
    other.standing = node.standing ∧ other.left ≠ other.right := by
  induction h generalizing node with
  | last _ _ => cases inside
  | more found' tied rest ih =>
    rw [found] at found'
    cases found'
    obtain ⟨first, here⟩ := rest.exists_get
    have equal := orderly.tied found tied here
    rcases List.mem_cons.mp inside with rfl | inside
    · rw [there] at here
      cases here
      exact equal
    · obtain ⟨standing, apart⟩ := ih here inside
      exact ⟨standing.trans equal.1, apart⟩

theorem rank_lt (h : t.Chain id ties) (ranked : ∀ {id link : MatchId} {node : MatchNode},
    t.get? id = some node → link ∈ node.links → rank link < rank id) (inside : tie ∈ ties) :
    rank tie < rank id := by
  induction h with
  | last _ _ => cases inside
  | more found tied _ ih =>
    have first := ranked found (MatchNode.mem_links_of_tied tied)
    rcases List.mem_cons.mp inside with rfl | inside
    · exact first
    · exact (ih inside).trans first

theorem nodup (h : t.Chain id ties) (orderly : t.Orderly) : (id :: ties).Nodup := by
  obtain ⟨rank, ranked⟩ := orderly.ranked
  induction h with
  | last _ _ => exact List.nodup_cons.mpr ⟨List.not_mem_nil, List.nodup_nil⟩
  | more found tied rest ih =>
    refine List.nodup_cons.mpr ⟨fun inside ↦ ?_, ih⟩
    exact Nat.lt_irrefl _ ((Chain.more found tied rest).rank_lt ranked inside)

/-- There are not more matches in a chain than in the table. -/
theorem length_le (h : t.Chain id ties) (orderly : t.Orderly) : ties.length ≤ t.nodes.size := by
  have nodup := (List.nodup_cons.mp (h.nodup orderly)).2
  have indices : (ties.map MatchId.index).Nodup :=
    List.Nodup.map (fun _ _ same ↦ congrArg MatchId.mk same) nodup
  have inside : ties.map MatchId.index ⊆ List.range t.nodes.size := by
    intro index among
    obtain ⟨tie, here, rfl⟩ := List.mem_map.mp among
    obtain ⟨node, found⟩ := h.exists_of_mem here
    exact List.mem_range.mpr (index_lt_of_get found)
  have bounded := (indices.subperm inside).length_le
  rwa [List.length_map, List.length_range] at bounded

/-- Walking from a match on sees its chain, if no match of it was passed before. -/
theorem chainFrom_eq (h : t.Chain id ties) {head : MatchId} {bound : Nat} {passed : List MatchId}
    (nodup : ties.Nodup) (new : ∀ tie ∈ ties, tie ≠ head ∧ tie ∉ passed)
    (room : ties.length < bound) : t.chainFrom head bound passed (t.next id) = ties := by
  obtain ⟨bound, rfl⟩ : ∃ more, bound = more + 1 := ⟨bound - 1, by omega⟩
  unfold Matchings.next
  induction h generalizing bound passed with
  | last found untied =>
    rw [found, Option.bind_some, untied, chainFrom]
  | @more id next node ties found tied rest ih =>
    obtain ⟨first, nodup⟩ := List.nodup_cons.mp nodup
    obtain ⟨notHead, notPassed⟩ := new next List.mem_cons_self
    rw [List.length_cons] at room
    obtain ⟨bound, rfl⟩ : ∃ more, bound = more + 1 := ⟨bound - 1, by omega⟩
    rw [found, Option.bind_some, tied, chainFrom, if_neg (not_or.mpr ⟨notHead, notPassed⟩)]
    refine congrArg (next :: ·) (ih nodup (fun tie inside ↦ ?_) bound (by omega))
    obtain ⟨notHead, notPassed⟩ := new tie (List.mem_cons_of_mem _ inside)
    refine ⟨notHead, fun among ↦ ?_⟩
    rcases List.mem_cons.mp among with rfl | among
    · exact first inside
    · exact notPassed among

/-- The alternatives of a match are the matches of its chain. -/
theorem alternatives_eq (h : t.Chain id ties) (orderly : t.Orderly) : t.alternatives id = ties := by
  obtain ⟨notHead, nodup⟩ := List.nodup_cons.mp (h.nodup orderly)
  refine h.chainFrom_eq nodup (fun tie inside ↦ ⟨?_, List.not_mem_nil⟩)
    (Nat.lt_succ_of_le (h.length_le orderly))
  rintro rfl
  exact notHead inside

/-- The end of a chain is found if it has room for one more and does not hold the alternative. -/
theorem end_spec (h : t.Chain id ties) {room : Nat}
    (ends : t.chainEnd alternative room id = some last) :
    ties.length < room ∧ alternative ∉ id :: ties ∧ last ∈ id :: ties ∧
      ∃ node, t.get? last = some node ∧ node.tiedWith = none := by
  induction h generalizing room with
  | last found untied =>
    obtain ⟨room, rfl⟩ : ∃ more, room = more + 1 := by
      cases room with
      | zero => cases ends
      | succ more => exact ⟨more, rfl⟩
    rw [chainEnd, found] at ends
    dsimp only at ends
    rw [untied] at ends
    split_ifs at ends with same
    cases ends
    exact ⟨Nat.succ_pos _, by simpa [eq_comm] using same, List.mem_cons_self, _, found, untied⟩
  | more found tied _ ih =>
    obtain ⟨room, rfl⟩ : ∃ more, room = more + 1 := by
      cases room with
      | zero => cases ends
      | succ more => exact ⟨more, rfl⟩
    rw [chainEnd, found] at ends
    dsimp only at ends
    rw [tied] at ends
    split_ifs at ends with same
    obtain ⟨shorter, outside, inside, rest⟩ := ih ends
    refine ⟨Nat.succ_lt_succ shorter, fun among ↦ ?_, List.mem_cons_of_mem _ inside, rest⟩
    rcases List.mem_cons.mp among with first | among
    · exact same first.symm
    · exact outside among

end Chain

/-! ### Orderly tables -/

/-- The first match has the second one for a part, or is tied to it. -/
def LeadsTo (t : Matchings) (id link : MatchId) : Prop :=
  ∃ node, t.get? id = some node ∧ link ∈ node.links

/-- No match leads to itself, however many others are in between. -/
theorem Orderly.acyclic (h : t.Orderly) (id : MatchId) : ¬ Relation.TransGen t.LeadsTo id id := by
  obtain ⟨rank, ranked⟩ := h.ranked
  have descends {id link : MatchId} (leads : Relation.TransGen t.LeadsTo id link) :
      rank link < rank id := by
    induction leads with
    | single first =>
      obtain ⟨node, found, linked⟩ := first
      exact ranked found linked
    | tail _ last ih =>
      obtain ⟨node, found, linked⟩ := last
      exact (ranked found linked).trans ih
  exact fun leads ↦ Nat.lt_irrefl _ (descends leads)

/-- Every match of an orderly table has a chain behind it. -/
theorem Orderly.exists_chain (h : t.Orderly) (found : t.get? id = some node) :
    ∃ ties, t.Chain id ties := by
  obtain ⟨rank, ranked⟩ := h.ranked
  induction below : rank id using Nat.strong_induction_on generalizing id node with
  | _ bound ih =>
    cases tied : node.tiedWith with
    | none => exact ⟨[], .last found tied⟩
    | some next =>
      have linked := MatchNode.mem_links_of_tied tied
      obtain ⟨other, there⟩ := h.inside found linked
      obtain ⟨ties, rest⟩ := ih _ (below ▸ ranked found linked) there rfl
      exact ⟨next :: ties, .more found tied rest⟩

/-- Every match of an orderly table shows a finding. -/
theorem Orderly.exists_shows (h : t.Orderly) (found : t.get? id = some node) :
    ∃ finding, t.Shows id finding := by
  obtain ⟨rank, ranked⟩ := h.ranked
  induction below : rank id using Nat.strong_induction_on generalizing id node with
  | _ bound ih =>
    obtain ⟨parts, shown⟩ : ∃ parts, List.Forall₂ t.Shows node.parts parts := by
      refine exists_forall₂ fun part inside ↦ ?_
      have linked : part ∈ node.links := List.mem_append_left _ inside
      obtain ⟨other, there⟩ := h.inside found linked
      exact ih _ (below ▸ ranked found linked) there rfl
    exact ⟨⟨node.alone, parts⟩, shows_iff.mpr ⟨node, found, rfl, shown⟩⟩

end Matchings

end CompositeSorts
