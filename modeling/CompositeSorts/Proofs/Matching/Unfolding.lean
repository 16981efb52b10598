import CompositeSorts.Proofs.Matching.BoundedChains

/-!
Unfoldings. The unfolding of a match is the tree of all that it leads to: its parts and the match it
is tied to, theirs in turn, and so on. A reversal appends copies only where matches were not copied
before, and leaves matches of a sort with itself as they are; neither is seen in the unfolding. The
unfolding of a reversal is that of the match, mirrored at every node (`ends_reverse_unfolded`).
-/

set_option autoImplicit false
set_option relaxedAutoImplicit false

namespace CompositeSorts

variable {t t' : Matchings} {s : Copies} {id id' : MatchId} {node source : MatchNode}

/-- What a node says of its two sorts: all but where it leads, and whether it is a sentinel. -/
def MatchNode.face (node : MatchNode) : MatchNode :=
  { node with parts := [], tiedWith := none, sentinel := false }

theorem MatchNode.reversed_reversed (node : MatchNode) : node.reversed.reversed = node := by
  unfold reversed
  rw [Grade.reverse_reverse, Tally.reversed_reversed]

/-- A match of a sort with itself says the same from both sides. -/
theorem MatchNode.Blank.face_reversed (blank : node.Blank) (same : node.left = node.right) :
    node.face.reversed = node.face := by
  unfold face reversed
  rw [blank.grade, blank.tally, same]
  rfl

/-- A match and what it leads to: the faces of its node, of its parts and of what is tied behind it,
to any depth. -/
inductive Unfolding where
  | mk (face : MatchNode) (parts behind : List Unfolding)

namespace Unfolding

/-- What holds of an unfolding when it holds of what it leads to holds of all unfoldings. -/
theorem induction {good : Unfolding → Prop}
    (step : ∀ face parts behind, (∀ part ∈ parts, good part) → (∀ tie ∈ behind, good tie) →
      good ⟨face, parts, behind⟩) : ∀ tree, good tree := by
  intro tree
  refine tree.rec (motive_1 := good) (motive_2 := fun trees ↦ ∀ tree ∈ trees, good tree)
    (fun face parts behind inner tied ↦ step face parts behind inner tied) ?_ ?_
  · rintro tree ⟨⟩
  · intro tree trees here inner other inside
    rcases List.mem_cons.mp inside with rfl | inside
    · exact here
    · exact inner other inside

mutual

/-- The sides are exchanged, and the grade and the tally reversed, at every node. -/
def mirror : Unfolding → Unfolding
  | ⟨face, parts, behind⟩ => ⟨face.reversed, mirrorAll parts, mirrorAll behind⟩

/-- Several unfoldings, mirrored. -/
def mirrorAll : List Unfolding → List Unfolding
  | [] => []
  | tree :: trees => tree.mirror :: mirrorAll trees

end

/-- The unfolding of a match that goes by the given sides. -/
def labelled (left right : SortId) : Unfolding → Unfolding
  | ⟨face, parts, behind⟩ => ⟨{ face with left, right }, parts, behind⟩

theorem mirrorAll_eq_map (trees : List Unfolding) : mirrorAll trees = trees.map mirror := by
  induction trees with
  | nil => rfl
  | cons tree trees ih => rw [mirrorAll, ih, List.map_cons]

theorem mirror_mk (face : MatchNode) (parts behind : List Unfolding) :
    mirror ⟨face, parts, behind⟩ = ⟨face.reversed, parts.map mirror, behind.map mirror⟩ := by
  rw [mirror, mirrorAll_eq_map, mirrorAll_eq_map]

/-- To mirror an unfolding twice changes nothing. -/
theorem mirror_mirror (tree : Unfolding) : tree.mirror.mirror = tree := by
  have twice {trees : List Unfolding} (each : ∀ tree ∈ trees, tree.mirror.mirror = tree) :
      (trees.map mirror).map mirror = trees := by
    rw [List.map_map]
    exact (List.map_congr_left each).trans (List.map_id trees)
  induction tree using Unfolding.induction with
  | step face parts behind inner tied =>
    rw [mirror_mk, mirror_mk, twice inner, twice tied, MatchNode.reversed_reversed]

/-- To go by other sides and to be mirrored comes to the same in either order. -/
theorem mirror_labelled (tree : Unfolding) (left right : SortId) :
    (tree.labelled left right).mirror = tree.mirror.labelled right left := by
  cases tree
  rw [labelled, mirror_mk, mirror_mk]
  rfl

theorem labelled_labelled (tree : Unfolding) (left right left' right' : SortId) :
    (tree.labelled left right).labelled left' right' = tree.labelled left' right' := by
  cases tree
  rfl

end Unfolding

namespace Matchings

/-- The tree holds the faces of the match and of all that it leads to. -/
inductive Unfolds (t : Matchings) : MatchId → Unfolding → Prop where
  | node {id : MatchId} {node : MatchNode} {parts behind : List Unfolding}
    (found : t.get? id = some node) (inner : List.Forall₂ (Unfolds t) node.parts parts)
    (tied : List.Forall₂ (Unfolds t) node.tiedWith.toList behind) :
    Unfolds t id ⟨node.face, parts, behind⟩

/-- A match goes by the sides it has. -/
theorem Unfolds.labelled_self {tree : Unfolding} (h : t.Unfolds id tree)
    (found : t.get? id = some node) : tree.labelled node.left node.right = tree := by
  cases h with
  | node found' _ _ =>
    rw [found] at found'
    cases found'
    rfl

/-- A match has one unfolding. -/
theorem Unfolds.unique {tree tree' : Unfolding} (h : t.Unfolds id tree)
    (h' : t.Unfolds id tree') : tree = tree' := by
  induction tree using Unfolding.induction generalizing id tree' with
  | step face parts behind inner tied =>
    cases h with
    | node found shown shown' =>
      cases h' with
      | node found' other other' =>
        rw [found] at found'
        cases found'
        rw [eq_of_forall₂ shown other fun part inside _ _ ↦ inner part inside,
          eq_of_forall₂ shown' other' fun tie inside _ _ ↦ tied tie inside]

/-- An unfolding stays when all matches do. -/
theorem Unfolds.kept {tree : Unfolding} (h : t.Unfolds id tree)
    (kept : ∀ {id : MatchId} {node : MatchNode}, t.get? id = some node → t'.get? id = some node) :
    t'.Unfolds id tree := by
  induction tree using Unfolding.induction generalizing id with
  | step face parts behind inner tied =>
    cases h with
    | node found shown shown' =>
      exact .node (kept found) (forall₂_of_mem shown fun part inside _ ↦ inner part inside)
        (forall₂_of_mem shown' fun tie inside _ ↦ tied tie inside)

/-- Every match of an orderly table unfolds. The induction is on the rank of the match. -/
theorem Orderly.exists_unfolds (h : t.Orderly) (found : t.get? id = some node) :
    ∃ tree, t.Unfolds id tree := by
  obtain ⟨rank, ranked⟩ := h.ranked
  induction below : rank id using Nat.strong_induction_on generalizing id node with
  | _ bound ih =>
    have each (links : List MatchId) (linked : links ⊆ node.links) :
        ∃ trees, List.Forall₂ t.Unfolds links trees := by
      refine exists_forall₂ fun link inside ↦ ?_
      obtain ⟨other, there⟩ := h.inside found (linked inside)
      exact ih _ (below ▸ ranked found (linked inside)) there rfl
    obtain ⟨parts, inner⟩ := each node.parts (List.subset_append_left _ _)
    obtain ⟨behind, tied⟩ := each node.tiedWith.toList (List.subset_append_right _ _)
    exact ⟨_, .node found inner tied⟩

/-! ### Reversals -/

/-- A match of a sort with itself says nothing more when something leads to it. -/
def Plain (t : Matchings) : Prop :=
  ∀ {id : MatchId} {node : MatchNode}, t.Linked id → t.get? id = some node →
    node.left = node.right → node.Blank

theorem forall₂_toList {tie tie' : Option MatchId} (h : Option.Rel (t.Turns s) tie tie') :
    List.Forall₂ (t.Turns s) tie.toList tie'.toList := by
  cases h with
  | none => exact .nil
  | some turns => exact .cons turns .nil

/-- Turned links unfold to mirror images when each of them does. -/
theorem forall₂_unfolds_mirror {links links' : List MatchId} {trees : List Unfolding}
    (turned : List.Forall₂ (t.Turns s) links links') (shown : List.Forall₂ t.Unfolds links trees)
    (linked : ∀ link ∈ links, t.Linked link)
    (each : ∀ tree ∈ trees, ∀ {link link' : MatchId}, t.Linked link → t.Turns s link link' →
      t.Unfolds link tree → t'.Unfolds link' tree.mirror) :
    List.Forall₂ t'.Unfolds links' (trees.map Unfolding.mirror) :=
  List.forall₂_map_right_iff.mpr (forall₂_join
    ((List.forall₂_and_left links links').mpr ⟨linked, turned⟩) shown
    fun tree inside _ _ turns unfolds ↦ each tree inside turns.1 turns.2 unfolds)

/-- What is copied unfolds to the mirror image. -/
theorem Copied.unfolds (h : Copied t s) (plain : t.Plain) {tree : Unfolding}
    (linked : t.Linked id) (turns : t.Turns s id id') (unfolds : t.Unfolds id tree) :
    (t.append s.nodes).Unfolds id' tree.mirror := by
  induction tree using Unfolding.induction generalizing id id' with
  | step face parts behind inner tied =>
    cases unfolds with
    | @node _ node _ _ found shown shown' =>
      rw [Unfolding.mirror_mk]
      rcases turns with ⟨node', found', same, rfl⟩ | entry
      · rw [found] at found'
        cases found'
        -- a match of a sort with itself is left as it is, and its unfolding has no branches
        have blank := plain linked found same
        rw [blank.parts] at shown
        rw [blank.untied] at shown'
        cases shown
        cases shown'
        rw [blank.face_reversed same]
        refine .node (get?_append_old found _) ?_ ?_
        · rw [blank.parts]
          exact .nil
        · rw [blank.untied]
          exact .nil
      · obtain ⟨node', parts', tie, found', -, copied, -, turned, turned'⟩ := h.done entry
        rw [show t.get? ⟨id.index⟩ = t.get? id from rfl, found] at found'
        cases found'
        have leads {link : MatchId} (inside : link ∈ node.links) : t.Linked link :=
          ⟨id, node, found, inside⟩
        exact .node copied
          (forall₂_unfolds_mirror turned shown
            (fun _ inside ↦ leads (List.mem_append_left _ inside)) inner)
          (forall₂_unfolds_mirror (forall₂_toList turned') shown'
            (fun _ inside ↦ leads (List.mem_append_right _ inside)) tied)

/-- The reversal of a match unfolds to the mirror image, under the given sides. -/
theorem Copied.unfolds_push (h : Copied t s) (plain : t.Plain) {tree : Unfolding}
    (unfolds : t.Unfolds id tree) (found : t.get? id = some node) {parts : List MatchId}
    {tie : Option MatchId} (turned : List.Forall₂ (t.Turns s) node.parts parts)
    (turned' : Option.Rel (t.Turns s) node.tiedWith tie) (left right : SortId) :
    (t.append (s.nodes.push (node.mirrored left right parts tie))).Unfolds
      ⟨t.nodes.size + s.nodes.size⟩ (tree.mirror.labelled left right) := by
  cases unfolds with
  | @node _ _ _ _ found' shown shown' =>
    rw [found] at found'
    cases found'
    have leads {link : MatchId} (inside : link ∈ node.links) : t.Linked link :=
      ⟨id, node, found, inside⟩
    have each {trees : List Unfolding} : ∀ tree ∈ trees, ∀ {link link' : MatchId},
        t.Linked link → t.Turns s link link' → t.Unfolds link tree →
          (t.append (s.nodes.push (node.mirrored left right parts tie))).Unfolds link'
            tree.mirror := fun _ _ _ _ linked turns unfolds ↦
      (h.unfolds plain linked turns unfolds).kept fun found ↦ get?_append_push found _
    rw [Unfolding.mirror_mk]
    exact .node (get?_append_push_size _ _)
      (forall₂_unfolds_mirror turned shown
        (fun _ inside ↦ leads (List.mem_append_left _ inside)) each)
      (forall₂_unfolds_mirror (forall₂_toList turned') shown'
        (fun _ inside ↦ leads (List.mem_append_right _ inside)) each)

/-- With the copies of a reversal there are no more matches of a sort with itself that something
leads to. -/
theorem Entered.plain_push (h : Entered t s) (orderly : t.Orderly) (plain : t.Plain)
    (found : t.get? id = some source) {parts : List MatchId} {tie : Option MatchId}
    (turned : List.Forall₂ (t.Turns s) source.parts parts)
    (turned' : Option.Rel (t.Turns s) source.tiedWith tie) (left right : SortId) :
    (t.append (s.nodes.push (source.mirrored left right parts tie))).Plain := by
  have pushed := h.push orderly found turned turned' left right
  rintro link node ⟨other, before, there, inside⟩ here same
  -- what a match leads to that was there is linked in the old table
  have ofLinked (linked : t.Linked link) : node.Blank := by
    obtain ⟨holder, held, found, inside⟩ := linked
    obtain ⟨old, known⟩ := orderly.inside found inside
    rw [get?_append_old known] at here
    cases here
    exact plain ⟨holder, held, found, inside⟩ known same
  rw [get?_append] at there
  split_ifs at there with old
  · exact ofLinked ⟨other, before, there, inside⟩
  · rcases pushed.links there inside with ⟨behind, ahead⟩ | linked
    · -- the copies that something leads to are of different sorts
      have size := (Array.getElem?_eq_some_iff.mp there).1
      rw [Array.size_push] at size
      have copy : (t.append s.nodes).get? link = some node := by
        rw [get?_append, if_neg (Nat.not_lt.mpr behind)] at here ⊢
        rwa [Array.getElem?_push_lt (by omega), ← Array.getElem?_eq_getElem] at here
      obtain ⟨_, first, _, _, -, apart, rfl, -⟩ := h.exists_source copy (Nat.not_lt.mpr behind)
      exact absurd same.symm apart
    · exact ofLinked linked

end Matchings

open Matchings

/-- The reversal of a match is new, it unfolds to the mirror image under the given sides, and
nothing that was there has changed. -/
theorem Matching.ends_reverse_unfolded (orderly : t.Orderly) (plain : t.Plain)
    {tree : Unfolding} (unfolds : t.Unfolds id tree) (found : t.get? id = some node)
    (left right : SortId) : Ends (reverse id left right) t
      (fun reversal t' ↦ t.get? reversal = none ∧
        (∀ other before, t.get? other = some before → t'.get? other = some before) ∧
        t'.Orderly ∧ t'.Plain ∧ (∃ copy, t'.get? reversal = some copy) ∧
        t'.Unfolds reversal (tree.mirror.labelled left right)) fun _ ↦ False := by
  refine (ends_reverse_copied orderly found left right).mono (fun reversal t' made ↦ ?_)
    fun _ failed ↦ failed
  obtain ⟨s, parts, tie, copied, turned, turned', rfl, rfl⟩ := made
  exact ⟨Array.getElem?_eq_none (Nat.le_add_right _ _),
    fun other before there ↦ get?_append_old there _,
    (copied.push orderly found turned turned' left right).orderly orderly,
    copied.plain_push orderly plain found turned turned' left right,
    ⟨_, get?_append_push_size _ _⟩,
    copied.unfolds_push plain unfolds found turned turned' left right⟩

end CompositeSorts
