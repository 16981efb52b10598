import CompositeSorts.Proofs.Matching.Resembling
import CompositeSorts.Proofs.Matching.Taking
import Mathlib.Data.Finset.Card
import Mathlib.Data.List.Pairwise
import Mathlib.Data.List.Perm.Basic
import Mathlib.Logic.Equiv.Basic

/-!
What pairings are taken. Two disjunctions are matched by taking pairings of components, the better
ones first, as long as both components are free. However ties are broken, what is taken then
*settles* the components: each is in one pairing at most, and a pairing that is not taken shares a
component with one that is taken and that is at least as good (`Settles`). The converse holds as
well, so the order in which the components are listed makes a difference only where ties are broken.

Ties break evenly when pairings that are equally good and share one component have their other
components in common company: these are matched in the same way with everything on the other side
(`Uncontested`). Then any two ways to settle the components differ by exchanging such components
(`Settles.exists_perm`): what is taken is the same, up to order and up to resemblance. The proof
exchanges one pair of components after the other; the best pairing in which two ways differ is tied
with one that it excludes, so exchanging their components makes the two agree in one more pairing.
-/

set_option autoImplicit false
set_option relaxedAutoImplicit false

namespace CompositeSorts

open Matching

variable {same : Tally → Tally → Prop} {lefts rights : List SortId}
  {found : SortId → SortId → Finding} {taken taken' : List (SortId × SortId)}

/-! ### Related lists -/

section

variable {α β : Type} {R : α → β → Prop} {items : List α} {images : List β}

theorem rel_of_mem_left (each : List.Forall₂ R items images) {a : α} (here : a ∈ items) :
    ∃ b ∈ images, R a b := by
  induction each with
  | nil => cases here
  | cons first _ ih =>
    rcases List.mem_cons.mp here with rfl | here
    · exact ⟨_, List.mem_cons_self, first⟩
    · obtain ⟨b, there, h⟩ := ih here
      exact ⟨b, List.mem_cons_of_mem _ there, h⟩

theorem pairwise_of_forall₂ {S : α → α → Prop} {T : β → β → Prop}
    (each : List.Forall₂ R items images) (pairwise : items.Pairwise S)
    (carries : ∀ {a a' b b'}, R a b → R a' b' → S a a' → T b b') : images.Pairwise T := by
  induction each with
  | nil => exact .nil
  | cons first rest ih =>
    obtain ⟨onFirst, pairwise⟩ := List.pairwise_cons.mp pairwise
    refine List.pairwise_cons.mpr ⟨fun b' there ↦ ?_, ih pairwise⟩
    obtain ⟨a', there', h⟩ := exists_of_forall₂ rest there
    exact carries first h (onFirst a' there')

end

/-! ### Settling -/

/-- The pairs share a component. -/
def Meet (p q : SortId × SortId) : Prop := p.1 = q.1 ∨ p.2 = q.2

theorem Meet.symm {p q : SortId × SortId} (h : Meet p q) : Meet q p := h.imp Eq.symm Eq.symm

/-- Congruous pairs of components are taken, no component twice, and a congruous pair is excluded
only by one that is at least as good. -/
structure Settles (lefts rights : List SortId) (found : SortId → SortId → Finding)
    (taken : List (SortId × SortId)) : Prop where
  inside : ∀ p ∈ taken, p.1 ∈ lefts ∧ p.2 ∈ rights ∧ (found p.1 p.2).node.incongruous = false
  apart : taken.Pairwise fun p q ↦ ¬ Meet p q
  best : ∀ a ∈ lefts, ∀ b ∈ rights, (found a b).node.incongruous = false →
    ∃ p ∈ taken, Meet p (a, b) ∧ ((found p.1 p.2).node.prefer (found a b).node).isLE

/-- Components that are matched equally well with a component of the other side, unless they are
incongruous, are matched alike with every component of the other side. -/
structure Uncontested (same : Tally → Tally → Prop) (lefts rights : List SortId)
    (found : SortId → SortId → Finding) : Prop where
  onRight : ∀ a ∈ lefts, ∀ b ∈ rights, ∀ b' ∈ rights, (found a b).node.incongruous = false →
    (found a b).node.prefer (found a b').node = .eq →
    ∀ k ∈ lefts, (found k b).Resembles same (found k b')
  onLeft : ∀ a ∈ lefts, ∀ a' ∈ lefts, ∀ b ∈ rights, (found a b).node.incongruous = false →
    (found a b).node.prefer (found a' b).node = .eq →
    ∀ k ∈ rights, (found a k).Resembles same (found a' k)

theorem MatchNode.prefer_eq_of_isLE {a b : MatchNode} (before : (a.prefer b).isLE)
    (after : (b.prefer a).isLE) : a.prefer b = .eq := by
  rw [MatchNode.prefer_swap] at after
  revert before after
  cases a.prefer b <;> simp

namespace Settles

instance : Std.Symm fun p q ↦ ¬ Meet p q := ⟨fun _ _ apart meet ↦ apart meet.symm⟩

theorem nodup (h : Settles lefts rights found taken) : taken.Nodup :=
  h.apart.imp fun apart same ↦ apart (.inl (congrArg Prod.fst same))

theorem eq_of_meet (h : Settles lefts rights found taken) {p q : SortId × SortId}
    (there : p ∈ taken) (there' : q ∈ taken) (meet : Meet p q) : p = q := by
  by_contra differ
  exact h.apart.forall there there' differ meet

/-! ### Exchanging components -/

/-- Components change places with such as are matched alike. -/
theorem moved (h : Settles lefts rights found taken) {f g : SortId → SortId}
    (back : Function.Involutive f) (back' : Function.Involutive g)
    (inLefts : ∀ a ∈ lefts, f a ∈ lefts) (inRights : ∀ b ∈ rights, g b ∈ rights)
    (alike : ∀ a ∈ lefts, ∀ b ∈ rights, (found (f a) (g b)).Resembles same (found a b)) :
    Settles lefts rights found (taken.map (Prod.map f g)) where
  inside p there := by
    obtain ⟨q, there', rfl⟩ := List.mem_map.mp there
    obtain ⟨inLeft, inRight, congruous⟩ := h.inside q there'
    exact ⟨inLefts _ inLeft, inRights _ inRight,
      (alike _ inLeft _ inRight).incongruous.trans congruous⟩
  apart := by
    refine h.apart.map _ fun p q apart meet ↦ apart ?_
    exact meet.imp (fun same ↦ back.injective same) fun same ↦ back'.injective same
  best a inLeft b inRight congruous := by
    have congruous' := (alike a inLeft b inRight).incongruous.trans congruous
    obtain ⟨p, there, meet, better⟩ := h.best _ (inLefts a inLeft) _ (inRights b inRight) congruous'
    obtain ⟨inLeft', inRight', -⟩ := h.inside p there
    refine ⟨Prod.map f g p, List.mem_map_of_mem there, ?_, ?_⟩
    · exact meet.imp (fun same ↦ by simp [same, back a]) fun same ↦ by simp [same, back' b]
    · have level := MatchNode.prefer_congr (alike _ inLeft' _ inRight').standing
        (alike a inLeft b inRight).standing.symm
      exact (congrArg Ordering.isLE level).trans better

/-- Where two ways to settle the components differ, there are two pairings that exclude each other
and are equally good. -/
theorem exists_contest (h : Settles lefts rights found taken)
    (h' : Settles lefts rights found taken') {p : SortId × SortId}
    (differ : p ∈ taken ∧ p ∉ taken' ∨ p ∈ taken' ∧ p ∉ taken) :
    ∃ p ∈ taken, p ∉ taken' ∧ ∃ q ∈ taken', q ∉ taken ∧ Meet p q ∧
      (found p.1 p.2).node.prefer (found q.1 q.2).node = .eq := by
  let contested := taken.filter (· ∉ taken') ++ taken'.filter (· ∉ taken)
  have among (q : SortId × SortId) :
      q ∈ contested ↔ q ∈ taken ∧ q ∉ taken' ∨ q ∈ taken' ∧ q ∉ taken := by
    simp [contested]
  obtain ⟨finding, chosen⟩ : ∃ finding,
      Finding.choose (contested.map fun q ↦ found q.1 q.2) = some finding := by
    cases made : contested with
    | nil => simpa [made] using (among p).mpr differ
    | cons first others => exact ⟨_, rfl⟩
  obtain ⟨inside, best⟩ := Finding.choose_spec chosen
  obtain ⟨d, there, rfl⟩ := List.mem_map.mp inside
  have beats (q : SortId × SortId) (there : q ∈ contested) :
      ((found d.1 d.2).node.prefer (found q.1 q.2).node).isLE :=
    best _ (List.mem_map_of_mem there)
  -- The best pairing in which the two ways differ is excluded by one that is as good.
  rcases (among d).mp there with ⟨here, absent⟩ | ⟨here, absent⟩
  · obtain ⟨inLeft, inRight, congruous⟩ := h.inside d here
    obtain ⟨q, there', meet, better⟩ := h'.best _ inLeft _ inRight congruous
    have absent' : q ∉ taken := fun here' ↦ absent (h.eq_of_meet here' here meet ▸ there')
    exact ⟨d, here, absent, q, there', absent', meet.symm,
      MatchNode.prefer_eq_of_isLE (beats q ((among q).mpr (.inr ⟨there', absent'⟩))) better⟩
  · obtain ⟨inLeft, inRight, congruous⟩ := h'.inside d here
    obtain ⟨q, there', meet, better⟩ := h.best _ inLeft _ inRight congruous
    have absent' : q ∉ taken' := fun here' ↦ absent (h'.eq_of_meet here' here meet ▸ there')
    exact ⟨q, there', absent', d, here, absent, meet,
      MatchNode.prefer_eq_of_isLE better (beats q ((among q).mpr (.inl ⟨there', absent'⟩)))⟩

/-- The pairings that differ can be made to agree: their other components are matched alike, so
these can change places, and nothing else that agrees is moved. -/
theorem exists_exchange (equates : Tally.Congruence same)
    (uncontested : Uncontested same lefts rights found) (h : Settles lefts rights found taken)
    (h' : Settles lefts rights found taken') {p q : SortId × SortId} (there : p ∈ taken)
    (absent : p ∉ taken') (there' : q ∈ taken') (absent' : q ∉ taken) (meet : Meet p q)
    (tied : (found p.1 p.2).node.prefer (found q.1 q.2).node = .eq) :
    ∃ σ : SortId × SortId → SortId × SortId, Settles lefts rights found (taken'.map σ) ∧ σ q = p ∧
      (∀ x ∈ taken, x ∈ taken' → σ x = x) ∧
      ∀ x ∈ taken', (found (σ x).1 (σ x).2).Resembles same (found x.1 x.2) := by
  obtain ⟨a, b⟩ := p
  obtain ⟨a', b'⟩ := q
  obtain ⟨inLeft, inRight, congruous⟩ := h.inside _ there
  obtain ⟨inLeft', inRight', -⟩ := h'.inside _ there'
  -- A pairing in both ways has none of the components that change places.
  have spared (x : SortId × SortId) (here : x ∈ taken) (here' : x ∈ taken') :
      ¬ Meet x (a, b) ∧ ¬ Meet x (a', b') :=
    ⟨fun meet ↦ absent (h.eq_of_meet here there meet ▸ here'),
      fun meet ↦ absent' (h'.eq_of_meet here' there' meet ▸ here)⟩
  rcases meet with rfl | rfl
  · have turns (k : SortId) (inLeft : k ∈ lefts) :=
      uncontested.onRight a inLeft' b inRight b' inRight' congruous tied k inLeft
    have inRights : ∀ k ∈ rights, Equiv.swap b b' k ∈ rights := by
      intro k inside
      rw [Equiv.swap_apply_def]
      split_ifs
      exacts [inRight', inRight, inside]
    have alike : ∀ k ∈ lefts, ∀ m ∈ rights,
        (found k (Equiv.swap b b' m)).Resembles same (found k m) := by
      intro k inLeft m _
      rw [Equiv.swap_apply_def]
      split_ifs with first second
      · exact first ▸ (turns k inLeft).symm equates
      · exact second ▸ turns k inLeft
      · exact .refl equates _
    refine ⟨Prod.map id (Equiv.swap b b'), h'.moved (fun _ ↦ rfl) (Equiv.swap_apply_self b b')
      (fun _ ↦ id) inRights alike, Prod.ext rfl (Equiv.swap_apply_right b b'),
      fun x here here' ↦ ?_,
      fun x here ↦ alike _ (h'.inside x here).1 _ (h'.inside x here).2.1⟩
    obtain ⟨apart, apart'⟩ := spared x here here'
    exact Prod.ext rfl (Equiv.swap_apply_of_ne_of_ne (fun same ↦ apart (.inr same))
      fun same ↦ apart' (.inr same))
  · have turns (k : SortId) (inRight : k ∈ rights) :=
      uncontested.onLeft a inLeft a' inLeft' b inRight' congruous tied k inRight
    have inLefts : ∀ k ∈ lefts, Equiv.swap a a' k ∈ lefts := by
      intro k inside
      rw [Equiv.swap_apply_def]
      split_ifs
      exacts [inLeft', inLeft, inside]
    have alike : ∀ k ∈ lefts, ∀ m ∈ rights,
        (found (Equiv.swap a a' k) m).Resembles same (found k m) := by
      intro k _ m inRight
      rw [Equiv.swap_apply_def]
      split_ifs with first second
      · exact first ▸ (turns m inRight).symm equates
      · exact second ▸ turns m inRight
      · exact .refl equates _
    refine ⟨Prod.map (Equiv.swap a a') id, h'.moved (Equiv.swap_apply_self a a') (fun _ ↦ rfl)
      inLefts (fun _ ↦ id) alike, Prod.ext (Equiv.swap_apply_right a a') rfl, fun x here here' ↦ ?_,
      fun x here ↦ alike _ (h'.inside x here).1 _ (h'.inside x here).2.1⟩
    obtain ⟨apart, apart'⟩ := spared x here here'
    exact Prod.ext (Equiv.swap_apply_of_ne_of_ne (fun same ↦ apart (.inl same))
      fun same ↦ apart' (.inl same)) rfl

/-- Any two ways to settle the components take pairings that resemble each other, in some order. -/
theorem exists_perm (equates : Tally.Congruence same)
    (uncontested : Uncontested same lefts rights found) (h : Settles lefts rights found taken)
    (h' : Settles lefts rights found taken') : ∃ σ : SortId × SortId → SortId × SortId,
      (taken'.map σ).Perm taken ∧
      ∀ x ∈ taken', (found (σ x).1 (σ x).2).Resembles same (found x.1 x.2) := by
  -- The induction is on how many pairings the second way does not take.
  induction missed : (taken.toFinset \ taken'.toFinset).card using Nat.strong_induction_on
    generalizing taken' with
  | _ n ih =>
    by_cases agree : ∀ p, ¬ (p ∈ taken ∧ p ∉ taken' ∨ p ∈ taken' ∧ p ∉ taken)
    · refine ⟨id, ?_, fun x _ ↦ .refl equates _⟩
      rw [List.map_id]
      refine (List.perm_ext_iff_of_nodup h'.nodup h.nodup).mpr fun p ↦ ?_
      have equal := agree p
      tauto
    · push Not at agree
      obtain ⟨p, differ⟩ := agree
      obtain ⟨p, there, absent, q, there', absent', meet, tied⟩ := h.exists_contest h' differ
      obtain ⟨σ, settles, exchanged, spared, alike⟩ :=
        h.exists_exchange equates uncontested h' there absent there' absent' meet tied
      have fewer : (taken.toFinset \ (taken'.map σ).toFinset).card < n := by
        rw [← missed]
        refine Finset.card_lt_card ((Finset.ssubset_iff_of_subset fun x inside ↦ ?_).mpr
          ⟨p, ?_, ?_⟩)
        · rw [Finset.mem_sdiff, List.mem_toFinset, List.mem_toFinset] at inside ⊢
          exact ⟨inside.1, fun here ↦
            inside.2 (List.mem_map.mpr ⟨x, here, spared x inside.1 here⟩)⟩
        · rw [Finset.mem_sdiff, List.mem_toFinset, List.mem_toFinset]
          exact ⟨there, absent⟩
        · rw [Finset.mem_sdiff, List.mem_toFinset, List.mem_toFinset]
          exact fun outside ↦ outside.2 (List.mem_map.mpr ⟨q, there', exchanged⟩)
      obtain ⟨τ, permuted, alike'⟩ := ih _ fewer settles rfl
      refine ⟨τ ∘ σ, ?_, fun x here ↦ ?_⟩
      · rw [← List.map_map]
        exact permuted
      · exact (alike' _ (List.mem_map_of_mem here)).trans equates (alike x here)

end Settles

/-! ### Greedy choice -/

section

variable {ι : Type} {meets : ι → ι → Bool} {before : ι → ι → Prop} {chosen items : List ι} {a : ι}

/-- Takes each item that meets none of those taken. -/
def greedy (meets : ι → ι → Bool) (chosen : List ι) : List ι → List ι
  | [] => chosen
  | item :: others =>
    if chosen.any fun earlier ↦ meets earlier item then greedy meets chosen others
    else greedy meets (chosen ++ [item]) others

theorem mem_greedy_of_mem (here : a ∈ chosen) : a ∈ greedy meets chosen items := by
  induction items generalizing chosen with
  | nil => exact here
  | cons item others ih =>
    rw [greedy]
    split_ifs
    · exact ih here
    · exact ih (List.mem_append_left _ here)

theorem mem_or_mem_of_mem_greedy (here : a ∈ greedy meets chosen items) :
    a ∈ chosen ∨ a ∈ items := by
  induction items generalizing chosen with
  | nil => exact .inl here
  | cons item others ih =>
    rw [greedy] at here
    split_ifs at here
    · exact (ih here).imp_right (List.mem_cons_of_mem _)
    · rcases ih here with known | later
      · rcases List.mem_append.mp known with known | this
        · exact .inl known
        · exact .inr (List.mem_singleton.mp this ▸ List.mem_cons_self)
      · exact .inr (List.mem_cons_of_mem _ later)

theorem pairwise_greedy (apart : chosen.Pairwise fun a b ↦ ¬ meets a b) :
    (greedy meets chosen items).Pairwise fun a b ↦ ¬ meets a b := by
  induction items generalizing chosen with
  | nil => exact apart
  | cons item others ih =>
    rw [greedy]
    split_ifs with busy
    · exact ih apart
    · refine ih (List.pairwise_append.mpr ⟨apart, List.pairwise_singleton _ _, fun a here b this ↦ ?_⟩)
      rw [List.mem_singleton.mp this]
      exact fun meet ↦ busy (List.any_eq_true.mpr ⟨a, here, meet⟩)

/-- Of items in order, what is not taken meets an earlier one that is. -/
theorem exists_mem_greedy (refl : ∀ a, meets a a ∧ before a a) (sorted : items.Pairwise before)
    (first : ∀ a ∈ chosen, ∀ b ∈ items, before a b) (here : a ∈ items) :
    ∃ b ∈ greedy meets chosen items, meets b a ∧ before b a := by
  induction items generalizing chosen with
  | nil => cases here
  | cons item others ih =>
    obtain ⟨least, sorted⟩ := List.pairwise_cons.mp sorted
    rw [greedy]
    split_ifs with busy
    · rcases List.mem_cons.mp here with rfl | later
      · obtain ⟨earlier, there, meet⟩ := List.any_eq_true.mp busy
        exact ⟨earlier, mem_greedy_of_mem there, meet, first _ there _ List.mem_cons_self⟩
      · exact ih sorted (fun b there c inside ↦ first b there c (List.mem_cons_of_mem _ inside)) later
    · rcases List.mem_cons.mp here with rfl | later
      · exact ⟨a, mem_greedy_of_mem (List.mem_append_right _ List.mem_cons_self), refl a⟩
      · refine ih sorted (fun b there c inside ↦ ?_) later
        rcases List.mem_append.mp there with there | this
        · exact first b there c (List.mem_cons_of_mem _ inside)
        · rw [List.mem_singleton.mp this]
          exact least c inside

end

/-! ### What is accepted -/

namespace Appraisal

variable {taken others pairings : List Pairing} {p q : Pairing}

/-- The pairings share a component. -/
def Pairing.Meet (p q : Pairing) : Prop := p.left = q.left ∨ p.right = q.right

/-- Whether they do. -/
def Pairing.meets (p q : Pairing) : Bool := p.left = q.left || p.right = q.right

theorem Pairing.meets_iff : p.meets q = true ↔ p.Meet q := by simp [meets, Meet]

theorem takeFree_eq_greedy (taken others : List Pairing) :
    takeFree taken others = greedy Pairing.meets taken others := by
  induction others generalizing taken with
  | nil => rfl
  | cons other others ih =>
    rw [takeFree, greedy, ih, ih]
    rfl

theorem Pairing.isLE_prefer_of_le (h : p.le q = true) :
    (p.finding.node.prefer q.finding.node).isLE := by
  unfold Pairing.le Pairing.compare at h
  revert h
  cases p.finding.node.prefer q.finding.node <;> simp

/-- What is accepted is some of the pairings, no two of which share a component, and the others are
excluded by pairings that are at least as good. -/
theorem accept_spec (pairings : List Pairing) :
    (∀ p ∈ accept pairings, p ∈ pairings) ∧ (accept pairings).Pairwise (fun p q ↦ ¬ p.Meet q) ∧
      ∀ p ∈ pairings, ∃ q ∈ accept pairings, q.Meet p ∧
        (q.finding.node.prefer p.finding.node).isLE := by
  have sorted : (pairings.mergeSort Pairing.le).Pairwise fun p q ↦ p.le q = true :=
    List.pairwise_mergeSort (fun _ _ _ ↦ Std.TransCmp.isLE_trans) isLE_total _
  unfold accept
  rw [takeFree_eq_greedy]
  refine ⟨fun p here ↦ ?_, (pairwise_greedy .nil).imp (mt Pairing.meets_iff.mpr), fun p here ↦ ?_⟩
  · exact List.mem_mergeSort.mp ((mem_or_mem_of_mem_greedy here).resolve_left List.not_mem_nil)
  · obtain ⟨q, there, meets, le⟩ := exists_mem_greedy
      (fun p ↦ ⟨Pairing.meets_iff.mpr (.inl rfl), Std.ReflCmp.isLE_rfl⟩) sorted
      (fun p (nothing : p ∈ []) ↦ absurd nothing List.not_mem_nil) (List.mem_mergeSort.mpr here)
    exact ⟨q, there, Pairing.meets_iff.mp meets, Pairing.isLE_prefer_of_le le⟩

/-- The pairing is that of two components, at their places. -/
structure Pairing.Of (lefts rights : List SortId) (found : SortId → SortId → Finding) (p : Pairing)
    (pair : SortId × SortId) : Prop where
  left : lefts[p.left]? = some pair.1
  right : rights[p.right]? = some pair.2
  finding : p.finding = found pair.1 pair.2

theorem eq_of_place {items : List SortId} (nodup : items.Nodup) {i j : Nat} {a : SortId}
    (first : items[i]? = some a) (second : items[j]? = some a) : i = j := by
  obtain ⟨inside, rfl⟩ := List.getElem?_eq_some_iff.mp first
  obtain ⟨inside', same⟩ := List.getElem?_eq_some_iff.mp second
  exact (List.Nodup.getElem_inj_iff nodup).mp same.symm

/-- What is accepted of the pairings of all components settles these. -/
theorem exists_settles (nodup : lefts.Nodup) (nodup' : rights.Nodup)
    (listed : ∀ p, p ∈ pairings ↔ ∃ pair : SortId × SortId,
      p.Of lefts rights found pair ∧ (found pair.1 pair.2).node.incongruous = false) :
    ∃ taken, List.Forall₂ (Pairing.Of lefts rights found) (accept pairings) taken ∧
      Settles lefts rights found taken := by
  obtain ⟨known, apart, excluded⟩ := accept_spec pairings
  obtain ⟨taken, each⟩ : ∃ taken, List.Forall₂ (Pairing.Of lefts rights found) (accept pairings)
      taken := exists_forall₂ fun p here ↦ ((listed p).mp (known p here)).imp fun _ ↦ And.left
  refine ⟨taken, each, fun pair there ↦ ?_, pairwise_of_forall₂ each apart ?_,
    fun a inLeft b inRight congruous ↦ ?_⟩
  · obtain ⟨p, here, is⟩ := exists_of_forall₂ each there
    obtain ⟨other, is', congruous⟩ := (listed p).mp (known p here)
    rw [← is'.finding, is.finding] at congruous
    exact ⟨List.mem_of_getElem? is.left, List.mem_of_getElem? is.right, congruous⟩
  · intro p q pair other is is' clear meet
    rcases meet with same | same
    · exact clear (.inl (eq_of_place nodup is.left (same ▸ is'.left)))
    · exact clear (.inr (eq_of_place nodup' is.right (same ▸ is'.right)))
  · obtain ⟨i, atLeft⟩ := List.mem_iff_getElem?.mp inLeft
    obtain ⟨j, atRight⟩ := List.mem_iff_getElem?.mp inRight
    have isOf : Pairing.Of lefts rights found ⟨i, j, found a b⟩ (a, b) := ⟨atLeft, atRight, rfl⟩
    obtain ⟨q, there, meet, better⟩ := excluded _ ((listed _).mpr ⟨(a, b), isOf, congruous⟩)
    obtain ⟨pair, there', is⟩ := rel_of_mem_left each there
    refine ⟨pair, there', ?_, is.finding ▸ better⟩
    rcases meet with same | same
    · exact .inl (Option.some.inj ((is.left.symm.trans (same ▸ rfl)).trans atLeft))
    · exact .inr (Option.some.inj ((is.right.symm.trans (same ▸ rfl)).trans atRight))

end Appraisal

/-! ### Corresponding components -/

/-- The lists hold corresponding sorts, in any order. -/
structure Paired (alike : SortId → SortId → Prop) (items items' : List SortId) : Prop where
  forth : ∀ a ∈ items, ∃ a' ∈ items', alike a a'
  back : ∀ a' ∈ items', ∃ a ∈ items, alike a a'

theorem Paired.of_perm {alike : SortId → SortId → Prop} {items listed items' : List SortId}
    (each : List.Forall₂ alike items listed) (permuted : listed.Perm items') :
    Paired alike items items' where
  forth a here := by
    obtain ⟨a', there, h⟩ := rel_of_mem_left each here
    exact ⟨a', permuted.mem_iff.mp there, h⟩
  back a' there := by
    obtain ⟨a, here, h⟩ := exists_of_forall₂ each (permuted.mem_iff.mpr there)
    exact ⟨a, here, h⟩

variable {alike : SortId → SortId → Prop} {lefts' rights' : List SortId}
  {found' : SortId → SortId → Finding}

/-- A way to settle corresponding components settles the components. -/
theorem Settles.transport (h : Settles lefts' rights' found' taken')
    (single : ∀ {a a' b b'}, alike a a' → alike b b' → (a = b ↔ a' = b'))
    (ofLefts : Paired alike lefts lefts') (ofRights : Paired alike rights rights')
    (near : ∀ {a a' b b'}, a ∈ lefts → b ∈ rights → alike a a' → alike b b' →
      (found a b).Resembles same (found' a' b')) :
    ∃ taken, Settles lefts rights found taken ∧ List.Forall₂ (fun p p' : SortId × SortId ↦
      (found p.1 p.2).Resembles same (found' p'.1 p'.2)) taken taken' := by
  let matching (p' p : SortId × SortId) : Prop :=
    p.1 ∈ lefts ∧ p.2 ∈ rights ∧ alike p.1 p'.1 ∧ alike p.2 p'.2
  obtain ⟨taken, each⟩ : ∃ taken, List.Forall₂ matching taken' taken := by
    refine exists_forall₂ fun p' there ↦ ?_
    obtain ⟨inLeft, inRight, -⟩ := h.inside p' there
    obtain ⟨a, inLeft, ofLeft⟩ := ofLefts.back _ inLeft
    obtain ⟨b, inRight, ofRight⟩ := ofRights.back _ inRight
    exact ⟨(a, b), inLeft, inRight, ofLeft, ofRight⟩
  refine ⟨taken, ⟨fun p here ↦ ?_, pairwise_of_forall₂ each h.apart ?_,
    fun a inLeft b inRight congruous ↦ ?_⟩, ?_⟩
  · obtain ⟨p', there, inLeft, inRight, ofLeft, ofRight⟩ := exists_of_forall₂ each here
    exact ⟨inLeft, inRight, (near inLeft inRight ofLeft ofRight).incongruous.trans
      (h.inside p' there).2.2⟩
  · rintro p' q' p q ⟨-, -, ofLeft, ofRight⟩ ⟨-, -, ofLeft', ofRight'⟩ apart meet
    exact apart (meet.imp (single ofLeft ofLeft').mp (single ofRight ofRight').mp)
  · obtain ⟨a', inLeft', ofLeft⟩ := ofLefts.forth a inLeft
    obtain ⟨b', inRight', ofRight⟩ := ofRights.forth b inRight
    have resembles := near inLeft inRight ofLeft ofRight
    obtain ⟨p', there, meet, better⟩ :=
      h.best a' inLeft' b' inRight' (resembles.incongruous.symm.trans congruous)
    obtain ⟨p, here, among, among', ofLeft', ofRight'⟩ := rel_of_mem_left each there
    refine ⟨p, here, meet.imp (single ofLeft' ofLeft).mpr (single ofRight' ofRight).mpr, ?_⟩
    rw [(near among among' ofLeft' ofRight').prefer resembles]
    exact better
  · exact (each.imp fun p' p is ↦ near is.1 is.2.1 is.2.2.1 is.2.2.2).flip

namespace Appraisal

variable {pairings pairings' : List Pairing}

/-- When ties break evenly, what is accepted of the pairings of corresponding components resembles
each other, in some order. -/
theorem exists_perm_accept (equates : Tally.Congruence same)
    (uncontested : Uncontested same lefts rights found)
    (single : ∀ {a a' b b'}, alike a a' → alike b b' → (a = b ↔ a' = b'))
    (ofLefts : Paired alike lefts lefts') (ofRights : Paired alike rights rights')
    (near : ∀ {a a' b b'}, a ∈ lefts → b ∈ rights → alike a a' → alike b b' →
      (found a b).Resembles same (found' a' b'))
    (settled : ∃ taken, List.Forall₂ (Pairing.Of lefts rights found) (accept pairings) taken ∧
      Settles lefts rights found taken)
    (settled' : ∃ taken, List.Forall₂ (Pairing.Of lefts' rights' found') (accept pairings') taken ∧
      Settles lefts' rights' found' taken) :
    ∃ findings, ((accept pairings).map Pairing.finding).Perm findings ∧
      List.Forall₂ (Finding.Resembles same) findings ((accept pairings').map Pairing.finding) := by
  have said {lefts rights : List SortId} {found : SortId → SortId → Finding}
      {accepted : List Pairing} {taken : List (SortId × SortId)}
      (each : List.Forall₂ (Pairing.Of lefts rights found) accepted taken) :
      accepted.map Pairing.finding = taken.map fun p ↦ found p.1 p.2 := by
    induction each with
    | nil => rfl
    | cons first _ ih => rw [List.map_cons, List.map_cons, first.finding, ih]
  obtain ⟨taken, each, settles⟩ := settled
  obtain ⟨taken', each', settles'⟩ := settled'
  obtain ⟨middle, settles'', resembles⟩ := settles'.transport single ofLefts ofRights near
  obtain ⟨σ, permuted, exchanged⟩ := settles.exists_perm equates uncontested settles''
  rw [said each, said each']
  refine ⟨(middle.map σ).map fun p ↦ found p.1 p.2, permuted.symm.map _, ?_⟩
  rw [List.map_map, List.forall₂_map_left_iff, List.forall₂_map_right_iff]
  have both : List.Forall₂ (fun p p' : SortId × SortId ↦ p ∈ middle ∧
      (found p.1 p.2).Resembles same (found' p'.1 p'.2)) middle taken' :=
    (List.forall₂_and_left _ _).mpr ⟨fun _ ↦ id, resembles⟩
  exact both.imp fun p p' h ↦ (exchanged p h.1).trans equates h.2

end Appraisal

end CompositeSorts
