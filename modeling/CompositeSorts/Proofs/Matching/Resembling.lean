import CompositeSorts.Proofs.Matching.Findings
import CompositeSorts.Proofs.Matching.Preference
import Mathlib.Data.List.Forall2

/-!
Findings that resemble each other. To the rules, a finding is its level, its grade, its tally and
its scale, and whether it is a sentinel; of the level they see only the rank, for nothing is made of
an identical part that is not made of an equivalent one. Findings that agree in these *resemble*
each other.

How much of the tallies has to agree is left open: all that the counters say, or only what they
stand at, whether they have carried or not. Any relation will do that adding and reversing respect
and that keeps the penalty, which is all that the preference looks at (`Tally.Congruence`).
-/

set_option autoImplicit false
set_option relaxedAutoImplicit false

namespace CompositeSorts

open Matching

/-! ### Levels and tallies -/

theorem Level.rank_lifted (level : Level) : level.lifted.rank = level.rank := by
  cases level <;> rfl

/-- Levels of the same rank differ only in that one may be identical. -/
theorem Level.lifted_congr {level level' : Level} (same : level.rank = level'.rank) :
    level.lifted = level'.lifted := by
  cases level <;> cases level' <;> first | rfl | contradiction

namespace Tally

/-- What may be taken for the same of two tallies, so that it stays so when tallies are added and
reversed: it keeps the penalty. -/
structure Congruence (same : Tally → Tally → Prop) : Prop extends Equivalence same where
  add : ∀ {a a' b b'}, same a a' → same b b' → same (a.add b) (a'.add b')
  reversed : ∀ {a a'}, same a a' → same a.reversed a'.reversed
  penalty : ∀ {a a'}, same a a' → a.penalty = a'.penalty

/-- All counters are the same. -/
theorem congruence_eq : Congruence Eq where
  toEquivalence := eq_equivalence
  add h h' := congrArg₂ Tally.add h h'
  reversed := congrArg Tally.reversed
  penalty := congrArg Tally.penalty

theorem plain_add (a b : Tally) : (a.add b).plain = (a.plain.add b.plain).plain := rfl

/-- The words are the same, whether they were carried or not. -/
theorem congruence_plain : Congruence fun a b ↦ a.plain = b.plain where
  toEquivalence := ⟨fun _ ↦ rfl, Eq.symm, Eq.trans⟩
  add {a a' b b'} h h' := by rw [plain_add, h, h', ← plain_add]
  reversed h := congrArg Tally.reversed h
  penalty {a a'} h := by
    change a.plain.penalty = a'.plain.penalty
    rw [h]

end Tally

variable {same : Tally → Tally → Prop} {l l' r r' : SortRecord} {f f' g g' : Finding}
  {fs fs' parts parts' : List Finding}

/-! ### Resemblance -/

/-- The rules cannot tell the findings apart, as far as tallies of this kind are the same. -/
structure Finding.Resembles (same : Tally → Tally → Prop) (f f' : Finding) : Prop where
  standing : f.node.standing = f'.node.standing
  tally : same f.node.tally f'.node.tally
  sentinel : f.node.sentinel = f'.node.sentinel

namespace Finding.Resembles

theorem refl (equates : Tally.Congruence same) (f : Finding) : f.Resembles same f :=
  ⟨rfl, equates.refl _, rfl⟩

theorem symm (equates : Tally.Congruence same) (h : f.Resembles same f') : f'.Resembles same f :=
  ⟨h.standing.symm, equates.symm h.tally, h.sentinel.symm⟩

theorem trans (equates : Tally.Congruence same) (h : f.Resembles same f')
    (h' : f'.Resembles same g) : f.Resembles same g :=
  ⟨h.standing.trans h'.standing, equates.trans h.tally h'.tally, h.sentinel.trans h'.sentinel⟩

theorem rank (h : f.Resembles same f') : f.node.level.rank = f'.node.level.rank :=
  (Standing.mk.inj h.standing).1

theorem grade (h : f.Resembles same f') : f.node.grade = f'.node.grade :=
  (Standing.mk.inj h.standing).2.2.2

theorem incongruous (h : f.Resembles same f') : f.node.incongruous = f'.node.incongruous :=
  MatchNode.incongruous_congr h.standing

theorem prefer (h : f.Resembles same f') (h' : g.Resembles same g') :
    f.node.prefer g.node = f'.node.prefer g'.node :=
  MatchNode.prefer_congr h.standing h'.standing

theorem lifted (h : f.Resembles same f') : f.node.level.lifted = f'.node.level.lifted :=
  Level.lifted_congr h.rank

end Finding.Resembles

/-- Findings that resemble each other and are of the same level, so that neither is identical unless
both are. -/
structure Finding.Agrees (same : Tally → Tally → Prop) (f f' : Finding) : Prop
    extends f.Resembles same f' where
  level : f.node.level = f'.node.level

namespace Finding.Agrees

/-- Findings of sorts of the same size that were put together from the same values agree, whatever
their parts are. -/
theorem node (equates : Tally.Congruence same) {level level' : Level} {grade grade' : Grade}
    {tally tally' : Tally} (scale : commonScale l r = commonScale l' r') (levels : level = level')
    (grades : grade = grade') (tallies : same tally tally') :
    (⟨Matching.node l r level grade tally [], parts⟩ : Finding).Agrees same
      ⟨Matching.node l' r' level' grade' tally' [], parts'⟩ where
  standing := by
    unfold MatchNode.standing
    simp only [Finding.node_mk, Matching.node, levels, equates.penalty tallies, scale, grades]
  tally := tallies
  sentinel := rfl
  level := levels

theorem turned (equates : Tally.Congruence same) (h : f.Agrees same f')
    (left right left' right' : SortId) :
    (f.turned left right).Agrees same (f'.turned left' right') where
  standing := MatchNode.standing_mirrored h.standing left right left' right' [] [] none none
  tally := equates.reversed h.tally
  sentinel := rfl
  level := h.level

end Finding.Agrees

namespace Finding

theorem agrees_incongruous (equates : Tally.Congruence same)
    (scale : commonScale l r = commonScale l' r') :
    (incongruous l r parts).Agrees same (incongruous l' r' parts') :=
  .node equates scale rfl rfl (equates.refl _)

theorem agrees_equivalent (equates : Tally.Congruence same)
    (scale : commonScale l r = commonScale l' r') (tally : Tally) :
    (equivalent l r tally).Agrees same (equivalent l' r' tally) :=
  .node equates scale rfl rfl (equates.refl _)

theorem agrees_identity (equates : Tally.Congruence same)
    (scale : commonScale l l = commonScale l' l') : (identity l).Agrees same (identity l') :=
  .node equates scale rfl rfl (equates.refl _)

/-! ### Choices -/

/-- The better one of findings is that of findings that agree with them. -/
theorem Agrees.better (h : f.Agrees same f') (h' : g.Agrees same g') :
    (better f g).Agrees same (better f' g') := by
  unfold Finding.better
  rw [h'.prefer h.toResembles]
  split_ifs
  · exact h'
  · exact h

theorem rel_choose (each : List.Forall₂ (Agrees same) fs fs') :
    Option.Rel (Agrees same) (choose fs) (choose fs') := by
  cases each with
  | nil => exact .none
  | cons first others => exact .some (List.rel_foldl (fun _ _ h _ _ h' ↦ h.better h') first others)

theorem agrees_chooseOrIncongruous (equates : Tally.Congruence same)
    (scale : commonScale l r = commonScale l' r')
    (each : List.Forall₂ (Agrees same) fs fs') :
    (chooseOrIncongruous l r fs parts).Agrees same (chooseOrIncongruous l' r' fs' parts') := by
  have chosen := rel_choose each
  unfold chooseOrIncongruous
  cases made : choose fs <;> cases made' : choose fs' <;> rw [made, made'] at chosen <;>
    cases chosen
  · exact agrees_incongruous equates scale
  · assumption

theorem better_spec (best other : Finding) :
    (better best other = best ∨ better best other = other) ∧
    ((better best other).node.prefer best.node).isLE ∧
    ((better best other).node.prefer other.node).isLE := by
  unfold better
  split_ifs with less
  · rw [less]
    exact ⟨.inr rfl, rfl, Std.ReflCmp.isLE_rfl⟩
  · refine ⟨.inl rfl, Std.ReflCmp.isLE_rfl, ?_⟩
    rw [MatchNode.prefer_swap]
    revert less
    cases other.node.prefer best.node <;> simp

/-- The best of several findings is one of them, and is preferred to all. -/
theorem choose_spec (chosen : choose fs = some f) :
    f ∈ fs ∧ ∀ g ∈ fs, (f.node.prefer g.node).isLE := by
  cases fs with
  | nil => cases chosen
  | cons first others =>
    obtain rfl := Option.some.inj chosen
    clear chosen
    induction others generalizing first with
    | nil =>
      refine ⟨List.mem_cons_self, fun g inside ↦ ?_⟩
      obtain rfl := List.mem_singleton.mp inside
      exact Std.ReflCmp.isLE_rfl
    | cons other others ih =>
      obtain ⟨inside, best⟩ := ih (better first other)
      obtain ⟨either, overFirst, overOther⟩ := better_spec first other
      have top := best _ List.mem_cons_self
      rw [List.foldl_cons]
      refine ⟨?_, fun g there ↦ ?_⟩
      · rcases List.mem_cons.mp inside with same | later
        · rw [same]
          rcases either with kept | replaced
          · rw [kept]
            exact List.mem_cons_self
          · rw [replaced]
            exact List.mem_cons_of_mem _ List.mem_cons_self
        · exact List.mem_cons_of_mem _ (List.mem_cons_of_mem _ later)
      · rcases List.mem_cons.mp there with rfl | there
        · exact Std.TransCmp.isLE_trans top overFirst
        rcases List.mem_cons.mp there with rfl | there
        · exact Std.TransCmp.isLE_trans top overOther
        · exact best _ (List.mem_cons_of_mem _ there)

end Finding

end CompositeSorts
