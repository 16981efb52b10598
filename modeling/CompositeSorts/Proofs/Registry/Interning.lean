import CompositeSorts.Proofs.Catalog.Outlines
import CompositeSorts.Proofs.Registry.Sessions

/-!
What combining answers. An attribute is kept under the text it has when it is made, and it is
answered whenever that text comes up again. The spine of what is answered shows what the base shows
and behind it what the weight shows, whatever has been called before, as long as names, tags and
numbers are solid words and the weight does not share its name with an attribute; and the only
exception is that the attribute was made for a disjunction that has grown in place since
(`combine_outline`). In this case what is answered shows another weight than was asked for
(`exists_combine_of_other_weight`).
-/

set_option autoImplicit false
set_option relaxedAutoImplicit false

namespace CompositeSorts

/-- The calls of the algebra, one operation each. -/
def Call.Algebraic : Call → Prop
  | .primitive .. | .declareAspects .. | .duplicate .. | .combine .. | .sum .. | .register ..
  | .bind .. => True
  | _ => False

namespace Registry

open Catalog Text

variable {r : Registry} {base weight id : SortId}

/-- Any call, with solid words where it is given words directly. -/
abbrev SolidCall : Registry → Call → Prop := fun _ call ↦ call.Plain Solid

theorem Reachable.lucid (reached : Reachable SolidCall r) : r.catalog.Lucid := by
  have lasting : Persists Solid (fun _ ↦ True) fun c ↦ c.Weighed ∧ c.Orderly ∧ c.Lettered := {
    words := fun _ ↦ solid_of_unmarked
    empty := fun home ↦ ⟨Weighed.empty home, Orderly.empty home, Lettered.empty home⟩
    clear := fun _ ↦ ⟨Weighed.clear _, Orderly.clear _, Lettered.clear _⟩
    step := fun steady ⟨weighed, orderly, lettered⟩ step ↦
      ⟨(step.edit steady.toSound).weighed steady.toSound weighed,
        (step.edit steady.toSound).orderly steady.toSound weighed orderly,
        lettered.step steady step⟩
    openSession := fun ⟨weighed, orderly, lettered⟩ ↦
      ⟨weighed.openSession, orderly.openSession, lettered.openSession⟩
    rollBack := fun steady _ ⟨weighed, orderly, lettered⟩ ↦ ⟨weighed.rollBack steady.toSound,
      orderly.rollBack steady.toSound, lettered.rollBack weighed steady.toSound⟩ }
  obtain ⟨weighed, orderly, lettered⟩ := reached.persists lasting fun _ _ solid ↦ solid
  exact ⟨reached.proper.steady, weighed, orderly, lettered⟩

/-- Take a registry that any calls have led to, texts and operations of the algebra, in which the
words that were given directly are solid, and a weight that does not share its name with another
sort, unless neither is an attribute. When a base is combined with it, the spine of the answer shows
what the spine of the base shows and then what that of the weight shows, if and only if it does not
show another disjunction in place of the weight, by which the weight has been outgrown. -/
theorem combine_outline (reached : Reachable SolidCall r) (own : r.catalog.Own weight)
    (combined : (r.operate (.combine base weight)).1 = .ok id) :
    ∃ front behind whole, r.catalog.outline base = .ok front ∧
      r.catalog.outline weight = .ok behind ∧
      (r.perform (.combine base weight)).catalog.outline id = .ok whole ∧
      (whole = front ++ behind ↔ ¬ ∃ grown g, r.catalog.Outgrown weight grown ∧
        r.catalog.get grown = .ok g ∧ whole = front ++ [g.display]) := by
  obtain ⟨d, run⟩ := exists_of_operate combined
  have after : (r.perform (.combine base weight)).catalog = d := by
    change (r.operate (.combine base weight)).2.catalog = d
    rw [operate_of_ok run]
  obtain ⟨front, behind, whole, shownBase, shownWeight, shown, outcome⟩ :=
    (reached.lucid.ends_combine own).of_ok run
  refine ⟨front, behind, whole, shownBase, shownWeight, after ▸ shown, ?_⟩
  constructor
  · rintro rfl ⟨grown, g,
      ⟨w, g', _, _, _, _, foundWeight, growing, foundGrown, -, differ, -⟩, found, other⟩
    rw [outline_of_plain foundWeight (by rw [growing.2]; decide)] at shownWeight
    rw [foundGrown] at found
    cases shownWeight
    cases found
    exact differ (List.cons.inj (List.append_cancel_left other)).1.symm
  · exact fun no ↦ outcome.resolve_right no

/-- The base `3` is combined with the disjunction `2`, which grows afterwards, and the disjunction
`8` then displays what `2` did. -/
def grownSample : Registry :=
  let label (word : String) : Call := .primitive "Label" (some (.identifier word))
  let id (number : Nat) : SortId := ⟨⟨0⟩, ⟨number, 0⟩⟩
  sample.performAll [label "x", label "y", .sum (id 0) (id 1), label "f", .combine (id 3) (id 2),
    label "z", .sum (id 2) (id 5), label "x", label "y", .sum (id 6) (id 7)]

theorem reachable_grownSample {allowed : Registry → Call → Prop}
    (labels : ∀ r word, allowed r (.primitive "Label" (some (.identifier word))))
    (sums : ∀ r left right, allowed r (.sum left right))
    (combined : ∀ r base weight, allowed r (.combine base weight)) :
    Reachable allowed grownSample := by
  refine (reachable_sample _).performAll _ ?_
  simp [labels, sums, combined]

/-- The kept attribute shows the disjunction `2` as it was, and so it is not answered. -/
theorem combine_outline_sample :
    (grownSample.perform (.combine ⟨⟨0⟩, ⟨3, 0⟩⟩ ⟨⟨0⟩, ⟨2, 0⟩⟩)).catalog.outline ⟨⟨0⟩, ⟨9, 0⟩⟩ =
      .ok ["[Label] f", "[Label] x+[Label] y+[Label] z"] := by
  have reached : Reachable SolidCall grownSample := by
    have solid : Solid "Label" := solid_of_unmarked (unmarked_of_isIdentifier (by decide +kernel))
    refine reachable_grownSample (fun _ _ ↦ ⟨solid, ?_⟩) (fun _ _ _ ↦ trivial)
      fun _ _ _ ↦ trivial
    rintro lexeme ⟨⟩
  let id (number : Nat) : SortId := ⟨⟨0⟩, ⟨number, 0⟩⟩
  let c := grownSample.catalog
  obtain ⟨nameless, combined, base, weight, apart⟩ :
      (∀ w ∈ (c.get (id 2)).toOption, w.name = none) ∧
        (grownSample.operate (.combine (id 3) (id 2))).1 = .ok (id 9) ∧
        c.outline (id 3) = .ok ["[Label] f"] ∧
        c.outline (id 2) = .ok ["[Label] x+[Label] y+[Label] z"] ∧
        ∀ w ∈ (c.get (id 2)).toOption, ∀ b ∈ c.store.values, ∀ kept ∈ c.store.values,
          kept.variant = .weighted → kept.canonical ≠ weightedText b w := by decide +kernel
  have own : c.Own (id 2) := by
    intro w name other sort' found named
    rw [nameless w (by rw [found]; rfl)] at named
    cases named
  obtain ⟨front, behind, whole, shownBase, shownWeight, shown, exact_iff⟩ :=
    combine_outline reached own combined
  rw [base] at shownBase
  rw [weight] at shownWeight
  cases shownBase
  cases shownWeight
  have same : whole = ["[Label] f"] ++ ["[Label] x+[Label] y+[Label] z"] := by
    refine exact_iff.mpr ?_
    rintro ⟨grown, g,
      ⟨w, g', kept, sort, under, b, found, -, -, -, -, foundKept, -, made, foundBase, text⟩, -⟩
    refine apart w (by rw [found]; rfl) b ?_ sort ?_ (by rw [SortRecord.variant, made]; rfl) text
    · exact SlotMap.mem_values_of_get? (get_eq_ok_iff.mp foundBase).2
    · exact SlotMap.mem_values_of_get? (get_eq_ok_iff.mp foundKept).2
  rw [same] at shown
  exact shown

/-- The attribute over the disjunction `8` is the kept one over the disjunction `2`, which shows
more than was asked for. -/
theorem exists_combine_of_other_weight :
    ¬ ∀ r : Registry, Reachable (fun _ call ↦ call.Algebraic) r → ∀ base weight id,
      (r.operate (.combine base weight)).1 = .ok id → ∀ front behind,
        r.catalog.outline base = .ok front → r.catalog.outline weight = .ok behind →
        (r.perform (.combine base weight)).catalog.outline id = .ok (front ++ behind) := by
  intro all
  have reached : Reachable (fun _ call ↦ call.Algebraic) grownSample :=
    reachable_grownSample (fun _ _ ↦ trivial) (fun _ _ _ ↦ trivial) fun _ _ _ ↦ trivial
  let id (number : Nat) : SortId := ⟨⟨0⟩, ⟨number, 0⟩⟩
  obtain ⟨combined, front, behind, other⟩ :
      (grownSample.operate (.combine (id 3) (id 8))).1 = .ok (id 4) ∧
      grownSample.catalog.outline (id 3) = .ok ["[Label] f"] ∧
      grownSample.catalog.outline (id 8) = .ok ["[Label] x+[Label] y"] ∧
      (grownSample.perform (.combine (id 3) (id 8))).catalog.outline (id 4) ≠
        .ok ["[Label] f", "[Label] x+[Label] y"] := by decide +kernel
  exact other (all _ reached _ _ _ combined _ _ front behind)

end Registry

end CompositeSorts
