import CompositeSorts.Proofs.Catalog.Lasting
import CompositeSorts.Proofs.Definition.Formed

/-!
Phrases that mention nothing. A phrase mentions the names under definition that it contains, and
each of them makes a sort when it is mentioned first. The phrases that denote a sort by its name
alone, such as the name itself or a sum of it with itself, mention nothing but this name; so a
phrase that is answered with an aspect leaves the definitions under way as they are
(`Phrase.silent`). Hence the body of a definition that mentions its own name is no aspect.
-/

set_option autoImplicit false
set_option relaxedAutoImplicit false

namespace CompositeSorts

open Catalog Evaluation Text

variable {a c d : Catalog} {id other : SortId} {sort : SortRecord} {name : String}
  {categories : CategoryTable} {position : Position}

namespace Catalog

/-- The name denotes the sort, which need not be made for it. -/
structure Denotes (c : Catalog) (name : String) (id : SortId) : Prop where
  open_ : ∀ pending ∈ c.pending, pending.name = name → pending.placeholder = some id
  known : (∀ pending ∈ c.pending, pending.name ≠ name) → c.names[name]? = some id

/-- If the answer has the display of a name that denoted a sort before, or is an aspect, then no
name under definition was mentioned first. -/
structure Silent (c : Catalog) (id : SortId) (d : Catalog) : Prop where
  denoted : ∀ name other, Unmarked name → c.Denotes name other → d.display id = .ok name →
    id = other ∧ d.pending = c.pending
  aspect : ∀ sort, d.get id = .ok sort → sort.variant = .aspect → d.pending = c.pending

theorem Denotes.grow (h : c.Denotes name id) (grown : Growth c d) (same : d.pending = c.pending) :
    d.Denotes name id := by
  refine ⟨?_, fun free ↦ ?_⟩
  · rw [same]
    exact h.open_
  · rw [same] at free
    exact grown.keepsName (h.known free)

/-- The answer of a phrase is denoted by its name. -/
theorem Forms.denotes (h : Forms a id c) (found : c.get id = .ok sort)
    (named : sort.name = some name) :
    c.Denotes name id := by
  refine ⟨h.claimed sort name found named, fun free ↦ ?_⟩
  rcases h.formed.known found named with entry | waits | ⟨pending, inside, stands⟩
  · exact entry
  · cases waits
  · obtain ⟨record, there, carries⟩ := h.formed.awaited pending inside id stands
    rw [found] at there
    cases there
    rw [named] at carries
    exact absurd (Option.some.inj carries).symm (free pending inside)

/-- A sort without a name has no display that a name could have, and is no aspect. -/
theorem Silent.of_nameless (h : Formed [] d) (found : d.get id = .ok sort)
    (nameless : sort.name = none) :
    Silent c id d := by
  refine ⟨fun name other unmarked _ shown ↦ ?_, fun record there aspect ↦ ?_⟩
  · rw [display_of_get found] at shown
    obtain ⟨carried, named⟩ := h.named_of_unmarked found (Except.ok.inj shown ▸ unmarked)
    rw [nameless] at named
    cases named
  · rw [found] at there
    cases there
    rcases (h.fits found).nameless nameless with kind | kind | kind <;>
      · rw [aspect] at kind
        cases kind

/-- A name is silent unless it is mentioned first. -/
theorem silent_lookUp (h : Formed [] c) :
    Ends (lookUp position name) c (Silent c) fun _ ↦ True := by
  refine Ends.bind (Op.ends_at (Op.ends_mention ?_ ?_ ?_))
  · intro free
    refine Ends.bind (Ends.get ?_)
    split
    · rename_i id entry
      obtain ⟨sort, found, named⟩ := h.named entry
      refine Ends.pure ⟨fun text other _ denotes shown ↦ ⟨?_, rfl⟩, fun _ _ _ ↦ rfl⟩
      rw [display_of_get found, SortRecord.display, named] at shown
      cases shown
      have entry' := denotes.known free
      exact Option.some.inj (entry.symm.trans entry')
    · exact ends_fail trivial
  · intro index placeholder entry
    have inside := List.mem_of_getElem? entry
    obtain ⟨sort, found, named⟩ := h.awaited _ inside placeholder rfl
    refine Ends.pure ⟨fun text other _ denotes shown ↦ ⟨?_, rfl⟩, fun _ _ _ ↦ rfl⟩
    rw [display_of_get found, SortRecord.display, named] at shown
    cases shown
    exact Option.some.inj (denotes.open_ _ inside rfl)
  · intro index entry
    have inside := List.mem_of_getElem? entry
    have found : (c.add (some name) name .ofPlaceholder (.recursive none)).get c.nextId = .ok _ :=
      get_add_nextId h.toRooted
    refine Ends.pure ⟨fun text other _ denotes shown ↦ ?_, fun sort there aspect ↦ ?_⟩
    · change (c.add (some name) name .ofPlaceholder (.recursive none)).display c.nextId = _ at shown
      rw [display_of_get found] at shown
      cases shown
      cases denotes.open_ _ inside rfl
    · change (c.add (some name) name .ofPlaceholder (.recursive none)).get c.nextId = _ at there
      rw [found] at there
      cases there
      cases aspect

/-- Registering changes no sort. -/
theorem register_keeps (id : SortId) (c : Catalog) :
    Ends (Op.register id) c (fun _ d ↦ ∀ other, d.get other = c.get other) fun _ ↦ True :=
  Op.ends_register trivial (fun _ _ _ _ _ _ ↦ rfl) fun _ _ _ _ _ _ ↦ rfl

/-- A definition is answered with a sort of its name, which is no aspect. -/
theorem named_complete {body : SortId} (h : c.Steady) {innermost : Pending} {outer : List Pending}
    (under : c.pending = innermost :: outer) (same : innermost.name = name)
    (claimed : ∀ sort, c.get body = .ok sort → sort.name = some name →
      innermost.placeholder = some body) :
    Ends (complete position name body) c
      (fun id d ↦ ∃ sort, d.get id = .ok sort ∧ sort.name = some name ∧ sort.variant ≠ .aspect)
      fun _ ↦ True := by
  have inside : innermost ∈ c.pending := by
    rw [under]
    exact List.mem_cons_self
  refine Ends.bind (Op.ends_at (Op.ends_conclude ?_ ?_))
  · intro idle
    rw [under] at idle
    cases idle
  intro first rest under'
  rw [under] at under'
  cases under'
  rw [Option.bind_some]
  have rooted : Rooted { c with pending := outer } :=
    (h.withPending fun pending among ↦ h.awaited pending (by
      rw [under]
      exact List.mem_cons_of_mem _ among)).toRooted
  cases stands : innermost.placeholder with
  | some placeholder =>
    dsimp only
    split_ifs with itself
    · exact Ends.bind (ends_fail trivial)
    refine Ends.bind (Op.ends_at (Op.ends_bind trivial fun sort goal found _ _ _ _ ↦ ?_))
    obtain ⟨record, found', carries⟩ := h.awaited innermost inside placeholder stands
    change c.get placeholder = .ok sort at found
    rw [found] at found'
    cases found'
    obtain rfl : sort.id = placeholder := h.placed found
    refine Ends.bind (Op.ends_at ((register_keeps _ _).mono (fun _ d kept ↦ ?_) fun _ _ ↦ trivial))
    have now : (Catalog.replace { c with pending := outer } { sort with
        canonical := goal.canonical, counts := goal.counts, body := .recursive (some body) }).get
        sort.id = .ok _ := get_replace_self found
    exact Ends.pure ⟨_, (kept _).trans now, carries.trans (congrArg some same), by rintro ⟨⟩⟩
  | none =>
    dsimp only
    refine Ends.bind (Ends.get ?_)
    split
    · exact ends_fail trivial
    refine Ends.bind (Op.ends_at (Op.ends_duplicate trivial ?_ ?_))
    · intro source found named
      have holds := claimed source found named
      rw [stands] at holds
      cases holds
    · intro source found _ _ noAspect _
      refine Ends.bind (Op.ends_at ((register_keeps _ _).mono (fun _ d kept ↦ ?_)
        fun _ _ ↦ trivial))
      exact Ends.pure ⟨_, (kept _).trans (get_add_nextId rooted), rfl, noAspect⟩

/-- A tuple has no display that a name could have. -/
theorem Silent.of_tuple (h : Formed [] d) (found : d.get id = .ok sort)
    (tuple : sort.variant = .aspects) :
    Silent c id d := by
  refine ⟨fun name other unmarked _ shown ↦ ?_, fun record there aspect ↦ ?_⟩
  · rw [display_of_get found] at shown
    obtain ⟨carried, named⟩ := h.named_of_unmarked found (Except.ok.inj shown ▸ unmarked)
    have spelled := (h.fits found).named carried named
    rw [if_pos tuple] at spelled
    obtain ⟨names, rfl, -⟩ := spelled
    rw [SortRecord.display, named] at shown
    cases shown
    exact absurd unmarked (not_unmarked_tupleText names)
  · rw [found] at there
    cases there
    rw [tuple] at aspect
    cases aspect

/-- A sum that is answered with one of its summands is answered with the left one, and both have its
display. -/
theorem silent_sum {l r : SortId} {left : SortRecord} (h : Formed [] c) (forms : Forms a l d)
    (found : d.get l = .ok left) (stays : c.get l = .ok left) (grown : Growth a d)
    (first : Silent a l d) (second : Silent d r c) :
    Ends (Op.sum l r) c (fun id e ↦ Formed [] e → Silent a id e) fun _ ↦ True := by
  have both {name : String} {right : SortRecord} (foundRight : c.get r = .ok right)
      (same : left.display = right.display) (unmarked : Unmarked name) (denotes : d.Denotes name l)
      (shown : left.display = name) : c.pending = d.pending :=
    (second.denoted name l unmarked denotes (by rw [display_of_get foundRight, ← same, shown])).2
  refine Op.ends_sum trivial ?_ ?_ ?_ ?_
  · intro record right found' foundRight same formed
    rw [stays] at found'
    cases found'
    refine ⟨fun name other unmarked denotes shown ↦ ?_, fun record there aspect ↦ ?_⟩
    · rw [display_of_get stays] at shown
      obtain ⟨rfl, kept⟩ := first.denoted name other unmarked denotes
        (by rw [display_of_get found]; exact shown)
      exact ⟨rfl, (both foundRight same unmarked (denotes.grow grown kept)
        (Except.ok.inj shown)).trans kept⟩
    · rw [stays] at there
      cases there
      have kept := first.aspect left found aspect
      cases named : left.name with
      | none =>
        rcases (forms.formed.fits found).nameless named with kind | kind | kind <;>
          · rw [aspect] at kind
            cases kind
      | some name =>
        have spelled := (forms.formed.fits found).named name named
        rw [aspect, if_neg (by decide)] at spelled
        have shown : left.display = name := by rw [SortRecord.display, named]; rfl
        exact (both foundRight same spelled (forms.denotes found named) shown).trans kept
  · intro record right only found' foundRight differ joined
    exact (h.not_single found' foundRight differ joined).elim
  · intro record right components parts summed _ nameless formed
    obtain rfl : record.id = l := h.placed summed.foundLeft
    exact Silent.of_nameless formed (get_replace_self summed.foundLeft) nameless
  · intro record right components parts summed _ formed
    exact Silent.of_nameless formed (get_add_nextId h.toRooted) rfl

end Catalog

/-- A phrase that is answered with an aspect leaves the definitions under way as they are. -/
theorem Phrase.silent (categories : CategoryTable) (phrase : Phrase) (c : Catalog) (h : Formed [] c)
    (spelled : phrase.Spelled categories) :
    Ends (phrase.evaluate categories) c (Silent c) fun _ ↦ True := by
  have formed : Ends (phrase.evaluate categories) c (fun _ d ↦ Formed [] d) fun _ ↦ True :=
    (Phrase.forms categories phrase c h spelled).mono (fun _ _ forms ↦ forms.formed)
      fun _ early ↦ early
  suffices silent : Ends (phrase.evaluate categories) c (fun id d ↦ Formed [] d → Silent c id d)
      fun _ ↦ True from
    (formed.and silent).mono (fun _ _ ends ↦ ends.2 ends.1) fun _ _ ↦ trivial
  match phrase with
  | .reference position name =>
    exact (silent_lookUp h).mono (fun _ _ silent _ ↦ silent) fun _ _ ↦ trivial
  | .primitive position tag argument =>
    refine Op.ends_at (Op.ends_primitive trivial fun _ canonical _ _ _ formed ↦ ?_)
    exact Silent.of_nameless formed (get_add_nextId h.toRooted) rfl
  | .linked position tag arguments =>
    refine Ends.bind ((Phrase.yieldsAll categories arguments c h.toSteady).mono ?_
      fun _ _ ↦ trivial)
    intro linked d reached
    refine Op.ends_at (Op.ends_primitive trivial fun _ canonical _ _ _ formed ↦ ?_)
    exact Silent.of_nameless formed (get_add_nextId reached.toRooted) rfl
  | .weighted position base weight =>
    refine Ends.bind ((Phrase.yields categories base c h.toSteady).mono ?_ fun _ _ ↦ trivial)
    intro b d reached
    refine Ends.bind ((Phrase.yields categories weight d reached.toSteady).mono ?_
      fun _ _ ↦ trivial)
    intro w e later
    have steady : Lasting (.ofBody fun _ ↦ True) e e := Lasting.refl later.toSteady fun _ ↦ trivial
    refine Op.ends_at ((Lasting.lasts_combine (fun _ _ _ ↦ trivial) steady b w).mono ?_
      fun _ _ ↦ trivial)
    rintro id f ⟨-, sort, found, nameless, -⟩ formed
    exact Silent.of_nameless formed found nameless
  | .sum position left right =>
    refine Ends.bind (((Phrase.yields categories left c h.toSteady).and
      ((Phrase.forms categories left c h spelled.1).and
        (Phrase.silent categories left c h spelled.1))).mono ?_ fun _ _ ↦ trivial)
    rintro l d ⟨reached, forms, first⟩
    refine Ends.bind (((Phrase.yields categories right d reached.toSteady).and
      ((Phrase.forms categories right d forms.formed spelled.2).and
        (Phrase.silent categories right d forms.formed spelled.2))).mono ?_ fun _ _ ↦ trivial)
    rintro r e ⟨later, forms', second⟩
    obtain ⟨sort, found, -⟩ := reached.obtained
    exact Op.ends_at (silent_sum forms'.formed forms found
      (later.stays found) reached.toGrowth first second)
  | .definition position name body =>
    refine Ends.bind (Op.ends_at (Op.ends_announce trivial fun apart free ↦ ?_))
    have announced := h.announce spelled.1 apart
    refine Ends.bind (((Phrase.yields categories body _ announced.toSteady).and
      (Phrase.forms categories body _ announced spelled.2)).mono ?_ fun _ _ ↦ trivial)
    rintro target d ⟨reached, forms⟩
    have awaits := reached.awaits
    unfold Awaits at awaits
    obtain ⟨innermost, outer, mine, -, under⟩ := List.forall₂_cons_left_iff.mp awaits
    refine (named_complete reached.toSteady under mine.1 fun sort found named ↦ ?_).mono ?_
      fun _ _ ↦ trivial
    · refine forms.claimed sort name found named innermost ?_ mine.1
      rw [under]
      exact List.mem_cons_self
    · rintro id e ⟨sort, found, named, noAspect⟩ -
      refine ⟨fun text other _ denotes shown ↦ ?_, fun record there aspect ↦ ?_⟩
      · rw [display_of_get found, SortRecord.display, named] at shown
        obtain rfl : name = text := Except.ok.inj shown
        have entry := denotes.known apart
        rw [free] at entry
        cases entry
      · rw [found] at there
        cases there
        exact absurd aspect noAspect
  | .aspects position tag names arguments =>
    refine Ends.bind ((Phrase.yieldsAll categories arguments c h.toSteady).mono ?_
      fun _ _ ↦ trivial)
    intro linked d reached
    have steady : Lasting (.ofBody fun _ ↦ True) d d :=
      Lasting.refl reached.toSteady fun _ ↦ trivial
    refine Op.ends_at ((Lasting.lasts_declareAspects steady names linked (fun _ _ _ _ _ ↦ trivial)
      fun _ _ _ ↦ trivial).mono ?_ fun _ _ ↦ trivial)
    rintro id e ⟨-, sort, found, tuple⟩ formed
    exact Silent.of_tuple formed found tuple
  | .after earlier last =>
    refine Ends.bind ((Ends.of_any _ c).mono (fun _ d _ ↦ ?_) fun _ _ ↦ trivial)
    refine (Phrase.ends_of_broken categories last d spelled.2.2).mono ?_ fun _ _ ↦ trivial
    exact fun _ _ never ↦ never.elim
  | .stop reason => exact Ends.throw trivial

end CompositeSorts
