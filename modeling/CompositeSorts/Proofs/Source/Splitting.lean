import CompositeSorts.Proofs.Source.Exposure

/-!
Splitting canonical texts. The surface of a text is what stands outside of its parentheses and
quotes (`Surface`). Texts without a separator on their surface can be joined by it and split again
(`Surface.joined_injective`): behind the end of the first text the reader is back at the surface,
and so it is in any longer text that begins with the first and the separator. What is written
between quotes can be read back as well (`wordOrQuoted_injective`).
-/

set_option autoImplicit false
set_option relaxedAutoImplicit false

namespace CompositeSorts.Text

/-- From whatever depth the text is read, it leads back there and never further out, and what is
read at that depth is allowed. -/
def Surface (text : String) (allowed : Char → Prop) : Prop :=
  ∀ depth, text.toList.foldl Stand.next (.bare depth) = .bare depth ∧
    ∀ visit ∈ visits (.bare depth) text.toList, ∀ other, visit.1 = .bare other →
      depth ≤ other ∧ (other = depth → allowed visit.2)

namespace Surface

variable {front back text separator : String} {allowed allowed' : Char → Prop}

theorem mono (h : Surface text allowed) (more : ∀ c, allowed c → allowed' c) :
    Surface text allowed' :=
  fun depth ↦ ⟨(h depth).1, fun visit inside other bare ↦
    ((h depth).2 visit inside other bare).imp_right fun here same ↦ more _ (here same)⟩

theorem append (h : Surface front allowed) (h' : Surface back allowed) :
    Surface (front ++ back) allowed := by
  intro depth
  rw [String.toList_append, List.foldl_append, visits_append, (h depth).1]
  exact ⟨(h' depth).1, fun visit inside ↦
    (List.mem_append.mp inside).elim ((h depth).2 visit) ((h' depth).2 visit)⟩

/-- A text without quotes and parentheses lies on its surface. -/
theorem of_plain (plain : ∀ c ∈ text.toList, c ∉ ['"', '(', ')'] ∧ allowed c) :
    Surface text allowed := by
  unfold Surface
  generalize text.toList = letters at plain
  intro depth
  induction letters with
  | nil => exact ⟨rfl, by simp [visits]⟩
  | cons c letters ih =>
    obtain ⟨bare, fine⟩ := plain c List.mem_cons_self
    have behind := ih fun d inside ↦ plain d (List.mem_cons_of_mem _ inside)
    rw [List.foldl_cons, visits, Stand.next_bare bare]
    refine ⟨behind.1, List.forall_mem_cons.mpr ⟨?_, behind.2⟩⟩
    rintro other ⟨⟩
    exact ⟨Nat.le_refl depth, fun _ ↦ fine⟩

theorem of_unmarked (h : Unmarked text) : Surface text (· ∉ marks) := by
  have marked : ∀ c ∈ ['"', '(', ')'], c ∈ marks := by simp [marks]
  exact of_plain fun c inside ↦ ⟨fun among ↦ h c inside (marked c among), h c inside⟩

/-- Parentheses cover the text between them. -/
theorem parenthesised (h : Surface text allowed) (opens : allowed' '(') :
    Surface ("(" ++ text ++ ")") allowed' := by
  intro depth
  obtain ⟨returns, covered⟩ := h (depth + 1)
  have letters : ("(" ++ text ++ ")").toList = '(' :: (text.toList ++ [')']) := by
    rw [String.toList_append, String.toList_append]
    rfl
  have inner : (Stand.bare depth).next '(' = .bare (depth + 1) := rfl
  have outer : (Stand.bare (depth + 1)).next ')' = .bare depth := rfl
  have last : visits (.bare (depth + 1)) [')'] = [(.bare (depth + 1), ')')] := rfl
  rw [letters, List.foldl_cons, List.foldl_append, visits, inner, returns, visits_append, returns,
    last]
  refine ⟨outer, List.forall_mem_cons.mpr ⟨?_, fun visit inside other bare ↦ ?_⟩⟩
  · rintro other ⟨⟩
    exact ⟨Nat.le_refl depth, fun _ ↦ opens⟩
  · have deeper : depth + 1 ≤ other := by
      rcases List.mem_append.mp inside with inside | inside
      · exact (covered visit inside other bare).1
      · rw [List.mem_singleton.mp inside] at bare
        cases bare
        exact Nat.le_refl _
    exact ⟨Nat.le_of_succ_le deeper, fun same ↦ absurd deeper (same ▸ Nat.not_succ_le_self depth)⟩

/-- So do quotes. -/
theorem of_quoted (text : String) (opens : allowed '"') : Surface (quoted text) allowed := by
  intro depth
  obtain ⟨returns, covered⟩ := Stays.flatMap_escaped depth text.toList
  have opened : (Stand.bare depth).next '"' = .quoted depth := rfl
  have last : visits (.quoted depth) ['"'] = [(.quoted depth, '"')] := rfl
  unfold quoted
  rw [String.toList_ofList, List.cons_append, List.foldl_cons, List.foldl_append, visits, opened,
    returns, visits_append, returns, last]
  refine ⟨rfl, List.forall_mem_cons.mpr ⟨?_, fun visit inside other bare ↦ ?_⟩⟩
  · rintro other ⟨⟩
    exact ⟨Nat.le_refl depth, fun _ ↦ opens⟩
  · rcases List.mem_append.mp inside with inside | inside
    · exact absurd bare (covered visit inside other)
    · rw [List.mem_singleton.mp inside] at bare
      cases bare

theorem joined {texts : List String}
    (gap : ∀ c ∈ separator.toList, c ∉ ['"', '(', ')'] ∧ allowed c)
    (each : ∀ text ∈ texts, Surface text allowed) :
    Surface (Text.joined separator texts) allowed := by
  unfold Text.joined
  induction texts with
  | nil => exact of_plain (by rintro c ⟨⟩)
  | cons first others ih =>
    have behind := ih fun text inside ↦ each text (List.mem_cons_of_mem _ inside)
    cases others with
    | nil =>
      rw [String.intercalate_singleton]
      exact each first List.mem_cons_self
    | cons second others =>
      rw [String.intercalate_cons_cons]
      exact ((each first List.mem_cons_self).append (of_plain gap)).append behind

/-! ### Splitting -/

/-- What stands behind a part that leads back to the surface is on the surface. -/
theorem allowed_of_prefix (h : Surface text allowed) (h' : Surface front allowed') {c : Char}
    {rest : List Char} (eq : text.toList = front.toList ++ c :: rest) : allowed c := by
  have here : (Stand.bare 0, c) ∈ visits (.bare 0) text.toList := by
    rw [eq, visits_append, (h' 0).1]
    exact List.mem_append_right _ List.mem_cons_self
  exact ((h 0).2 _ here 0 rfl).2 rfl

/-- Texts with no separator on their surface end where the first separator on the surface is. -/
theorem eq_of_append_eq (h : Surface front allowed) (h' : Surface back allowed) {c : Char}
    (apart : ¬ allowed c) {rest rest' : List Char}
    (same : front.toList ++ c :: rest = back.toList ++ c :: rest') : front = back := by
  rcases List.append_eq_append_iff.mp same with ⟨more, eq, behind⟩ | ⟨more, eq, behind⟩
  · cases more with
    | nil => exact String.toList_inj.mp (by rw [eq, List.append_nil])
    | cons d more =>
      obtain rfl := (List.cons.inj behind).1
      exact absurd (h'.allowed_of_prefix h eq) apart
  · cases more with
    | nil => exact String.toList_inj.mp (by rw [eq, List.append_nil])
    | cons d more =>
      obtain rfl := (List.cons.inj behind).1
      exact absurd (h.allowed_of_prefix h' eq) apart

/-- Joined texts can be split again, when the separator begins with what they have not got on their
surface. -/
theorem joined_injective {c : Char} {rest : List Char} (separated : separator.toList = c :: rest)
    (apart : ¬ allowed c) {texts texts' : List String}
    (each : ∀ text ∈ texts, Surface text allowed) (each' : ∀ text ∈ texts', Surface text allowed)
    (some_ : texts ≠ []) (some' : texts' ≠ [])
    (same : Text.joined separator texts = Text.joined separator texts') : texts = texts' := by
  have split (first second : String) (others : List String) :
      (Text.joined separator (first :: second :: others)).toList =
        first.toList ++ c :: (rest ++ (Text.joined separator (second :: others)).toList) := by
    unfold Text.joined
    rw [String.intercalate_cons_cons, String.toList_append, String.toList_append, separated,
      List.append_assoc, List.cons_append]
  have single (text : String) : Text.joined separator [text] = text :=
    String.intercalate_singleton ..
  induction texts generalizing texts' with
  | nil => exact absurd rfl some_
  | cons first others ih =>
    obtain ⟨first', others', rfl⟩ := List.exists_cons_of_ne_nil some'
    have head := each first List.mem_cons_self
    have head' := each' first' List.mem_cons_self
    cases others with
    | nil =>
      cases others' with
      | nil => rw [single, single] at same; rw [same]
      | cons second' others' =>
        rw [single] at same
        exact absurd (head.allowed_of_prefix head' (same ▸ split ..)) apart
    | cons second others =>
      cases others' with
      | nil =>
        rw [single] at same
        exact absurd (head'.allowed_of_prefix head (same ▸ split ..)) apart
      | cons second' others' =>
        have letters := congrArg String.toList same
        rw [split, split] at letters
        obtain rfl := head.eq_of_append_eq head' apart letters
        have behind := List.append_cancel_left (List.cons.inj (List.append_cancel_left letters)).2
        rw [ih (fun text inside ↦ each text (List.mem_cons_of_mem _ inside))
          (fun text inside ↦ each' text (List.mem_cons_of_mem _ inside)) (List.cons_ne_nil _ _)
          (List.cons_ne_nil _ _) (String.toList_inj.mp behind)]

end Surface

/-! ### Quoted texts -/

/-- Different numbers have different digits. -/
theorem toDigits_injective {m n : Nat} (same : Nat.toDigits 16 m = Nat.toDigits 16 n) : m = n := by
  have digit : ∀ d < 16, ∀ e < 16, Nat.digitChar d = Nat.digitChar e → d = e := by decide
  have some_ (n : Nat) : 0 < (Nat.toDigits 16 n).length :=
    List.length_pos_iff.mpr Nat.toDigits_ne_nil
  induction m using Nat.strongRecOn generalizing n with
  | ind m ih =>
    rw [Nat.toDigits_eq_if (by decide), Nat.toDigits_eq_if (n := n) (by decide)] at same
    split_ifs at same with small small' small'
    · exact digit m small n small' (List.singleton_inj.mp same)
    · have lengths := congrArg List.length same
      rw [List.length_append, List.length_singleton, List.length_singleton] at lengths
      have := some_ (n / 16)
      omega
    · have lengths := congrArg List.length same
      rw [List.length_append, List.length_singleton, List.length_singleton] at lengths
      have := some_ (m / 16)
      omega
    · obtain ⟨front, last⟩ := List.append_inj' same rfl
      have quotient := ih (m / 16) (by omega) front
      have remainder := digit _ (Nat.mod_lt m (by decide)) _ (Nat.mod_lt n (by decide))
        (List.singleton_inj.mp last)
      omega

/-- The characters that are written as a backslash and a letter, with that letter. -/
def lettered : List (Char × Char) :=
  [('\x00', '0'), ('\t', 't'), ('\r', 'r'), ('\n', 'n'), ('\\', '\\'), ('"', '"')]

/-- There are three ways in which a character is written between quotes. -/
theorem escaped_cases (c : Char) : escaped c = [c] ∧ c ≠ '\\' ∧ c ≠ '"' ∨
    (∃ letter, (c, letter) ∈ lettered ∧ escaped c = ['\\', letter]) ∨
    escaped c = '\\' :: 'u' :: '\x7b' :: (Nat.toDigits 16 c.toNat ++ ['\x7d']) := by
  unfold escaped
  split_ifs with nul tab cr lf slash quote
  · exact Or.inr (Or.inl ⟨_, by simp [lettered, nul], rfl⟩)
  · exact Or.inr (Or.inl ⟨_, by simp [lettered, tab], rfl⟩)
  · exact Or.inr (Or.inl ⟨_, by simp [lettered, cr], rfl⟩)
  · exact Or.inr (Or.inl ⟨_, by simp [lettered, lf], rfl⟩)
  · exact Or.inr (Or.inl ⟨_, by simp [lettered, slash], rfl⟩)
  · exact Or.inr (Or.inl ⟨_, by simp [lettered, quote], rfl⟩)
  · exact Or.inr (Or.inr rfl)
  · exact Or.inl ⟨rfl, slash, quote⟩

/-- A written character can be split off what follows it. -/
theorem escaped_append_injective {c d : Char} {rest rest' : List Char}
    (same : escaped c ++ rest = escaped d ++ rest') : c = d ∧ rest = rest' := by
  have proper : ∀ entry ∈ lettered, entry.2 ≠ 'u' := by decide
  have single : ∀ entry ∈ lettered, ∀ other ∈ lettered, entry.2 = other.2 → entry.1 = other.1 := by
    decide
  rcases escaped_cases c with ⟨here, plain, -⟩ | ⟨letter, among, here⟩ | here <;>
    rcases escaped_cases d with ⟨there, plain', -⟩ | ⟨letter', among', there⟩ | there <;>
    rw [here, there] at same
  · exact List.cons.inj same
  · exact absurd (List.cons.inj same).1 plain
  · exact absurd (List.cons.inj same).1 plain
  · exact absurd (List.cons.inj same).1.symm plain'
  · obtain ⟨letters, behind⟩ := List.cons.inj (List.cons.inj same).2
    exact ⟨single _ among _ among' letters, behind⟩
  · exact absurd (List.cons.inj (List.cons.inj same).2).1 (proper _ among)
  · exact absurd (List.cons.inj same).1.symm plain'
  · exact absurd (List.cons.inj (List.cons.inj same).2).1.symm (proper _ among')
  · have digits : Nat.toDigits 16 c.toNat ++ ['\x7d'] ++ rest =
        Nat.toDigits 16 d.toNat ++ ['\x7d'] ++ rest' :=
      (List.cons.inj (List.cons.inj (List.cons.inj same).2).2).2
    have number (n : Nat) : ∀ digit ∈ Nat.toDigits 16 n, (digit != '\x7d') = true := by
      intro digit inside
      have plain := notMem_of_mem_toDigits inside
      simp_all
    rw [List.append_assoc, List.append_assoc] at digits
    have numbers := congrArg (List.takeWhile (· != '\x7d')) digits
    rw [List.takeWhile_append_of_pos (number _), List.takeWhile_append_of_pos (number _)] at numbers
    simp only [List.singleton_append, bne_self_eq_false, Bool.false_eq_true, not_false_eq_true,
      List.takeWhile_cons_of_neg, List.append_nil] at numbers
    rw [numbers] at digits
    exact ⟨Char.toNat_inj.mp (toDigits_injective numbers),
      (List.cons.inj (List.append_cancel_left digits)).2⟩

/-- Written characters are no quotes, so the closing quote is found. -/
theorem flatMap_escaped_injective {letters letters' : List Char}
    (same : letters.flatMap escaped ++ ['"'] = letters'.flatMap escaped ++ ['"']) :
    letters = letters' := by
  have open_ (c : Char) (rest : List Char) : ['"'] ≠ escaped c ++ rest := by
    intro same
    rcases escaped_cases c with ⟨here, -, plain⟩ | ⟨letter, -, here⟩ | here <;> rw [here] at same
    · exact plain (List.cons.inj same).1.symm
    · cases same
    · cases same
  induction letters generalizing letters' with
  | nil =>
    cases letters' with
    | nil => rfl
    | cons c letters' =>
      rw [List.flatMap_cons, List.append_assoc] at same
      exact absurd same (open_ c _)
  | cons c letters ih =>
    cases letters' with
    | nil =>
      rw [List.flatMap_cons, List.append_assoc] at same
      exact absurd same.symm (open_ c _)
    | cons d letters' =>
      rw [List.flatMap_cons, List.flatMap_cons, List.append_assoc, List.append_assoc] at same
      obtain ⟨rfl, behind⟩ := escaped_append_injective same
      rw [ih behind]

theorem quoted_injective {text text' : String} (same : quoted text = quoted text') :
    text = text' := by
  have letters := congrArg String.toList same
  unfold quoted at letters
  rw [String.toList_ofList, String.toList_ofList, List.cons_append, List.cons_append] at letters
  exact String.toList_inj.mp (flatMap_escaped_injective (List.cons.inj letters).2)

/-- An identifier is not mistaken for a quoted text. -/
theorem wordOrQuoted_injective {text text' : String}
    (same : wordOrQuoted text = wordOrQuoted text') : text = text' := by
  have apart {word text : String} (plain : isIdentifier word.toList = true) :
      word ≠ quoted text := by
    rintro rfl
    refine unmarked_of_isIdentifier plain '"' ?_ (by decide)
    unfold quoted
    rw [String.toList_ofList]
    exact List.mem_cons_self
  unfold wordOrQuoted at same
  split_ifs at same with word word' word'
  · exact same
  · exact absurd same (apart word)
  · exact absurd same.symm (apart word')
  · exact quoted_injective same

theorem Surface.of_wordOrQuoted {allowed : Char → Prop} (text : String) (opens : allowed '"')
    (plain : ∀ c ∉ marks, allowed c) : Surface (wordOrQuoted text) allowed := by
  unfold wordOrQuoted
  split_ifs with word
  · exact (of_unmarked (unmarked_of_isIdentifier word)).mono plain
  · exact of_quoted text opens

end CompositeSorts.Text
