import CompositeSorts.Proofs.Source.Spelling

/-!
What is exposed in a canonical text. A sign of an operation is exposed when it stands outside of all
parentheses and quotes; the signs that are exposed tell how a text was put together. Since no mark
can stand in a name, and quotes are escaped, putting texts together puts what they expose together
(`Exposes.append`), and parentheses hide it (`Exposes.parenthesised`).

Main definitions: `Stand`, where a reader of a text stands, `signs`, what is seen from there, and
`Exposes`.
-/

set_option autoImplicit false
set_option relaxedAutoImplicit false

namespace CompositeSorts.Text

/-- Where a reader of a text stands: outside of quotes, between quotes, or behind a backslash
between quotes; and in how many parentheses. -/
inductive Stand where
  | bare (depth : Nat)
  | quoted (depth : Nat)
  | escaped (depth : Nat)
deriving DecidableEq

namespace Stand

/-- Where the reader stands behind the next character. -/
def next : Stand → Char → Stand
  | bare depth, c =>
    if c = '"' then quoted depth
    else if c = '(' then bare (depth + 1)
    else if c = ')' then bare (depth - 1)
    else bare depth
  | quoted depth, c =>
    if c = '"' then bare depth else if c = '\\' then escaped depth else quoted depth
  | escaped depth, _ => quoted depth

/-- The next character, if it is the sign of an operation outside of parentheses and quotes. -/
def sees (stand : Stand) (c : Char) : List Char :=
  if stand = bare 0 ∧ (c = '+' ∨ c = '^') then [c] else []

theorem next_bare {c : Char} (plain : c ∉ ['"', '(', ')']) (depth : Nat) :
    (bare depth).next c = bare depth := by
  simp only [List.mem_cons, List.not_mem_nil, or_false, not_or] at plain
  simp only [next, plain, if_false]

theorem next_quoted {c : Char} (plain : c ∉ ['"', '\\']) (depth : Nat) :
    (quoted depth).next c = quoted depth := by
  simp only [List.mem_cons, List.not_mem_nil, or_false, not_or] at plain
  simp only [next, plain, if_false]

theorem sees_of_plain {c : Char} (plain : c ∉ ['+', '^']) (stand : Stand) : stand.sees c = [] := by
  simp only [List.mem_cons, List.not_mem_nil, or_false] at plain
  unfold sees
  rw [if_neg (fun seen ↦ plain seen.2)]

end Stand

/-- The signs of operations that a reader sees outside of parentheses and quotes. -/
def signs : Stand → List Char → List Char
  | _, [] => []
  | stand, c :: letters => stand.sees c ++ signs (stand.next c) letters

theorem signs_append (stand : Stand) (front back : List Char) :
    signs stand (front ++ back) =
      signs stand front ++ signs (front.foldl Stand.next stand) back := by
  induction front generalizing stand with
  | nil => rfl
  | cons c front ih => rw [List.cons_append, List.foldl_cons, signs, signs, ih, List.append_assoc]

/-- Reading the letters leads back, and nothing is seen on the way. -/
def Passes (stand : Stand) (letters : List Char) : Prop :=
  letters.foldl Stand.next stand = stand ∧ signs stand letters = []

namespace Passes

variable {stand : Stand} {letters : List Char}

theorem nil (stand : Stand) : Passes stand [] := ⟨rfl, rfl⟩

theorem of_forall (stays : ∀ c ∈ letters, stand.next c = stand ∧ stand.sees c = []) :
    Passes stand letters := by
  induction letters with
  | nil => exact nil stand
  | cons c letters ih =>
    obtain ⟨same, unseen⟩ := stays c List.mem_cons_self
    have behind := ih fun other inside ↦ stays other (List.mem_cons_of_mem _ inside)
    unfold Passes
    rw [List.foldl_cons, signs, same, unseen]
    exact behind

end Passes

/-! ### Quotes -/

/-- Hexadecimal digits are no quotes, no backslashes and no braces. -/
theorem notMem_of_mem_toDigits {n : Nat} {c : Char} (h : c ∈ Nat.toDigits 16 n) :
    c ∉ ['"', '\\', '\x7d'] := by
  have digit : ∀ d < 16, Nat.digitChar d ∉ ['"', '\\', '\x7d'] := by decide
  induction n using Nat.strongRecOn with
  | ind n ih =>
    rw [Nat.toDigits_eq_if (by decide)] at h
    split_ifs at h with small
    · rw [List.mem_singleton.mp h]
      exact digit n small
    · rcases List.mem_append.mp h with front | last
      · exact ih (n / 16) (by omega) front
      · rw [List.mem_singleton.mp last]
        exact digit (n % 16) (Nat.mod_lt n (by decide))

/-- The characters that are read, each with where the reader stands in front of it. -/
def visits : Stand → List Char → List (Stand × Char)
  | _, [] => []
  | stand, c :: letters => (stand, c) :: visits (stand.next c) letters

theorem visits_append (stand : Stand) (front back : List Char) :
    visits stand (front ++ back) =
      visits stand front ++ visits (front.foldl Stand.next stand) back := by
  induction front generalizing stand with
  | nil => rfl
  | cons c front ih => rw [List.cons_append, List.foldl_cons, visits, visits, ih, List.cons_append]

/-- What is seen is seen from where the reader stands. -/
theorem signs_eq_nil {stand : Stand} {letters : List Char}
    (unseen : ∀ visit ∈ visits stand letters, visit.1.sees visit.2 = []) :
    signs stand letters = [] := by
  induction letters generalizing stand with
  | nil => rfl
  | cons c letters ih =>
    rw [signs, unseen _ List.mem_cons_self, List.nil_append]
    exact ih fun visit inside ↦ unseen visit (List.mem_cons_of_mem _ inside)

/-- Reading the letters stays between the quotes. -/
def Stays (depth : Nat) (letters : List Char) : Prop :=
  letters.foldl Stand.next (.quoted depth) = .quoted depth ∧
    ∀ visit ∈ visits (.quoted depth) letters, ∀ other, visit.1 ≠ .bare other

namespace Stays

variable {depth : Nat} {front back letters : List Char}

theorem nil (depth : Nat) : Stays depth [] := ⟨rfl, by simp [visits]⟩

theorem append (h : Stays depth front) (h' : Stays depth back) : Stays depth (front ++ back) := by
  constructor
  · rw [List.foldl_append, h.1, h'.1]
  · rw [visits_append, h.1]
    exact fun visit inside ↦ (List.mem_append.mp inside).elim (h.2 visit) (h'.2 visit)

theorem cons {c : Char} (plain : c ∉ ['"', '\\']) (behind : Stays depth letters) :
    Stays depth (c :: letters) := by
  unfold Stays
  rw [List.foldl_cons, visits, Stand.next_quoted plain]
  exact ⟨behind.1, List.forall_mem_cons.mpr ⟨(by rintro _ ⟨⟩), behind.2⟩⟩

/-- A backslash takes the next letter with it. -/
theorem backslash (behind : Stays depth letters) (c : Char) :
    Stays depth ('\\' :: c :: letters) := by
  have slash : (Stand.quoted depth).next '\\' = .escaped depth := rfl
  have letter : (Stand.escaped depth).next c = .quoted depth := rfl
  unfold Stays
  rw [List.foldl_cons, List.foldl_cons, visits, visits, slash, letter]
  exact ⟨behind.1, List.forall_mem_cons.mpr
    ⟨(by rintro _ ⟨⟩), List.forall_mem_cons.mpr ⟨(by rintro _ ⟨⟩), behind.2⟩⟩⟩

theorem of_forall (plain : ∀ c ∈ letters, c ∉ ['"', '\\']) : Stays depth letters := by
  induction letters with
  | nil => exact nil depth
  | cons c letters ih =>
    exact cons (plain c List.mem_cons_self) (ih fun d inside ↦ plain d
      (List.mem_cons_of_mem _ inside))

/-- A character that is written between quotes does not end them. -/
theorem escaped (depth : Nat) (c : Char) : Stays depth (escaped c) := by
  have digits : Stays depth (Nat.toDigits 16 c.toNat) := by
    refine of_forall fun digit inside ↦ ?_
    have plain := notMem_of_mem_toDigits inside
    simp_all
  unfold Text.escaped
  split_ifs with _ _ _ _ slash quote
  · exact backslash (nil depth) '0'
  · exact backslash (nil depth) 't'
  · exact backslash (nil depth) 'r'
  · exact backslash (nil depth) 'n'
  · exact backslash (nil depth) '\\'
  · exact backslash (nil depth) '"'
  · exact ((backslash (cons (by decide) (nil depth)) 'u').append digits).append
      (cons (by decide) (nil depth))
  · exact cons (by simp [slash, quote]) (nil depth)

theorem flatMap_escaped (depth : Nat) (letters : List Char) :
    Stays depth (letters.flatMap Text.escaped) := by
  induction letters with
  | nil => exact nil depth
  | cons c letters ih =>
    rw [List.flatMap_cons]
    exact (escaped depth c).append ih

/-- Nothing is seen between quotes. -/
theorem passes (h : Stays depth letters) : Passes (.quoted depth) letters := by
  refine ⟨h.1, signs_eq_nil fun visit inside ↦ ?_⟩
  unfold Stand.sees
  rw [if_neg (fun seen ↦ h.2 visit inside 0 seen.1)]

end Stays

/-! ### Texts -/

/-- From whatever depth the text is read, it leads back there; and this is what it exposes. -/
def Exposes (text : String) (shown : List Char) : Prop :=
  ∀ depth, text.toList.foldl Stand.next (.bare depth) = .bare depth ∧
    signs (.bare depth) text.toList = if depth = 0 then shown else []

namespace Exposes

variable {front back text separator : String} {shown shown' : List Char}

theorem signs_eq (h : Exposes text shown) : signs (.bare 0) text.toList = shown := (h 0).2

theorem of_passes (h : ∀ depth, Passes (.bare depth) text.toList) : Exposes text [] := by
  intro depth
  refine ⟨(h depth).1, ?_⟩
  rw [(h depth).2, ite_self]

theorem append (h : Exposes front shown) (h' : Exposes back shown') :
    Exposes (front ++ back) (shown ++ shown') := by
  intro depth
  obtain ⟨returns, sees⟩ := h depth
  obtain ⟨returns', sees'⟩ := h' depth
  rw [String.toList_append, List.foldl_append, signs_append, returns, sees, sees']
  refine ⟨returns', ?_⟩
  split_ifs <;> rfl

/-- A text without signs, quotes and parentheses exposes nothing. -/
theorem of_plain (plain : ∀ c ∈ text.toList, c ∉ ['"', '(', ')'] ∧ c ∉ ['+', '^']) :
    Exposes text [] :=
  of_passes fun depth ↦ Passes.of_forall fun c inside ↦
    ⟨Stand.next_bare (plain c inside).1 depth, Stand.sees_of_plain (plain c inside).2 _⟩

theorem of_unmarked (h : Unmarked text) : Exposes text [] := by
  have marked : ∀ c ∈ ['"', '(', ')'] ++ ['+', '^'], c ∈ marks := by simp [marks]
  exact of_plain fun c inside ↦ ⟨fun among ↦ h c inside (marked c (List.mem_append_left _ among)),
    fun among ↦ h c inside (marked c (List.mem_append_right _ among))⟩

/-- Parentheses hide what the text between them exposes. -/
theorem parenthesised (h : Exposes text shown) : Exposes ("(" ++ text ++ ")") [] := by
  refine of_passes fun depth ↦ ?_
  obtain ⟨returns, sees⟩ := h (depth + 1)
  have letters : ("(" ++ text ++ ")").toList = '(' :: (text.toList ++ [')']) := by
    rw [String.toList_append, String.toList_append]
    rfl
  have inner : (Stand.bare depth).next '(' = .bare (depth + 1) := rfl
  have outer : (Stand.bare (depth + 1)).next ')' = .bare depth := rfl
  unfold Passes
  rw [letters, List.foldl_cons, List.foldl_append, signs, inner, returns, signs_append, returns,
    sees, Stand.sees_of_plain (by decide), if_neg (Nat.succ_ne_zero depth)]
  refine ⟨outer, ?_⟩
  rw [signs, Stand.sees_of_plain (by decide)]
  rfl

/-- So do quotes. -/
theorem of_quoted (text : String) : Exposes (quoted text) [] := by
  refine of_passes fun depth ↦ ?_
  obtain ⟨returns, sees⟩ := (Stays.flatMap_escaped depth text.toList).passes
  have opened : (Stand.bare depth).next '"' = .quoted depth := rfl
  unfold quoted Passes
  rw [String.toList_ofList, List.cons_append, List.foldl_cons, List.foldl_append, signs, opened,
    returns, signs_append, returns, sees, Stand.sees_of_plain (by decide)]
  exact ⟨rfl, rfl⟩

theorem of_wordOrQuoted (text : String) : Exposes (wordOrQuoted text) [] := by
  unfold wordOrQuoted
  split_ifs with word
  · exact of_unmarked (unmarked_of_isIdentifier word)
  · exact of_quoted text

/-- Joined texts expose what they and the separators expose. -/
theorem joined {texts : List String} (gap : Exposes separator shown)
    (each : ∀ text ∈ texts, ∃ shown, Exposes text shown) :
    ∃ all, Exposes (Text.joined separator texts) all ∧
    (2 ≤ texts.length → ∀ c ∈ shown, c ∈ all) := by
  unfold Text.joined
  induction texts with
  | nil => exact ⟨[], of_unmarked (by rintro c ⟨⟩), by simp⟩
  | cons first others ih =>
    obtain ⟨here, exposes⟩ := each first List.mem_cons_self
    obtain ⟨behind, exposes', -⟩ := ih fun text inside ↦ each text (List.mem_cons_of_mem _ inside)
    cases others with
    | nil =>
      rw [String.intercalate_singleton]
      exact ⟨here, exposes, by simp⟩
    | cons second others =>
      rw [String.intercalate_cons_cons]
      refine ⟨_, (exposes.append gap).append exposes', fun _ c inside ↦ ?_⟩
      simp [inside]

end Exposes

end CompositeSorts.Text
