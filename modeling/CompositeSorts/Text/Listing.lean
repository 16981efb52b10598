import CompositeSorts.Text.Quoted

/-!
Lists of texts. Texts are put in order and joined. There is one notation for values in diagnostic
output: `Name { field: value }` for records, `[a, b]` for lists, `{key: value}` for maps. Main
definitions: `sorted`, `joined`, `listing`, `mapping`, `record`.
-/

set_option autoImplicit false
set_option relaxedAutoImplicit false

namespace CompositeSorts.Text

/-- Puts a text into a list in order, in front of the texts that do not come before it. -/
def inserted (text : String) : List String → List String
  | [] => [text]
  | first :: others =>
    if text ≤ first then text :: first :: others else first :: inserted text others

/-- The texts in order. -/
def sorted (texts : List String) : List String := texts.foldr inserted []

/-- The texts with a separator between each two. -/
def joined (separator : String) (texts : List String) : String :=
  String.intercalate separator texts

/-- `[a, b]` -/
def listing (items : List String) : String :=
  "[" ++ joined ", " items ++ "]"

/-- `key: value` -/
def labelled (entry : String × String) : String := entry.1 ++ ": " ++ entry.2

/-- Entries between braces, a key before each value. -/
def mapping (entries : List (String × String)) : String :=
  "\x7b" ++ joined ", " (entries.map labelled) ++ "\x7d"

/-- A name and labelled fields between braces. -/
def record (name : String) (fields : List (String × String)) : String :=
  name ++ " \x7b " ++ joined ", " (fields.map labelled) ++ " \x7d"

theorem inserted_perm (text : String) (texts : List String) :
    (inserted text texts).Perm (text :: texts) := by
  induction texts with
  | nil => exact .refl _
  | cons first others ih =>
    unfold inserted
    split
    · exact .refl _
    · exact (ih.cons first).trans (.swap text first others)

/-- Putting texts in order neither adds nor drops one. -/
theorem sorted_perm (texts : List String) : (sorted texts).Perm texts := by
  induction texts with
  | nil => exact .refl _
  | cons text texts ih => exact (inserted_perm text _).trans (ih.cons text)

theorem pairwise_inserted (text : String) {texts : List String} (inOrder : texts.Pairwise (· ≤ ·)) :
    (inserted text texts).Pairwise (· ≤ ·) := by
  induction texts with
  | nil => exact List.pairwise_singleton _ _
  | cons first others ih =>
    have ⟨least, behind⟩ := List.pairwise_cons.mp inOrder
    unfold inserted
    split
    · rename_i before
      refine List.pairwise_cons.mpr ⟨fun other inside ↦ ?_, inOrder⟩
      cases inside with
      | head => exact before
      | tail _ inside => exact String.le_trans before (least other inside)
    · rename_i notBefore
      refine List.pairwise_cons.mpr ⟨fun other inside ↦ ?_, ih behind⟩
      cases (inserted_perm text others).mem_iff.mp inside with
      | head => exact (String.le_total first text).resolve_right notBefore
      | tail _ inside => exact least other inside

theorem pairwise_sorted (texts : List String) : (sorted texts).Pairwise (· ≤ ·) := by
  induction texts with
  | nil => exact .nil
  | cons text texts ih => exact pairwise_inserted text ih

/-- Texts that are in order stay as they are. -/
theorem sorted_of_pairwise {texts : List String} (inOrder : texts.Pairwise (· ≤ ·)) :
    sorted texts = texts := by
  induction texts with
  | nil => rfl
  | cons text texts ih =>
    have ⟨least, behind⟩ := List.pairwise_cons.mp inOrder
    change inserted text (sorted texts) = text :: texts
    rw [ih behind]
    cases texts with
    | nil => rfl
    | cons next others => exact if_pos (least next List.mem_cons_self)

theorem sorted_sorted (texts : List String) : sorted (sorted texts) = sorted texts :=
  sorted_of_pairwise (pairwise_sorted texts)

end CompositeSorts.Text
