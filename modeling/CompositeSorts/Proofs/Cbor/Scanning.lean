import CompositeSorts.Cbor.Decoding
import Mathlib.Algebra.Group.Nat.Defs
import Mathlib.Data.List.Basic

/-!
Data items written and read back. An item is `Regular` when its numbers fit into a head and
nothing about it is lost in writing. Its bytes are then read as the item again, whatever stands
behind them, as long as no more containers stand inside each other than may (`scan_encode`). From no
bytes at all comes an item with more of them (`depth_scan_le`). So the standard codec is faithful
(`faithful_standard`).
-/

set_option autoImplicit false
set_option relaxedAutoImplicit false

namespace CompositeSorts.Cbor

/-! ### Heads -/

theorem majorType_ofNat {major information : Nat} (small : major < 8) (fits : information < 32) :
    majorType (UInt8.ofNat (32 * major + information)) = major := by
  unfold majorType
  rw [UInt8.toNat_ofNat']
  omega

theorem information_ofNat {major information : Nat} (fits : information < 32) :
    Cbor.information (UInt8.ofNat (32 * major + information)) = information := by
  unfold Cbor.information
  rw [UInt8.toNat_ofNat']
  omega

/-- The byte in front of a map with one entry. -/
theorem ofNat_eq_shortForm {major information : Nat} (small : major < 8) (fits : information < 32) :
    UInt8.ofNat (32 * major + information) = 0xa1 ↔ major = 5 ∧ information = 1 := by
  rw [← UInt8.toNat_inj, UInt8.toNat_ofNat']
  constructor
  · intro same
    have : (0xa1 : UInt8).toNat = 161 := rfl
    omega
  · rintro ⟨rfl, rfl⟩
    rfl

/-- A number in as many bytes as it needs is read from them. -/
theorem numberIn_bigEndian {width n : Nat} (fits : n < 1 <<< (8 * width)) (rest : Bytes) :
    ∃ shorter, numberIn width (Bytes.bigEndian width n ++ rest) = .definite n rest shorter := by
  have size : (Bytes.bigEndian width n).length = width := Bytes.length_bigEndian width n
  have enough : ¬(Bytes.bigEndian width n ++ rest).length < width := by
    rw [List.length_append, size]
    omega
  have value : Bytes.ofBigEndian ((Bytes.bigEndian width n ++ rest).take width) = n := by
    rw [List.take_left' size, Bytes.ofBigEndian_bigEndian fits]
  have behind : (Bytes.bigEndian width n ++ rest).drop width = rest := List.drop_left' size
  refine ⟨by rw [List.length_append]; omega, ?_⟩
  unfold numberIn
  rw [if_neg enough]
  simp only [value, behind]

/-- A head whose number stands in bytes of its own. -/
theorem exists_wide_head {major n width information : Nat} (small : major < 8)
    (fits : n < 1 <<< (8 * width)) (large : n ≠ 1)
    (wide : 24 ≤ information ∧ information < 32)
    (reads : ∀ bytes, headNumber information bytes = numberIn width bytes) (rest : Bytes) :
    ∃ first behind shorter,
      UInt8.ofNat (32 * major + information) :: Bytes.bigEndian width n ++ rest = first :: behind ∧
        majorType first = major ∧
        headNumber (Cbor.information first) behind = .definite n rest shorter ∧
        (first = 0xa1 ↔ major = 5 ∧ n = 1) := by
  obtain ⟨shorter, eq⟩ := numberIn_bigEndian fits rest
  refine ⟨_, _, shorter, rfl, majorType_ofNat small wide.2, ?_, ?_⟩
  · rw [information_ofNat wide.2, reads, eq]
  · rw [ofNat_eq_shortForm small wide.2]
    omega

/-- A head is a byte of its major type and perhaps a few more, from which its number is read. -/
theorem exists_head {major n : Nat} (small : major < 8) (fits : n < 2 ^ 64) (rest : Bytes) :
    ∃ first behind shorter, head major n ++ rest = first :: behind ∧ majorType first = major ∧
      headNumber (information first) behind = .definite n rest shorter ∧
      (first = 0xa1 ↔ major = 5 ∧ n = 1) := by
  unfold head
  split_ifs with inByte oneByte twoBytes fourBytes
  · refine ⟨_, rest, Nat.le_refl _, rfl, majorType_ofNat small (by omega), ?_,
      ofNat_eq_shortForm small (by omega)⟩
    rw [information_ofNat (by omega)]
    unfold headNumber
    rw [if_pos inByte]
  · exact exists_wide_head small oneByte (by omega) (by decide) (fun _ ↦ rfl) rest
  · exact exists_wide_head small twoBytes (by omega) (by decide) (fun _ ↦ rfl) rest
  · exact exists_wide_head small fourBytes (by omega) (by decide) (fun _ ↦ rfl) rest
  · exact exists_wide_head small fits (by omega) (by decide) (fun _ ↦ rfl) rest

/-! ### Reading what was written -/

theorem text?_ofText (content : String) : Bytes.text? (Bytes.ofText content) = some content := by
  unfold Bytes.text? Bytes.ofText
  rw [Array.toArray_toList]
  exact dif_pos content.isValidUTF8

/-! What `scan` does with a head of each major type, when the number is definite. -/

section Fronts

variable {total levels n : Nat} {first : UInt8} {behind rest : Bytes}
  {shorter : rest.length ≤ behind.length}

theorem scan_unsigned (major : majorType first = 0)
    (number : headNumber (information first) behind = .definite n rest shorter) :
    ∃ shorter, scan total levels (first :: behind) = .whole (.unsigned n) rest shorter := by
  refine ⟨Nat.lt_succ_of_le shorter, ?_⟩
  unfold scan
  simp only [major, number]

theorem scan_negative (major : majorType first = 1)
    (number : headNumber (information first) behind = .definite n rest shorter) :
    ∃ shorter, scan total levels (first :: behind) = .whole (.negative n) rest shorter := by
  refine ⟨Nat.lt_succ_of_le shorter, ?_⟩
  unfold scan
  simp only [major, number]

/-- A string whose bytes are all there. -/
theorem stringItem_append {make : Bytes → Item} {limited : Bool} {item : Item} {major : Nat}
    {content : Bytes} {shorter : (content ++ rest).length ≤ behind.length}
    (number : headNumber (information first) behind =
      .definite content.length (content ++ rest) shorter)
    (all : (content ++ rest).length ≤ total) (limit : total < 2 ^ 64)
    (made : make content = item) (whole : ∀ fault, item ≠ .broken fault) :
    ∃ shorter, stringItem make limited total major (information first) behind =
      .whole item rest shorter := by
  have size : (content ++ rest).length = content.length + rest.length := List.length_append
  have bounded : ¬lengthLimit ≤ total - (content ++ rest).length + content.length := by
    have : lengthLimit = 2 ^ 64 := rfl
    omega
  have enough : ¬(content ++ rest).length < content.length := by omega
  refine ⟨by omega, ?_⟩
  unfold stringItem
  simp only [number, bounded, decide_false, Bool.and_false, Bool.false_eq_true, if_false, enough,
    List.take_left, List.drop_left, made]
  unfold settled
  split
  · exact absurd rfl (whole _)
  · rfl

/-- A simple value with all the bytes that it takes. -/
theorem simpleAfter_append (value : Item) (content rest : Bytes) :
    ∃ shorter, simpleAfter value content.length (content ++ rest) = .whole value rest shorter := by
  have size : (content ++ rest).length = content.length + rest.length := List.length_append
  have enough : ¬(content ++ rest).length < content.length := by omega
  refine ⟨by omega, ?_⟩
  unfold simpleAfter
  simp only [enough, if_false, List.drop_left]

theorem scan_array {elements : List Item} {last : Bytes} {shorter' : last.length < rest.length + 1}
    (major : majorType first = 4)
    (number : headNumber (information first) behind = .definite n rest shorter)
    (inside : scanElements total levels (some n) rest = .whole (elements, false) last shorter') :
    ∃ shorter, scan total (levels + 1) (first :: behind) =
      .whole (.array elements false) last shorter := by
  refine ⟨Nat.lt_of_lt_of_le shorter' (Nat.succ_le_succ shorter), ?_⟩
  unfold scan
  simp only [major, number, inside]

theorem scan_map {entries : List Item} {last : Bytes} {shorter' : last.length < rest.length + 1}
    (major : majorType first = 5)
    (number : headNumber (information first) behind = .definite n rest shorter)
    (inside : scanEntries total levels (some n) rest = .whole entries last shorter') :
    ∃ shorter, scan total (levels + 1) (first :: behind) =
      .whole (.map (first = 0xa1) entries) last shorter := by
  refine ⟨Nat.lt_of_lt_of_le shorter' (Nat.succ_le_succ shorter), ?_⟩
  unfold scan
  simp only [major, number, inside]

theorem scan_tagged {content : Item} {last : Bytes} {shorter' : last.length < rest.length}
    (major : majorType first = 6)
    (number : headNumber (information first) behind = .definite n rest shorter)
    (inside : scan total levels rest = .whole content last shorter') :
    ∃ shorter, scan total (levels + 1) (first :: behind) =
      .whole (.tagged content) last shorter := by
  refine ⟨Nat.lt_of_lt_of_le shorter' (Nat.le_succ_of_le shorter), ?_⟩
  unfold scan
  simp only [major, number, inside]

end Fronts

open Item

theorem length_head_pos (major n : Nat) : 0 < (head major n).length := by
  unfold head
  split_ifs <;> exact Nat.succ_pos _

/-- Every item takes at least one byte. -/
theorem length_encode_pos {item : Item} (regular : item.Regular) : 0 < item.encode.length := by
  match item with
  | .unsigned _ | .negative _ => exact length_head_pos _ _
  | .bytes _ | .text _ | .array _ _ | .map _ _ | .tagged _ =>
    rw [encode, List.length_append]
    exact Nat.add_pos_left (length_head_pos _ _) _
  | .bool false | .bool true | .null | .float => exact Nat.succ_pos _
  | .broken _ => exact regular.elim

theorem length_le_encodeAll {items : List Item} (regular : RegularAll items) :
    items.length ≤ (encodeAll items).length := by
  induction items with
  | nil => exact Nat.zero_le _
  | cons item items ih =>
    have first := length_encode_pos regular.1
    have others := ih regular.2
    rw [encodeAll, List.length_append, List.length_cons]
    omega

/-- The head of an item whose number is at most the number of bytes behind it. -/
theorem exists_head_of_content {total major n : Nat} {content rest : Bytes} (small : major < 8)
    (few : n ≤ content.length) (all : (head major n ++ content ++ rest).length ≤ total)
    (limit : total < 2 ^ 64) :
    (content ++ rest).length ≤ total ∧ ∃ first behind shorter,
      head major n ++ content ++ rest = first :: behind ∧ majorType first = major ∧
        headNumber (information first) behind = .definite n (content ++ rest) shorter ∧
        (first = 0xa1 ↔ major = 5 ∧ n = 1) := by
  rw [List.append_assoc, List.length_append] at all
  have behind : (content ++ rest).length ≤ total := Nat.le_of_add_left_le all
  have fits : n < 2 ^ 64 := by
    rw [List.length_append] at behind
    omega
  rw [List.append_assoc]
  exact ⟨behind, exists_head small fits (content ++ rest)⟩

mutual

/-- An item that was written is read again, whatever stands behind it. -/
theorem scan_encode {total levels : Nat} (item : Item) (regular : item.Regular)
    (deep : item.depth ≤ levels) (rest : Bytes) (all : (item.encode ++ rest).length ≤ total)
    (limit : total < 2 ^ 64) :
    ∃ shorter, scan total levels (item.encode ++ rest) = .whole item rest shorter := by
  match item with
  | .unsigned n =>
    obtain ⟨first, behind, _, eq, major, number, -⟩ :=
      exists_head (show 0 < 8 by decide) regular rest
    rw [encode, eq]
    exact scan_unsigned major number
  | .negative n =>
    obtain ⟨first, behind, _, eq, major, number, -⟩ :=
      exists_head (show 1 < 8 by decide) regular rest
    rw [encode, eq]
    exact scan_negative major number
  | .bytes content =>
    rw [encode] at all ⊢
    obtain ⟨all, first, behind, _, eq, major, number, -⟩ :=
      exists_head_of_content (by decide) (Nat.le_refl _) all limit
    rw [eq]
    unfold scan
    simp only [major]
    exact stringItem_append number all limit rfl nofun
  | .text content =>
    rw [encode] at all ⊢
    obtain ⟨all, first, behind, _, eq, major, number, -⟩ :=
      exists_head_of_content (by decide) (Nat.le_refl _) all limit
    rw [eq]
    unfold scan
    simp only [major]
    refine stringItem_append number all limit ?_ nofun
    rw [textItem, text?_ofText]
  | .array elements cutShort =>
    obtain ⟨rfl, regular⟩ := regular
    obtain ⟨levels, rfl⟩ := Nat.exists_eq_add_of_le' (Nat.le_of_add_left_le deep)
    rw [depth, Nat.add_le_add_iff_right] at deep
    rw [encode] at all ⊢
    obtain ⟨all, first, behind, _, eq, major, number, -⟩ :=
      exists_head_of_content (by decide) (length_le_encodeAll regular) all limit
    obtain ⟨_, inside⟩ := scanElements_encodeAll elements regular deep rest all limit
    rw [eq]
    exact scan_array major number inside
  | .map shortForm entries =>
    obtain ⟨rfl, even, regular⟩ := regular
    obtain ⟨levels, rfl⟩ := Nat.exists_eq_add_of_le' (Nat.le_of_add_left_le deep)
    rw [depth, Nat.add_le_add_iff_right] at deep
    rw [encode] at all ⊢
    have few : entries.length / 2 ≤ (encodeAll entries).length :=
      Nat.le_trans (Nat.div_le_self _ _) (length_le_encodeAll regular)
    obtain ⟨all, first, behind, _, eq, major, number, short⟩ :=
      exists_head_of_content (by decide) few all limit
    obtain ⟨_, inside⟩ := scanEntries_encodeAll entries even regular deep rest all limit
    rw [eq]
    obtain ⟨shorter, read⟩ := scan_map major number inside
    refine ⟨shorter, read.trans ?_⟩
    have marked : first = 0xa1 ↔ entries.length = 2 := by
      rw [short]
      omega
    simp only [marked]
  | .tagged content =>
    obtain ⟨levels, rfl⟩ := Nat.exists_eq_add_of_le' (Nat.le_of_add_left_le deep)
    rw [depth, Nat.add_le_add_iff_right] at deep
    rw [encode] at all ⊢
    obtain ⟨all, first, behind, _, eq, major, number, -⟩ :=
      exists_head_of_content (by decide) (Nat.zero_le _) all limit
    obtain ⟨_, inside⟩ := scan_encode content regular deep rest all limit
    rw [eq]
    exact scan_tagged major number inside
  | .bool false | .bool true | .null =>
    rw [encode, List.singleton_append]
    unfold scan
    exact simpleAfter_append _ [] rest
  | .float =>
    rw [encode, List.cons_append]
    unfold scan
    exact simpleAfter_append _ [0, 0] rest
  | .broken _ => exact regular.elim

/-- The same of the elements of a list, one after the other. -/
theorem scanElements_encodeAll {total levels : Nat} (items : List Item)
    (regular : RegularAll items) (deep : depthAll items ≤ levels) (rest : Bytes)
    (all : (encodeAll items ++ rest).length ≤ total) (limit : total < 2 ^ 64) :
    ∃ shorter, scanElements total levels (some items.length) (encodeAll items ++ rest) =
      .whole (items, false) rest shorter := by
  match items with
  | [] =>
    rw [encodeAll, List.nil_append]
    unfold scanElements
    exact ⟨Nat.lt_succ_self _, if_pos rfl⟩
  | item :: items =>
    obtain ⟨front, regular⟩ := regular
    rw [depthAll, Nat.max_le] at deep
    rw [encodeAll, List.append_assoc] at all ⊢
    obtain ⟨_, first⟩ := scan_encode item front deep.1 (encodeAll items ++ rest) all limit
    rw [List.length_append] at all
    obtain ⟨shorter, others⟩ :=
      scanElements_encodeAll items regular deep.2 rest (Nat.le_of_add_left_le all) limit
    refine ⟨by simp only [List.length_append] at shorter ⊢; omega, ?_⟩
    unfold scanElements
    simp [first, others]

/-- The same of the keys and values of a map. -/
theorem scanEntries_encodeAll {total levels : Nat} (items : List Item)
    (even : items.length % 2 = 0) (regular : RegularAll items) (deep : depthAll items ≤ levels)
    (rest : Bytes) (all : (encodeAll items ++ rest).length ≤ total) (limit : total < 2 ^ 64) :
    ∃ shorter, scanEntries total levels (some (items.length / 2)) (encodeAll items ++ rest) =
      .whole items rest shorter := by
  match items with
  | [] =>
    rw [encodeAll, List.nil_append]
    unfold scanEntries
    exact ⟨Nat.lt_succ_self _, if_pos rfl⟩
  | [_] => cases even
  | key :: value :: items =>
    obtain ⟨front, second, regular⟩ := regular
    rw [depthAll, Nat.max_le, depthAll, Nat.max_le] at deep
    rw [encodeAll, encodeAll, List.append_assoc, List.append_assoc] at all ⊢
    obtain ⟨_, first⟩ :=
      scan_encode key front deep.1 (value.encode ++ (encodeAll items ++ rest)) all limit
    rw [List.length_append] at all
    have all := Nat.le_of_add_left_le all
    obtain ⟨_, next⟩ := scan_encode value second deep.2.1 (encodeAll items ++ rest) all limit
    rw [List.length_append] at all
    have even : items.length % 2 = 0 := by
      simp only [List.length_cons] at even
      omega
    have half : (key :: value :: items).length / 2 = items.length / 2 + 1 := by
      simp only [List.length_cons]
      omega
    obtain ⟨shorter, others⟩ :=
      scanEntries_encodeAll items even regular deep.2.2 rest (Nat.le_of_add_left_le all) limit
    refine ⟨by simp only [List.length_append] at shorter ⊢; omega, ?_⟩
    rw [half]
    unfold scanEntries
    simp [first, next, others]

end

/-! ### Reading anything -/

/-- What was read, up to a fault or to the end. -/
def Scanned.value {α : Type} {bound : Nat} : Scanned α bound → α
  | .whole value _ _ => value
  | .part value => value

theorem value_settled {bound : Nat} (item : Item) (rest : Bytes) (shorter : rest.length < bound) :
    (settled item rest shorter).value = item := by
  cases item <;> rfl

theorem depth_textItem (content : Bytes) : (textItem content).depth = 0 := by
  unfold textItem
  split <;> rfl

theorem depth_stringItem_le {make : Bytes → Item} (flat : ∀ content, (make content).depth = 0)
    {limited : Bool} {total major information levels : Nat} {bytes : Bytes} :
    (stringItem make limited total major information bytes).value.depth ≤ levels := by
  unfold stringItem
  split
  · exact Nat.zero_le _
  · split
    · exact Nat.zero_le _
    · rw [value_settled, flat]
      exact Nat.zero_le _
  · split_ifs
    · exact Nat.zero_le _
    · exact Nat.zero_le _
    · rw [value_settled, flat]
      exact Nat.zero_le _

theorem depth_simpleAfter_le {value : Item} (flat : value.depth = 0) {width levels : Nat}
    {bytes : Bytes} : (simpleAfter value width bytes).value.depth ≤ levels := by
  unfold simpleAfter
  split
  · exact Nat.zero_le _
  · exact flat ▸ Nat.zero_le _

mutual

/-- What is read has no more containers inside each other than may stand there. -/
theorem depth_scan_le (total levels : Nat) (bytes : Bytes) :
    (scan total levels bytes).value.depth ≤ levels := by
  match bytes with
  | [] =>
    unfold scan
    exact Nat.zero_le _
  | first :: behind =>
    unfold scan
    split
    · split <;> exact Nat.zero_le _
    · split <;> exact Nat.zero_le _
    · exact depth_stringItem_le fun _ ↦ by rfl
    · exact depth_stringItem_le depth_textItem
    · split
      · exact Nat.zero_le _
      · split
        · exact Nat.zero_le _
        · rename_i levels
          have inside := depth_scanElements_le total levels none behind
          generalize scanElements total levels none behind = found at inside ⊢
          obtain ⟨⟨elements, cutShort⟩, rest, shorter⟩ | ⟨elements, cutShort⟩ := found <;>
            exact Nat.succ_le_succ inside
      · rename_i n rest shorter _
        split
        · exact Nat.zero_le _
        · rename_i levels
          have inside := depth_scanElements_le total levels (some n) rest
          generalize scanElements total levels (some n) rest = found at inside ⊢
          obtain ⟨⟨elements, cutShort⟩, rest, shorter⟩ | ⟨elements, cutShort⟩ := found <;>
            exact Nat.succ_le_succ inside
    · split
      · exact Nat.zero_le _
      · split
        · exact Nat.zero_le _
        · rename_i levels
          have inside := depth_scanEntries_le total levels none behind
          generalize scanEntries total levels none behind = found at inside ⊢
          cases found <;> exact Nat.succ_le_succ inside
      · rename_i n rest shorter _
        split
        · exact Nat.zero_le _
        · rename_i levels
          have inside := depth_scanEntries_le total levels (some n) rest
          generalize scanEntries total levels (some n) rest = found at inside ⊢
          cases found <;> exact Nat.succ_le_succ inside
    · split
      · exact Nat.zero_le _
      · exact Nat.zero_le _
      · rename_i rest shorter _
        split
        · exact Nat.zero_le _
        · rename_i levels
          have inside := depth_scan_le total levels rest
          generalize scan total levels rest = found at inside ⊢
          cases found <;> exact Nat.succ_le_succ inside
    · split
      all_goals first | exact depth_simpleAfter_le rfl | exact Nat.zero_le _
termination_by bytes.length * 2
decreasing_by all_goals simp only [List.length_cons]; omega

/-- The same of the elements of a list. -/
theorem depth_scanElements_le (total levels : Nat) (count : Option Nat) (bytes : Bytes) :
    depthAll (scanElements total levels count bytes).value.1 ≤ levels := by
  unfold scanElements
  split_ifs
  · exact Nat.zero_le _
  · exact Nat.zero_le _
  · exact Nat.zero_le _
  · have front := depth_scan_le total levels bytes
    generalize scan total levels bytes = found at front ⊢
    cases found with
    | part item => exact Nat.max_le.mpr ⟨front, Nat.zero_le _⟩
    | whole item rest shorter =>
      have others := depth_scanElements_le total levels (count.map (· - 1)) rest
      dsimp only
      generalize scanElements total levels (count.map (· - 1)) rest = found at others ⊢
      obtain ⟨⟨items, cutShort⟩, last, shorter'⟩ | ⟨items, cutShort⟩ := found <;>
        exact Nat.max_le.mpr ⟨front, others⟩
termination_by bytes.length * 2 + 1

/-- The same of the keys and values of a map. -/
theorem depth_scanEntries_le (total levels : Nat) (count : Option Nat) (bytes : Bytes) :
    depthAll (scanEntries total levels count bytes).value ≤ levels := by
  unfold scanEntries
  split_ifs
  · exact Nat.zero_le _
  · exact Nat.zero_le _
  · have first := depth_scan_le total levels bytes
    generalize scan total levels bytes = found at first ⊢
    cases found with
    | part key => exact Nat.max_le.mpr ⟨first, Nat.zero_le _⟩
    | whole key behindKey shorter =>
      have second := depth_scan_le total levels behindKey
      dsimp only
      generalize scan total levels behindKey = found at second ⊢
      cases found with
      | part value => exact Nat.max_le.mpr ⟨first, Nat.max_le.mpr ⟨second, Nat.zero_le _⟩⟩
      | whole value rest shorter' =>
        have others := depth_scanEntries_le total levels (count.map (· - 1)) rest
        dsimp only
        generalize scanEntries total levels (count.map (· - 1)) rest = found at others ⊢
        cases found <;> exact Nat.max_le.mpr ⟨first, Nat.max_le.mpr ⟨second, others⟩⟩
termination_by bytes.length * 2 + 1

end

/-! ### Whole byte strings -/

theorem faithful_standard : Codec.standard.Faithful nestingLimit where
  decode_encode item regular deep small := by
    change Item.decode item.encode = (item, [])
    change item.encode.length < 2 ^ 64 at small
    rw [← List.append_nil item.encode] at small ⊢
    obtain ⟨_, eq⟩ := scan_encode item regular deep [] (Nat.le_refl _) small
    unfold Item.decode
    rw [eq]
  depth_decode_le bytes := by
    have bound := depth_scan_le bytes.length nestingLimit bytes
    change (Item.decode bytes).1.depth ≤ nestingLimit
    unfold Item.decode
    split
    · rename_i eq
      rwa [eq] at bound
    · rename_i eq
      rwa [eq] at bound

end CompositeSorts.Cbor
