/-!
Bytes. Numbers are written in a fixed number of bytes, with the most or the least significant one
first; texts are written in UTF-8; bytes are shown as pairs of hexadecimal digits.

Main definitions: `Bytes.bigEndian`, `Bytes.ofBigEndian`, `Bytes.littleEndian`, `Bytes.ofText`,
`Bytes.text?`, `Bytes.hex`. Main statements: a number that fits is read back,
`ofBigEndian_bigEndian`.
-/

set_option autoImplicit false
set_option relaxedAutoImplicit false

namespace CompositeSorts

/-- A sequence of bytes. -/
abbrev Bytes := List UInt8

namespace Bytes

/-- A number in `width` bytes, the most significant one first. -/
def bigEndian : (width : Nat) → (n : Nat) → Bytes
  | 0, _ => []
  | width + 1, n => bigEndian width (n / 256) ++ [UInt8.ofNat (n % 256)]

/-- The number that the bytes stand for, the most significant one first. -/
def ofBigEndian (bytes : Bytes) : Nat := bytes.foldl (fun n byte ↦ 256 * n + byte.toNat) 0

/-- A number in `width` bytes, the least significant one first. -/
def littleEndian (width n : Nat) : Bytes := (bigEndian width n).reverse

/-- The bytes of a text. -/
def ofText (text : String) : Bytes := text.toUTF8.data.toList

/-- The text that the bytes spell, if they spell one. -/
def text? (bytes : Bytes) : Option String := String.fromUTF8? ⟨bytes.toArray⟩

/-- A digit below sixteen. -/
def hexDigit (n : Nat) : Char := if n < 10 then Char.ofNat (48 + n) else Char.ofNat (87 + n)

/-- Two digits for every byte. -/
def hex (bytes : Bytes) : String :=
  String.ofList (bytes.flatMap fun byte ↦ [hexDigit (byte.toNat / 16), hexDigit (byte.toNat % 16)])

/-! ### Elementary facts -/

@[simp] theorem length_bigEndian (width n : Nat) : (bigEndian width n).length = width := by
  induction width generalizing n with
  | zero => rfl
  | succ width ih => simp [bigEndian, ih]

@[simp] theorem length_littleEndian (width n : Nat) : (littleEndian width n).length = width := by
  simp [littleEndian]

theorem ofBigEndian_append_singleton (bytes : Bytes) (byte : UInt8) :
    ofBigEndian (bytes ++ [byte]) = 256 * ofBigEndian bytes + byte.toNat := by
  simp [ofBigEndian]

/-- A number that fits into the bytes is read back. -/
theorem ofBigEndian_bigEndian {width n : Nat} (h : n < 1 <<< (8 * width)) :
    ofBigEndian (bigEndian width n) = n := by
  induction width generalizing n with
  | zero => simp_all [bigEndian, ofBigEndian]
  | succ width ih =>
    have fits : n / 256 < 1 <<< (8 * width) := by
      rw [Nat.mul_succ, Nat.shiftLeft_add, Nat.shiftLeft_eq _ 8] at h
      exact (Nat.div_lt_iff_lt_mul (by decide)).2 h
    rw [bigEndian, ofBigEndian_append_singleton, ih fits, UInt8.toNat_ofNat']
    omega

/-- Two numbers that fit and have the same bytes are the same. -/
theorem littleEndian_inj {width m n : Nat} (hm : m < 1 <<< (8 * width))
    (hn : n < 1 <<< (8 * width)) (h : littleEndian width m = littleEndian width n) : m = n := by
  have same : bigEndian width m = bigEndian width n := List.reverse_inj.1 h
  rw [← ofBigEndian_bigEndian hm, ← ofBigEndian_bigEndian hn, same]

end Bytes

end CompositeSorts
