import CompositeSorts.Bytes

/-!
The hash function SHA-256. A message is padded to blocks of sixteen words; a block is spread to
sixty-four words, which are mixed into a state of eight words one after the other; the last state
is the digest.

Main definitions: `Sha256.padded`, `Sha256.spread`, `Sha256.mixed`, `Sha256.digest`.
-/

set_option autoImplicit false
set_option relaxedAutoImplicit false

namespace CompositeSorts.Sha256

/-- Eight words. -/
structure State where
  a : UInt32
  b : UInt32
  c : UInt32
  d : UInt32
  e : UInt32
  f : UInt32
  g : UInt32
  h : UInt32
deriving DecidableEq, Repr

namespace State

/-- The state before the first block: the fractions of the square roots of the first eight
primes. -/
def start : State :=
  ⟨0x6a09e667, 0xbb67ae85, 0x3c6ef372, 0xa54ff53a,
    0x510e527f, 0x9b05688c, 0x1f83d9ab, 0x5be0cd19⟩

/-- Adds two states, word by word. -/
def add (s t : State) : State :=
  ⟨s.a + t.a, s.b + t.b, s.c + t.c, s.d + t.d, s.e + t.e, s.f + t.f, s.g + t.g, s.h + t.h⟩

/-- The words in order. -/
def words (s : State) : List UInt32 := [s.a, s.b, s.c, s.d, s.e, s.f, s.g, s.h]

end State

/-- The constants of the rounds: the fractions of the cube roots of the first sixty-four primes. -/
def roundConstants : List UInt32 :=
  [0x428a2f98, 0x71374491, 0xb5c0fbcf, 0xe9b5dba5, 0x3956c25b, 0x59f111f1,
    0x923f82a4, 0xab1c5ed5, 0xd807aa98, 0x12835b01, 0x243185be, 0x550c7dc3,
    0x72be5d74, 0x80deb1fe, 0x9bdc06a7, 0xc19bf174, 0xe49b69c1, 0xefbe4786,
    0x0fc19dc6, 0x240ca1cc, 0x2de92c6f, 0x4a7484aa, 0x5cb0a9dc, 0x76f988da,
    0x983e5152, 0xa831c66d, 0xb00327c8, 0xbf597fc7, 0xc6e00bf3, 0xd5a79147,
    0x06ca6351, 0x14292967, 0x27b70a85, 0x2e1b2138, 0x4d2c6dfc, 0x53380d13,
    0x650a7354, 0x766a0abb, 0x81c2c92e, 0x92722c85, 0xa2bfe8a1, 0xa81a664b,
    0xc24b8b70, 0xc76c51a3, 0xd192e819, 0xd6990624, 0xf40e3585, 0x106aa070,
    0x19a4c116, 0x1e376c08, 0x2748774c, 0x34b0bcb5, 0x391c0cb3, 0x4ed8aa4a,
    0x5b9cca4f, 0x682e6ff3, 0x748f82ee, 0x78a5636f, 0x84c87814, 0x8cc70208,
    0x90befffa, 0xa4506ceb, 0xbef9a3f7, 0xc67178f2]

/-- The word turned to the right by `n` bits, for `n` between 1 and 31. -/
def rotated (word n : UInt32) : UInt32 := (word >>> n) ||| (word <<< (32 - n))

/-- The bytes behind a message: a one, zeros up to eight bytes before the end of a block, and the
length of the message in bits. -/
def padding (length : Nat) : Bytes :=
  0x80 :: List.replicate ((119 - length % 64) % 64) 0 ++ Bytes.bigEndian 8 (8 * length)

/-- A message with its padding. -/
def padded (message : Bytes) : Bytes := message ++ padding message.length

/-- Bytes in groups of four, each as a word. -/
def wordsOf : Bytes → List UInt32
  | b₀ :: b₁ :: b₂ :: b₃ :: rest =>
    (b₀.toUInt32 <<< 24 ||| b₁.toUInt32 <<< 16 ||| b₂.toUInt32 <<< 8 ||| b₃.toUInt32) ::
      wordsOf rest
  | _ => []

/-- The word that follows sixteen words of a block. The one before it comes first. -/
def following (before : List UInt32) : UInt32 :=
  let word (back : Nat) : UInt32 := before.getD (back - 1) 0
  let low := rotated (word 15) 7 ^^^ rotated (word 15) 18 ^^^ (word 15 >>> 3)
  let high := rotated (word 2) 17 ^^^ rotated (word 2) 19 ^^^ (word 2 >>> 10)
  word 16 + low + word 7 + high

/-- Some words with `n` more in front. -/
def extended : (n : Nat) → List UInt32 → List UInt32
  | 0, before => before
  | n + 1, before => extended n (following before :: before)

/-- The sixty-four words of a block of sixteen. -/
def spread (block : List UInt32) : List UInt32 := (extended 48 block.reverse).reverse

/-- Mixes a word and a constant into the state. -/
def round (s : State) (constant word : UInt32) : State :=
  let high := rotated s.e 6 ^^^ rotated s.e 11 ^^^ rotated s.e 25
  let choice := (s.e &&& s.f) ^^^ (~~~s.e &&& s.g)
  let first := s.h + high + choice + constant + word
  let low := rotated s.a 2 ^^^ rotated s.a 13 ^^^ rotated s.a 22
  let majority := (s.a &&& s.b) ^^^ (s.a &&& s.c) ^^^ (s.b &&& s.c)
  ⟨first + (low + majority), s.a, s.b, s.c, s.d + first, s.e, s.f, s.g⟩

/-- Mixes a block into the state. -/
def compressed (s : State) (block : List UInt32) : State :=
  s.add ((roundConstants.zip (spread block)).foldl
    (fun state pair ↦ round state pair.1 pair.2) s)

/-- Mixes words into the state, a block at a time. -/
def mixed (s : State) (words : List UInt32) : State :=
  if words.isEmpty then s else mixed (compressed s (words.take 16)) (words.drop 16)
termination_by words.length
decreasing_by
  rename_i present
  have : words.length ≠ 0 := by simpa [List.isEmpty_iff] using present
  simp only [List.length_drop]
  omega

/-- The digest of a message, thirty-two bytes. -/
def digest (message : Bytes) : Bytes :=
  (mixed .start (wordsOf (padded message))).words.flatMap fun word ↦
    Bytes.bigEndian 4 word.toNat

/-! ### Elementary facts -/

theorem toBitVec_rotated {word n : UInt32} (positive : 0 < n.toNat) (small : n.toNat < 32) :
    (rotated word n).toBitVec = word.toBitVec.rotateRight n.toNat := by
  have right : n.toNat % 32 = n.toNat := Nat.mod_eq_of_lt small
  have left : (4294967296 - n.toNat) % 32 = 32 - n.toNat := by omega
  rw [BitVec.rotateRight_def, right]
  simp [rotated, right, left]

/-- The padding fills the last block. -/
theorem length_padded (message : Bytes) : (padded message).length % 64 = 0 := by
  simp only [padded, padding, List.length_append, List.length_cons, List.length_replicate,
    Bytes.length_bigEndian]
  omega

theorem length_digest (message : Bytes) : (digest message).length = 32 := by
  simp [digest, State.words]

end CompositeSorts.Sha256
