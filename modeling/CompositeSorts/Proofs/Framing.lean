import CompositeSorts.Hash.Framing
import CompositeSorts.Matching.Basic
import Mathlib.Algebra.Group.Nat.Defs
import Mathlib.Data.Set.Function

/-!
What a frame tells of its domain and its content. Texts with their length in front can be told apart
from whatever follows them, so the bytes hashed of a pair determine the label, the registry and both
displays. A domain has no length in front: only the version behind it ends it. So two frames can
also be the same where one domain goes on, behind the other, with the version, and nowhere else.
Pairs of one registry may be looked up by their hashes instead of their displays unless the texts of
two of them collide.

Main definitions: `Overrun`, `PairKey.fingerprint`. Main statements: `framed_eq_iff`,
`counted_append_inj`, `framed_iff_and_pairMessage_iff`, `PairKey.injOn_fingerprint`, and
`frame_in_common`, for two domains.
-/

set_option autoImplicit false
set_option relaxedAutoImplicit false

namespace CompositeSorts

/-! ### Frames -/

variable {domain domain' content content' extra rest rest' : Bytes}

/-- The bytes behind the domain of a frame are also read in another way: `domain'` is `domain`, the
version and more, and what it has more begins the length and the content of the first frame. -/
def Overrun (domain content domain' content' : Bytes) : Prop :=
  ∃ more, domain' = domain ++ frameVersion ++ more ∧
    lengthField content ++ content = more ++ frameVersion ++ lengthField content' ++ content'

/-- The length of some bytes and the bytes determine each other without a bound on the length, when
nothing follows them. -/
theorem lengthField_append_inj :
    lengthField content ++ content = lengthField content' ++ content' ↔ content = content' := by
  refine ⟨fun same ↦ ?_, fun same ↦ same ▸ rfl⟩
  exact (List.append_inj same (by simp only [length_lengthField])).2

/-- The version is found again behind one byte in no bytes, and behind more only where these begin
with it. -/
theorem frameVersion_append_eq_iff :
    frameVersion ++ rest = extra ++ (frameVersion ++ rest') ↔
      extra = [] ∧ rest = rest' ∨
        ∃ more, extra = frameVersion ++ more ∧ rest = more ++ frameVersion ++ rest' := by
  match extra with
  | [] => simp [frameVersion]
  | [byte] =>
    have digit : (0x31 : UInt8) ≠ 0x2f := by decide
    simp [frameVersion, digit]
  | first :: second :: more =>
    simp only [frameVersion, List.cons_append, List.nil_append, List.cons.injEq, reduceCtorEq,
      false_and, List.append_assoc, false_or]
    constructor
    · rintro ⟨rfl, rfl, same⟩
      exact ⟨more, ⟨rfl, rfl, rfl⟩, same⟩
    · rintro ⟨_, ⟨rfl, rfl, rfl⟩, same⟩
      exact ⟨rfl, rfl, same⟩

/-- Two frames are the same if they are of the same content of the same domain, or one is an overrun
of the other. -/
theorem framed_eq_iff :
    framed domain content = framed domain' content' ↔
      domain = domain' ∧ content = content' ∨
        Overrun domain content domain' content' ∨ Overrun domain' content' domain content := by
  have behind : framed domain content = framed domain' content' ↔
      domain ++ (frameVersion ++ (lengthField content ++ content)) =
        domain' ++ (frameVersion ++ (lengthField content' ++ content')) := by
    simp only [framed, List.append_assoc, List.append_cancel_left_eq]
  rw [behind, List.append_eq_append_iff]
  simp only [frameVersion_append_eq_iff]
  constructor
  · rintro (⟨extra, rfl, ⟨rfl, same⟩ | ⟨more, rfl, same⟩⟩ |
      ⟨extra, rfl, ⟨rfl, same⟩ | ⟨more, rfl, same⟩⟩)
    · exact .inl ⟨by simp, lengthField_append_inj.1 same⟩
    · exact .inr (.inl ⟨more, by simp, by simpa using same⟩)
    · exact .inl ⟨by simp, (lengthField_append_inj.1 same).symm⟩
    · exact .inr (.inr ⟨more, by simp, by simpa using same⟩)
  · rintro (⟨rfl, rfl⟩ | ⟨more, rfl, same⟩ | ⟨more, rfl, same⟩)
    · exact .inl ⟨[], by simp⟩
    · exact .inl ⟨frameVersion ++ more, by simp, .inr ⟨more, rfl, by simpa using same⟩⟩
    · exact .inr ⟨frameVersion ++ more, by simp, .inr ⟨more, rfl, by simpa using same⟩⟩

/-- A frame that two domains have in common: the empty one, with ten bytes of content, and one that
consists of the version and the length of that content, with no content. -/
theorem frame_in_common :
    framed [] (frameVersion ++ lengthField []) =
        framed (frameVersion ++ Bytes.littleEndian 8 10) [] ∧
      ([] : Bytes) ≠ frameVersion ++ Bytes.littleEndian 8 10 := by
  decide

/-! ### Texts with their length in front -/

variable {text text' : String} {label label' left left' right right' : String}
  {registry registry' : RegistryId}

theorem ofText_inj : Bytes.ofText text = Bytes.ofText text' ↔ text = text' := by
  refine ⟨fun same ↦ ?_, fun same ↦ same ▸ rfl⟩
  exact String.toByteArray_inj.1 (ByteArray.ext (Array.ext' same))

/-- A text whose length can be written is told apart from what follows it. -/
theorem counted_append_inj (short : text.utf8ByteSize < 2 ^ 64)
    (short' : text'.utf8ByteSize < 2 ^ 64) :
    counted text ++ rest = counted text' ++ rest' ↔ text = text' ∧ rest = rest' := by
  refine ⟨fun same ↦ ?_, fun ⟨same, same'⟩ ↦ same ▸ same' ▸ rfl⟩
  simp only [counted, List.append_assoc] at same
  obtain ⟨fields, behind⟩ := List.append_inj same (by simp only [length_lengthField])
  have lengths : (Bytes.ofText text).length = (Bytes.ofText text').length :=
    Bytes.littleEndian_inj short short' fields
  obtain ⟨texts, rests⟩ := List.append_inj behind lengths
  exact ⟨ofText_inj.1 texts, rests⟩

/-- What is hashed of a pair determines the pair. The last text may have any length: nothing follows
it. -/
theorem pairMessage_inj
    (short : ∀ text ∈ [label, label', left, left'], text.utf8ByteSize < 2 ^ 64) :
    pairMessage label registry left right = pairMessage label' registry' left' right' ↔
      label = label' ∧ registry = registry' ∧ left = left' ∧ right = right' := by
  simp only [List.forall_mem_cons, List.not_mem_nil, false_implies, implies_true, and_true] at short
  obtain ⟨shortLabel, shortLabel', shortLeft, shortLeft'⟩ := short
  refine ⟨fun same ↦ ?_, fun ⟨hl, hr, hx, hy⟩ ↦ by rw [hl, hr, hx, hy]⟩
  simp only [pairMessage, List.append_assoc] at same
  obtain ⟨labels, behind⟩ := (counted_append_inj shortLabel shortLabel').1 same
  obtain ⟨numbers, behind⟩ := List.append_inj behind (by simp only [Bytes.length_littleEndian])
  obtain ⟨lefts, behind⟩ := (counted_append_inj shortLeft shortLeft').1 behind
  have number : registry.number.toNat = registry'.number.toNat :=
    Bytes.littleEndian_inj registry.number.toNat_lt registry'.number.toNat_lt numbers
  have registries : registry = registry' := by
    cases registry
    cases registry'
    exact congrArg _ (UInt32.toNat_inj.1 number)
  exact ⟨labels, registries, lefts, ofText_inj.1 (lengthField_append_inj.1 behind)⟩

/-- What is hashed determines the domain and the content, unless one domain goes on, behind the
other, with the version; and what is hashed of a pair determines the label, the registry and both
displays, for all texts that fit into memory. -/
theorem framed_iff_and_pairMessage_iff :
    (∀ domain content domain' content' : Bytes,
      framed domain content = framed domain' content' ↔
        domain = domain' ∧ content = content' ∨
          Overrun domain content domain' content' ∨ Overrun domain' content' domain content) ∧
    ∀ (label label' left left' right right' : String) (registry registry' : RegistryId),
      (∀ text ∈ [label, label', left, left'], text.utf8ByteSize < 2 ^ 64) →
      (pairMessage label registry left right = pairMessage label' registry' left' right' ↔
        label = label' ∧ registry = registry' ∧ left = left' ∧ right = right') :=
  ⟨fun _ _ _ _ ↦ framed_eq_iff, fun _ _ _ _ _ _ _ _ short ↦ pairMessage_inj short⟩

/-- Two frames of one domain, and two pairs whose displays are the same when they are written one
behind the other. -/
theorem framed_iff_and_pairMessage_iff_sample :
    framed [0x61] [0x2f] ≠ framed [0x61] [0x31] ∧
      (∀ text ∈ ["r", "r", "ab", "a"], text.utf8ByteSize < 2 ^ 64) ∧
      pairMessage "r" ⟨0⟩ "ab" "c" ≠ pairMessage "r" ⟨0⟩ "a" "bc" := by
  have short : ∀ text ∈ ["r", "r", "ab", "a"], text.utf8ByteSize < 2 ^ 64 := by decide
  obtain ⟨frames, pairs⟩ := framed_iff_and_pairMessage_iff
  refine ⟨fun same ↦ ?_, short, fun same ↦ ?_⟩
  · rcases (frames _ _ _ _).1 same with ⟨-, same⟩ | ⟨more, same, -⟩ | ⟨more, same, -⟩
    · exact absurd same (by decide)
    · simpa [frameVersion] using congrArg List.length same
    · simpa [frameVersion] using congrArg List.length same
  · exact absurd ((pairs _ _ _ _ _ _ _ _ short).1 same).2.2.1 (by decide)

/-! ### Hashes of pairs -/

namespace PairKey

variable {key key' : PairKey} {keys : Set PairKey}

/-- All the bytes that are hashed for a pair. -/
def message (label : String) (registry : RegistryId) (key : PairKey) : Bytes :=
  framed Fingerprint.pairDomain (pairMessage label registry key.left key.right)

/-- The hash of a pair. -/
def fingerprint (label : String) (registry : RegistryId) (key : PairKey) : Fingerprint :=
  .ofPair label registry key.left key.right

theorem bytes_fingerprint (label : String) (registry : RegistryId) (key : PairKey) :
    (key.fingerprint label registry).bytes = Sha256.digest (key.message label registry) := rfl

theorem message_inj (shortLabel : label.utf8ByteSize < 2 ^ 64)
    (short : key.left.utf8ByteSize < 2 ^ 64) (short' : key'.left.utf8ByteSize < 2 ^ 64) :
    key.message label registry = key'.message label registry ↔ key = key' := by
  have texts : ∀ text ∈ [label, label, key.left, key'.left], text.utf8ByteSize < 2 ^ 64 := by
    simp only [List.forall_mem_cons, List.not_mem_nil, false_implies, implies_true, and_true]
    exact ⟨shortLabel, shortLabel, short, short'⟩
  refine ⟨fun same ↦ ?_, fun same ↦ same ▸ rfl⟩
  -- Both frames are of the domain of pairs, so they end in the same way.
  simp only [message, framed, List.append_assoc, List.append_cancel_left_eq] at same
  obtain ⟨-, -, left, right⟩ := (pairMessage_inj texts).1 (lengthField_append_inj.1 same)
  cases key
  cases key'
  congr

/-- Pairs of one registry with the same hash are the same, unless what is hashed of two of them
collides. So a memo keyed by the hashes finds what one keyed by the displays does. -/
theorem injOn_fingerprint (shortLabel : label.utf8ByteSize < 2 ^ 64)
    (short : ∀ key ∈ keys, key.left.utf8ByteSize < 2 ^ 64)
    (apart : Set.InjOn Sha256.digest (message label registry '' keys)) :
    Set.InjOn (fingerprint label registry) keys := by
  intro key inside key' inside' same
  have digests : Sha256.digest (key.message label registry) =
      Sha256.digest (key'.message label registry) := by
    rw [← bytes_fingerprint, ← bytes_fingerprint, same]
  have messages := apart (Set.mem_image_of_mem _ inside) (Set.mem_image_of_mem _ inside') digests
  exact (message_inj shortLabel (short key inside) (short key' inside')).1 messages

end PairKey

end CompositeSorts
