import CompositeSorts.Handle
import CompositeSorts.Hash.Sha256

/-!
What is hashed. The bytes to be hashed stand behind a mark, the domain they belong to, a version and
their length, so that a hash says what it was made for. The pair of sorts that a match relates is
hashed with the label and the number of its registry, each text behind its length.

Main definitions: `framed`, `pairMessage`, `Fingerprint`, `Fingerprint.ofPair`.
-/

set_option autoImplicit false
set_option relaxedAutoImplicit false

namespace CompositeSorts

/-- The seven bytes that everything hashed starts with. -/
def frameMark : Bytes := [0x73, 0x6f, 0x72, 0x74, 0x61, 0x6c, 0x2f]

/-- The two bytes behind the domain. -/
def frameVersion : Bytes := [0x2f, 0x31]

/-- The number of some bytes, in eight bytes. -/
def lengthField (content : Bytes) : Bytes := Bytes.littleEndian 8 content.length

/-- What is hashed for some content of a domain. -/
def framed (domain content : Bytes) : Bytes :=
  frameMark ++ domain ++ frameVersion ++ lengthField content ++ content

/-- A text with its length in front. -/
def counted (text : String) : Bytes := lengthField (Bytes.ofText text) ++ Bytes.ofText text

/-- What is hashed of a pair of sorts, given by their displays, in a registry. -/
def pairMessage (label : String) (registry : RegistryId) (left right : String) : Bytes :=
  counted label ++ Bytes.littleEndian 4 registry.number.toNat ++ counted left ++ counted right

/-- A hash. -/
structure Fingerprint where
  bytes : Bytes
deriving DecidableEq, Repr

namespace Fingerprint

/-- The hash of some content of a domain. -/
def ofContent (domain content : Bytes) : Fingerprint := ⟨Sha256.digest (framed domain content)⟩

/-- The domain of pairs of sorts. -/
def pairDomain : Bytes := Bytes.ofText "MATCH_PAIR_V0"

/-- The hash of a pair of sorts in a registry. -/
def ofPair (label : String) (registry : RegistryId) (left right : String) : Fingerprint :=
  ofContent pairDomain (pairMessage label registry left right)

/-- The first six bytes of a hash, enough to tell hashes apart. -/
def text (fingerprint : Fingerprint) : String := Bytes.hex (fingerprint.bytes.take 6)

end Fingerprint

/-! ### Elementary facts -/

theorem length_lengthField (content : Bytes) : (lengthField content).length = 8 := by
  simp [lengthField]

end CompositeSorts
