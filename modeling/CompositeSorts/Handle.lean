import CompositeSorts.SlotMap

/-!
Handles. The handle of a sort names the registry that owns the sort and the key of its slot there,
so handles of different registries never meet. The handle of a match is a number. Main
definitions: `SortId`, `MatchId` and their texts.
-/

set_option autoImplicit false
set_option relaxedAutoImplicit false

namespace CompositeSorts

/-- The number of a registry. -/
structure RegistryId where
  number : UInt32
deriving DecidableEq, Repr

/-- The handle of a sort: its registry and its slot there. -/
structure SortId where
  registry : RegistryId
  key : SlotKey
deriving DecidableEq, Repr

/-- The handle of a match: its number in the order in which a registry made its matches. -/
structure MatchId where
  index : Nat
deriving DecidableEq, Repr

/-- Matches are written `m` and their number. -/
def MatchId.text (id : MatchId) : String := "m" ++ toString id.index

namespace RegistryId

/-- Registries are written `@` and their number. -/
def text (id : RegistryId) : String := "@" ++ toString id.number.toNat

end RegistryId

namespace SortId

/-- A handle is written `SortId(registry:slot)`, with `#generation` behind the slot unless the
slot was never freed. -/
def text (id : SortId) : String :=
  let generation :=
    if id.key.generation = 0 then "" else "#" ++ toString id.key.generation.toNat
  "SortId(" ++ id.registry.text ++ ":" ++ toString id.key.index ++ generation ++ ")"

/-- Handles as triples of numbers: registry, slot, generation. -/
def toTriple (id : SortId) : Nat × Nat × Nat :=
  (id.registry.number.toNat, id.key.index, id.key.generation.toNat)

theorem toTriple_injective {a b : SortId} (h : a.toTriple = b.toTriple) : a = b := by
  obtain ⟨⟨ra⟩, ia, ga⟩ := a
  obtain ⟨⟨rb⟩, ib, gb⟩ := b
  simp only [toTriple, Prod.mk.injEq] at h
  obtain ⟨hr, hi, hg⟩ := h
  rw [UInt32.toNat_inj] at hr hg
  simp [hr, hi, hg]

end SortId

end CompositeSorts
