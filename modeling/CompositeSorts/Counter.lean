/-!
Counters. A counter is a word of 32 bits. Where an addition leaves that range the word wraps around;
a build that checks its arithmetic stops there instead. So a counter also tells whether one of the
additions that made it has left the range: then it has *carried*.

Main definitions: `Counter`, `Counter.value`, and the sum of counters, which does not depend on
their order (`Counter.add_assoc`, `Counter.add_comm`).
-/

set_option autoImplicit false
set_option relaxedAutoImplicit false

namespace CompositeSorts

/-- A word of 32 bits, and whether an addition has left that range. -/
structure Counter where
  word : UInt32
  carried : Bool := false
deriving DecidableEq, Repr

namespace Counter

/-- The number that a counter stands at. -/
def value (n : Counter) : Nat := n.word.toNat

/-- A number is cut to 32 bits. -/
instance : NatCast Counter := ⟨fun n ↦ ⟨.ofNat n, false⟩⟩

instance (n : Nat) : OfNat Counter n := ⟨n⟩

instance : Coe Counter Nat := ⟨value⟩

/-- Adds two counters. -/
def add (a b : Counter) : Counter where
  word := a.word + b.word
  carried := a.carried || b.carried || UInt32.size ≤ a.value + b.value

instance : Add Counter := ⟨add⟩

/-- The counter that stands higher; it has carried if one of the two has. -/
instance : Max Counter := ⟨fun a b ↦ ⟨max a.word b.word, a.carried || b.carried⟩⟩

/-- The word by itself. -/
def plain (n : Counter) : Counter := ⟨n.word, false⟩

theorem value_lt (n : Counter) : n.value < UInt32.size := n.word.toNat_lt

theorem ext_value {a b : Counter} (value : a.value = b.value) (carried : a.carried = b.carried) :
    a = b := by
  obtain ⟨word, flag⟩ := a
  obtain ⟨word', flag'⟩ := b
  obtain rfl : word = word' := UInt32.toNat_inj.mp value
  obtain rfl : flag = flag' := carried
  rfl

@[simp]
theorem value_natCast (n : Nat) : (n : Counter).value = n % UInt32.size := UInt32.toNat_ofNat'

@[simp]
theorem natCast_zero : ((0 : Nat) : Counter) = 0 := rfl

@[simp]
theorem value_zero : (0 : Counter).value = 0 := rfl

/-- The value of a counter tells its word. -/
theorem natCast_value (n : Counter) : ((n.value : Nat) : Counter) = n.plain :=
  ext_value ((value_natCast _).trans (Nat.mod_eq_of_lt n.value_lt)) rfl

theorem value_add_eq_mod (a b : Counter) : (a + b).value = (a.value + b.value) % UInt32.size :=
  UInt32.toNat_add ..

theorem carried_add_iff {a b : Counter} : (a + b).carried = true ↔
    a.carried = true ∨ b.carried = true ∨ UInt32.size ≤ a.value + b.value := by
  change (a.carried || b.carried || decide (UInt32.size ≤ a.value + b.value)) = true ↔ _
  simp only [Bool.or_eq_true, decide_eq_true_eq, or_assoc]

theorem add_comm (a b : Counter) : a + b = b + a := by
  refine ext_value ?_ (Bool.eq_iff_iff.mpr ?_)
  · rw [value_add_eq_mod, value_add_eq_mod, Nat.add_comm]
  · rw [carried_add_iff, carried_add_iff, Nat.add_comm, or_left_comm]

/-- Whether something carries does not depend on the order of the additions, for the sum of all is
out of range if one of them is. -/
theorem add_assoc (a b c : Counter) : a + b + c = a + (b + c) := by
  refine ext_value ?_ (Bool.eq_iff_iff.mpr ?_)
  · simp only [value_add_eq_mod, Nat.mod_add_mod, Nat.add_mod_mod, Nat.add_assoc]
  · have ofA := a.value_lt
    have ofB := b.value_lt
    have ofC := c.value_lt
    simp only [carried_add_iff, value_add_eq_mod, UInt32.size] at ofA ofB ofC ⊢
    have leaves : (4294967296 ≤ a.value + b.value ∨
          4294967296 ≤ (a.value + b.value) % 4294967296 + c.value) ↔
        (4294967296 ≤ b.value + c.value ∨
          4294967296 ≤ a.value + (b.value + c.value) % 4294967296) := by omega
    grind

theorem add_right_comm (a b c : Counter) : a + b + c = a + c + b := by
  rw [add_assoc, add_comm b, ← add_assoc]

@[simp]
theorem add_zero (n : Counter) : n + 0 = n := by
  refine ext_value ?_ (Bool.eq_iff_iff.mpr ?_)
  · rw [value_add_eq_mod, value_zero, Nat.add_zero, Nat.mod_eq_of_lt n.value_lt]
  · have := n.value_lt
    rw [carried_add_iff, value_zero, Nat.add_zero]
    exact ⟨fun h ↦ h.resolve_right (by rintro (⟨⟨⟩⟩ | le); omega), .inl⟩

@[simp]
theorem zero_add (n : Counter) : 0 + n = n := (add_comm 0 n).trans n.add_zero

end Counter

end CompositeSorts
