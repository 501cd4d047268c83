/-!
The integers that a word of a fixed number of bits can hold.
-/

namespace LocaleForge.Word

/-- The number of words of so many bits. -/
def count (bits : Nat) : Nat :=
  Nat.pow 2 bits

/-- An unsigned word holds the number. -/
def holdsUnsigned (bits : Nat) (n : Int) : Bool :=
  0 ≤ n && n < count bits

/-- A signed word holds the number. -/
def holdsSigned (bits : Nat) (n : Int) : Bool :=
  -count (bits - 1) ≤ n && n < count (bits - 1)

/-- The largest number in a signed word. -/
def largest (bits : Nat) : Int :=
  count (bits - 1) - 1

/-- The smallest number in a signed word. -/
def smallest (bits : Nat) : Int :=
  -count (bits - 1)

theorem holdsSigned_largest (bits : Nat) : holdsSigned bits (largest bits) := by
  have : 0 < count (bits - 1) := Nat.pow_pos (by decide)
  rw [holdsSigned, largest, Bool.and_eq_true]
  exact ⟨decide_eq_true (by omega), decide_eq_true (by omega)⟩

theorem holdsSigned_smallest (bits : Nat) : holdsSigned bits (smallest bits) := by
  have : 0 < count (bits - 1) := Nat.pow_pos (by decide)
  rw [holdsSigned, smallest, Bool.and_eq_true]
  exact ⟨decide_eq_true (by omega), decide_eq_true (by omega)⟩

end LocaleForge.Word
