import Mathlib
import Caladan.Lib.Serial

/-!
# Wrapping comparisons of 32-bit sequence numbers (`base/stddef.h`)

`wraps_lt(a, b)` is `(int32_t)(a - b) < 0`: `a` comes before `b` when the distance from `a` up to
`b` is in `(0, 2^31]`. The four comparisons are stated here with the spec each one has on words
(`wrapsLt_iff` and its siblings) and the facts about them that the TCP proofs use.
-/

namespace Caladan

/-- `wraps_lt` -/
def wrapsLt (a b : UInt32) : Bool := (a - b).toInt32 < 0

/-- `wraps_lte` -/
def wrapsLte (a b : UInt32) : Bool := (a - b).toInt32 ≤ 0

/-- `wraps_gt` -/
def wrapsGt (a b : UInt32) : Bool := (b - a).toInt32 < 0

/-- `wraps_gte` -/
def wrapsGte (a b : UInt32) : Bool := (b - a).toInt32 ≤ 0

section
variable {a b : UInt32}

theorem wrapsGt_eq (a b : UInt32) : wrapsGt a b = wrapsLt b a := rfl

theorem wrapsGte_eq (a b : UInt32) : wrapsGte a b = wrapsLte b a := rfl

theorem wrapsLt_iff : wrapsLt a b = true ↔ 2 ^ 31 ≤ (a - b).toNat := by
  rw [wrapsLt, decide_eq_true_eq, Serial.toInt32_neg_iff]

theorem wrapsLte_iff : wrapsLte a b = true ↔ a = b ∨ 2 ^ 31 ≤ (a - b).toNat := by
  simp only [wrapsLte, decide_eq_true_eq, Serial.toInt32_nonpos_iff]
  have : (a - b).toNat = 0 ↔ a = b := by
    rw [← UInt32.toNat_zero, UInt32.toNat_inj, sub_eq_zero]
  rw [this]

@[simp] theorem wrapsLte_self (a : UInt32) : wrapsLte a a = true := by
  simp [wrapsLte_iff]

@[simp] theorem wrapsLt_self (a : UInt32) : wrapsLt a a = false := by
  rw [Bool.eq_false_iff, ne_eq, wrapsLt_iff, sub_self]
  simp

theorem wrapsLte_iff_lt_or_eq : wrapsLte a b = true ↔ wrapsLt a b = true ∨ a = b := by
  rw [wrapsLte_iff, wrapsLt_iff, or_comm]

/-- The word `a + d` comes after `a` exactly when `d` is a nonzero distance of at most `2^31`. -/
theorem wrapsLt_add_right (a d : UInt32) :
    wrapsLt a (a + d) = true ↔ d ≠ 0 ∧ d.toNat ≤ 2 ^ 31 := by
  have hd0 : d ≠ 0 ↔ d.toNat ≠ 0 := by rw [ne_eq, ne_eq, ← UInt32.toNat_inj, UInt32.toNat_zero]
  rw [wrapsLt_iff, sub_add_cancel_left, UInt32.toNat_neg, hd0]
  have := d.toNat_lt
  simp only [UInt32.size] at *
  rcases Nat.eq_zero_or_pos d.toNat with h | h
  · simp [h]
  · rw [Nat.mod_eq_of_lt (by omega)]
    omega

/-- `wraps_lt` of two words `x + a` and `x + b` depends only on `a - b`. -/
theorem wrapsLt_add_add (x a b : UInt32) : wrapsLt (x + a) (x + b) = wrapsLt a b := by
  simp only [wrapsLt, add_sub_add_left_eq_sub]

/-- A word not after `b` is at most `b`. The converse fails at distance `2^31`, where each word
is after the other. -/
theorem wrapsLte_of_not_wrapsGt (h : wrapsGt a b = false) : wrapsLte a b = true := by
  rw [wrapsGt_eq, Bool.eq_false_iff, ne_eq, wrapsLt_iff, Nat.not_le, UInt32.toNat_sub] at h
  rw [wrapsLte_iff, UInt32.toNat_sub]
  have := a.toNat_lt
  have := b.toNat_lt
  by_cases hab : a = b
  · exact .inl hab
  · have : a.toNat ≠ b.toNat := fun h => hab (UInt32.toNat_inj.mp h)
    right
    omega

end

end Caladan
