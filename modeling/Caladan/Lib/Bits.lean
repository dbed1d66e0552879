import Mathlib

/-!
# Leading zeros of machine words

`BitVec.clz` of a nonzero word of `w` bits is `w - 1 - log2`, read off the two bounds the core
library gives for it; a size class computed from `__builtin_clzl` is then a statement about
`Nat.log2`.
-/

namespace Bits

variable {w : Nat}

/-- Setting the top bit of a word of `n + 1` bits adds `2 ^ n` to its low bits. -/
theorem or_two_pow_of_lt {x n : Nat} (hx : x < 2 ^ (n + 1)) :
    x ||| 2 ^ n = 2 ^ n + x % 2 ^ n := by
  rw [show 2 ^ n + x % 2 ^ n = 2 ^ n * 1 + x % 2 ^ n by rw [mul_one],
    Nat.two_pow_add_eq_or_of_lt (Nat.mod_lt _ (by positivity)), mul_one]
  apply Nat.eq_of_testBit_eq
  intro i
  simp only [Nat.testBit_or, Nat.testBit_mod_two_pow, Nat.testBit_two_pow]
  rcases lt_trichotomy i n with h | rfl | h
  · simp [h, h.ne']
  · simp
  · have hx' : x.testBit i = false :=
      Nat.testBit_eq_false_of_lt (lt_of_lt_of_le hx (Nat.pow_le_pow_right (by norm_num) h))
    simp [hx', h.ne, Nat.not_lt.mpr h.le]

/-- The top bit of a word of `n + 1` bits is clear exactly below `2 ^ n`. -/
theorem and_two_pow_eq_zero_iff {x n : Nat} (hx : x < 2 ^ (n + 1)) :
    x &&& 2 ^ n = 0 ↔ x < 2 ^ n := by
  rw [Nat.and_two_pow]
  refine ⟨fun h => Nat.lt_of_not_le fun hle => ?_, fun h => by simp [Nat.testBit_lt_two_pow h]⟩
  obtain ⟨a, rfl⟩ := Nat.exists_eq_add_of_le hle
  have ha : a < 2 ^ n := by
    rw [Nat.pow_succ] at hx
    omega
  rw [Nat.testBit_two_pow_add_eq, Nat.testBit_lt_two_pow ha] at h
  simp at h

end Bits
