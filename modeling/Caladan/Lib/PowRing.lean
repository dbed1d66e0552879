import Mathlib

/-!
# Power-of-two rings addressed by free-running counters

A ring of `2^k` slots is addressed by a 32-bit counter: the slot of count `n` is
`n & (size - 1)`, and `n & size` tells the even laps over the ring from the odd ones. Because
`2^k` divides `2^32`, both survive the wrap of the counter: the slot and the lap bit of the word
`UInt32.ofNat n` are those of `n` itself (`slot_ofNat`, `lap_ofNat`). The size test
`size != 0 && !(size & (size - 1))` accepts exactly the powers of two (`isPow_iff`).
-/

namespace PowRing

/-- The lap of count `n` over a ring of `2^k` slots, as a bit. -/
def lap (k n : Nat) : Nat := n / 2 ^ k % 2

theorem isPow_iff (s : UInt32) : (s ≠ 0 ∧ s &&& (s - 1) = 0) ↔ ∃ k, k < 32 ∧ s.toNat = 2 ^ k := by
  have hlt := s.toNat_lt
  constructor
  · rintro ⟨hs, hand⟩
    have hs' : s.toNat ≠ 0 := fun h => hs (UInt32.toNat_inj.mp (by simpa using h))
    have hsub : (s - 1).toNat = s.toNat - 1 := by
      rw [UInt32.toNat_sub]; simp only [UInt32.toNat_one]; omega
    have hand' : s.toNat &&& (s.toNat - 1) = 0 := by
      rw [← hsub, ← UInt32.toNat_and, hand, UInt32.toNat_zero]
    obtain ⟨k, hk⟩ := (Nat.and_sub_one_eq_zero_iff_isPowerOfTwo hs').mp hand'
    refine ⟨k, ?_, hk⟩
    by_contra hge
    have : 2 ^ 32 ≤ 2 ^ k := Nat.pow_le_pow_right (by decide) (by omega)
    omega
  · rintro ⟨k, hk, hs⟩
    have hpos : 0 < s.toNat := hs ▸ Nat.two_pow_pos k
    refine ⟨fun h => by simp [h] at hpos, ?_⟩
    rw [← UInt32.toNat_inj, UInt32.toNat_and, UInt32.toNat_sub, UInt32.toNat_zero, UInt32.toNat_one,
      show (2 ^ 32 - 1 + s.toNat) % 2 ^ 32 = s.toNat - 1 by omega, hs, Nat.and_two_pow_sub_one_eq_mod,
      Nat.mod_self]

/-- The slot of a counter: `x & (size - 1)` is `x mod size`. -/
theorem and_sub_one_toNat {s : UInt32} {k : Nat} (hs : s.toNat = 2 ^ k) (x : UInt32) :
    (x &&& (s - 1)).toNat = x.toNat % 2 ^ k := by
  have hpos := Nat.two_pow_pos k
  have hsub : (s - 1).toNat = 2 ^ k - 1 := by
    rw [UInt32.toNat_sub, UInt32.toNat_one, hs]
    have := s.toNat_lt
    omega
  rw [UInt32.toNat_and, hsub, Nat.and_two_pow_sub_one_eq_mod]

/-- The lap bit of a counter: `x & size` is nonzero exactly on odd laps. -/
theorem and_ne_zero_iff {s : UInt32} {k : Nat} (hs : s.toNat = 2 ^ k) (x : UInt32) :
    x &&& s ≠ 0 ↔ lap k x.toNat = 1 := by
  rw [ne_eq, ← UInt32.toNat_inj, UInt32.toNat_and, hs, Nat.and_two_pow, UInt32.toNat_zero,
    Nat.testBit_eq_decide_div_mod_eq, lap]
  have := Nat.two_pow_pos k
  by_cases h : x.toNat / 2 ^ k % 2 = 1 <;> simp [h]

theorem slot_ofNat (n : Nat) {k : Nat} (hk : k ≤ 32) : (UInt32.ofNat n).toNat % 2 ^ k = n % 2 ^ k := by
  rw [UInt32.toNat_ofNat', Nat.mod_mod_of_dvd _ (Nat.pow_dvd_pow 2 hk)]

theorem lap_ofNat (n : Nat) {k : Nat} (hk : k < 32) : lap k (UInt32.ofNat n).toNat = lap k n := by
  have h := Nat.testBit_mod_two_pow n 32 k
  simp only [show decide (k < 32) = true by simpa using hk, Bool.true_and] at h
  rw [← UInt32.toNat_ofNat', Nat.testBit_eq_decide_div_mod_eq, Nat.testBit_eq_decide_div_mod_eq] at h
  simp only [decide_eq_decide] at h
  unfold lap
  omega

/-- One count and the count a full ring later share a slot but not a lap. -/
theorem lap_add_ne (k n : Nat) : lap k (n + 2 ^ k) ≠ lap k n := by
  unfold lap
  rw [Nat.add_div_right _ (Nat.two_pow_pos k)]
  omega

/-- Counts that lie within one ring's length of each other sit in different slots. -/
theorem mod_inj_of_window {m a b : Nat} (ha : a < b + m) (hb : b < a + m) (h : a % m = b % m) :
    a = b := by
  have ea := Nat.div_add_mod a m
  have eb := Nat.div_add_mod b m
  rcases Nat.lt_trichotomy (a / m) (b / m) with hq | hq | hq
  · have : m * (a / m) + m ≤ m * (b / m) := by nlinarith
    omega
  · rw [← ea, ← eb, hq, h]
  · have : m * (b / m) + m ≤ m * (a / m) := by nlinarith
    omega

end PowRing
