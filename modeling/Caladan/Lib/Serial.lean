import Mathlib

/-!
# Free-running 32-bit counters

Sequence numbers, ring positions and generation counters in systems code are `uint32_t` words
that count up forever and wrap at `2^32`. A model keeps such a word as it is and relates it to the
unbounded count it stands for: the word is `UInt32.ofNat n`.

Two facts carry the proofs about such counters. A difference of two counters that are less than
`2^32` apart is exact (`toNat_ofNat_sub_ofNat`), and the signed reading of a word, `(int32_t)x`,
is negative exactly when its top bit is set (`toInt32_neg_iff`). Everything here is about
`UInt32` and `Nat` only.
-/

namespace Serial

/-- The difference of two counters less than `2^32` apart is their exact difference. -/
theorem toNat_ofNat_sub_ofNat {a b : Nat} (h : b ≤ a) (h' : a - b < 2 ^ 32) :
    (UInt32.ofNat a - UInt32.ofNat b).toNat = a - b := by
  rw [← UInt32.ofNat_sub h, UInt32.toNat_ofNat', Nat.mod_eq_of_lt h']

/-- The signed reading of a word is negative exactly when its top bit is set. -/
theorem toInt32_neg_iff (x : UInt32) : x.toInt32 < 0 ↔ 2 ^ 31 ≤ x.toNat := by
  rw [Int32.lt_iff_toInt_lt, ← Int32.toInt_toBitVec, UInt32.toBitVec_toInt32, Int32.toInt_zero,
    BitVec.toInt_neg_iff]
  simp only [UInt32.toNat_toBitVec]
  omega

/-- The signed reading of a word is at most zero exactly when the word is zero or negative. -/
theorem toInt32_nonpos_iff (x : UInt32) : x.toInt32 ≤ 0 ↔ x.toNat = 0 ∨ 2 ^ 31 ≤ x.toNat := by
  rw [Int32.le_iff_toInt_le, ← Int32.toInt_toBitVec, UInt32.toBitVec_toInt32, Int32.toInt_zero,
    BitVec.toInt_eq_toNat_cond]
  simp only [UInt32.toNat_toBitVec]
  have := x.toNat_lt
  split <;> omega

end Serial
