import Mathlib

/-!
# Ones' complement sums

The `w`-bit ones' complement sum of some numbers (RFC 1071 for `w = 16`) is their sum modulo
`2 ^ w - 1`, except that a nonzero sum that is a multiple of `2 ^ w - 1` is written `2 ^ w - 1`
and not `0`: `norm w n` is that representative of `n`. Adders compute it with add-with-carry
(`adc`), adding the last carry back in (`eac`, the end-around carry), and reduce a wide sum to a
narrower width by adding its halves. The sum of the 16-bit little-endian words of a byte string
is `wordSum`; its `norm 16` is that of the string read as one little-endian number (`leNat`).
-/

namespace OnesComplement

/-- The `w`-bit ones' complement representative of `n`: `0` for `0`, else the residue of `n`
modulo `2 ^ w - 1` taken in `1 .. 2 ^ w - 1`. -/
def norm (w n : ℕ) : ℕ := if n = 0 then 0 else (n - 1) % (2 ^ w - 1) + 1

/-- Addition of two `w`-bit words with the end-around carry. -/
def eac (w a b : ℕ) : ℕ := if a + b < 2 ^ w then a + b else a + b - (2 ^ w - 1)

/-- Add-with-carry on `w`-bit words: the sum with the carry in, and the carry out. -/
def adc {w : ℕ} (x y : BitVec w) (c : Bool) : BitVec w × Bool :=
  (BitVec.ofNat w (x.toNat + y.toNat + c.toNat), 2 ^ w ≤ x.toNat + y.toNat + c.toNat)

/-- An add and an `adc $0` of its carry: addition with the end-around carry in a register. -/
def addAdc {w : ℕ} (x y : BitVec w) : BitVec w :=
  (adc (adc x y false).1 0 (adc x y false).2).1

/-- A byte string read as a little-endian number. -/
def leNat (bs : List UInt8) : ℕ := bs.foldr (fun b acc => b.toNat + 2 ^ 8 * acc) 0

/-- The sum of the 16-bit little-endian words of a byte string, an odd last byte on its own. -/
def wordSum : List UInt8 → ℕ
  | b0 :: b1 :: bs => leNat [b0, b1] + wordSum bs
  | [b] => b.toNat
  | [] => 0

variable {w a b n : ℕ}

/-! ## The representative -/

section Norm

theorem two_pow_sub_one_pos (hw : 0 < w) : 0 < 2 ^ w - 1 := by
  have := Nat.one_lt_two_pow hw.ne'
  omega

@[simp]
theorem norm_zero : norm w 0 = 0 := rfl

theorem norm_eq_zero_iff : norm w n = 0 ↔ n = 0 := by
  unfold norm
  split_ifs with h <;> simp [h]

theorem norm_le (hw : 0 < w) : norm w n ≤ 2 ^ w - 1 := by
  have hm := Nat.mod_lt (n - 1) (two_pow_sub_one_pos hw)
  unfold norm
  split_ifs <;> omega

theorem norm_mod (w n : ℕ) : norm w n % (2 ^ w - 1) = n % (2 ^ w - 1) := by
  unfold norm
  split_ifs with h
  · rw [h]
  · rw [Nat.add_mod, Nat.mod_mod, ← Nat.add_mod, Nat.sub_add_cancel (Nat.one_le_iff_ne_zero.2 h)]

theorem norm_of_le (hn : n ≤ 2 ^ w - 1) : norm w n = n := by
  unfold norm
  split_ifs with h
  · exact h.symm
  · rw [Nat.mod_eq_of_lt (by omega)]
    omega

/-- `norm w n` is the only number up to `2 ^ w - 1` with the residue of `n` that is `0` only
for `n = 0`. -/
theorem eq_norm {r : ℕ} (hz : r = 0 ↔ n = 0) (hle : r ≤ 2 ^ w - 1)
    (hm : r % (2 ^ w - 1) = n % (2 ^ w - 1)) : r = norm w n := by
  unfold norm
  split_ifs with hn
  · exact hz.2 hn
  · have hr : r ≠ 0 := fun h => hn (hz.1 h)
    have hmod : (r - 1) % (2 ^ w - 1) = (n - 1) % (2 ^ w - 1) := by
      refine Nat.ModEq.add_right_cancel' 1 ?_
      rwa [Nat.ModEq, Nat.sub_add_cancel (Nat.one_le_iff_ne_zero.2 hr),
        Nat.sub_add_cancel (Nat.one_le_iff_ne_zero.2 hn)]
    rw [← hmod, Nat.mod_eq_of_lt (by omega)]
    omega

theorem norm_congr (hw : 0 < w) (hz : a = 0 ↔ b = 0) (hm : a % (2 ^ w - 1) = b % (2 ^ w - 1)) :
    norm w a = norm w b :=
  eq_norm (norm_eq_zero_iff.trans hz) (norm_le hw) ((norm_mod w a).trans hm)

theorem norm_norm_add (hw : 0 < w) : norm w (norm w a + b) = norm w (a + b) := by
  refine norm_congr hw ?_ ?_
  · simp [norm_eq_zero_iff]
  · rw [Nat.add_mod, norm_mod, ← Nat.add_mod]

/-- A digit `2 ^ (w * k)` weighs `1` modulo `2 ^ w - 1`. -/
theorem norm_add_two_pow_mul (hw : 0 < w) (k : ℕ) :
    norm w (a + 2 ^ (w * k) * b) = norm w (a + b) := by
  have hk : 2 ^ (w * k) % (2 ^ w - 1) = 1 % (2 ^ w - 1) := by
    have hd : 2 ^ w - 1 ∣ 2 ^ (w * k) - 1 := Nat.pow_sub_one_dvd_pow_sub_one 2 (Dvd.intro k rfl)
    have h1 : 1 ≤ 2 ^ (w * k) := Nat.one_le_two_pow
    exact (Nat.modEq_of_dvd' h1 hd).symm
  refine norm_congr hw ?_ ?_
  · simp
  · rw [Nat.add_mod, Nat.mul_mod, hk, ← Nat.mul_mod, one_mul, ← Nat.add_mod]

/-- Adding the two halves of a number keeps its sum. -/
theorem norm_div_add_mod (hw : 0 < w) (n : ℕ) : norm w (n / 2 ^ w + n % 2 ^ w) = norm w n := by
  have h := norm_add_two_pow_mul (a := n % 2 ^ w) (b := n / 2 ^ w) hw 1
  rw [Nat.mul_one, Nat.mod_add_div] at h
  rw [Nat.add_comm, h]

/-- Narrowing to a width `w` that divides `v` keeps the `w`-bit sum. -/
theorem norm_norm_of_dvd (hw : 0 < w) {v : ℕ} (hd : w ∣ v) : norm w (norm v n) = norm w n := by
  refine norm_congr hw norm_eq_zero_iff ?_
  exact Nat.ModEq.of_dvd (Nat.pow_sub_one_dvd_pow_sub_one 2 hd) (norm_mod v n)

end Norm

/-! ## Adders -/

section Adders

theorem eac_norm (hw : 0 < w) : eac w (norm w a) (norm w b) = norm w (a + b) := by
  have ha := norm_le (n := a) hw
  have hb := norm_le (n := b) hw
  have hpos := two_pow_sub_one_pos hw
  unfold eac
  split_ifs with h
  · refine eq_norm ?_ (by omega) ?_
    · simp [norm_eq_zero_iff]
    · rw [Nat.add_mod, norm_mod, norm_mod, ← Nat.add_mod]
  · refine eq_norm ⟨fun h' => by omega, fun h' => ?_⟩ (by omega) ?_
    · obtain ⟨rfl, rfl⟩ : a = 0 ∧ b = 0 := by omega
      simp at h
    · have hsub : norm w a + norm w b - (2 ^ w - 1) + (2 ^ w - 1) = norm w a + norm w b := by
        omega
      rw [← Nat.add_mod_right, hsub, Nat.add_mod, norm_mod, norm_mod, ← Nat.add_mod]

theorem adc_toNat (x y : BitVec w) (c : Bool) :
    (adc x y c).1.toNat + 2 ^ w * (adc x y c).2.toNat = x.toNat + y.toNat + c.toNat := by
  have hx := x.isLt
  have hy := y.isLt
  have hc : c.toNat ≤ 1 := Bool.toNat_le c
  simp only [adc, BitVec.toNat_ofNat]
  by_cases h : 2 ^ w ≤ x.toNat + y.toNat + c.toNat
  · rw [Nat.mod_eq_sub_mod h, Nat.mod_eq_of_lt (by omega)]
    simp [h]
  · simp [h, Nat.mod_eq_of_lt (not_le.1 h)]

/-- One round of an add-with-carry chain: with the carry counted in, the register holds the
ones' complement sum so far. -/
theorem adc_norm (hw : 0 < w) {x : BitVec w} {c : Bool} {A : ℕ}
    (h : x.toNat + c.toNat = norm w A) (y : BitVec w) :
    (adc x y c).1.toNat + (adc x y c).2.toNat = norm w (A + y.toNat) := by
  have hy := y.isLt
  have hsum := adc_toNat x y c
  have hcarry : (adc x y c).2 = decide (2 ^ w ≤ x.toNat + y.toNat + c.toNat) := rfl
  rw [← eac_norm hw, norm_of_le (by omega : y.toNat ≤ 2 ^ w - 1), ← h]
  unfold eac
  by_cases hov : 2 ^ w ≤ x.toNat + y.toNat + c.toNat
  · simp only [hcarry, hov, decide_true, Bool.toNat_true, mul_one] at hsum ⊢
    rw [if_neg (by omega)]
    omega
  · simp only [hcarry, hov, decide_false, Bool.toNat_false, mul_zero, add_zero] at hsum ⊢
    rw [if_pos (by omega)]
    omega

/-- Adding the last carry in (`adc $0`) does not carry out when the sum fits. -/
theorem adc_zero_toNat {x : BitVec w} {c : Bool} (h : x.toNat + c.toNat ≤ 2 ^ w - 1) :
    (adc x 0 c).1.toNat = x.toNat + c.toNat := by
  have hpos := Nat.two_pow_pos w
  have h0 : (0 : BitVec w).toNat = 0 := BitVec.toNat_zero
  simp only [adc, BitVec.toNat_ofNat, h0, Nat.add_zero]
  exact Nat.mod_eq_of_lt (by omega)

theorem addAdc_toNat (hw : 0 < w) (x y : BitVec w) :
    (addAdc x y).toNat = norm w (x.toNat + y.toNat) := by
  have hn : x.toNat + false.toNat = norm w x.toNat := by
    rw [norm_of_le (by have := x.isLt; omega)]
    rfl
  have hstep := adc_norm hw hn y
  rw [addAdc, adc_zero_toNat (by rw [hstep]; exact norm_le hw), hstep]

end Adders

/-! ## Byte strings -/

section Bytes

@[simp]
theorem leNat_nil : leNat [] = 0 := rfl

@[simp]
theorem leNat_cons (x : UInt8) (bs : List UInt8) : leNat (x :: bs) = x.toNat + 2 ^ 8 * leNat bs :=
  rfl

theorem leNat_append (xs ys : List UInt8) :
    leNat (xs ++ ys) = leNat xs + 2 ^ (8 * xs.length) * leNat ys := by
  induction xs with
  | nil => simp
  | cons x xs ih =>
    rw [List.cons_append, leNat_cons, leNat_cons, ih, List.length_cons, Nat.mul_succ, Nat.pow_add]
    ring

theorem leNat_lt (bs : List UInt8) : leNat bs < 2 ^ (8 * bs.length) := by
  induction bs with
  | nil => simp
  | cons x bs ih =>
    have hx := x.toNat_lt
    rw [leNat_cons, List.length_cons, Nat.mul_succ, Nat.pow_add, Nat.mul_comm (2 ^ _)]
    have : leNat bs + 1 ≤ 2 ^ (8 * bs.length) := ih
    nlinarith

/-- Splitting a string at an even byte keeps its 16-bit sum. -/
theorem norm_leNat_split {k : ℕ} (hk : 2 ∣ k) (bs : List UInt8) :
    norm 16 (leNat bs) = norm 16 (leNat (bs.take k) + leNat (bs.drop k)) := by
  conv_lhs => rw [← List.take_append_drop k bs, leNat_append]
  rcases le_total k bs.length with h | h
  · obtain ⟨j, rfl⟩ := hk
    rw [List.length_take_of_le h, show 8 * (2 * j) = 16 * j by ring]
    exact norm_add_two_pow_mul (by decide) j
  · simp [List.drop_eq_nil_of_le h]

theorem norm_add_leNat_split {k : ℕ} (hk : 2 ∣ k) (X : ℕ) (bs : List UInt8) :
    norm 16 (X + leNat (bs.take k) + leNat (bs.drop k)) = norm 16 (X + leNat bs) := by
  rw [Nat.add_assoc, Nat.add_comm, ← norm_norm_add (by decide), ← norm_leNat_split hk,
    norm_norm_add (by decide), Nat.add_comm]

theorem norm_leNat_eq_wordSum (bs : List UInt8) : norm 16 (leNat bs) = norm 16 (wordSum bs) := by
  induction bs using wordSum.induct with
  | case1 b0 b1 bs ih =>
    have hsplit := norm_leNat_split (k := 2) (dvd_refl 2) (b0 :: b1 :: bs)
    rw [show (b0 :: b1 :: bs).take 2 = [b0, b1] from rfl,
      show (b0 :: b1 :: bs).drop 2 = bs from rfl] at hsplit
    rw [hsplit, wordSum, Nat.add_comm, ← norm_norm_add (by decide), ih, norm_norm_add (by decide),
      Nat.add_comm]
  | case2 b => simp [wordSum]
  | case3 => rfl

theorem wordSum_le (bs : List UInt8) : 2 * wordSum bs ≤ (2 ^ 16 - 1) * (bs.length + 1) := by
  induction bs using wordSum.induct with
  | case1 b0 b1 bs ih =>
    have h := leNat_lt [b0, b1]
    simp only [List.length_cons, List.length_nil] at h ⊢
    rw [wordSum]
    omega
  | case2 b =>
    have := b.toNat_lt
    simp [wordSum]
    omega
  | case3 => simp [wordSum]

end Bytes

end OnesComplement
