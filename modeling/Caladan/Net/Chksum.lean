import Mathlib
import Caladan.Lib.OnesComplement

/-!
# Internet checksums (`inc/asm/chksum.h`, `inc/net/chksum.h`)

`chksum_internet` is x86-64 assembly. An `adcq` loop adds the buffer's 8-byte words with the
carry flag kept from round to round (`decl` leaves it alone), and an `adcq $0` adds the last
carry. Then a 4-, a 2- and a 1-byte tail, each chosen by a bit of `len`, are added by `addq` and
`adcq $0`. The 64-bit sum is folded to 32 bits (`addl`, `adcl $0`) and to 16 bits (`addw`,
`adcw $0`) and complemented; the result is its low 16 bits. Loads are little-endian, and `len` is
the buffer's length, a nonnegative `int`.

`__raw_cksum` is DPDK's C routine. It keeps a 32-bit sum of the buffer's 16-bit words, four
words a round and then one word a round, and adds an odd last byte alone.
`__raw_cksum_reduce` adds the 16-bit halves twice.

Both compute the RFC 1071 sum (`OnesComplement.wordSum` under `norm 16`). The assembly does so
for every buffer, and the C routine for buffers below `2 ^ 17` bytes, where its 32-bit sum
cannot wrap.
-/

namespace Caladan

open OnesComplement

/-! ## `chksum_internet` -/

/-- The `k` bytes at the start of `buf`, read little-endian into a 64-bit register (`adcq (%1)`,
`movl (%1), %edx`, `movzxw (%1), %rdx`, `movzxb (%1), %rdx`). -/
def loadLe (buf : List UInt8) (k : ℕ) : BitVec 64 := BitVec.ofNat 64 (leNat (buf.take k))

/-- The loop at `1:`: `n` rounds of `adcq (%1), %0` and `leaq 8(%1), %1`. -/
def chksumInternetLoop : ℕ → List UInt8 → BitVec 64 × Bool → BitVec 64 × Bool
  | 0, _, acc => acc
  | n + 1, buf, acc => chksumInternetLoop n (buf.drop 8) (adc acc.1 (loadLe buf 8) acc.2)

/-- The tail at `2:`, `3:` and `4:`: 4, 2 and 1 more bytes, each added when `test` finds its bit
of `len` set. -/
def chksumInternetTail (len : ℕ) (sum : BitVec 64) (buf : List UInt8) : BitVec 64 :=
  let (sum, buf) :=
    if len &&& 4 = 0 then (sum, buf) else (addAdc sum (loadLe buf 4), buf.drop 4)
  let (sum, buf) :=
    if len &&& 2 = 0 then (sum, buf) else (addAdc sum (loadLe buf 2), buf.drop 2)
  if len &&& 1 = 0 then sum else addAdc sum (loadLe buf 1)

/-- The fold at `5:`: the two 32-bit halves added (`shrq $32`, `addl`, `adcl $0`), the two
16-bit halves of that added (`shrl $16`, `addw`, `adcw $0`), and `not`; the low 16 bits. -/
def chksumInternetFold (sum : BitVec 64) : BitVec 16 :=
  let s := addAdc ((sum >>> 32).setWidth 32) (sum.setWidth 32)
  ~~~addAdc ((s >>> 16).setWidth 16) (s.setWidth 16)

/-- `chksum_internet(buf, len)` with `len` the length of `buf`. With no 8-byte word (`jz 2f`)
the sum is the `0` of `xorq`. -/
def chksumInternet (buf : List UInt8) : UInt16 :=
  let len := buf.length
  let n := len >>> 3
  let sum : BitVec 64 :=
    if n = 0 then 0
    else (adc (chksumInternetLoop n buf (0, false)).1 0 (chksumInternetLoop n buf (0, false)).2).1
  ⟨chksumInternetFold (chksumInternetTail len sum (buf.drop (8 * n)))⟩

/-! ## `raw_cksum` -/

/-- `*u16`: the 16-bit word at two bytes, little-endian, added into the 32-bit sum. -/
def u16Le (b0 b1 : UInt8) : UInt32 := UInt32.ofNat (leNat [b0, b1])

/-- The second loop of `__raw_cksum`, one word a round, and the odd last byte. -/
def rawCksumTail : List UInt8 → UInt32 → UInt32
  | b0 :: b1 :: bs, sum => rawCksumTail bs (sum + u16Le b0 b1)
  | [b], sum => sum + b.toUInt32
  | [], sum => sum

/-- `__raw_cksum`: the first loop adds four words a round while eight bytes are left. -/
def rawCksumWords : List UInt8 → UInt32 → UInt32
  | b0 :: b1 :: b2 :: b3 :: b4 :: b5 :: b6 :: b7 :: bs, sum =>
    rawCksumWords bs (sum + u16Le b0 b1 + u16Le b2 b3 + u16Le b4 b5 + u16Le b6 b7)
  | bs, sum => rawCksumTail bs sum

/-- `__raw_cksum_reduce` -/
def rawCksumReduce (sum : UInt32) : UInt16 :=
  let sum := ((sum &&& 0xffff0000) >>> 16) + (sum &&& 0xffff)
  let sum := ((sum &&& 0xffff0000) >>> 16) + (sum &&& 0xffff)
  sum.toUInt16

/-- `raw_cksum` -/
def rawCksum (buf : List UInt8) : UInt16 := rawCksumReduce (rawCksumWords buf 0)

/-! ## The assembly computes the RFC 1071 sum -/

section Asm

theorem toNat_loadLe (buf : List UInt8) {k : ℕ} (hk : k ≤ 8) :
    (loadLe buf k).toNat = leNat (buf.take k) := by
  have hlt := leNat_lt (buf.take k)
  have hle : 8 * (buf.take k).length ≤ 64 := by
    rw [List.length_take]
    omega
  rw [loadLe, BitVec.toNat_ofNat, Nat.mod_eq_of_lt (lt_of_lt_of_le hlt (Nat.pow_le_pow_right
    (by decide) hle))]

/-- After `n` rounds, with the carry counted in, the register holds the 64-bit sum of the first
`8 * n` bytes. -/
theorem chksumInternetLoop_norm {A : ℕ} :
    ∀ (n : ℕ) (buf : List UInt8) {acc : BitVec 64 × Bool}, 8 * n ≤ buf.length →
      acc.1.toNat + acc.2.toNat = norm 64 A →
      (chksumInternetLoop n buf acc).1.toNat + (chksumInternetLoop n buf acc).2.toNat =
        norm 64 (A + leNat (buf.take (8 * n)))
  | 0, _, _, _, h => by simpa [chksumInternetLoop] using h
  | n + 1, buf, acc, hn, h => by
    have hstep := adc_norm (by decide) h (loadLe buf 8)
    rw [toNat_loadLe buf le_rfl] at hstep
    have ih := chksumInternetLoop_norm (A := A + leNat (buf.take 8)) n (buf.drop 8)
      (by rw [List.length_drop]; omega) hstep
    rw [chksumInternetLoop, ih, show 8 * (n + 1) = 8 + 8 * n by ring, List.take_add, leNat_append,
      List.length_take_of_le (by omega), ← Nat.add_assoc]
    exact (norm_add_two_pow_mul (by decide) 1).symm

theorem land_two_pow_eq_zero_iff (n i : ℕ) : n &&& 2 ^ i = 0 ↔ n / 2 ^ i % 2 = 0 := by
  rw [Nat.and_two_pow, Nat.testBit_eq_decide_div_mod_eq]
  have hlt := Nat.mod_lt (n / 2 ^ i) (by decide : 0 < 2)
  by_cases h : n / 2 ^ i % 2 = 1
  · simp [h]
  · simp [h]
    omega

/-- One step of the tail, when its bit is set: the sum takes the next `k` bytes. -/
theorem norm_addAdc_loadLe {sum : BitVec 64} {X k : ℕ} (h : sum.toNat = norm 64 X) (hk : k ≤ 8)
    (buf : List UInt8) : (addAdc sum (loadLe buf k)).toNat = norm 64 (X + leNat (buf.take k)) := by
  rw [addAdc_toNat (by decide), h, toNat_loadLe buf hk, norm_norm_add (by decide)]

theorem chksumInternetTail_norm {len : ℕ} {buf : List UInt8} (hlen : buf.length = len % 8)
    {sum : BitVec 64} {X : ℕ} (h : sum.toNat = norm 64 X) :
    norm 16 (chksumInternetTail len sum buf).toNat = norm 16 (X + leNat buf) := by
  have h4 := land_two_pow_eq_zero_iff len 2
  have h2 := land_two_pow_eq_zero_iff len 1
  have h1 := land_two_pow_eq_zero_iff len 0
  simp only [Nat.reducePow, Nat.pow_zero, Nat.div_one] at h4 h2 h1
  -- after each step the sum so far and the bytes left add up to `X + leNat buf`
  obtain ⟨s₁, X₁, b₁, hs₁, hb₁, hX₁, hrun₁⟩ : ∃ s₁ X₁ b₁, s₁.toNat = norm 64 X₁ ∧
      b₁.length = len % 4 ∧ norm 16 (X₁ + leNat b₁) = norm 16 (X + leNat buf) ∧
      (if len &&& 4 = 0 then (sum, buf) else (addAdc sum (loadLe buf 4), buf.drop 4)) = (s₁, b₁) := by
    by_cases hb : len &&& 4 = 0
    · exact ⟨sum, X, buf, h, by omega, rfl, if_pos hb⟩
    · exact ⟨_, _, _, norm_addAdc_loadLe h (by decide) buf, by simp; omega,
        norm_add_leNat_split (by decide) X buf, if_neg hb⟩
  obtain ⟨s₂, X₂, b₂, hs₂, hb₂, hX₂, hrun₂⟩ : ∃ s₂ X₂ b₂, s₂.toNat = norm 64 X₂ ∧
      b₂.length = len % 2 ∧ norm 16 (X₂ + leNat b₂) = norm 16 (X + leNat buf) ∧
      (if len &&& 2 = 0 then (s₁, b₁) else (addAdc s₁ (loadLe b₁ 2), b₁.drop 2)) = (s₂, b₂) := by
    by_cases hb : len &&& 2 = 0
    · exact ⟨s₁, X₁, b₁, hs₁, by omega, hX₁, if_pos hb⟩
    · exact ⟨_, _, _, norm_addAdc_loadLe hs₁ (by decide) b₁, by simp; omega,
        (norm_add_leNat_split (by decide) X₁ b₁).trans hX₁, if_neg hb⟩
  simp only [chksumInternetTail, hrun₁, hrun₂]
  rw [← hX₂]
  by_cases hb : len &&& 1 = 0
  · rw [if_pos hb, hs₂, norm_norm_of_dvd (by decide) (by decide),
      List.length_eq_zero_iff.1 (by omega : b₂.length = 0), leNat_nil, Nat.add_zero]
  · rw [if_neg hb, norm_addAdc_loadLe hs₂ (by decide) b₂, norm_norm_of_dvd (by decide) (by decide),
      List.take_of_length_le (by omega)]

theorem toNat_chksumInternetFold (sum : BitVec 64) :
    (chksumInternetFold sum).toNat = 2 ^ 16 - 1 - norm 16 sum.toNat := by
  have hsum := sum.isLt
  have hhi : ((sum >>> 32).setWidth 32).toNat = sum.toNat / 2 ^ 32 := by
    rw [BitVec.toNat_setWidth, BitVec.toNat_ushiftRight, Nat.shiftRight_eq_div_pow,
      Nat.mod_eq_of_lt (by omega)]
  have h32 : (addAdc ((sum >>> 32).setWidth 32) (sum.setWidth 32)).toNat = norm 32 sum.toNat := by
    rw [addAdc_toNat (by decide), hhi, BitVec.toNat_setWidth, norm_div_add_mod (by decide)]
  set s := addAdc ((sum >>> 32).setWidth 32) (sum.setWidth 32)
  have hs := s.isLt
  have hhi16 : ((s >>> 16).setWidth 16).toNat = s.toNat / 2 ^ 16 := by
    rw [BitVec.toNat_setWidth, BitVec.toNat_ushiftRight, Nat.shiftRight_eq_div_pow,
      Nat.mod_eq_of_lt (by omega)]
  rw [chksumInternetFold, BitVec.toNat_not, addAdc_toNat (by decide), hhi16, BitVec.toNat_setWidth,
    norm_div_add_mod (by decide), h32, norm_norm_of_dvd (by decide) (by decide)]

/-- `chksum_internet` returns the complement of the ones' complement sum of the buffer read as
one little-endian number. -/
theorem toNat_chksumInternet_leNat (buf : List UInt8) :
    (chksumInternet buf).toNat = 2 ^ 16 - 1 - norm 16 (leNat buf) := by
  set n := buf.length >>> 3 with hn
  have hn8 : n = buf.length / 8 := Nat.shiftRight_eq_div_pow _ 3
  have hsum : (if n = 0 then (0 : BitVec 64)
      else (adc (chksumInternetLoop n buf (0, false)).1 0
        (chksumInternetLoop n buf (0, false)).2).1).toNat = norm 64 (leNat (buf.take (8 * n))) := by
    split_ifs with h0
    · simp [h0]
    · have hloop := @chksumInternetLoop_norm 0 n buf (0, false) (by omega) rfl
      rw [Nat.zero_add] at hloop
      rw [adc_zero_toNat (by rw [hloop]; exact norm_le (by decide)), hloop]
  have htail := @chksumInternetTail_norm buf.length (buf.drop (8 * n))
    (by rw [List.length_drop]; omega) _ _ hsum
  simp only [chksumInternet, UInt16.toNat, ← hn]
  rw [toNat_chksumInternetFold, htail, ← norm_leNat_split (Dvd.intro (4 * n) (by ring))]

/-- `chksum_internet` computes the internet checksum of RFC 1071: the complement of the ones'
complement sum of the buffer's 16-bit little-endian words. -/
theorem toNat_chksumInternet (buf : List UInt8) :
    (chksumInternet buf).toNat = 2 ^ 16 - 1 - norm 16 (wordSum buf) := by
  rw [toNat_chksumInternet_leNat, norm_leNat_eq_wordSum]

end Asm

/-! ## The C routine computes the same sum below `2 ^ 17` bytes -/

section C

theorem toNat_u16Le (b0 b1 : UInt8) : (u16Le b0 b1).toNat = leNat [b0, b1] := by
  have h := leNat_lt [b0, b1]
  simp only [List.length_cons, List.length_nil] at h
  rw [u16Le, UInt32.toNat_ofNat', Nat.mod_eq_of_lt (by omega)]

theorem toNat_rawCksumTail (bs : List UInt8) {sum : UInt32} (h : sum.toNat + wordSum bs < 2 ^ 32) :
    (rawCksumTail bs sum).toNat = sum.toNat + wordSum bs := by
  induction bs, sum using rawCksumTail.induct with
  | case1 b0 b1 bs sum ih =>
    rw [wordSum] at h
    have hadd : (sum + u16Le b0 b1).toNat = sum.toNat + leNat [b0, b1] := by
      rw [UInt32.toNat_add, toNat_u16Le, Nat.mod_eq_of_lt (by omega)]
    rw [rawCksumTail, ih (by omega), hadd, wordSum, Nat.add_assoc]
  | case2 b sum =>
    rw [wordSum] at h
    rw [rawCksumTail, UInt32.toNat_add, UInt8.toNat_toUInt32, Nat.mod_eq_of_lt (by omega), wordSum]
  | case3 sum => simp [rawCksumTail, wordSum]

theorem toNat_rawCksumWords (bs : List UInt8) {sum : UInt32}
    (h : sum.toNat + wordSum bs < 2 ^ 32) :
    (rawCksumWords bs sum).toNat = sum.toNat + wordSum bs := by
  induction bs, sum using rawCksumWords.induct with
  | case1 b0 b1 b2 b3 b4 b5 b6 b7 bs sum ih =>
    simp only [wordSum] at h ⊢
    have h01 := toNat_u16Le b0 b1
    have h23 := toNat_u16Le b2 b3
    have h45 := toNat_u16Le b4 b5
    have h67 := toNat_u16Le b6 b7
    have hadd : (sum + u16Le b0 b1 + u16Le b2 b3 + u16Le b4 b5 + u16Le b6 b7).toNat =
        sum.toNat + leNat [b0, b1] + leNat [b2, b3] + leNat [b4, b5] + leNat [b6, b7] := by
      simp only [UInt32.toNat_add, h01, h23, h45, h67]
      repeat rw [Nat.mod_eq_of_lt (by omega)]
    rw [rawCksumWords, ih (by omega), hadd]
    ring
  | case2 bs sum hbs =>
    rw [rawCksumWords.eq_2 _ _ hbs, toNat_rawCksumTail bs h]

theorem hi16_eq_div {x : ℕ} (hx : x < 2 ^ 32) : (x &&& 0xffff0000) >>> 16 = x / 2 ^ 16 := by
  apply Nat.eq_of_testBit_eq
  intro i
  rw [show (0xffff0000 : ℕ) = (2 ^ 16 - 1) * 2 ^ 16 from rfl, Nat.testBit_shiftRight,
    Nat.testBit_and, Nat.testBit_mul_two_pow, Nat.testBit_div_two_pow, Nat.add_sub_cancel_left,
    Nat.testBit_two_pow_sub_one, Nat.add_comm]
  by_cases hi : i < 16
  · simp [hi]
  · have : x.testBit (i + 16) = false :=
      Nat.testBit_lt_two_pow (lt_of_lt_of_le hx (Nat.pow_le_pow_right (by decide) (by omega)))
    simp [hi, this]

/-- One half-adding round of `__raw_cksum_reduce`. -/
theorem toNat_halves (sum : UInt32) :
    (((sum &&& 0xffff0000) >>> 16) + (sum &&& 0xffff)).toNat =
      sum.toNat / 2 ^ 16 + sum.toNat % 2 ^ 16 := by
  have hs := sum.toNat_lt
  have hhi : ((sum &&& 0xffff0000) >>> 16).toNat = sum.toNat / 2 ^ 16 := by
    rw [UInt32.toNat_shiftRight, UInt32.toNat_and, ← hi16_eq_div hs]
    rfl
  have hlo : (sum &&& 0xffff).toNat = sum.toNat % 2 ^ 16 := by
    rw [UInt32.toNat_and, show (0xffff : UInt32).toNat = 2 ^ 16 - 1 from rfl,
      Nat.and_two_pow_sub_one_eq_mod]
  rw [UInt32.toNat_add, hhi, hlo, Nat.mod_eq_of_lt (by omega)]

theorem toNat_rawCksumReduce (sum : UInt32) : (rawCksumReduce sum).toNat = norm 16 sum.toNat := by
  have hs := sum.toNat_lt
  simp only [rawCksumReduce, UInt32.toNat_toUInt16, toNat_halves]
  set s₁ := sum.toNat / 2 ^ 16 + sum.toNat % 2 ^ 16
  have hle : s₁ / 2 ^ 16 + s₁ % 2 ^ 16 ≤ 2 ^ 16 - 1 := by omega
  rw [Nat.mod_eq_of_lt (by omega), ← norm_of_le hle, norm_div_add_mod (by decide),
    norm_div_add_mod (by decide)]

/-- `raw_cksum` returns the ones' complement sum of the buffer's 16-bit words while its 32-bit
sum cannot wrap. -/
theorem toNat_rawCksum {buf : List UInt8} (hlen : buf.length < 2 ^ 17) :
    (rawCksum buf).toNat = norm 16 (wordSum buf) := by
  have hle := wordSum_le buf
  rw [rawCksum, toNat_rawCksumReduce, toNat_rawCksumWords buf (by simp; omega)]
  simp

/-- Below `2 ^ 17` bytes `raw_cksum` returns the ones' complement sum of the buffer's 16-bit words,
and the assembly `chksum_internet` returns its complement. -/
theorem rawCksum_spec {buf : List UInt8} (hlen : buf.length < 2 ^ 17) :
    (rawCksum buf).toNat = norm 16 (wordSum buf) ∧ chksumInternet buf = ~~~rawCksum buf := by
  refine ⟨toNat_rawCksum hlen, UInt16.toNat_inj.1 ?_⟩
  rw [toNat_chksumInternet_leNat, norm_leNat_eq_wordSum, UInt16.toNat_not, toNat_rawCksum hlen]
  rfl

theorem rawCksum_spec_odd :
    ([0x45, 0x00, 0x1c] : List UInt8).length < 2 ^ 17 ∧
      (rawCksum [0x45, 0x00, 0x1c]).toNat = norm 16 (wordSum [0x45, 0x00, 0x1c]) ∧
      chksumInternet [0x45, 0x00, 0x1c] = ~~~rawCksum [0x45, 0x00, 0x1c] :=
  ⟨by decide, rawCksum_spec (by decide)⟩

end C

end Caladan
