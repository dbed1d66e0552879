import Mathlib

/-!
# Bitmaps (`base/bitmap.c`, `inc/base/bitmap.h`)

A bitmap of `nbits` bits is an array of `BITMAP_LONG_SIZE(nbits)` words of `unsigned long`; bit
`pos` is bit `pos % BITS_PER_LONG` of word `pos / BITS_PER_LONG`. `bitmap_find_next` scans the
words from the one that holds `pos`, the first under a mask of the bits below `pos`, and clamps
the index of the first bit it finds to `nbits`; the `bitmap_for_each_*` loops call it from `-1`
on. The words are `BitVec 64`, `__builtin_ffsl` is one more than `BitVec.ctz` and
`__builtin_popcountl` is `BitVec.cpop`. Bit indices are naturals: the `int` arithmetic of the
search does not overflow for bitmaps below `2 ^ 31 - BITS_PER_LONG` bits.
-/

namespace Caladan.Bitmap

/-- `BITS_PER_LONG` -/
def bitsPerLong : Nat := 64

/-- `BITMAP_LONG_SIZE(nbits)`, that is `div_up(nbits, BITS_PER_LONG)` -/
def bitmapLongSize (nbits : Nat) : Nat := (nbits + bitsPerLong - 1) / bitsPerLong

/-- `bitmap_test` -/
def bitmapTest (bits : List (BitVec 64)) (pos : Nat) : Bool :=
  bits.getD (pos / bitsPerLong) 0 &&& 1#64 <<< (pos % bitsPerLong) != 0

/-- `__builtin_ffsl`: one more than the index of the lowest set bit, `0` for `0`. -/
def ffsl (v : BitVec 64) : Nat := if v = 0 then 0 else v.ctz.toNat + 1

/-- `__builtin_popcountl` -/
def popcountl (v : BitVec 64) : Nat := v.cpop.toNat

/-- The loop of `bitmap_find_next` at bit `idx`, a multiple of `BITS_PER_LONG`: `ws` are the words
from `bits[BITMAP_POS_IDX(idx)]` on. -/
def bitmapFindNextLoop (nbits : Nat) (invert : Bool) :
    List (BitVec 64) → Nat → BitVec 64 → Nat
  | [], _, _ => nbits
  | w :: ws, idx, mask =>
    if idx < nbits then
      let val := (if invert then ~~~w else w) &&& mask
      if val ≠ 0 then min (idx + ffsl val - 1) nbits
      else bitmapFindNextLoop nbits invert ws (idx + bitsPerLong) (~~~0)
    else nbits

/-- `bitmap_find_next`: the loop starts at `align_down(pos, BITS_PER_LONG)`, with a mask that
clears the bits below `pos` in the first word. -/
def bitmapFindNext (bits : List (BitVec 64)) (nbits pos : Nat) (invert : Bool) : Nat :=
  bitmapFindNextLoop nbits invert (bits.drop (pos / bitsPerLong)) (pos / bitsPerLong * bitsPerLong)
    (~~~(1#64 <<< (pos % bitsPerLong) - 1))

/-- `bitmap_find_next_cleared` -/
def bitmapFindNextCleared (bits : List (BitVec 64)) (nbits pos : Nat) : Nat :=
  bitmapFindNext bits nbits pos true

/-- `bitmap_find_next_set` -/
def bitmapFindNextSet (bits : List (BitVec 64)) (nbits pos : Nat) : Nat :=
  bitmapFindNext bits nbits pos false

/-- The positions a `bitmap_for_each_set` loop (`invert = false`) or `bitmap_for_each_cleared`
loop visits once its position is `start - 1`. Each round moves the position up, so `nbits + 1`
rounds (`fuel`) are enough. -/
def bitmapForEachLoop (bits : List (BitVec 64)) (nbits : Nat) (invert : Bool) :
    Nat → Nat → List Nat
  | 0, _ => []
  | fuel + 1, start =>
    let pos := bitmapFindNext bits nbits start invert
    if pos < nbits then pos :: bitmapForEachLoop bits nbits invert fuel (pos + 1) else []

/-- `bitmap_for_each_set`, from `pos = -1` -/
def bitmapForEachSet (bits : List (BitVec 64)) (nbits : Nat) : List Nat :=
  bitmapForEachLoop bits nbits false (nbits + 1) 0

/-- `bitmap_for_each_cleared`, from `pos = -1` -/
def bitmapForEachCleared (bits : List (BitVec 64)) (nbits : Nat) : List Nat :=
  bitmapForEachLoop bits nbits true (nbits + 1) 0

/-- `bitmap_popcount`: the weights of the first `BITMAP_LONG_SIZE(nbits)` words. -/
def bitmapPopcount (bits : List (BitVec 64)) (nbits : Nat) : Nat :=
  (List.range (bitmapLongSize nbits)).foldl (fun val i => val + popcountl (bits.getD i 0)) 0

/-- `bitmap_atomic_set`: `atomic64_fetch_and_or` of the bit into word `BITMAP_POS_IDX(pos)`. -/
def bitmapAtomicSet (bits : List (BitVec 64)) (pos : Nat) : List (BitVec 64) :=
  bits.modify (pos / bitsPerLong) (· ||| 1#64 <<< (pos % bitsPerLong))

/-- `bitmap_atomic_clear`: `atomic64_fetch_and_and` of the complement of the bit. -/
def bitmapAtomicClear (bits : List (BitVec 64)) (pos : Nat) : List (BitVec 64) :=
  bits.modify (pos / bitsPerLong) (· &&& ~~~(1#64 <<< (pos % bitsPerLong)))

/-- `bitmap_init`: every byte of the `BITMAP_LONG_SIZE(nbits)` words is `0xff` or `0`. -/
def bitmapInit (nbits : Nat) (state : Bool) : List (BitVec 64) :=
  List.replicate (bitmapLongSize nbits) (if state then BitVec.allOnes 64 else 0)

/-! ## Words -/

section Word

variable {v : BitVec 64} {s b : Nat}

theorem bitmapTest_eq (bits : List (BitVec 64)) (pos : Nat) :
    bitmapTest bits pos = (bits.getD (pos / bitsPerLong) 0).getLsbD (pos % bitsPerLong) := by
  have hpos : pos % bitsPerLong < 64 := Nat.mod_lt _ (by decide)
  have hne : BitVec.twoPow 64 (pos % bitsPerLong) ≠ 0 := by
    intro h
    have := congrArg BitVec.toNat h
    rw [BitVec.toNat_twoPow, Nat.mod_eq_of_lt (Nat.pow_lt_pow_right (by decide) hpos)] at this
    exact (Nat.two_pow_pos _).ne' this
  rw [bitmapTest, ← BitVec.twoPow, BitVec.and_twoPow]
  split <;> simp_all

/-- The mask of `bitmap_find_next` keeps the bits from `s` up. -/
theorem getLsbD_findMask (hs : s < 64) (hb : b < 64) :
    (~~~(1#64 <<< s - 1)).getLsbD b = decide (s ≤ b) := by
  have hlt : 2 ^ s < 2 ^ 64 := Nat.pow_lt_pow_right (by decide) hs
  have hone : 1 ≤ 2 ^ s := Nat.one_le_two_pow
  have hlow : 1#64 <<< s - 1 = BitVec.ofNat 64 (2 ^ s - 1) := by
    apply BitVec.eq_of_toNat_eq
    rw [BitVec.toNat_sub_of_le (by simp [BitVec.le_def, Nat.shiftLeft_eq]; omega)]
    simp [Nat.shiftLeft_eq]
    omega
  rw [hlow, BitVec.getLsbD_not, BitVec.getLsbD_ofNat, Nat.testBit_two_pow_sub_one]
  by_cases h : s ≤ b
  · simp [hb, h]
  · simp [hb, h]
    omega

theorem ffsl_of_ne_zero (hv : v ≠ 0) : ffsl v = v.ctz.toNat + 1 := if_neg hv

@[simp]
theorem length_bitmapAtomicSet (bits : List (BitVec 64)) (pos : Nat) :
    (bitmapAtomicSet bits pos).length = bits.length :=
  List.length_modify ..

@[simp]
theorem length_bitmapAtomicClear (bits : List (BitVec 64)) (pos : Nat) :
    (bitmapAtomicClear bits pos).length = bits.length :=
  List.length_modify ..

theorem ctz_toNat_lt (hv : v ≠ 0) : v.ctz.toNat < 64 := by
  simpa [BitVec.lt_def] using BitVec.ctz_lt_iff_ne_zero.mpr hv

end Word

/-! ## Search -/

/-- `r` is the least index in `[pos, nbits)` whose bit is `!invert`, or `nbits` if there is
none. -/
structure NextHit (bits : List (BitVec 64)) (nbits : Nat) (invert : Bool) (pos r : Nat) :
    Prop where
  le : pos ≤ r
  le_nbits : r ≤ nbits
  hit : r < nbits → bitmapTest bits r = !invert
  skip : ∀ i, pos ≤ i → i < r → bitmapTest bits i = invert

section Search

variable {bits ws : List (BitVec 64)} {w mask : BitVec 64} {nbits idx lo : Nat} {invert : Bool}

theorem NextHit.of_none {pos : Nat} (hp : pos ≤ nbits)
    (hskip : ∀ i, pos ≤ i → i < nbits → bitmapTest bits i = invert) :
    NextHit bits nbits invert pos nbits :=
  ⟨hp, le_rfl, fun h => absurd h (lt_irrefl _), hskip⟩

theorem NextHit.of_skip {p q r : Nat} (h : NextHit bits nbits invert q r) (hpq : p ≤ q)
    (hskip : ∀ i, p ≤ i → i < q → bitmapTest bits i = invert) :
    NextHit bits nbits invert p r where
  le := hpq.trans h.le
  le_nbits := h.le_nbits
  hit := h.hit
  skip i hi hir := if hiq : i < q then hskip i hi hiq else h.skip i (not_lt.mp hiq) hir

theorem bitmapFindNextLoop_of_le (h : nbits ≤ idx) :
    bitmapFindNextLoop nbits invert ws idx mask = nbits := by
  cases ws <;> simp [bitmapFindNextLoop, not_lt.mpr h]

/-- The bits of the word the loop reads at `idx`. -/
theorem bitmapTest_of_drop (h : bits.drop (idx / bitsPerLong) = w :: ws)
    (hidx : idx % bitsPerLong = 0) {i : Nat} (hi : idx ≤ i) (hi' : i < idx + bitsPerLong) :
    bitmapTest bits i = w.getLsbD (i - idx) := by
  have hw : bits.getD (idx / bitsPerLong) 0 = w := by
    have := congrArg List.head? h
    rw [List.head?_drop] at this
    simp [List.getD_eq_getElem?_getD, this]
  have hdiv : i / bitsPerLong = idx / bitsPerLong := by simp only [bitsPerLong] at *; omega
  have hmod : i % bitsPerLong = i - idx := by simp only [bitsPerLong] at *; omega
  rw [bitmapTest_eq, hdiv, hmod, hw]

theorem getLsbD_findVal (hmask : ∀ b < bitsPerLong, mask.getLsbD b = decide (lo ≤ b))
    {b : Nat} (hb : b < bitsPerLong) :
    ((if invert then ~~~w else w) &&& mask).getLsbD b =
      ((w.getLsbD b != invert) && decide (lo ≤ b)) := by
  have hb' : b < 64 := hb
  rw [BitVec.getLsbD_and, hmask b hb]
  cases invert <;> simp [hb']

theorem getLsbD_allOnes_mask {b : Nat} (hb : b < bitsPerLong) :
    (~~~(0 : BitVec 64)).getLsbD b = decide (0 ≤ b) := by
  have hb' : b < 64 := hb
  rw [BitVec.getLsbD_not]
  simp [hb']

/-- The loop from bit `idx`, with the bits below `idx + lo` of its first word masked. -/
theorem bitmapFindNextLoop_spec (hlen : bitmapLongSize nbits ≤ bits.length) (invert : Bool) :
    ∀ (ws : List (BitVec 64)) (idx lo : Nat) (mask : BitVec 64),
      bits.drop (idx / bitsPerLong) = ws → idx % bitsPerLong = 0 → lo < bitsPerLong →
      (∀ b < bitsPerLong, mask.getLsbD b = decide (lo ≤ b)) → idx + lo ≤ nbits →
      NextHit bits nbits invert (idx + lo) (bitmapFindNextLoop nbits invert ws idx mask)
  | [], idx, lo, mask, hws, hidx, hlo, hmask, hle => by
    -- past the last word, so at `nbits`
    have hend : bits.length ≤ idx / bitsPerLong := List.drop_eq_nil_iff.mp hws
    have hn : nbits ≤ idx := by
      simp only [bitmapLongSize, bitsPerLong] at hlen hend hidx ⊢
      omega
    exact NextHit.of_none hle fun i hi hin => absurd hin (by omega)
  | w :: ws, idx, lo, mask, hws, hidx, hlo, hmask, hle => by
    by_cases hidxn : idx < nbits
    swap
    · rw [bitmapFindNextLoop_of_le (not_lt.mp hidxn)]
      exact NextHit.of_none hle fun i hi hin => absurd hin (by omega)
    have htest := fun i => bitmapTest_of_drop (i := i) hws hidx
    have hval : ∀ b < bitsPerLong, ((if invert then ~~~w else w) &&& mask).getLsbD b =
        ((w.getLsbD b != invert) && decide (lo ≤ b)) := fun b hb => getLsbD_findVal hmask hb
    simp only [bitmapFindNextLoop, if_pos hidxn]
    generalize (if invert then ~~~w else w) &&& mask = val at hval ⊢
    by_cases hv : val ≠ 0
    · -- the first hit of this word, at `idx + ctz val`
      obtain ⟨c, hc⟩ : ∃ c, val.ctz.toNat = c := ⟨_, rfl⟩
      rw [if_pos hv, ffsl_of_ne_zero hv, hc]
      have hc64 : c < bitsPerLong := hc ▸ ctz_toNat_lt hv
      have hbit := BitVec.getLsbD_true_ctz_of_ne_zero hv
      rw [hc, hval c hc64, Bool.and_eq_true, decide_eq_true_eq] at hbit
      have hbelow : ∀ b, lo ≤ b → b < c → w.getLsbD b = invert := fun b hlb hbc => by
        have h0 := BitVec.getLsbD_false_of_lt_ctz (x := val) (hc ▸ hbc)
        rw [hval b (by omega)] at h0
        simpa [hlb] using h0
      rw [show idx + (c + 1) - 1 = idx + c by omega]
      refine ⟨by omega, min_le_right _ _, fun hr => ?_, fun i hi hir => ?_⟩
      · rw [show min (idx + c) nbits = idx + c by omega, htest (idx + c) (by omega) (by omega),
          Nat.add_sub_cancel_left]
        exact Bool.eq_not_iff.mpr (by simpa using hbit.1)
      · rw [htest i (by omega) (by omega)]
        exact hbelow (i - idx) (by omega) (by omega)
    · -- no hit in this word: on to the next one, unmasked
      rw [if_neg hv]
      have hskip : ∀ i, idx + lo ≤ i → i < idx + bitsPerLong → bitmapTest bits i = invert :=
        fun i hi hi' => by
          have h0 := hval (i - idx) (by omega)
          rw [not_not.mp hv] at h0
          rw [htest i (by omega) hi']
          simpa [show lo ≤ i - idx by omega] using h0.symm
      by_cases hnext : idx + bitsPerLong ≤ nbits
      · have hws' : bits.drop ((idx + bitsPerLong) / bitsPerLong) = ws := by
          rw [show (idx + bitsPerLong) / bitsPerLong = idx / bitsPerLong + 1 by
            simp only [bitsPerLong]; omega, ← List.tail_drop, hws, List.tail_cons]
        have ih := bitmapFindNextLoop_spec hlen invert ws (idx + bitsPerLong) 0 (~~~0) hws'
          (by simp only [bitsPerLong] at *; omega) (by decide) (fun b hb => getLsbD_allOnes_mask hb)
          (by omega)
        rw [Nat.add_zero] at ih
        exact ih.of_skip (by omega) hskip
      · rw [bitmapFindNextLoop_of_le (by omega)]
        exact NextHit.of_none hle fun i hi hin => hskip i hi (by omega)

theorem bitmapFindNext_spec (hlen : bitmapLongSize nbits ≤ bits.length) {pos : Nat}
    (hpos : pos ≤ nbits) (invert : Bool) :
    NextHit bits nbits invert pos (bitmapFindNext bits nbits pos invert) := by
  have hlo : pos % bitsPerLong < bitsPerLong := Nat.mod_lt _ (by decide)
  have h := bitmapFindNextLoop_spec hlen invert _ (pos / bitsPerLong * bitsPerLong)
    (pos % bitsPerLong) _ (by rw [Nat.mul_div_cancel _ (by decide : 0 < bitsPerLong)])
    (Nat.mul_mod_left _ _) hlo (fun b hb => getLsbD_findMask hlo hb)
    (by rw [Nat.div_add_mod']; exact hpos)
  rwa [Nat.div_add_mod'] at h

/-- From `start` on, the loop visits the hits of `[start, nbits)` in order. -/
theorem bitmapForEachLoop_eq (hlen : bitmapLongSize nbits ≤ bits.length) (invert : Bool) :
    ∀ fuel start, start ≤ nbits → nbits - start < fuel →
      bitmapForEachLoop bits nbits invert fuel start =
        (List.range' start (nbits - start)).filter (fun i => bitmapTest bits i != invert)
  | 0, _, _, hf => absurd hf (Nat.not_lt_zero _)
  | fuel + 1, start, hs, hf => by
    have h := bitmapFindNext_spec hlen hs invert
    rw [bitmapForEachLoop]
    generalize bitmapFindNext bits nbits start invert = pos at h ⊢
    have hmiss : ∀ i, start ≤ i → i < pos → (bitmapTest bits i != invert) = false :=
      fun i hi hip => by rw [h.skip i hi hip, bne_self_eq_false]
    by_cases hpos : pos < nbits
    · -- a hit at `pos`, and the loop goes on from `pos + 1`
      have hle := h.le
      rw [if_pos hpos, bitmapForEachLoop_eq hlen invert fuel (pos + 1) (by omega) (by omega)]
      have hsplit : List.range' start (nbits - start) =
          List.range' start (pos - start) ++ pos :: List.range' (pos + 1) (nbits - (pos + 1)) := by
        rw [show nbits - start = (pos - start) + (nbits - (pos + 1) + 1) by omega,
          ← List.range'_append, show start + 1 * (pos - start) = pos by omega, List.range'_succ]
      have hnil : (List.range' start (pos - start)).filter (fun i => bitmapTest bits i != invert) =
          [] := List.filter_eq_nil_iff.mpr fun i hi => by
        rw [List.mem_range'_1] at hi
        simp [hmiss i hi.1 (by omega)]
      rw [hsplit, List.filter_append, hnil, List.nil_append,
        List.filter_cons_of_pos (by rw [h.hit hpos]; cases invert <;> rfl)]
    · -- no hit left: `pos` is `nbits`
      rw [if_neg hpos]
      have hpn : pos = nbits := le_antisymm h.le_nbits (not_lt.mp hpos)
      refine (List.filter_eq_nil_iff.mpr fun i hi => ?_).symm
      rw [List.mem_range'_1] at hi
      simp [hmiss i hi.1 (by omega)]

theorem bitmapForEachLoop_eq_filter (hlen : bitmapLongSize nbits ≤ bits.length) (invert : Bool) :
    bitmapForEachLoop bits nbits invert (nbits + 1) 0 =
      (List.range nbits).filter (fun i => bitmapTest bits i != invert) := by
  rw [bitmapForEachLoop_eq hlen invert _ 0 (Nat.zero_le _) (by omega), List.range_eq_range',
    Nat.sub_zero]

theorem bitmapForEachSet_eq (hlen : bitmapLongSize nbits ≤ bits.length) :
    bitmapForEachSet bits nbits = (List.range nbits).filter (bitmapTest bits ·) := by
  rw [bitmapForEachSet, bitmapForEachLoop_eq_filter hlen]
  simp

theorem bitmapForEachCleared_eq (hlen : bitmapLongSize nbits ≤ bits.length) :
    bitmapForEachCleared bits nbits = (List.range nbits).filter (!bitmapTest bits ·) := by
  rw [bitmapForEachCleared, bitmapForEachLoop_eq_filter hlen]
  simp

end Search

/-! ## Counting -/

section Count

variable {bits : List (BitVec 64)} {nbits : Nat}

theorem cpopNatRec_eq_count {w : Nat} (v : BitVec w) :
    ∀ n, v.cpopNatRec n 0 = ((List.range n).filter (v.getLsbD ·)).length
  | 0 => rfl
  | n + 1 => by
    rw [BitVec.cpopNatRec_succ, BitVec.cpopNatRec_eq, cpopNatRec_eq_count v n, List.range_succ,
      List.filter_append, List.length_append]
    cases hv : v.getLsbD n <;> simp [hv]

/-- The set bits of the first `k` words. -/
theorem sum_popcountl_eq_count (bits : List (BitVec 64)) :
    ∀ k, ((List.range k).map fun i => popcountl (bits.getD i 0)).sum =
      ((List.range (bitsPerLong * k)).filter (bitmapTest bits ·)).length
  | 0 => rfl
  | k + 1 => by
    rw [List.range_succ, List.map_append, List.sum_append, sum_popcountl_eq_count bits k,
      Nat.mul_succ, List.range_add, List.filter_append, List.length_append]
    congr 1
    -- word `k` holds the bits `64 * k` to `64 * k + 63`
    rw [List.filter_map, List.length_map, List.map_singleton, List.sum_singleton, popcountl,
      BitVec.toNat_cpop, cpopNatRec_eq_count]
    congr 1
    refine List.filter_congr fun b hb => ?_
    rw [List.mem_range] at hb
    have hdiv : (bitsPerLong * k + b) / bitsPerLong = k := by simp only [bitsPerLong] at hb ⊢; omega
    have hmod : (bitsPerLong * k + b) % bitsPerLong = b := by simp only [bitsPerLong] at hb ⊢; omega
    simp only [Function.comp, bitmapTest_eq, hdiv, hmod]

theorem bitmapPopcount_eq_sum (bits : List (BitVec 64)) (nbits : Nat) :
    bitmapPopcount bits nbits =
      ((List.range (bitmapLongSize nbits)).map fun i => popcountl (bits.getD i 0)).sum := by
  rw [bitmapPopcount, List.sum_eq_foldl, List.foldl_map]

theorem bitmapLongSize_le_of_le {m n : Nat} (h : m ≤ n) : bitmapLongSize m ≤ bitmapLongSize n :=
  Nat.div_le_div_right (by omega)

theorem le_bitsPerLong_mul_longSize (nbits : Nat) : nbits ≤ bitsPerLong * bitmapLongSize nbits := by
  simp only [bitmapLongSize, bitsPerLong]
  omega

/-- `bitmap_popcount` counts the bits below `nbits` when the bits above them are clear. -/
theorem bitmapPopcount_eq_count
    (htail : ∀ i, nbits ≤ i → i < bitsPerLong * bitmapLongSize nbits → bitmapTest bits i = false) :
    bitmapPopcount bits nbits = ((List.range nbits).filter (bitmapTest bits ·)).length := by
  have hle := le_bitsPerLong_mul_longSize nbits
  have hnil : ((List.range (bitsPerLong * bitmapLongSize nbits - nbits)).map (nbits + ·)).filter
      (bitmapTest bits ·) = [] := List.filter_eq_nil_iff.mpr fun i hi => by
    obtain ⟨j, hj, rfl⟩ := List.mem_map.mp hi
    rw [List.mem_range] at hj
    simp [htail (nbits + j) (by omega) (by omega)]
  rw [bitmapPopcount_eq_sum, sum_popcountl_eq_count, ← Nat.add_sub_cancel' hle, List.range_add,
    List.filter_append, List.length_append, hnil, List.length_nil, Nat.add_zero]

theorem bitmapTest_bitmapInit_true {i : Nat} (hi : i < bitsPerLong * bitmapLongSize nbits) :
    bitmapTest (bitmapInit nbits true) i = true := by
  have hw : i / bitsPerLong < bitmapLongSize nbits := by simp only [bitsPerLong] at hi ⊢; omega
  have hb : i % bitsPerLong < 64 := Nat.mod_lt _ (by decide)
  simp only [bitmapTest_eq, bitmapInit, List.getD_eq_getElem?_getD, List.getElem?_replicate,
    if_pos hw, if_true, Option.getD_some, BitVec.getLsbD_allOnes, hb, decide_true]

theorem count_bitmapInit_true {m : Nat} (hm : m ≤ bitsPerLong * bitmapLongSize nbits) :
    ((List.range m).filter (bitmapTest (bitmapInit nbits true) ·)).length = m := by
  rw [List.filter_eq_self.mpr fun i hi => bitmapTest_bitmapInit_true (by
    rw [List.mem_range] at hi; omega), List.length_range]

end Count

/-- For a bitmap of `BITMAP_LONG_SIZE(nbits)` words: `bitmap_find_next_set` and
`bitmap_find_next_cleared` return the first set (cleared) bit from `pos` below `nbits`, or
`nbits`; the `for_each` loops visit exactly those bits below `nbits`, in order; and
`bitmap_popcount` counts the set bits below `nbits` when the bits above them are clear. -/
theorem bitmap_search_spec {bits : List (BitVec 64)} {nbits : Nat}
    (hlen : bits.length = bitmapLongSize nbits) :
    (∀ pos ≤ nbits, NextHit bits nbits false pos (bitmapFindNextSet bits nbits pos) ∧
      NextHit bits nbits true pos (bitmapFindNextCleared bits nbits pos)) ∧
    bitmapForEachSet bits nbits = (List.range nbits).filter (bitmapTest bits ·) ∧
    bitmapForEachCleared bits nbits = (List.range nbits).filter (!bitmapTest bits ·) ∧
    ((∀ i, nbits ≤ i → i < bitsPerLong * bitmapLongSize nbits → bitmapTest bits i = false) →
      bitmapPopcount bits nbits = ((List.range nbits).filter (bitmapTest bits ·)).length) := by
  have hle := hlen.ge
  exact ⟨fun pos hpos => ⟨bitmapFindNext_spec hle hpos false, bitmapFindNext_spec hle hpos true⟩,
    bitmapForEachSet_eq hle, bitmapForEachCleared_eq hle, bitmapPopcount_eq_count⟩

/-- Bits 0 and 2 of a three-bit map. -/
theorem bitmap_search_spec_three :
    ([5#64] : List (BitVec 64)).length = bitmapLongSize 3 ∧
    ((∀ pos ≤ 3, NextHit [5#64] 3 false pos (bitmapFindNextSet [5#64] 3 pos) ∧
      NextHit [5#64] 3 true pos (bitmapFindNextCleared [5#64] 3 pos)) ∧
    bitmapForEachSet [5#64] 3 = (List.range 3).filter (bitmapTest [5#64] ·) ∧
    bitmapForEachCleared [5#64] 3 = (List.range 3).filter (!bitmapTest [5#64] ·) ∧
    ((∀ i, 3 ≤ i → i < bitsPerLong * bitmapLongSize 3 → bitmapTest [5#64] i = false) →
      bitmapPopcount [5#64] 3 = ((List.range 3).filter (bitmapTest [5#64] ·)).length)) :=
  ⟨rfl, bitmap_search_spec rfl⟩

/-- After `bitmap_init(bits, nbits, true)` with `nbits` not a multiple of `BITS_PER_LONG`, the
`nbits` bits are set, but `bitmap_popcount` also counts the bits of the last word past `nbits`. -/
theorem bitmapPopcount_init_counts_tail {nbits : Nat} (h : nbits % bitsPerLong ≠ 0) :
    ((List.range nbits).filter (bitmapTest (bitmapInit nbits true) ·)).length = nbits ∧
      bitmapPopcount (bitmapInit nbits true) nbits = bitsPerLong * bitmapLongSize nbits ∧
      nbits < bitsPerLong * bitmapLongSize nbits := by
  have hle := le_bitsPerLong_mul_longSize nbits
  refine ⟨count_bitmapInit_true hle, ?_, ?_⟩
  · rw [bitmapPopcount_eq_sum, sum_popcountl_eq_count, count_bitmapInit_true le_rfl]
  · refine lt_of_le_of_ne hle fun heq => h ?_
    rw [heq, Nat.mul_mod_right]

theorem bitmapPopcount_init_one :
    1 % bitsPerLong ≠ 0 ∧
      ((List.range 1).filter (bitmapTest (bitmapInit 1 true) ·)).length = 1 ∧
      bitmapPopcount (bitmapInit 1 true) 1 = bitsPerLong * bitmapLongSize 1 ∧
      1 < bitsPerLong * bitmapLongSize 1 :=
  ⟨by decide, bitmapPopcount_init_counts_tail (by decide)⟩

end Caladan.Bitmap
