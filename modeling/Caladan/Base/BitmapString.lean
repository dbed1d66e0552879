import Mathlib
import Caladan.Lib.CString
import Caladan.Base.Bitmap

/-!
# Cpu lists (`string_to_bitmap`, `base/bitmap.c`)

`string_to_bitmap` reads a list such as `0-24,26-48:2,49-255` into a bitmap of `nbits` bits; the
iokernel reads the cores it may use this way. A pointer into the string is the suffix it points
at and `NULL` is `none` (`CString`). The function returns `0` or `1`; `none` stands for a run that
never returns, which only the stride loop can cause, since it adds the stride on `unsigned int`.
`nbits` is an `int` that the caller passes as `NCPU`, so it is a natural number here.
-/

namespace Caladan.Bitmap

open CString

/-- `bitmap_set` -/
def bitmapSet (bits : List (BitVec 64)) (pos : Nat) : List (BitVec 64) :=
  bits.modify (pos / bitsPerLong) (· ||| 1#64 <<< (pos % bitsPerLong))

/-- `nexttoken`: the pointer after the next `sep`. -/
def nexttoken (q : Option (List Char)) (sep : Char) : Option (List Char) :=
  (q.bind (strchr · sep)).map List.tail

/-- `nextnumber`: the number at `str` cut to `unsigned int`, and `end`; `none` where it returns
an error code. `str == *end` compares pointers into one string. -/
def nextnumber : Option (List Char) → Option (UInt32 × List Char)
  | none => none
  | some [] => none
  | some (c :: cs) =>
    if !c.isDigit then none
    else
      let (v, e, erange) := strtoul (c :: cs)
      if erange then none
      else if (c :: cs).length = e.length then none
      else some (UInt32.ofNat v, e)

/-- `c1 != NULL && (c2 == NULL || c1 < c2)` for pointers into one string. -/
def tokenBefore : Option (List Char) → Option (List Char) → Bool
  | none, _ => false
  | some _, none => true
  | some c1, some c2 => c2.length < c1.length

/-- The numbers of the token at `p`: the first `a`, the last `b`, the stride `s`, and `end` after
the last number read; `none` where `string_to_bitmap` returns `1` on them. -/
def nextRange (p : List Char) : Option (UInt32 × UInt32 × UInt32 × List Char) := do
  let (a, e) ← nextnumber (some p)
  let c2 := nexttoken (some e) ','
  if tokenBefore (nexttoken (some e) '-') c2 then
    let (b, e) ← nextnumber (nexttoken (some e) '-')
    let c1 := if e.isEmpty then none else nexttoken (some e) ':'
    if tokenBefore c1 c2 then
      let (s, e) ← nextnumber c1
      if s = 0 then none else pure (a, b, s, e)
    else pure (a, b, 1, e)
  else pure (a, a, 1, e)

/-- `while (a <= b) { if (a >= nbits) return 1; bitmap_set(bits, a); a += s; }` for at most `fuel`
tests of `a <= b`; `some (true, bits)` is `return 1`. -/
def stringToBitmapSet (nbits : Nat) (b s : UInt32) :
    Nat → UInt32 → List (BitVec 64) → Option (Bool × List (BitVec 64))
  | 0, _, _ => none
  | fuel + 1, a, bits =>
    if a ≤ b then
      if nbits ≤ a.toNat then some (true, bits)
      else stringToBitmapSet nbits b s fuel (a + s) (bitmapSet bits a.toNat)
    else some (false, bits)

/-- The loop `while (p = q, q = nexttoken(q, ','), p)` and the test of `end && *end` after it,
for at most `fuel` tests of `p`. A stride loop that has not ended after `2 ^ 32 + 1` tests has
seen some `a` twice, so it never ends. -/
def stringToBitmapLoop (nbits : Nat) : Nat → Option (List Char) → Option (List Char) →
    List (BitVec 64) → Option (Int × List (BitVec 64))
  | 0, _, _, _ => none
  | _ + 1, none, endp, bits => some (if endp.any (fun e => !e.isEmpty) then 1 else 0, bits)
  | fuel + 1, some p, _, bits =>
    match nextRange p with
    | none => some (1, bits)
    | some (a, b, s, e) =>
      if a ≤ b then
        match stringToBitmapSet nbits b s (2 ^ 32 + 1) a bits with
        | some (false, bits) =>
          stringToBitmapLoop nbits fuel (nexttoken (some p) ',') (some e) bits
        | some (true, bits) => some (1, bits)
        | none => none
      else some (1, bits)

/-- `string_to_bitmap(str, bits, nbits)`: the return value and the bitmap. -/
def stringToBitmap (str : List Char) (nbits : Nat) : Option (Int × List (BitVec 64)) :=
  stringToBitmapLoop nbits (str.length + 2) (some str) none (bitmapInit nbits false)

/-! ## What a cpu list means -/

/-- One range of a cpu list: `a`, `a-b` or `a-b:s`. -/
inductive CpuRange where
  | single (a : Nat)
  | span (a b : Nat)
  | stride (a b s : Nat)
  deriving DecidableEq

namespace CpuRange

def lo : CpuRange → Nat
  | single a | span a _ | stride a _ _ => a

def hi : CpuRange → Nat
  | single a => a
  | span _ b | stride _ b _ => b

def step : CpuRange → Nat
  | stride _ _ s => s
  | _ => 1

def render : CpuRange → List Char
  | single a => Nat.toDigits 10 a
  | span a b => Nat.toDigits 10 a ++ '-' :: Nat.toDigits 10 b
  | stride a b s => Nat.toDigits 10 a ++ '-' :: Nat.toDigits 10 b ++ ':' :: Nat.toDigits 10 s

/-- The cpus of a range. -/
def Mem (r : CpuRange) (i : Nat) : Prop :=
  r.lo ≤ i ∧ i ≤ r.hi ∧ r.step ∣ i - r.lo

/-- A range of cpus below `nbits` whose stride does not wrap `unsigned int`. -/
def Valid (nbits : Nat) (r : CpuRange) : Prop :=
  r.lo ≤ r.hi ∧ r.hi < nbits ∧ 0 < r.step ∧ r.hi + r.step < 2 ^ 32

instance (nbits : Nat) (r : CpuRange) : Decidable (r.Valid nbits) :=
  inferInstanceAs (Decidable (_ ∧ _ ∧ _ ∧ _))

end CpuRange

/-- A cpu list: its ranges separated by `,`. -/
def cpuListRender : List CpuRange → List Char
  | [] => []
  | [r] => r.render
  | r :: r' :: rs => r.render ++ ',' :: cpuListRender (r' :: rs)

/-! ## `bitmap_set` -/

@[simp]
theorem length_bitmapSet (bits : List (BitVec 64)) (pos : Nat) :
    (bitmapSet bits pos).length = bits.length :=
  List.length_modify ..

theorem bitmapTest_bitmapSet {bits : List (BitVec 64)} {pos : Nat}
    (hpos : pos / bitsPerLong < bits.length) (i : Nat) :
    bitmapTest (bitmapSet bits pos) i = (decide (i = pos) || bitmapTest bits i) := by
  have hi : i % bitsPerLong < 64 := Nat.mod_lt i (by decide)
  rw [bitmapTest_eq, bitmapTest_eq, bitmapSet, List.getD_eq_getElem?_getD,
    List.getD_eq_getElem?_getD, List.getElem?_modify]
  by_cases hw : pos / bitsPerLong = i / bitsPerLong
  · rw [List.getElem?_eq_getElem (hw ▸ hpos)]
    simp only [hw, if_true, Option.map_eq_map, Option.map_some, Option.getD_some,
      BitVec.getLsbD_or, BitVec.getLsbD_shiftLeft, BitVec.getLsbD_one, hi, decide_true,
      Bool.true_and]
    by_cases hb : i % bitsPerLong = pos % bitsPerLong
    · have : i = pos := by simp only [bitsPerLong] at *; omega
      simp [this]
    · have : i ≠ pos := by rintro rfl; exact hb rfl
      simp only [this, decide_false, Bool.false_or, Bool.or_eq_left_iff_imp, Bool.and_eq_true,
        decide_eq_true_eq, and_imp]
      intro h₁ _ h₂
      simp only [Bool.not_eq_true', decide_eq_false_iff_not, not_lt] at h₁
      omega
  · have hne : i ≠ pos := by rintro rfl; exact hw rfl
    simp [hw, hne]

theorem bitmapTest_bitmapSet_iff {bits : List (BitVec 64)} {pos : Nat}
    (hpos : pos / bitsPerLong < bits.length) (i : Nat) :
    bitmapTest (bitmapSet bits pos) i = true ↔ i = pos ∨ bitmapTest bits i = true := by
  simp [bitmapTest_bitmapSet hpos]

theorem bitmapTest_bitmapInit_false (nbits i : Nat) :
    bitmapTest (bitmapInit nbits false) i = false := by
  simp only [bitmapTest_eq, bitmapInit, List.getD_eq_getElem?_getD, List.getElem?_replicate,
    Bool.false_eq_true, if_false]
  split_ifs <;> simp

theorem div_lt_bitmapLongSize {pos nbits : Nat} (h : pos < nbits) :
    pos / bitsPerLong < bitmapLongSize nbits := by
  simp only [bitmapLongSize, bitsPerLong]
  omega

/-! ## Reading one token -/

section Token

variable {c : Char} {xs t : List Char}

theorem nexttoken_cons_self (t : List Char) : nexttoken (some (c :: t)) c = some t := by
  simp [nexttoken, strchr_cons_self]

theorem nexttoken_append_of_not_mem (h : c ∉ xs) (t : List Char) :
    nexttoken (some (xs ++ t)) c = nexttoken (some t) c := by
  simp [nexttoken, strchr_append_of_not_mem h]

theorem nexttoken_cons_of_ne {d : Char} (h : d ≠ c) (t : List Char) :
    nexttoken (some (d :: t)) c = nexttoken (some t) c := by
  simp [nexttoken, strchr, h]

theorem length_lt_of_nexttoken {u : List Char} (h : nexttoken (some xs) c = some u) :
    u.length < xs.length := by
  simp only [nexttoken, Option.bind_some, Option.map_eq_some_iff] at h
  obtain ⟨v, hv, rfl⟩ := h
  exact length_tail_lt_of_strchr hv

/-- `*end` is tested before `nexttoken(end, ':')`, which finds nothing in an empty string
anyway. -/
theorem ite_isEmpty_nexttoken (e : List Char) (c : Char) :
    (if e.isEmpty then none else nexttoken (some e) c) = nexttoken (some e) c := by
  cases e <;> rfl

theorem not_mem_toDigits (hc : c.isDigit = false) (n : Nat) : c ∉ Nat.toDigits 10 n :=
  fun h => by simp [Nat.isDigit_of_mem_toDigits (by decide) (by decide) h] at hc

theorem nexttoken_toDigits_append (hc : c.isDigit = false) (n : Nat) (t : List Char) :
    nexttoken (some (Nat.toDigits 10 n ++ t)) c = nexttoken (some t) c :=
  nexttoken_append_of_not_mem (not_mem_toDigits hc n) t

/-- `nextnumber` reads a printed number back, cut to `unsigned int`, unless it overflows
`unsigned long`. -/
theorem nextnumber_toDigits (n : Nat) (ht : NoDigitHead t) :
    nextnumber (some (Nat.toDigits 10 n ++ t)) =
      if n < 2 ^ 64 then some (UInt32.ofNat n, t) else none := by
  obtain ⟨d, ds, hds⟩ := List.exists_cons_of_ne_nil (Nat.toDigits_ne_nil (n := n) (b := 10))
  have hd : d.isDigit = true :=
    Nat.isDigit_of_mem_toDigits (by decide) (by decide) (hds ▸ List.mem_cons_self ..)
  have hs := strtoul_toDigits n ht
  rw [hds, List.cons_append] at hs
  rw [hds, List.cons_append, nextnumber, hd, Bool.not_true, if_neg Bool.false_ne_true, hs]
  dsimp only
  by_cases hn : n < 2 ^ 64
  · have hlen : (d :: (ds ++ t)).length ≠ t.length := by
      simp only [List.length_cons, List.length_append]
      omega
    rw [if_pos hn, if_pos hn, decide_eq_false (Nat.not_le.2 hn), if_neg Bool.false_ne_true,
      if_neg hlen]
  · rw [if_neg hn, decide_eq_true (Nat.le_of_not_lt hn), if_pos rfl, if_neg hn]

/-- The text after a range of a cpu list: the end of the string, or `,` and the next range. -/
def AtSep (t : List Char) : Prop := t = [] ∨ ∃ rest, t = ',' :: rest

theorem AtSep.noDigitHead (ht : AtSep t) : NoDigitHead t := by
  rcases ht with rfl | ⟨rest, rfl⟩
  · exact noDigitHead_nil
  · exact noDigitHead_cons (by decide) rest

/-- After a range, a `-` or `:` that `nexttoken` finds belongs to a later range. -/
theorem tokenBefore_atSep (hc : c ≠ ',') (ht : AtSep t) :
    tokenBefore (nexttoken (some t) c) (nexttoken (some t) ',') = false := by
  rcases ht with rfl | ⟨rest, rfl⟩
  · rfl
  · rw [nexttoken_cons_self, nexttoken_cons_of_ne hc.symm]
    cases hu : nexttoken (some rest) c with
    | none => rfl
    | some u => simpa [tokenBefore] using (length_lt_of_nexttoken hu).le

theorem tokenBefore_append (hx : xs ≠ []) (sep : Char) :
    tokenBefore (some (xs ++ t)) (nexttoken (some t) sep) = true := by
  cases hu : nexttoken (some t) sep with
  | none => rfl
  | some u =>
    have hlt := length_lt_of_nexttoken hu
    have hpos := List.length_pos_of_ne_nil hx
    simp only [tokenBefore, List.length_append, decide_eq_true_eq]
    omega

end Token

theorem nextnumber_toDigits_of_lt {n : Nat} (hn : n < 2 ^ 64) {t : List Char}
    (ht : NoDigitHead t) : nextnumber (some (Nat.toDigits 10 n ++ t)) = some (UInt32.ofNat n, t) := by
  rw [nextnumber_toDigits n ht, if_pos hn]

namespace CpuRange

theorem comma_not_mem_render (r : CpuRange) : ',' ∉ r.render := by
  have h := not_mem_toDigits (c := ',') (by decide)
  cases r <;> simp [render, h]

/-- `nextRange` reads back a printed range whose numbers fit `unsigned long`, cut to `unsigned int`,
up to the `,` or the end after it. -/
theorem nextRange_render {r : CpuRange} {t : List Char} (hlo : r.lo < 2 ^ 64) (hhi : r.hi < 2 ^ 64)
    (hs : r.step < 2 ^ 64) (hs₀ : UInt32.ofNat r.step ≠ 0) (ht : AtSep t) :
    nextRange (r.render ++ t) =
      some (UInt32.ofNat r.lo, UInt32.ofNat r.hi, UInt32.ofNat r.step, t) := by
  have hnd := ht.noDigitHead
  have h₁ := tokenBefore_atSep (c := '-') (by decide) ht
  have h₂ := tokenBefore_atSep (c := ':') (by decide) ht
  cases r with
  | single a =>
    simp only [lo] at hlo ⊢
    simp only [nextRange, render, nextnumber_toDigits_of_lt hlo hnd, Option.bind_eq_bind,
      Option.bind_some, h₁, Bool.false_eq_true, if_false, Option.pure_def]
    rfl
  | span a b =>
    simp only [lo, hi] at hlo hhi ⊢
    simp only [nextRange, render, List.append_assoc, List.cons_append,
      nextnumber_toDigits_of_lt hlo (noDigitHead_cons (c := '-') (by decide) _),
      Option.bind_eq_bind, Option.bind_some, nexttoken_cons_self,
      nexttoken_cons_of_ne (by decide : '-' ≠ ','),
      nexttoken_toDigits_append (by decide : Char.isDigit ',' = false),
      tokenBefore_append Nat.toDigits_ne_nil, if_true, nextnumber_toDigits_of_lt hhi hnd,
      ite_isEmpty_nexttoken, h₂, Bool.false_eq_true, if_false, Option.pure_def]
    rfl
  | stride a b s =>
    simp only [lo, hi, step] at hlo hhi hs hs₀ ⊢
    -- `c2` is found from after `a`: the `,` after the whole range
    have hb₁ : tokenBefore (some (Nat.toDigits 10 b ++ ':' :: (Nat.toDigits 10 s ++ t)))
        (nexttoken (some t) ',') = true := by
      rw [← List.cons_append, ← List.append_assoc]
      exact tokenBefore_append (by simp) ','
    simp only [nextRange, render, List.append_assoc, List.cons_append,
      nextnumber_toDigits_of_lt hlo (noDigitHead_cons (c := '-') (by decide) _),
      Option.bind_eq_bind, Option.bind_some, nexttoken_cons_self,
      nexttoken_cons_of_ne (by decide : '-' ≠ ','), nexttoken_cons_of_ne (by decide : ':' ≠ ','),
      nexttoken_toDigits_append (by decide : Char.isDigit ',' = false), hb₁, if_true,
      nextnumber_toDigits_of_lt hhi (noDigitHead_cons (c := ':') (by decide) _),
      ite_isEmpty_nexttoken, tokenBefore_append Nat.toDigits_ne_nil,
      nextnumber_toDigits_of_lt hs hnd, hs₀, if_false, Option.pure_def]

end CpuRange

/-! ## What a token gives -/

theorem step_ne_zero_of_nextRange {p e : List Char} {a b s : UInt32}
    (h : nextRange p = some (a, b, s, e)) : s ≠ 0 := by
  simp only [nextRange, ite_isEmpty_nexttoken, Option.bind_eq_bind, Option.bind_eq_some_iff,
    Option.pure_def] at h
  obtain ⟨_, -, h⟩ := h
  split at h
  · rw [Option.bind_eq_some_iff] at h
    obtain ⟨_, -, h⟩ := h
    split at h
    · rw [Option.bind_eq_some_iff] at h
      obtain ⟨_, -, h⟩ := h
      split at h
      · cases h
      · cases h
        assumption
    · cases h
      decide
  · cases h
    decide

/-! ## The stride loop -/

/-- One stride from `a` toward `b`: `i` is `a`, or lies on the rest of the stride. -/
theorem mem_stride_iff {a b s i : Nat} (hs : 0 < s) (hab : a ≤ b) :
    (a ≤ i ∧ i ≤ b ∧ s ∣ i - a) ↔ i = a ∨ a + s ≤ i ∧ i ≤ b ∧ s ∣ i - (a + s) := by
  constructor
  · rintro ⟨hai, hib, hd⟩
    rcases Nat.eq_or_lt_of_le hai with rfl | hlt
    · exact .inl rfl
    · have hsi := Nat.le_of_dvd (by omega) hd
      have hsplit : i - a = i - (a + s) + s := by omega
      rw [hsplit] at hd
      exact .inr ⟨by omega, hib, (Nat.dvd_add_left (dvd_refl s)).1 hd⟩
  · rintro (rfl | ⟨hai, hib, hd⟩)
    · simp [hab]
    · have hsplit : i - a = i - (a + s) + s := by omega
      exact ⟨by omega, hib, hsplit ▸ Nat.dvd_add hd (dvd_refl s)⟩

section SetLoop

variable {nbits : Nat} {b s : UInt32}

/-- Without a wrap of `a += s`, the stride loop sets the bits from `a` to `b`, `s` apart. -/
theorem stringToBitmapSet_stride (hb : b.toNat < nbits) (hs : 0 < s.toNat)
    (hbs : b.toNat + s.toNat < 2 ^ 32) :
    ∀ fuel a bits, bits.length = bitmapLongSize nbits → b.toNat + 1 - a.toNat < fuel →
      ∃ bits', stringToBitmapSet nbits b s fuel a bits = some (false, bits') ∧
        bits'.length = bits.length ∧ ∀ i, bitmapTest bits' i = true ↔
          bitmapTest bits i = true ∨ (a.toNat ≤ i ∧ i ≤ b.toNat ∧ s.toNat ∣ i - a.toNat) := by
  intro fuel
  induction fuel with
  | zero => intro a bits _ hf; omega
  | succ fuel ih =>
    intro a bits hlen hf
    by_cases hab : a ≤ b
    · have hab' := UInt32.le_iff_toNat_le.1 hab
      have hnext : (a + s).toNat = a.toNat + s.toNat := by
        rw [UInt32.toNat_add]
        omega
      have hpos : a.toNat / bitsPerLong < bits.length := hlen ▸ div_lt_bitmapLongSize (by omega)
      have hset := bitmapTest_bitmapSet_iff hpos
      obtain ⟨bits', hrun, hlen', hmem⟩ :=
        ih (a + s) (bitmapSet bits a.toNat) (by rw [length_bitmapSet, hlen]) (by omega)
      refine ⟨bits', ?_, by rw [hlen', length_bitmapSet], fun i => ?_⟩
      · rw [stringToBitmapSet, if_pos hab, if_neg (by omega), hrun]
      · rw [hmem, hset, hnext, mem_stride_iff hs hab']
        tauto
    · have hba : b.toNat < a.toNat := by
        rw [UInt32.le_iff_toNat_le] at hab
        omega
      refine ⟨bits, by rw [stringToBitmapSet, if_neg hab], rfl, fun i => ?_⟩
      constructor
      · exact .inl
      · rintro (h | ⟨h₁, h₂, -⟩)
        · exact h
        · omega

end SetLoop

/-! ## A printed cpu list reads back -/

section Render

variable {nbits : Nat}

/-- One pass of the token loop over a valid printed range sets the range's cpus and goes on
after it. -/
theorem stringToBitmapLoop_render {r : CpuRange} (hv : r.Valid nbits) {t : List Char}
    (ht : AtSep t) {bits : List (BitVec 64)} (hlen : bits.length = bitmapLongSize nbits)
    (fuel : Nat) (endp : Option (List Char)) :
    ∃ bits', stringToBitmapLoop nbits (fuel + 1) (some (r.render ++ t)) endp bits =
        stringToBitmapLoop nbits fuel (nexttoken (some t) ',') (some t) bits' ∧
      bits'.length = bits.length ∧
      ∀ i, bitmapTest bits' i = true ↔ bitmapTest bits i = true ∨ r.Mem i := by
  obtain ⟨hlo, hhi, hs, hr⟩ := hv
  have hlo' := UInt32.toNat_ofNat_of_lt' (n := r.lo) (by unfold UInt32.size; omega)
  have hhi' := UInt32.toNat_ofNat_of_lt' (n := r.hi) (by unfold UInt32.size; omega)
  have hs' := UInt32.toNat_ofNat_of_lt' (n := r.step) (by unfold UInt32.size; omega)
  have hab : UInt32.ofNat r.lo ≤ UInt32.ofNat r.hi := by
    rw [UInt32.le_iff_toNat_le, hlo', hhi']
    exact hlo
  have hs₀ : UInt32.ofNat r.step ≠ 0 := fun h => by
    rw [h, UInt32.toNat_zero] at hs'
    omega
  obtain ⟨bits', hrun, hlen', hmem⟩ :=
    stringToBitmapSet_stride (b := UInt32.ofNat r.hi) (s := UInt32.ofNat r.step)
      (by omega) (by omega) (by omega) (2 ^ 32 + 1) (UInt32.ofNat r.lo) bits hlen (by omega)
  refine ⟨bits', ?_, hlen', fun i => ?_⟩
  · rw [stringToBitmapLoop, CpuRange.nextRange_render (by omega) (by omega) (by omega) hs₀ ht]
    simp only [if_pos hab, hrun, nexttoken_append_of_not_mem r.comma_not_mem_render]
  · rw [hmem, hlo', hhi', hs']
    rfl

theorem stringToBitmapLoop_cpuListRender (r : CpuRange) (rs : List CpuRange)
    (hv : ∀ r' ∈ r :: rs, r'.Valid nbits) :
    ∀ fuel endp bits, (cpuListRender (r :: rs)).length + 2 ≤ fuel →
      bits.length = bitmapLongSize nbits →
      ∃ bits', stringToBitmapLoop nbits fuel (some (cpuListRender (r :: rs))) endp bits =
          some (0, bits') ∧ bits'.length = bits.length ∧
        ∀ i, bitmapTest bits' i = true ↔ bitmapTest bits i = true ∨ ∃ r' ∈ r :: rs, r'.Mem i := by
  induction rs generalizing r with
  | nil =>
    intro fuel endp bits hf hlen
    obtain ⟨f, rfl⟩ : ∃ f, fuel = f + 2 := ⟨fuel - 2, by omega⟩
    obtain ⟨bits', hrun, hlen', hmem⟩ :=
      stringToBitmapLoop_render (hv r (by simp)) (t := []) (.inl rfl) hlen (f + 1) endp
    refine ⟨bits', ?_, hlen', fun i => by simp [hmem]⟩
    rw [cpuListRender, ← List.append_nil r.render, hrun]
    rfl
  | cons r' rs ih =>
    intro fuel endp bits hf hlen
    obtain ⟨f, rfl⟩ : ∃ f, fuel = f + 1 := ⟨fuel - 1, by omega⟩
    obtain ⟨bits₁, hrun, hlen₁, hmem₁⟩ :=
      stringToBitmapLoop_render (hv r (by simp)) (t := ',' :: cpuListRender (r' :: rs))
        (.inr ⟨_, rfl⟩) hlen f endp
    obtain ⟨bits', hrun', hlen', hmem'⟩ :=
      ih r' (fun x hx => hv x (List.mem_cons_of_mem r hx)) f _ bits₁
        (by simp only [cpuListRender, List.length_append, List.length_cons] at hf; omega)
        (hlen₁ ▸ hlen)
    refine ⟨bits', ?_, by rw [hlen', hlen₁], fun i => ?_⟩
    · rw [cpuListRender, hrun, nexttoken_cons_self, hrun']
    · rw [hmem', hmem₁]
      simp only [List.mem_cons, exists_eq_or_imp]
      tauto

/-- `string_to_bitmap` reads a printed list of valid ranges: it returns `0`, and the bitmap holds
exactly the cpus of the ranges. -/
theorem stringToBitmap_cpuListRender {rs : List CpuRange} (hrs : rs ≠ [])
    (hv : ∀ r ∈ rs, r.Valid nbits) :
    ∃ bits, stringToBitmap (cpuListRender rs) nbits = some (0, bits) ∧
      bits.length = bitmapLongSize nbits ∧ ∀ i, bitmapTest bits i = true ↔ ∃ r ∈ rs, r.Mem i := by
  obtain ⟨r, rs, rfl⟩ := List.exists_cons_of_ne_nil hrs
  have hinit : (bitmapInit nbits false).length = bitmapLongSize nbits := by simp [bitmapInit]
  obtain ⟨bits, hrun, hlen, hmem⟩ :=
    stringToBitmapLoop_cpuListRender r rs hv _ none (bitmapInit nbits false) le_rfl hinit
  refine ⟨bits, hrun, hlen.trans hinit, fun i => ?_⟩
  rw [hmem, bitmapTest_bitmapInit_false]
  simp

theorem stringToBitmap_cpuListRender_span_stride :
    [CpuRange.span 0 3, .stride 8 12 2] ≠ [] ∧
      (∀ r ∈ [CpuRange.span 0 3, .stride 8 12 2], r.Valid 16) ∧
      ∃ bits, stringToBitmap (cpuListRender [.span 0 3, .stride 8 12 2]) 16 = some (0, bits) ∧
        bits.length = bitmapLongSize 16 ∧
        ∀ i, bitmapTest bits i = true ↔ ∃ r ∈ [CpuRange.span 0 3, .stride 8 12 2], r.Mem i :=
  ⟨by decide, by decide, stringToBitmap_cpuListRender (by decide) (by decide)⟩

end Render

/-! ## What every run keeps -/

section Runs

variable {nbits : Nat} {b s : UInt32} {bits bits' : List (BitVec 64)}

/-- A bitmap of `nbits` bits with no bit set at or above `nbits`. -/
def BitsIn (nbits : Nat) (bits : List (BitVec 64)) : Prop :=
  bits.length = bitmapLongSize nbits ∧ ∀ i, bitmapTest bits i = true → i < nbits

theorem BitsIn.bitmapSet {pos : Nat} (h : BitsIn nbits bits) (hpos : pos < nbits) :
    BitsIn nbits (bitmapSet bits pos) := by
  refine ⟨by rw [length_bitmapSet, h.1], fun i hi => ?_⟩
  rcases (bitmapTest_bitmapSet_iff (h.1 ▸ div_lt_bitmapLongSize hpos) i).1 hi with rfl | hi
  · exact hpos
  · exact h.2 i hi

/-- At most one less than the tests of `a <= b` still to come: `a` climbs to `nbits` while the
stride is below `2 ^ 31`; a larger stride lifts `a` to `nbits` or above, or wraps it lower. -/
def strideBound (nbits : Nat) (s a : UInt32) : Nat :=
  if nbits ≤ a.toNat then 0 else if s.toNat < 2 ^ 31 then nbits - a.toNat else a.toNat + 1

theorem strideBound_le (hn : nbits ≤ 2 ^ 31) (s a : UInt32) : strideBound nbits s a ≤ 2 ^ 32 := by
  have ha := a.toNat_lt
  unfold strideBound
  split_ifs <;> omega

theorem strideBound_add_lt (hn : nbits ≤ 2 ^ 31) (hs : 0 < s.toNat) {a : UInt32}
    (ha : a.toNat < nbits) : strideBound nbits s (a + s) < strideBound nbits s a := by
  have hs32 := s.toNat_lt
  have ha32 := a.toNat_lt
  unfold strideBound
  rw [UInt32.toNat_add]
  split_ifs <;> omega

theorem stringToBitmapSet_isSome (hn : nbits ≤ 2 ^ 31) (hs : 0 < s.toNat) :
    ∀ fuel a bits, strideBound nbits s a < fuel → (stringToBitmapSet nbits b s fuel a bits).isSome := by
  intro fuel
  induction fuel with
  | zero => intro a bits h; omega
  | succ fuel ih =>
    intro a bits h
    rw [stringToBitmapSet]
    split_ifs with hab ha
    · rfl
    · exact ih _ _ (lt_of_lt_of_le (strideBound_add_lt hn hs (by omega)) (by omega))
    · rfl

/-- What is left of the string for the token loop; `NULL` ends it at the next test. -/
def tokenBound : Option (List Char) → Nat
  | none => 0
  | some p => p.length + 1

theorem tokenBound_nexttoken (p : List Char) (c : Char) :
    tokenBound (nexttoken (some p) c) < tokenBound (some p) := by
  cases h : nexttoken (some p) c with
  | none => simp [tokenBound]
  | some u => simpa [tokenBound] using length_lt_of_nexttoken h

theorem stringToBitmapLoop_isSome (hn : nbits ≤ 2 ^ 31) :
    ∀ fuel q endp bits, tokenBound q < fuel →
      (stringToBitmapLoop nbits fuel q endp bits).isSome := by
  intro fuel
  induction fuel with
  | zero => intro q endp bits h; omega
  | succ fuel ih =>
    intro q endp bits h
    cases q with
    | none => rfl
    | some p =>
      simp only [stringToBitmapLoop]
      split
      · rfl
      · next a b s e hp =>
        split_ifs with hab
        · have hs : 0 < s.toNat := by
            simpa [← UInt32.toNat_inj, Nat.pos_iff_ne_zero] using step_ne_zero_of_nextRange hp
          have hset := stringToBitmapSet_isSome (b := b) hn hs (2 ^ 32 + 1) a bits
            (by have := strideBound_le hn s a; omega)
          split
          · have := tokenBound_nexttoken p ','
            exact ih _ _ _ (by simp only [tokenBound] at h this ⊢; omega)
          · rfl
          · next hnone =>
            rw [hnone] at hset
            cases hset
        · rfl

/-- `string_to_bitmap` returns on every string: the stride loop ends although `a += s` can wrap,
since `nbits` is an `int`. -/
theorem stringToBitmap_isSome (str : List Char) (hn : nbits < 2 ^ 31) :
    (stringToBitmap str nbits).isSome :=
  stringToBitmapLoop_isSome (by omega) _ _ _ _ (by simp [tokenBound])

theorem stringToBitmap_isSome_wrap :
    (64 : Nat) < 2 ^ 31 ∧ (stringToBitmap "3-5:4294967295".toList 64).isSome :=
  ⟨by decide, stringToBitmap_isSome _ (by decide)⟩

end Runs

end Caladan.Bitmap
