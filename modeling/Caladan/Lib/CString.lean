import Mathlib

/-!
# C strings

A C string is the list of its characters before the terminating NUL, and a pointer into it is
the suffix that starts at that character. Pointers into one string compare by position, so the
longer suffix is the lower address. `strchr` finds the first occurrence of a character other
than NUL. `strtoul` reads a decimal number (`base` 10) from a string that starts with neither a
blank nor a sign, and says whether the number overflowed `unsigned long`.
-/

namespace CString

/-- `strchr(q, c)` for a character `c` other than NUL. -/
def strchr : List Char → Char → Option (List Char)
  | [], _ => none
  | d :: ds, c => if d = c then some (d :: ds) else strchr ds c

/-- `strtoul(str, &end, 10)`: the value (`ULONG_MAX` on overflow), `end`, and whether `errno`
was set to `ERANGE`. -/
def strtoul (str : List Char) : ℕ × List Char × Bool :=
  let v := Nat.ofDigitChars 10 (str.takeWhile Char.isDigit) 0
  (if v < 2 ^ 64 then v else 2 ^ 64 - 1, str.dropWhile Char.isDigit, 2 ^ 64 ≤ v)

/-- The text after a number: it does not go on with a digit. -/
def NoDigitHead (r : List Char) : Prop := ∀ c ∈ r.head?, c.isDigit = false

/-! ## Numbers, tokens and lines -/

/-- `isspace` in the C locale. -/
def isSpace (c : Char) : Bool :=
  c = ' ' || c = '\t' || c = '\n' || c = '\x0b' || c = '\x0c' || c = '\r'

/-- The sign in front of a number: whether it is `-`, and what follows it. -/
def sign : List Char → Bool × List Char
  | '-' :: t => (true, t)
  | '+' :: t => (false, t)
  | t => (false, t)

/-- `strtol(str, &end, 10)`: the value (`LONG_MIN` or `LONG_MAX` on overflow), `end`, and whether
`errno` was set to `ERANGE`. Without a digit, `end` is `str`. -/
def strtol (str : List Char) : ℤ × List Char × Bool :=
  let (neg, t) := sign (str.dropWhile isSpace)
  let ds := t.takeWhile Char.isDigit
  if ds.isEmpty then (0, str, false)
  else
    let v : ℤ := if neg then -(Nat.ofDigitChars 10 ds 0 : ℤ) else Nat.ofDigitChars 10 ds 0
    if v < -2 ^ 63 then (-2 ^ 63, t.dropWhile Char.isDigit, true)
    else if 2 ^ 63 - 1 < v then (2 ^ 63 - 1, t.dropWhile Char.isDigit, true)
    else (v, t.dropWhile Char.isDigit, false)

/-- The value of a digit in `base`, letters of either case standing for 10 to 35. -/
def digitVal (base : ℕ) (c : Char) : Option ℕ :=
  let v := if c.isDigit then some (c.toNat - '0'.toNat)
    else if 'a' ≤ c ∧ c ≤ 'z' then some (c.toNat - 'a'.toNat + 10)
    else if 'A' ≤ c ∧ c ≤ 'Z' then some (c.toNat - 'A'.toNat + 10)
    else none
  v.filter (· < base)

/-- The digits in `base` at the head of a string, and the rest. -/
def spanDigits (base : ℕ) : List Char → List ℕ × List Char
  | [] => ([], [])
  | c :: cs =>
    match digitVal base c with
    | some d => ((spanDigits base cs).1.cons d, (spanDigits base cs).2)
    | none => ([], c :: cs)

/-- The `0x` or `0X` in front of hex digits. -/
def skipHexPrefix : List Char → List Char
  | '0' :: x :: c :: t =>
    if (x = 'x' ∨ x = 'X') ∧ (digitVal 16 c).isSome then c :: t else '0' :: x :: c :: t
  | t => t

/-- One `%u` (`base` 10) or `%x` (`base` 16) conversion of `sscanf`: blanks, a sign, `0x` before
hex digits, and at least one digit. The value is what `strtoul` gives for them: `ULONG_MAX` on
overflow, and the negation modulo `2 ^ 64` after a `-`. -/
def scanUnsigned (base : ℕ) (str : List Char) : Option (ℕ × List Char) :=
  let (neg, t) := sign (str.dropWhile isSpace)
  let (ds, r) := spanDigits base (if base = 16 then skipHexPrefix t else t)
  if ds.isEmpty then none
  else
    let v := ds.foldl (fun v d => base * v + d) 0
    some (if 2 ^ 64 ≤ v then 2 ^ 64 - 1 else if neg then (2 ^ 64 - v) % 2 ^ 64 else v, r)

/-- A directive of a `sscanf` format: a conversion in `base`, or a character to match. -/
inductive ScanItem where
  | conv (base : ℕ)
  | lit (c : Char)

/-- `sscanf(str, fmt, ...)`: the values of the conversions made before the first that fails; the
return value counts them. -/
def sscanf : List ScanItem → List Char → List ℕ
  | [], _ => []
  | .lit c :: fmt, d :: s => if c = d then sscanf fmt s else []
  | .lit _ :: _, [] => []
  | .conv base :: fmt, s =>
    match scanUnsigned base s with
    | some (v, r) => v :: sscanf fmt r
    | none => []

/-- `strtok(s, " ")`: the next token, and the text after the blank that ends it. -/
def strtokBlank (s : List Char) : Option (List Char × List Char) :=
  match s.dropWhile (· = ' ') with
  | [] => none
  | t => some (t.takeWhile (· ≠ ' '), (t.dropWhile (· ≠ ' ')).drop 1)

/-- The line `fgets` reads: at most `k` characters, up to and with the first `\n`. -/
def fgetsLine : ℕ → List Char → List Char × List Char
  | 0, s => ([], s)
  | _ + 1, [] => ([], [])
  | k + 1, c :: s =>
    if c = '\n' then (['\n'], s) else ((fgetsLine k s).1.cons c, (fgetsLine k s).2)

/-- `fgets(buf, n, f)` on the rest of a file; `none` at its end. -/
def fgets (n : ℕ) : List Char → Option (List Char × List Char)
  | [] => none
  | c :: s => some (fgetsLine (n - 1) (c :: s))

variable {c : Char} {xs ys : List Char}

theorem strchr_cons_self (ys : List Char) : strchr (c :: ys) c = some (c :: ys) := by
  simp [strchr]

theorem strchr_append_of_not_mem (h : c ∉ xs) (ys : List Char) :
    strchr (xs ++ ys) c = strchr ys c := by
  induction xs with
  | nil => rfl
  | cons x xs ih =>
    simp only [List.mem_cons, not_or] at h
    rw [List.cons_append, strchr, if_neg (Ne.symm h.1), ih h.2]

/-- What `strchr` finds is a suffix that starts with the character. -/
theorem strchr_eq_some {t : List Char} (h : strchr xs c = some t) :
    ∃ pre, xs = pre ++ t ∧ t.head? = some c := by
  induction xs with
  | nil => simp [strchr] at h
  | cons x xs ih =>
    unfold strchr at h
    split_ifs at h with hx
    · cases h
      exact ⟨[], rfl, by simp [hx]⟩
    · obtain ⟨pre, rfl, ht⟩ := ih h
      exact ⟨x :: pre, rfl, ht⟩

/-- The pointer after what `strchr` finds is strictly inside the string. -/
theorem length_tail_lt_of_strchr {t : List Char} (h : strchr xs c = some t) :
    t.tail.length < xs.length := by
  obtain ⟨pre, rfl, ht⟩ := strchr_eq_some h
  cases t with
  | nil => simp at ht
  | cons _ t =>
    simp only [List.tail_cons, List.length_append, List.length_cons]
    omega

theorem noDigitHead_nil : NoDigitHead [] := by
  simp [NoDigitHead]

theorem noDigitHead_cons (h : c.isDigit = false) (r : List Char) : NoDigitHead (c :: r) := by
  simpa [NoDigitHead] using h

/-- `strtoul` reads a printed number back up to the text after it. -/
theorem strtoul_toDigits (n : ℕ) {r : List Char} (hr : NoDigitHead r) :
    strtoul (Nat.toDigits 10 n ++ r) =
      (if n < 2 ^ 64 then n else 2 ^ 64 - 1, r, decide (2 ^ 64 ≤ n)) := by
  have hd : ∀ d ∈ Nat.toDigits 10 n, d.isDigit = true := fun d hd =>
    Nat.isDigit_of_mem_toDigits (by decide) (by decide) hd
  have htake : r.takeWhile Char.isDigit = [] := by
    cases r with
    | nil => rfl
    | cons x r => simp [hr x (by simp)]
  have hdrop : r.dropWhile Char.isDigit = r := by
    cases r with
    | nil => rfl
    | cons x r => simp [hr x (by simp)]
  unfold strtoul
  rw [List.takeWhile_append_of_pos hd, htake, List.append_nil, Nat.ofDigitChars_ten_toDigits,
    List.dropWhile_append_of_pos hd, hdrop]

/-! ## Reading back what was printed -/

section Printed

variable {c : Char} {ds r : List Char}

theorem isDigit_iff_toNat : c.isDigit = true ↔ 48 ≤ c.toNat ∧ c.toNat ≤ 57 := by
  simp only [Char.isDigit, Bool.and_eq_true, decide_eq_true_eq, ge_iff_le, UInt32.le_iff_toNat_le]
  rfl

theorem isSpace_of_isDigit (hc : c.isDigit = true) : isSpace c = false := by
  by_contra h
  simp only [Bool.not_eq_false, isSpace, Bool.or_eq_true, decide_eq_true_eq] at h
  rcases h with (((((rfl | rfl) | rfl) | rfl) | rfl) | rfl) <;> exact absurd hc (by decide)

theorem sign_of_ne (hm : c ≠ '-') (hp : c ≠ '+') (t : List Char) :
    sign (c :: t) = (false, c :: t) := by
  unfold sign
  split <;> simp_all

theorem sign_of_isDigit (hc : c.isDigit = true) (t : List Char) : sign (c :: t) = (false, c :: t) :=
  sign_of_ne (by rintro rfl; exact absurd hc (by decide)) (by rintro rfl; exact absurd hc (by decide)) t

theorem skipHexPrefix_of_ne {x : Char} (hx : x ≠ 'x') (hX : x ≠ 'X') (t : List Char) :
    skipHexPrefix (c :: x :: t) = c :: x :: t := by
  unfold skipHexPrefix
  split <;> simp_all

theorem digitVal_ten_of_isDigit (hc : c.isDigit = true) :
    digitVal 10 c = some (c.toNat - '0'.toNat) := by
  have h := isDigit_iff_toNat.1 hc
  simp only [digitVal, hc, if_true, Option.filter_some, decide_eq_true_eq]
  rw [if_pos (show c.toNat - '0'.toNat < 10 from by change c.toNat - 48 < 10; omega)]

theorem digitVal_ten_of_not_isDigit (hc : c.isDigit = false) : digitVal 10 c = none := by
  simp only [digitVal, hc, Bool.false_eq_true, if_false]
  split_ifs <;> simp

/-- The decimal digits at the head of a string, before a character that is not one. -/
theorem spanDigits_ten (hds : ∀ d ∈ ds, d.isDigit = true) (hr : NoDigitHead r) :
    spanDigits 10 (ds ++ r) = (ds.map (·.toNat - '0'.toNat), r) := by
  induction ds with
  | nil =>
    cases r with
    | nil => rfl
    | cons x r => simp [spanDigits, digitVal_ten_of_not_isDigit (hr x (by simp))]
  | cons d ds ih =>
    have hd := hds d (List.mem_cons_self ..)
    rw [List.cons_append, spanDigits, digitVal_ten_of_isDigit hd,
      ih fun x hx => hds x (List.mem_cons_of_mem d hx)]
    rfl

theorem foldl_digits_eq_ofDigitChars (ds : List Char) (init : ℕ) :
    (ds.map (·.toNat - '0'.toNat)).foldl (fun v d => 10 * v + d) init =
      Nat.ofDigitChars 10 ds init := by
  rw [List.foldl_map]
  rfl

theorem exists_toDigits_eq_cons (n : ℕ) :
    ∃ d ds, Nat.toDigits 10 n = d :: ds ∧ d.isDigit = true := by
  obtain ⟨d, ds, hds⟩ := List.exists_cons_of_ne_nil (Nat.toDigits_ne_nil (n := n) (b := 10))
  exact ⟨d, ds, hds, Nat.isDigit_of_mem_toDigits (by decide) (by decide)
    (hds ▸ List.mem_cons_self ..)⟩

/-- `strtol` reads a printed number that fits a `long` back, up to the text after it. -/
theorem strtol_toDigits {n : ℕ} (hn : n < 2 ^ 63) (hr : NoDigitHead r) :
    strtol (Nat.toDigits 10 n ++ r) = ((n : ℤ), r, false) := by
  have hdig : ∀ d ∈ Nat.toDigits 10 n, d.isDigit = true := fun d hd =>
    Nat.isDigit_of_mem_toDigits (by decide) (by decide) hd
  have htake : r.takeWhile Char.isDigit = [] := by
    cases r with
    | nil => rfl
    | cons x r => simp [hr x (by simp)]
  have hdrop : r.dropWhile Char.isDigit = r := by
    cases r with
    | nil => rfl
    | cons x r => simp [hr x (by simp)]
  obtain ⟨d, ds, hds, hd⟩ := exists_toDigits_eq_cons n
  have hsp : (Nat.toDigits 10 n ++ r).dropWhile isSpace = Nat.toDigits 10 n ++ r := by
    rw [hds, List.cons_append, List.dropWhile_cons, if_neg (by simp [isSpace_of_isDigit hd])]
  have hsign : sign (Nat.toDigits 10 n ++ r) = (false, Nat.toDigits 10 n ++ r) := by
    rw [hds, List.cons_append]
    exact sign_of_isDigit hd _
  unfold strtol
  rw [hsp, hsign]
  dsimp only
  rw [List.takeWhile_append_of_pos hdig, htake, List.append_nil, Nat.ofDigitChars_ten_toDigits,
    List.dropWhile_append_of_pos hdig, hdrop, if_neg (by simp [hds])]
  simp only [Bool.false_eq_true, if_false]
  rw [if_neg (by omega), if_neg (by omega)]

/-- A `%u` conversion reads a printed number back, up to the text after it. -/
theorem scanUnsigned_toDigits (n : ℕ) (hr : NoDigitHead r) :
    scanUnsigned 10 (Nat.toDigits 10 n ++ r) =
      some (if 2 ^ 64 ≤ n then 2 ^ 64 - 1 else n, r) := by
  have hdig : ∀ d ∈ Nat.toDigits 10 n, d.isDigit = true := fun d hd =>
    Nat.isDigit_of_mem_toDigits (by decide) (by decide) hd
  obtain ⟨d, ds, hds, hd⟩ := exists_toDigits_eq_cons n
  have hsp : (Nat.toDigits 10 n ++ r).dropWhile isSpace = Nat.toDigits 10 n ++ r := by
    rw [hds, List.cons_append, List.dropWhile_cons, if_neg (by simp [isSpace_of_isDigit hd])]
  have hsign : sign (Nat.toDigits 10 n ++ r) = (false, Nat.toDigits 10 n ++ r) := by
    rw [hds, List.cons_append]
    exact sign_of_isDigit hd _
  unfold scanUnsigned
  rw [hsp, hsign]
  dsimp only
  rw [if_neg (show (10 : ℕ) ≠ 16 by decide), spanDigits_ten hdig hr]
  dsimp only
  rw [foldl_digits_eq_ofDigitChars, Nat.ofDigitChars_ten_toDigits, if_neg (by simp [hds])]
  simp

theorem digitVal_digitChar {d : ℕ} (hd : d < 16) : digitVal 16 (Nat.digitChar d) = some d := by
  have key : ∀ d : Fin 16, digitVal 16 (Nat.digitChar d) = some d := by decide
  exact key ⟨d, hd⟩

/-- A `%x` conversion reads back two hex digits, before a character that is not one. -/
theorem scanUnsigned_hex {hi lo : ℕ} (hhi : hi < 16) (hlo : lo < 16)
    (hr : ∀ x ∈ r.head?, digitVal 16 x = none) :
    scanUnsigned 16 (Nat.digitChar hi :: Nat.digitChar lo :: r) = some (16 * hi + lo, r) := by
  have hchars : ∀ d : Fin 16, isSpace (Nat.digitChar d) = false ∧
      Nat.digitChar d ≠ '-' ∧ Nat.digitChar d ≠ '+' ∧ Nat.digitChar d ≠ 'x' ∧
      Nat.digitChar d ≠ 'X' := by decide
  obtain ⟨hsp, hm, hp, -, -⟩ := hchars ⟨hi, hhi⟩
  obtain ⟨-, -, -, hx, hX⟩ := hchars ⟨lo, hlo⟩
  have hsign := sign_of_ne hm hp (Nat.digitChar lo :: r)
  have hpre := skipHexPrefix_of_ne (c := Nat.digitChar hi) hx hX r
  have hspan : spanDigits 16 (Nat.digitChar hi :: Nat.digitChar lo :: r) = ([hi, lo], r) := by
    have hend : spanDigits 16 r = ([], r) := by
      cases r with
      | nil => rfl
      | cons x r => simp [spanDigits, hr x (by simp)]
    simp [spanDigits, digitVal_digitChar hhi, digitVal_digitChar hlo, hend]
  unfold scanUnsigned
  rw [List.dropWhile_cons, if_neg (by simp [hsp]), hsign]
  dsimp only
  rw [if_pos rfl, hpre, hspan]
  simp only [List.isEmpty_cons, Bool.false_eq_true, if_false, List.foldl_cons, List.foldl_nil]
  rw [if_neg (by omega)]
  simp

theorem sscanf_conv {base v : ℕ} {s t : List Char} (h : scanUnsigned base s = some (v, t))
    (fmt : List ScanItem) : sscanf (.conv base :: fmt) s = v :: sscanf fmt t := by
  simp [sscanf, h]

theorem sscanf_lit (c : Char) (fmt : List ScanItem) (s : List Char) :
    sscanf (.lit c :: fmt) (c :: s) = sscanf fmt s := by
  simp [sscanf]

/-- `strtok` takes a token without blanks that ends the text or a blank. -/
theorem strtokBlank_token {tok rest : List Char} (ht : tok ≠ []) (hb : ' ' ∉ tok)
    (hrest : rest = [] ∨ ∃ s, rest = ' ' :: s) :
    strtokBlank (tok ++ rest) = some (tok, rest.drop 1) := by
  obtain ⟨x, xs, rfl⟩ := List.exists_cons_of_ne_nil ht
  have hx : x ≠ ' ' := by
    rintro rfl
    exact hb (List.mem_cons_self ..)
  have hne : ∀ a ∈ x :: xs, decide (a ≠ ' ') = true := by
    intro a ha
    simp only [ne_eq, decide_eq_true_eq]
    rintro rfl
    exact hb ha
  have htake : rest.takeWhile (· ≠ ' ') = [] := by
    rcases hrest with rfl | ⟨s, rfl⟩ <;> simp
  have hdrop : rest.dropWhile (· ≠ ' ') = rest := by
    rcases hrest with rfl | ⟨s, rfl⟩ <;> simp
  unfold strtokBlank
  rw [List.cons_append, List.dropWhile_cons, if_neg (by simpa using hx)]
  simp only [← List.cons_append]
  rw [List.takeWhile_append_of_pos hne, htake, List.append_nil,
    List.dropWhile_append_of_pos hne, hdrop]

/-- `fgets` reads a line that fits its buffer, with its `\n`. -/
theorem fgetsLine_line {l : List Char} (hl : '\n' ∉ l) {k : ℕ} (hk : l.length < k)
    (f : List Char) : fgetsLine k (l ++ '\n' :: f) = (l ++ ['\n'], f) := by
  induction l generalizing k with
  | nil =>
    obtain ⟨k, rfl⟩ : ∃ k', k = k' + 1 := ⟨k - 1, by simp at hk; omega⟩
    simp [fgetsLine]
  | cons x l ih =>
    obtain ⟨k, rfl⟩ : ∃ k', k = k' + 1 := ⟨k - 1, by simp at hk; omega⟩
    have hx : x ≠ '\n' := fun h => hl (h ▸ List.mem_cons_self ..)
    rw [List.cons_append, fgetsLine, if_neg hx,
      ih (fun h => hl (List.mem_cons_of_mem x h)) (by simp at hk; omega)]
    rfl

theorem fgets_line {l : List Char} (hl : '\n' ∉ l) {n : ℕ} (hn : l.length + 1 < n)
    (f : List Char) : fgets n (l ++ '\n' :: f) = some (l ++ ['\n'], f) := by
  have h := fgetsLine_line hl (k := n - 1) (by omega) f
  cases l with
  | nil =>
    rw [List.nil_append] at h ⊢
    rw [fgets, h]
  | cons x l => rw [List.cons_append, fgets, ← List.cons_append, h]

end Printed

end CString
