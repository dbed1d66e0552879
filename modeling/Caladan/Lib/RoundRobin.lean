import Mathlib

/-!
# Round-robin tables

A table over the indices below `n` that sends each index where `p` holds to itself and deals the
others out over those, in order: the `r`-th index where `p` fails goes to the `(r mod m)`-th of
the `m` indices where `p` holds. Two loops build such a table in an array: `keep` writes the
entries of the indices where `p` holds and lists them, `deal` writes the others from that list
with a position that wraps at its length.
-/

namespace RoundRobin

/-- The indices below `n` where `p` holds, in order. -/
def holders (p : ℕ → Bool) (n : ℕ) : List ℕ := (List.range n).filter p

/-- How many indices below `i` fail `p`. -/
def rank (p : ℕ → Bool) (i : ℕ) : ℕ := (holders (fun j => !p j) i).length

/-- The table's entry for `i`. -/
def assign (p : ℕ → Bool) (n i : ℕ) : ℕ :=
  if p i then i else (holders p n).getD (rank p i % (holders p n).length) 0

/-- One round of the first loop: `f[i] = i; a[c++] = i`. -/
def keep (acc : (ℕ → ℕ) × (ℕ → ℕ) × ℕ) (i : ℕ) : (ℕ → ℕ) × (ℕ → ℕ) × ℕ :=
  (Function.update acc.1 i i, Function.update acc.2.1 acc.2.2 i, acc.2.2 + 1)

/-- One round of the second loop: `f[i] = a[pos++]`, and `pos` back to `0` at `m`. -/
def deal (a : ℕ → ℕ) (m : ℕ) (acc : (ℕ → ℕ) × ℕ) (i : ℕ) : (ℕ → ℕ) × ℕ :=
  (Function.update acc.1 i (a acc.2), if acc.2 + 1 = m then 0 else acc.2 + 1)

variable {p : ℕ → Bool} {n i : ℕ}

@[simp]
theorem mem_holders : i ∈ holders p n ↔ i < n ∧ p i = true := by
  simp [holders]

theorem holders_eq_nil_iff : holders p n = [] ↔ ∀ i < n, p i = false := by
  simp [holders, List.filter_eq_nil_iff]

theorem holders_succ (p : ℕ → Bool) (n : ℕ) :
    holders p (n + 1) = holders p n ++ if p n then [n] else [] := by
  simp only [holders, List.range_succ, List.filter_append, List.filter_singleton]
  cases p n <;> rfl

theorem getD_append_singleton (l : List ℕ) (x q : ℕ) (d : ℕ → ℕ) :
    (l ++ [x]).getD q (d q) = Function.update (fun q => l.getD q (d q)) l.length x q := by
  rw [Function.update_apply]
  rcases lt_trichotomy q l.length with h | rfl | h
  · rw [List.getD_append _ _ _ _ h, if_neg h.ne]
  · simp
  · rw [if_neg h.ne', List.getD_eq_default _ _ (by simp; omega), List.getD_eq_default _ _ h.le]

theorem add_one_mod_eq_ite {c m : ℕ} (hm : 0 < m) :
    (c + 1) % m = if c % m + 1 = m then 0 else c % m + 1 := by
  have hdiv := Nat.mod_add_div c m
  split_ifs with h
  · rw [show c + 1 = m * (c / m + 1) by rw [Nat.mul_add]; omega, Nat.mul_mod_right]
  · have hlt : c % m + 1 < m := lt_of_le_of_ne (Nat.mod_lt c hm) h
    rw [show c + 1 = (c % m + 1) + m * (c / m) by omega, Nat.add_mul_mod_self_left,
      Nat.mod_eq_of_lt hlt]

/-- The first loop over the holders below `n`: their entries are their own indices, and the
list holds them in order. -/
theorem foldl_keep (p : ℕ → Bool) (n : ℕ) (f a : ℕ → ℕ) :
    (holders p n).foldl keep (f, a, 0) =
      (fun j => if j < n ∧ p j then j else f j, fun q => (holders p n).getD q (a q),
        (holders p n).length) := by
  induction n with
  | zero => simp [holders]
  | succ n ih =>
    rw [holders_succ, List.foldl_append, ih]
    cases hn : p n
    · simp only [Bool.false_eq_true, if_false, List.foldl_nil, List.append_nil]
      refine Prod.ext (funext fun j => ?_) rfl
      by_cases hj : j = n
      · simp [hj, hn]
      · simp only [show j < n + 1 ↔ j < n by omega]
    · simp only [if_true, List.foldl_cons, List.foldl_nil, keep, List.length_append,
        List.length_singleton]
      refine Prod.ext (funext fun j => ?_) (Prod.ext (funext fun q => ?_) rfl) <;> dsimp only
      · rw [Function.update_apply]
        by_cases hj : j = n
        · simp [hj, hn]
        · simp only [hj, if_false, show j < n + 1 ↔ j < n by omega]
      · rw [getD_append_singleton]

/-- The second loop over the indices below `n` where `p` holds: the `r`-th gets `a (r mod m)`. -/
theorem foldl_deal (p : ℕ → Bool) (n : ℕ) (a : ℕ → ℕ) {m : ℕ} (hm : 0 < m) (g : ℕ → ℕ) :
    (holders p n).foldl (deal a m) (g, 0) =
      (fun j => if j < n ∧ p j then a ((holders p j).length % m) else g j,
        (holders p n).length % m) := by
  induction n with
  | zero => simp [holders]
  | succ n ih =>
    rw [holders_succ, List.foldl_append, ih]
    cases hn : p n
    · simp only [Bool.false_eq_true, if_false, List.foldl_nil, List.append_nil]
      refine Prod.ext (funext fun j => ?_) rfl
      by_cases hj : j = n
      · simp [hj, hn]
      · simp only [show j < n + 1 ↔ j < n by omega]
    · simp only [if_true, List.foldl_cons, List.foldl_nil, deal, List.length_append,
        List.length_singleton]
      refine Prod.ext (funext fun j => ?_) (add_one_mod_eq_ite hm).symm
      dsimp only
      rw [Function.update_apply]
      by_cases hj : j = n
      · simp [hj, hn]
      · simp only [hj, if_false, show j < n + 1 ↔ j < n by omega]

/-- `keep` over the holders and then `deal` over the others leave the table below `n`, whatever
the arrays held before. -/
theorem foldl_deal_keep (p : ℕ → Bool) (n : ℕ) (f a : ℕ → ℕ) (hpos : holders p n ≠ [])
    {j : ℕ} (hj : j < n) :
    ((holders (fun j => !p j) n).foldl
        (deal ((holders p n).foldl keep (f, a, 0)).2.1 ((holders p n).foldl keep (f, a, 0)).2.2)
        (((holders p n).foldl keep (f, a, 0)).1, 0)).1 j = assign p n j := by
  have hm : 0 < (holders p n).length := List.length_pos_iff.mpr hpos
  rw [foldl_keep]
  dsimp only
  rw [foldl_deal _ _ _ hm]
  unfold assign rank
  cases hp : p j
  · -- an index where `p` fails: the default of either lookup is never read
    have hr := Nat.mod_lt (holders (fun j => !p j) j).length hm
    simp only [hj, hp, Bool.not_false, and_self, if_true, Bool.false_eq_true, if_false]
    rw [List.getD_eq_getElem _ _ hr, List.getD_eq_getElem _ _ hr]
  · simp [hj, hp]

/-- Every entry below `n` is an index below `n` where `p` holds. -/
theorem assign_mem_holders (hpos : holders p n ≠ []) (hi : i < n) : assign p n i ∈ holders p n := by
  unfold assign
  cases hp : p i
  · have hr := Nat.mod_lt (rank p i) (List.length_pos_iff.mpr hpos)
    simp only [Bool.false_eq_true, if_false]
    rw [List.getD_eq_getElem _ _ hr]
    exact List.getElem_mem hr
  · simp [hi, hp]

end RoundRobin
