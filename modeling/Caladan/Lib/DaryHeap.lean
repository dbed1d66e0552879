import Mathlib

/-!
# Heap order on arrays of any arity

An array `a : Nat → α` holds a `d`-ary min-heap on `key` in its first `n` slots when no node's
key is below its parent's; node `j > 0` has parent `(j - 1) / d`, so the children of `i` are the
slots `d * i + 1` to `d * i + d`.

A heap whose slot `i` was overwritten (`Hole`) may be out of order at the edges of `i` only, and
the two sifts repair it from there: sifting up keeps `UpReady` (only the edge into `i` may be out
of order) and sifting down keeps `DownReady` (only the edges out of `i`); each swap moves the
state one level, and the sift stops where `i` is in order. Beside the array, a position map `pos`
gives the slot of the handle `hd x` of every value (`Positions`), and the writes of a swap keep
it.
-/

namespace DaryHeap

section Order
variable {α β : Type*} [LinearOrder β] (key : α → β) (d : Nat)

/-- The parent of node `j`. -/
def parent (d j : Nat) : Nat := (j - 1) / d

theorem parent_lt {j : Nat} (hj : 0 < j) : parent d j < j := by
  have := Nat.div_le_self (j - 1) d
  unfold parent
  omega

/-- The children of `i` are the slots `d * i + 1` to `d * i + d`. -/
theorem parent_eq_iff (hd : 0 < d) {i j : Nat} (hj : 0 < j) :
    parent d j = i ↔ d * i + 1 ≤ j ∧ j ≤ d * i + d := by
  rw [parent, Nat.div_eq_iff hd, Nat.mul_comm i d]
  omega

/-- `a[0..n)` is a min-heap on `key`. -/
def Ordered (a : Nat → α) (n : Nat) : Prop :=
  ∀ j < n, 0 < j → key (a (parent d j)) ≤ key (a j)

instance (a : Nat → α) (n : Nat) : Decidable (Ordered key d a n) :=
  inferInstanceAs (Decidable (∀ j < n, 0 < j → key (a (parent d j)) ≤ key (a j)))

/-- A heap whose slot `i` holds any value: out of order at most at the edges of `i`, with the
parent of `i` no greater than the children of `i`. -/
structure Hole (a : Nat → α) (n i : Nat) : Prop where
  lt : i < n
  edge : ∀ j < n, 0 < j → j ≠ i → parent d j ≠ i → key (a (parent d j)) ≤ key (a j)
  grand : ∀ j < n, 0 < j → parent d j = i → 0 < i → key (a (parent d i)) ≤ key (a j)

/-- Only the edge into `i` may be out of order. -/
structure UpReady (a : Nat → α) (n i : Nat) : Prop extends Hole key d a n i where
  down : ∀ j < n, 0 < j → parent d j = i → key (a i) ≤ key (a j)

/-- Only the edges out of `i` may be out of order. -/
structure DownReady (a : Nat → α) (n i : Nat) : Prop extends Hole key d a n i where
  up : 0 < i → key (a (parent d i)) ≤ key (a i)

variable {key d} {a : Nat → α} {n i : Nat}

/-- The root holds a least key. -/
theorem Ordered.root_le (h : Ordered key d a n) : ∀ j < n, key (a 0) ≤ key (a j) := by
  intro j
  induction j using Nat.strong_induction_on with
  | _ j ih =>
    intro hj
    rcases Nat.eq_zero_or_pos j with rfl | hpos
    · exact le_rfl
    · have hp := parent_lt d hpos
      exact (ih _ hp (hp.trans hj)).trans (h j hj hpos)

theorem Ordered.mono {m : Nat} (h : Ordered key d a n) (hm : m ≤ n) : Ordered key d a m :=
  fun j hj => h j (lt_of_lt_of_le hj hm)

theorem Ordered.downReady (h : Ordered key d a n) (hi : i < n) : DownReady key d a n i where
  lt := hi
  edge j hj hpos _ _ := h j hj hpos
  grand j hj hpos hp hi0 := (h i hi hi0).trans (hp ▸ h j hj hpos)
  up hi0 := h i hi hi0

/-- Any value written to slot `k` of a heap leaves a hole there. -/
theorem Ordered.hole_update {m k : Nat} (h : Ordered key d a n) (hk : k < m) (hm : m ≤ n) (x : α) :
    Hole key d (Function.update a k x) m k where
  lt := hk
  edge j hj hpos hjk hpk := by
    rw [Function.update_of_ne hjk, Function.update_of_ne hpk]
    exact h j (by omega) hpos
  grand j hj hpos hp hk0 := by
    have hjk : j ≠ k := fun hjk => by have := parent_lt d hpos; omega
    rw [Function.update_of_ne hjk, Function.update_of_ne (parent_lt d hk0).ne]
    exact (h k (by omega) hk0).trans (hp ▸ h j (by omega) hpos)

/-- A value appended to a heap may be out of order only with its parent. -/
theorem Ordered.push (h : Ordered key d a n) (x : α) :
    UpReady key d (Function.update a n x) (n + 1) n where
  lt := Nat.lt_succ_self n
  edge j hj hpos hjn _ := by
    have hpj := parent_lt d hpos
    rw [Function.update_of_ne hjn, Function.update_of_ne (by omega)]
    exact h j (by omega) hpos
  grand j hj hpos hp _ := by
    have := parent_lt d hpos
    omega
  down j hj hpos hp := by
    have := parent_lt d hpos
    omega

/-- A value no greater than the one it replaces, at a slot of the heap: only the edge into the
slot may be out of order. -/
theorem Ordered.upReady_update (h : Ordered key d a n) (hi : i < n) {x : α}
    (hx : key x ≤ key (a i)) : UpReady key d (Function.update a i x) n i where
  toHole := h.hole_update hi le_rfl x
  down j hj hpos hpj := by
    have hji : j ≠ i := fun hji => (parent_lt d hpos).ne (hpj.trans hji.symm)
    rw [Function.update_self, Function.update_of_ne hji]
    exact hx.trans (hpj ▸ h j hj hpos)

/-- The order of the first `n` slots reads only those slots. -/
theorem Ordered.congr {b : Nat → α} (h : Ordered key d a n) (hab : ∀ j < n, a j = b j) :
    Ordered key d b n := by
  intro j hj hpos
  rw [← hab j hj, ← hab _ ((parent_lt d hpos).trans hj)]
  exact h j hj hpos

theorem UpReady.congr {b : Nat → α} (h : UpReady key d a n i) (hab : ∀ j < n, a j = b j) :
    UpReady key d b n i where
  lt := h.lt
  edge j hj hpos hji hpj := by
    rw [← hab j hj, ← hab _ ((parent_lt d hpos).trans hj)]
    exact h.edge j hj hpos hji hpj
  grand j hj hpos hpj hi := by
    rw [← hab j hj, ← hab _ ((parent_lt d hi).trans h.lt)]
    exact h.grand j hj hpos hpj hi
  down j hj hpos hpj := by
    rw [← hab j hj, ← hab i h.lt]
    exact h.down j hj hpos hpj

theorem UpReady.ordered (h : UpReady key d a n i)
    (hup : 0 < i → key (a (parent d i)) ≤ key (a i)) : Ordered key d a n := by
  intro j hj hpos
  by_cases hji : j = i
  · subst hji
    exact hup hpos
  by_cases hpi : parent d j = i
  · exact hpi ▸ h.down j hj hpos hpi
  · exact h.edge j hj hpos hji hpi

theorem DownReady.ordered (h : DownReady key d a n i)
    (hdown : ∀ j < n, 0 < j → parent d j = i → key (a i) ≤ key (a j)) : Ordered key d a n := by
  intro j hj hpos
  by_cases hji : j = i
  · subst hji
    exact h.up hpos
  by_cases hpi : parent d j = i
  · exact hpi ▸ hdown j hj hpos hpi
  · exact h.edge j hj hpos hji hpi

/-- Swapping a node that is below its parent with the parent moves the hole one level up. -/
theorem Hole.swap_up (h : Hole key d a n i) (hi : 0 < i)
    (hlt : key (a i) < key (a (parent d i))) :
    UpReady key d (a ∘ Equiv.swap i (parent d i)) n (parent d i) := by
  set p := parent d i with hp_def
  have hpi : p < i := parent_lt d hi
  have hpn : p < n := hpi.trans h.lt
  have hswap_i : (a ∘ Equiv.swap i p) i = a p := by simp
  have hswap_p : (a ∘ Equiv.swap i p) p = a i := by simp
  have hswap_of {j : Nat} (hji : j ≠ i) (hjp : j ≠ p) : (a ∘ Equiv.swap i p) j = a j := by
    simp [Equiv.swap_apply_of_ne_of_ne hji hjp]
  -- the parent's edge, which no swap below it touches
  have hpp : 0 < p → key (a (parent d p)) ≤ key (a p) := fun hp0 =>
    h.edge p hpn hp0 hpi.ne ((parent_lt d hp0).trans hpi).ne
  refine ⟨⟨hpn, ?_, ?_⟩, ?_⟩
  · intro j hj hpos hjp hpj
    have hji : j ≠ i := fun hji => hpj (hji ▸ rfl)
    rw [hswap_of hji hjp]
    by_cases hpji : parent d j = i
    · rw [hpji, hswap_i]
      exact h.grand j hj hpos hpji hi
    · rw [hswap_of hpji hpj]
      exact h.edge j hj hpos hji hpji
  · intro j hj hpos hpj hp0
    have hppi : parent d p ≠ i := ((parent_lt d hp0).trans hpi).ne
    have hppp : parent d p ≠ p := (parent_lt d hp0).ne
    rw [hswap_of hppi hppp]
    by_cases hji : j = i
    · rw [hji, hswap_i]
      exact hpp hp0
    · have hjp : j ≠ p := fun hjp => (parent_lt d hpos).ne (hpj.trans hjp.symm)
      rw [hswap_of hji hjp]
      exact (hpp hp0).trans (hpj ▸ h.edge j hj hpos hji (hpj ▸ hpi.ne))
  · intro j hj hpos hpj
    rw [hswap_p]
    by_cases hji : j = i
    · rw [hji, hswap_i]
      exact hlt.le
    · have hjp : j ≠ p := fun hjp => (parent_lt d hpos).ne (hpj.trans hjp.symm)
      rw [hswap_of hji hjp]
      exact hlt.le.trans (hpj ▸ h.edge j hj hpos hji (hpj ▸ hpi.ne))

/-- Swapping a node with its least child, when that child is below it, moves the hole one level
down. -/
theorem DownReady.swap_down (h : DownReady key d a n i) {c : Nat} (hc : c < n) (hcpos : 0 < c)
    (hpc : parent d c = i) (hlt : key (a c) < key (a i))
    (hmin : ∀ j < n, 0 < j → parent d j = i → key (a c) ≤ key (a j)) :
    DownReady key d (a ∘ Equiv.swap i c) n c := by
  have hic : i < c := hpc ▸ parent_lt d hcpos
  have hswap_i : (a ∘ Equiv.swap i c) i = a c := by simp
  have hswap_c : (a ∘ Equiv.swap i c) c = a i := by simp
  have hswap_of {j : Nat} (hji : j ≠ i) (hjc : j ≠ c) : (a ∘ Equiv.swap i c) j = a j := by
    simp [Equiv.swap_apply_of_ne_of_ne hji hjc]
  refine ⟨⟨hc, ?_, ?_⟩, ?_⟩
  · intro j hj hpos hjc hpjc
    by_cases hji : j = i
    · -- the least child moved up to `i`, below the parent of `i`
      subst hji
      have hpi := parent_lt d hpos
      rw [hswap_i, hswap_of hpi.ne (by omega)]
      exact h.grand c hc hcpos hpc hpos
    · rw [hswap_of hji hjc]
      by_cases hpji : parent d j = i
      · rw [hpji, hswap_i]
        exact hmin j hj hpos hpji
      · rw [hswap_of hpji hpjc]
        exact h.edge j hj hpos hji hpji
  · intro j hj hpos hpj _
    have hcj : c < j := hpj ▸ parent_lt d hpos
    rw [hpc, hswap_i, hswap_of (by omega) (by omega)]
    exact hpj ▸ h.edge j hj hpos (by omega) (by omega)
  · intro _
    rw [hpc, hswap_i, hswap_c]
    exact hlt.le

end Order

section Contents
variable {α : Type*} {a : Nat → α} {n i j k : Nat}

/-- The values in the first `n` slots. -/
def contents (a : Nat → α) (n : Nat) : Multiset α := (Multiset.range n).map a

@[simp]
theorem contents_zero : contents a 0 = 0 := rfl

theorem contents_succ : contents a (n + 1) = a n ::ₘ contents a n := by
  simp [contents, Multiset.range_succ]

theorem mem_contents {x : α} : x ∈ contents a n ↔ ∃ j < n, a j = x := by
  simp [contents]

theorem contents_congr {b : Nat → α} (h : ∀ j < n, a j = b j) : contents a n = contents b n :=
  Multiset.map_congr rfl fun j hj => h j (Multiset.mem_range.1 hj)

theorem range_map_swap (hi : i < n) (hj : j < n) :
    (Multiset.range n).map (Equiv.swap i j) = Multiset.range n := by
  have hlt : ∀ x < n, Equiv.swap i j x < n := fun x hx => by
    rw [Equiv.swap_apply_def]
    split_ifs <;> omega
  refine (Multiset.Nodup.ext ((Multiset.nodup_range n).map (Equiv.swap i j).injective)
    (Multiset.nodup_range n)).2 fun x => ?_
  simp only [Multiset.mem_map, Multiset.mem_range]
  constructor
  · rintro ⟨y, hy, rfl⟩
    exact hlt y hy
  · intro hx
    exact ⟨Equiv.swap i j x, hlt x hx, Equiv.swap_apply_self i j x⟩

theorem contents_swap (hi : i < n) (hj : j < n) : contents (a ∘ Equiv.swap i j) n = contents a n := by
  rw [contents, ← Multiset.map_map, range_map_swap hi hj, contents]

theorem contents_update_last (x : α) : contents (Function.update a n x) (n + 1) = x ::ₘ contents a n := by
  rw [contents_succ, Function.update_self]
  exact congrArg _ (contents_congr fun j hj => Function.update_of_ne hj.ne _ _)

/-- Moving the last value into slot `k` and dropping the last slot drops the value of `k`. -/
theorem contents_fill (hk : k < n) :
    a k ::ₘ contents (Function.update a k (a n)) n = contents a (n + 1) := by
  have hswap : contents (Function.update a k (a n)) n = contents (a ∘ Equiv.swap k n) n :=
    contents_congr fun j hj => by
      rcases eq_or_ne j k with rfl | hjk
      · simp
      · simp [Function.update_of_ne hjk, Equiv.swap_apply_of_ne_of_ne hjk hj.ne]
  rw [hswap, ← contents_swap (a := a) (Nat.lt_succ_of_lt hk) (Nat.lt_succ_self n), contents_succ]
  simp

end Contents

section Positions
variable {α κ : Type*} (hd : α → κ)

/-- `pos` gives the slot of the handle of every value in the first `n` slots. -/
def Positions (a : Nat → α) (pos : κ → Nat) (n : Nat) : Prop := ∀ j < n, pos (hd (a j)) = j

variable {hd} {a : Nat → α} {pos : κ → Nat} {n i j k : Nat}

/-- The handles in the first `n` slots are distinct. -/
theorem Positions.inj (h : Positions hd a pos n) (hi : i < n) (hj : j < n)
    (he : hd (a i) = hd (a j)) : i = j := by
  rw [← h i hi, ← h j hj, he]

/-- Each handle stands at most once in the first `n` slots. -/
theorem Positions.nodup (h : Positions hd a pos n) : ((contents a n).map hd).Nodup := by
  rw [contents, Multiset.map_map]
  refine (Multiset.nodup_range n).map_on fun i hi j hj he => ?_
  exact h.inj (Multiset.mem_range.1 hi) (Multiset.mem_range.1 hj) he

theorem Positions.mono {m : Nat} (h : Positions hd a pos n) (hm : m ≤ n) : Positions hd a pos m :=
  fun j hj => h j (lt_of_lt_of_le hj hm)

variable [DecidableEq κ]

/-- The two writes of a swap of slots `i` and `j`, each with the position of the value it moves. -/
theorem update_update_swap :
    Function.update (Function.update a i (a j)) j (a i) = a ∘ Equiv.swap i j := by
  funext m
  rw [Function.comp_apply, Equiv.swap_apply_def]
  by_cases hmj : m = j
  · subst hmj
    simp only [Function.update_self]
    split_ifs with hmi <;> simp [hmi]
  · rw [Function.update_of_ne hmj]
    by_cases hmi : m = i
    · simp [hmi]
    · simp [hmi, hmj]

theorem Positions.swap (h : Positions hd a pos n) (hi : i < n) (hj : j < n) :
    Positions hd (a ∘ Equiv.swap i j)
      (Function.update (Function.update pos (hd (a j)) i) (hd (a i)) j) n := by
  intro m hm
  rcases eq_or_ne m i with rfl | hmi
  · simp only [Function.comp_apply, Equiv.swap_apply_left]
    by_cases he : hd (a j) = hd (a m)
    · rw [he, Function.update_self, h.inj hj hi he]
    · rw [Function.update_of_ne he, Function.update_self]
  rcases eq_or_ne m j with rfl | hmj
  · simp
  · have hi' : hd (a m) ≠ hd (a i) := fun he => hmi (h.inj hm hi he)
    have hj' : hd (a m) ≠ hd (a j) := fun he => hmj (h.inj hm hj he)
    simp only [Function.comp_apply, Equiv.swap_apply_of_ne_of_ne hmi hmj]
    rw [Function.update_of_ne hi', Function.update_of_ne hj', h m hm]

/-- A value appended with a new handle, and its position. -/
theorem Positions.push (h : Positions hd a pos n) (x : α) (hx : ∀ j < n, hd (a j) ≠ hd x) :
    Positions hd (Function.update a n x) (Function.update pos (hd x) n) (n + 1) := by
  intro m hm
  rcases Nat.lt_succ_iff_lt_or_eq.1 hm with hm | rfl
  · rw [Function.update_of_ne hm.ne, Function.update_of_ne (hx m hm), h m hm]
  · simp

/-- The last value moved into slot `k`, with its position. -/
theorem Positions.fill (h : Positions hd a pos (n + 1)) (hk : k < n) :
    Positions hd (Function.update a k (a n)) (Function.update pos (hd (a n)) k) n := by
  intro m hm
  rcases eq_or_ne m k with rfl | hmk
  · simp
  · have hne : hd (a m) ≠ hd (a n) := fun he => hm.ne (h.inj (by omega) (by omega) he)
    rw [Function.update_of_ne hmk, Function.update_of_ne hne, h m (by omega)]

end Positions

end DaryHeap
