import Mathlib

/-!
# Rings of slots indexed by free-running counters

A ring of `n` slots is read and written through 32-bit counters that run freely and select the
slot `x % n`. The slots from a tail counter on hold a queue in order (`window`). The lemmas say
how that window changes when a slot is written at either end of it, when the tail moves, and when
a window is copied into another ring. They need `n` to divide `2^32`, so that the slot of a counter
does not jump when the counter wraps.
-/

namespace Ring

variable {α : Type*} {n : Nat} [NeZero n]

/-- The slot `x % n` of the counter `x`. -/
def slot (x : UInt32) : Fin n := Fin.ofNat n x.toNat

/-- `buf[x % n] = a` -/
def write (buf : Fin n → α) (x : UInt32) (a : α) : Fin n → α := Function.update buf (slot x) a

/-- The `len` slots from the counter `x` on. -/
def window (buf : Fin n → α) (x : UInt32) : Nat → List α
  | 0 => []
  | len + 1 => buf (slot x) :: window buf (x + 1) len

/-- The copy loop `for (i = 0; i < k; i++) dst[i] = src[x++ % n]`. -/
def copy (dst src : Fin n → α) (x : UInt32) : Nat → (Fin n → α)
  | 0 => dst
  | k + 1 => write (copy dst src x k) (UInt32.ofNat k) (src (slot (x + UInt32.ofNat k)))

theorem one_add_ofNat (a : Nat) : 1 + UInt32.ofNat a = UInt32.ofNat (a + 1) := by
  rw [UInt32.ofNat_add, add_comm]; rfl

section
variable (buf : Fin n → α) (x : UInt32)

@[simp] theorem window_zero : window buf x 0 = [] := rfl

theorem window_succ (len : Nat) : window buf x (len + 1) = buf (slot x) :: window buf (x + 1) len :=
  rfl

@[simp] theorem length_window (len : Nat) : (window buf x len).length = len := by
  induction len generalizing x with
  | zero => rfl
  | succ len ih => simp [window_succ, ih]

theorem window_add (a b : Nat) :
    window buf x (a + b) = window buf x a ++ window buf (x + UInt32.ofNat a) b := by
  induction a generalizing x with
  | zero => simp
  | succ a ih =>
    rw [Nat.add_right_comm, window_succ, window_succ, ih, List.cons_append, add_assoc,
      one_add_ofNat]

theorem window_snoc (len : Nat) :
    window buf x (len + 1) = window buf x len ++ [buf (slot (x + UInt32.ofNat len))] := by
  rw [window_add]; rfl

theorem window_take {len k : Nat} (hk : k ≤ len) : (window buf x len).take k = window buf x k := by
  obtain ⟨m, rfl⟩ := Nat.exists_eq_add_of_le hk
  rw [window_add, List.take_left' (length_window _ _ _)]

theorem window_drop {len k : Nat} (hk : k ≤ len) :
    (window buf x len).drop k = window buf (x + UInt32.ofNat k) (len - k) := by
  obtain ⟨m, rfl⟩ := Nat.exists_eq_add_of_le hk
  rw [window_add, List.drop_left' (length_window _ _ _), Nat.add_sub_cancel_left]

theorem getElem_window {len i : Nat} (h : i < (window buf x len).length) :
    (window buf x len)[i] = buf (slot (x + UInt32.ofNat i)) := by
  induction len generalizing x i with
  | zero => simp at h
  | succ len ih =>
    cases i with
    | zero => simp [window_succ]
    | succ i =>
      simp only [window_succ, List.getElem_cons_succ]
      rw [ih, add_assoc, one_add_ofNat]

/-- A write outside a window leaves it as it was. -/
theorem window_write_of_ne {y : UInt32} {len : Nat} {a : α}
    (h : ∀ i < len, (slot (x + UInt32.ofNat i) : Fin n) ≠ slot y) :
    window (write buf y a) x len = window buf x len := by
  apply List.ext_getElem (by simp)
  intro i h1 _
  rw [getElem_window, getElem_window, write, Function.update_of_ne (h i (by simpa using h1))]

end

/-! ## Distances between counters -/

section
variable {h t : UInt32}

theorem add_ofNat_toNat_sub (h t : UInt32) : t + UInt32.ofNat (h - t).toNat = h := by
  rw [UInt32.ofNat_toNat, add_sub_cancel]

theorem toNat_succ_sub (hlt : (h - t).toNat + 1 < 2 ^ 32) : (h + 1 - t).toNat = (h - t).toNat + 1 := by
  rw [show h + 1 - t = (h - t) + 1 by abel, UInt32.toNat_add, UInt32.toNat_one, Nat.mod_eq_of_lt hlt]

theorem toNat_sub_pred (hlt : (h - t).toNat + 1 < 2 ^ 32) : (h - (t - 1)).toNat = (h - t).toNat + 1 := by
  rw [show h - (t - 1) = h + 1 - t by abel, toNat_succ_sub hlt]

theorem toNat_sub_succ (hpos : 0 < (h - t).toNat) : (h - (t + 1)).toNat = (h - t).toNat - 1 := by
  have h1 : (1 : UInt32) ≤ h - t := by rw [UInt32.le_iff_toNat_le]; exact hpos
  rw [show h - (t + 1) = (h - t) - 1 by abel, UInt32.toNat_sub_of_le _ _ h1, UInt32.toNat_one]

end

/-! ## Slots of nearby counters -/

section
variable (hn : n ∣ 2 ^ 32)
include hn

theorem slot_add (x : UInt32) (i : Nat) : (slot (x + UInt32.ofNat i) : Fin n) = Fin.ofNat n (x.toNat + i) := by
  apply Fin.ext
  simp only [slot, Fin.val_ofNat, UInt32.toNat_add, UInt32.toNat_ofNat']
  rw [Nat.mod_mod_of_dvd _ hn, Nat.add_mod, Nat.mod_mod_of_dvd _ hn, ← Nat.add_mod]

/-- Counters less than `n` apart select different slots. -/
theorem slot_add_ne {x : UInt32} {i j : Nat} (hi : i < n) (hj : j < n) (hij : i ≠ j) :
    (slot (x + UInt32.ofNat i) : Fin n) ≠ slot (x + UInt32.ofNat j) := by
  rw [slot_add hn, slot_add hn, ne_eq, Fin.ext_iff, Fin.val_ofNat, Fin.val_ofNat]
  intro h
  have := Nat.ModEq.add_left_cancel' x.toNat h
  rw [Nat.ModEq, Nat.mod_eq_of_lt hi, Nat.mod_eq_of_lt hj] at this
  exact hij this

/-- The slot before the counter `x` is the last of the `n` slots from `x` on. -/
theorem slot_sub_one (x : UInt32) : (slot (x - 1) : Fin n) = slot (x + UInt32.ofNat (n - 1)) := by
  rw [slot_add hn]
  apply Fin.ext
  obtain ⟨q, hq⟩ := hn
  have hn0 : 0 < n := Nat.pos_of_neZero n
  have hq0 : 0 < q := Nat.pos_of_ne_zero (by rintro rfl; simp at hq)
  have hsplit : n * q = n * (q - 1) + n := by
    rw [← Nat.mul_add_one, Nat.sub_add_cancel hq0]
  simp only [slot, Fin.val_ofNat, UInt32.toNat_sub, UInt32.toNat_one]
  rw [Nat.mod_mod_of_dvd _ (Dvd.intro q hq.symm), hq, hsplit,
    show n * (q - 1) + n - 1 + x.toNat = x.toNat + (n - 1) + n * (q - 1) by omega,
    Nat.add_mul_mod_self_left]

variable (buf : Fin n → α) (x : UInt32) (a : α)

/-- A write just past the end of a window that is not full extends it. -/
theorem window_write_end {len : Nat} (hlen : len < n) :
    window (write buf (x + UInt32.ofNat len) a) x (len + 1) = window buf x len ++ [a] := by
  rw [window_snoc, window_write_of_ne, write, Function.update_self]
  intro i hi
  exact slot_add_ne hn (by omega) hlen (by omega)

/-- A write just before the start of a window that is not full extends it at the front. -/
theorem window_write_front {len : Nat} (hlen : len < n) :
    window (write buf (x - 1) a) (x - 1) (len + 1) = a :: window buf x len := by
  rw [window_succ, write, Function.update_self, sub_add_cancel, ← write, window_write_of_ne]
  intro i hi
  rw [slot_sub_one hn]
  exact slot_add_ne hn (by omega) (by omega) (by omega)

/-- A full window ends in the slot before its start. -/
theorem window_full : window buf x n = window buf x (n - 1) ++ [buf (slot (x - 1))] := by
  rw [slot_sub_one hn, ← window_snoc, Nat.sub_add_cancel (Nat.pos_of_neZero n)]

/-- A write before the start of a full window overwrites its last slot. -/
theorem window_write_front_full :
    window (write buf (x - 1) a) (x - 1) n = a :: window buf x (n - 1) := by
  have h := window_write_front hn buf x a (Nat.sub_lt (Nat.pos_of_neZero n) Nat.one_pos)
  rwa [Nat.sub_add_cancel (Nat.pos_of_neZero n)] at h

/-- The copy loop moves a window to the front slots of another ring. -/
theorem window_copy (dst src : Fin n → α) {k : Nat} (hk : k ≤ n) :
    window (copy dst src x k) 0 k = window src x k := by
  induction k with
  | zero => rfl
  | succ k ih =>
    have h := window_write_end hn (copy dst src x k) 0 (src (slot (x + UInt32.ofNat k)))
      (show k < n by omega)
    rw [zero_add] at h
    rw [copy, h, ih (by omega), window_snoc]

end

end Ring
