import Mathlib
import Caladan.Runtime.Timer

/-!
# The timer heap

Every operation on a kthread's timers keeps the used slots a 4-ary min-heap on the deadlines, in
every interleaving of the softirq thread with other threads (`timerRun_ordered`), so the debug
check `is_valid_heap` never fires (`timerRun_valid_heap`). The sifts are proved correct from the
heap states of `DaryHeap`: `sift_up` takes a hole to a state that only `sift_down` may still need
to repair, and each pass of either is one swap, which keeps the positions and the multiset of the
heap's values. The order does not rest on the entries' recorded slots: `timer_cancel` sifts from
whatever slot the entry records, inside the heap or past it.

The entries' bookkeeping does rest on the softirq clearing `armed` in the same critical section as
the pop, which it does not. A `timer_cancel` of an entry the softirq has popped, before the softirq
clears its `armed`, reads the entry's stale slot `0` and takes out another timer
(`timerCancel_during_expiry`).
-/

namespace Caladan
open DaryHeap

variable {E : Type} [DecidableEq E]

/-- The order of the heap: the deadline as a number. -/
def TimerIdx.key (t : TimerIdx E) : Nat := t.deadlineUs.toNat

namespace TimerHeap

/-- The values in the heap. -/
def contents (s : TimerHeap E) : Multiset (TimerIdx E) := DaryHeap.contents s.timers s.timern

@[simp] theorem setTimer_timern (s : TimerHeap E) (i : Nat) (t : TimerIdx E) :
    (s.setTimer i t).timern = s.timern := rfl

@[simp] theorem setTimer_armed (s : TimerHeap E) (i : Nat) (t : TimerIdx E) :
    (s.setTimer i t).armed = s.armed := rfl

/-- The heap with slots `i` and `j` swapped, each entry recording its new slot. -/
def swapSlots (s : TimerHeap E) (i j : Nat) : TimerHeap E :=
  { s with timers := s.timers ∘ Equiv.swap i j,
           idx := Function.update (Function.update s.idx (s.timers j).e i) (s.timers i).e j }

@[simp] theorem swapSlots_timern (s : TimerHeap E) (i j : Nat) : (s.swapSlots i j).timern = s.timern :=
  rfl

@[simp] theorem swapSlots_armed (s : TimerHeap E) (i j : Nat) : (s.swapSlots i j).armed = s.armed :=
  rfl

theorem swapSlots_timers_right (s : TimerHeap E) (i j : Nat) : (s.swapSlots i j).timers j = s.timers i := by
  simp [swapSlots]

/-- The two writes of a pass of either sift, from slot `i` holding `tmp` to slot `j`, swap the
two slots. -/
theorem setTimer_pass {tmp : TimerIdx E} (s : TimerHeap E) {i j : Nat} (hi : s.timers i = tmp) :
    (s.setTimer i (s.timers j)).setTimer j tmp = s.swapSlots i j := by
  subst hi
  simp only [setTimer, swapSlots, update_update_swap]

/-- A swap within the heap keeps the positions of its entries. -/
theorem Positions.swapSlots {s : TimerHeap E} {n i j : Nat}
    (h : Positions TimerIdx.e s.timers s.idx n) (hi : i < n) (hj : j < n) :
    Positions TimerIdx.e (s.swapSlots i j).timers (s.swapSlots i j).idx n :=
  h.swap hi hj

/-- A swap leaves the slot of an entry that neither slot holds as it was. -/
theorem swapSlots_idx_of_ne {f : E} (s : TimerHeap E) {i j : Nat} (hi : (s.timers i).e ≠ f)
    (hj : (s.timers j).e ≠ f) : (s.swapSlots i j).idx f = s.idx f := by
  simp only [swapSlots]
  rw [Function.update_of_ne hi.symm, Function.update_of_ne hj.symm]

/-- A swap within the first `n` slots keeps an entry out of them. -/
theorem absent_swapSlots {f : E} {s : TimerHeap E} {n i j : Nat} (hi : i < n) (hj : j < n)
    (hf : ∀ k < n, (s.timers k).e ≠ f) : ∀ k < n, ((s.swapSlots i j).timers k).e ≠ f := by
  intro k hk
  simp only [swapSlots, Function.comp_apply, Equiv.swap_apply_def]
  split_ifs
  exacts [hf j hj, hf i hi, hf k hk]

end TimerHeap

section Sift
variable {tmp : TimerIdx E} {n : Nat}

/-! ### `sift_up` -/

/-- `sift_up` changes only the array and the entries' slots. -/
theorem siftUpLoop_frame : ∀ (fuel : Nat) (s : TimerHeap E) (i : Nat),
    ∃ a p, siftUpLoop tmp fuel s i = { s with timers := a, idx := p }
  | 0, s, _ => ⟨s.timers, s.idx, rfl⟩
  | fuel + 1, s, i => by
    rw [siftUpLoop]
    dsimp only
    split_ifs
    · exact ⟨s.timers, s.idx, rfl⟩
    · obtain ⟨a, p, h⟩ := siftUpLoop_frame fuel ((s.setTimer i (s.timers ((i - 1) / timerD))).setTimer
        ((i - 1) / timerD) tmp) ((i - 1) / timerD)
      exact ⟨a, p, h⟩
    · exact ⟨s.timers, s.idx, rfl⟩

@[simp] theorem siftUpLoop_timern (fuel : Nat) (s : TimerHeap E) (i : Nat) :
    (siftUpLoop tmp fuel s i).timern = s.timern := by
  obtain ⟨a, p, h⟩ := @siftUpLoop_frame _ _ tmp fuel s i
  rw [h]

@[simp] theorem siftUpLoop_armed (fuel : Nat) (s : TimerHeap E) (i : Nat) :
    (siftUpLoop tmp fuel s i).armed = s.armed := by
  obtain ⟨a, p, h⟩ := @siftUpLoop_frame _ _ tmp fuel s i
  rw [h]

/-- `sift_up` only swaps slots in the heap: it keeps the positions and the values. -/
theorem siftUpLoop_tracked : ∀ (fuel : Nat) (s : TimerHeap E) (i : Nat), i < n →
    s.timers i = tmp → Positions TimerIdx.e s.timers s.idx n →
    Positions TimerIdx.e (siftUpLoop tmp fuel s i).timers (siftUpLoop tmp fuel s i).idx n ∧
      DaryHeap.contents (siftUpLoop tmp fuel s i).timers n = DaryHeap.contents s.timers n
  | 0, s, _, _, _, hp => ⟨hp, rfl⟩
  | fuel + 1, s, i, hi, hti, hp => by
    rw [siftUpLoop]
    dsimp only
    split_ifs with hpos
    · exact ⟨hp, rfl⟩
    · have hpi : (i - 1) / timerD < i := parent_lt timerD hpos
      rw [TimerHeap.setTimer_pass s hti]
      obtain ⟨hp', hc'⟩ := siftUpLoop_tracked fuel (s.swapSlots i _) _ (hpi.trans hi)
        (by rw [TimerHeap.swapSlots_timers_right, hti]) (TimerHeap.Positions.swapSlots hp hi (hpi.trans hi))
      exact ⟨hp', hc'.trans (contents_swap hi (hpi.trans hi))⟩
    · exact ⟨hp, rfl⟩

/-- `sift_up` leaves the slot of an entry that is not in the heap as it was. -/
theorem siftUpLoop_idx_of_absent {f : E} : ∀ (fuel : Nat) (s : TimerHeap E) (i : Nat), i < n →
    s.timers i = tmp → (∀ j < n, (s.timers j).e ≠ f) → (siftUpLoop tmp fuel s i).idx f = s.idx f
  | 0, _, _, _, _, _ => rfl
  | fuel + 1, s, i, hi, hti, hf => by
    rw [siftUpLoop]
    dsimp only
    split_ifs with hpos
    · rfl
    · have hpi : (i - 1) / timerD < i := parent_lt timerD hpos
      rw [TimerHeap.setTimer_pass s hti, siftUpLoop_idx_of_absent fuel _ _ (hpi.trans hi)
        (by rw [TimerHeap.swapSlots_timers_right, hti]) (TimerHeap.absent_swapSlots hi (hpi.trans hi) hf)]
      exact s.swapSlots_idx_of_ne (hf i hi) (hf _ (hpi.trans hi))
    · rfl

/-- From a state where only the edge into `i` may be out of order, `sift_up` restores the heap. -/
theorem siftUpLoop_ordered : ∀ (fuel : Nat) (s : TimerHeap E) (i : Nat), i ≤ fuel →
    s.timers i = tmp → UpReady TimerIdx.key timerD s.timers n i →
    Ordered TimerIdx.key timerD (siftUpLoop tmp fuel s i).timers n
  | 0, s, i, hf, _, h => h.ordered fun hpos => absurd hpos (by omega)
  | fuel + 1, s, i, hf, hti, h => by
    rw [siftUpLoop]
    dsimp only
    split_ifs with hpos hge
    · -- `tmp` is not below its parent: the heap is in order
      rw [ge_iff_le, UInt64.le_iff_toNat_le, ← hti] at hge
      exact h.ordered fun _ => hge
    · rw [ge_iff_le, UInt64.le_iff_toNat_le, ← hti] at hge
      have hpi : (i - 1) / timerD < i := parent_lt timerD hpos
      rw [TimerHeap.setTimer_pass s hti]
      exact siftUpLoop_ordered fuel _ _ (by omega) (by rw [TimerHeap.swapSlots_timers_right, hti])
        (h.swap_up hpos (Nat.lt_of_not_le hge))
    · exact h.ordered fun hpos' => absurd hpos' hpos


/-- From a hole at `i`, `sift_up` either leaves the heap as it was, with the edge into `i` in
order, or moves the value up and leaves the heap in order. Either way `sift_down` repairs it. -/
theorem siftUpLoop_hole (fuel : Nat) (s : TimerHeap E) (i : Nat) (hf : i ≤ fuel)
    (hti : s.timers i = tmp) (h : Hole TimerIdx.key timerD s.timers n i) :
    (siftUpLoop tmp fuel s i = s ∧ DownReady TimerIdx.key timerD s.timers n i) ∨
      Ordered TimerIdx.key timerD (siftUpLoop tmp fuel s i).timers n := by
  cases fuel with
  | zero => exact .inl ⟨rfl, h, fun hpos => absurd hpos (by omega)⟩
  | succ fuel =>
    rw [siftUpLoop]
    dsimp only
    split_ifs with hpos hge
    · rw [ge_iff_le, UInt64.le_iff_toNat_le, ← hti] at hge
      exact .inl ⟨rfl, h, fun _ => hge⟩
    · rw [ge_iff_le, UInt64.le_iff_toNat_le, ← hti] at hge
      have hpi : (i - 1) / timerD < i := parent_lt timerD hpos
      rw [TimerHeap.setTimer_pass s hti]
      exact .inr (siftUpLoop_ordered fuel _ _ (by omega)
        (by rw [TimerHeap.swapSlots_timers_right, hti]) (h.swap_up hpos (Nat.lt_of_not_le hge)))
    · exact .inl ⟨rfl, h, fun hpos' => absurd hpos' hpos⟩

/-- `sift_up` from a slot past the heap moves values along the path to the root: once the value
enters the heap, at a slot whose value it undercuts, the heap is in the state `sift_up` repairs. -/
theorem siftUpLoop_outside : ∀ (fuel : Nat) (s : TimerHeap E) (i : Nat), i ≤ fuel → n ≤ i →
    s.timers i = tmp → Ordered TimerIdx.key timerD s.timers n →
    Ordered TimerIdx.key timerD (siftUpLoop tmp fuel s i).timers n
  | 0, _, _, _, _, _, h => h
  | fuel + 1, s, i, hf, hi, hti, h => by
    rw [siftUpLoop]
    dsimp only
    split_ifs with hpos hge
    · exact h
    · have hpi : (i - 1) / timerD < i := parent_lt timerD hpos
      have hlt : TimerIdx.key tmp < TimerIdx.key (s.timers ((i - 1) / timerD)) := by
        rw [ge_iff_le, UInt64.le_iff_toNat_le] at hge
        exact Nat.lt_of_not_le hge
      rw [TimerHeap.setTimer_pass s hti]
      -- the swap changes no slot of the heap but the parent
      have hsw : ∀ j < n, j ≠ (i - 1) / timerD →
          (s.swapSlots i ((i - 1) / timerD)).timers j = s.timers j := fun j hj hjp => by
        simp [TimerHeap.swapSlots, Equiv.swap_apply_of_ne_of_ne (by omega : j ≠ i) hjp]
      have hti' : (s.swapSlots i ((i - 1) / timerD)).timers ((i - 1) / timerD) = tmp := by
        rw [TimerHeap.swapSlots_timers_right, hti]
      by_cases hpn : n ≤ (i - 1) / timerD
      · exact siftUpLoop_outside fuel _ _ (by omega) hpn hti'
          (h.congr fun j hj => (hsw j hj (by omega)).symm)
      · -- `tmp` enters the heap at the parent
        have hup : UpReady TimerIdx.key timerD (s.swapSlots i ((i - 1) / timerD)).timers n
            ((i - 1) / timerD) := by
          refine (h.upReady_update (Nat.lt_of_not_le hpn) hlt.le).congr fun j hj => ?_
          by_cases hjp : j = (i - 1) / timerD
          · rw [hjp, Function.update_self, hti']
          · rw [Function.update_of_ne hjp, hsw j hj hjp]
        exact siftUpLoop_ordered fuel _ _ (by omega) hti' hup
    · exact h

/-! ### `sift_down` -/

section Scan
variable (s : TimerHeap E) (n : Nat)

omit [DecidableEq E] in
/-- The scan finds no child below `w` only if it started with none and every child it read is at
least `w`. -/
theorem siftDownScan_none : ∀ (k j : Nat) (w : UInt64) (c : Option Nat),
    siftDownScan s n k j w c = none →
      c = none ∧ ∀ j', j ≤ j' → j' < j + k → j' < n → w.toNat ≤ (s.timers j').key
  | 0, j, w, c, h => ⟨h, fun j' h1 h2 _ => absurd h2 (by omega)⟩
  | k + 1, j, w, c, h => by
    rw [siftDownScan] at h
    split_ifs at h with hjn hlt
    · exact ⟨h, fun j' h1 _ h3 => absurd h3 (by omega)⟩
    · exact absurd (siftDownScan_none k _ _ _ h).1 (Option.some_ne_none j)
    · obtain ⟨hc, hge⟩ := siftDownScan_none k _ _ _ h
      rw [UInt64.lt_iff_toNat_lt] at hlt
      refine ⟨hc, fun j' h1 h2 h3 => ?_⟩
      rcases eq_or_lt_of_le h1 with rfl | h1
      · exact Nat.le_of_not_lt hlt
      · exact hge j' h1 (by omega) h3

omit [DecidableEq E] in
/-- The child the scan returns: the one it started with, or a child it read, below `w` and
no greater than any child it read. -/
theorem siftDownScan_some : ∀ (k j : Nat) (w : UInt64) (c : Option Nat) (c' : Nat),
    siftDownScan s n k j w c = some c' →
      (c = some c' ∧ ∀ j', j ≤ j' → j' < j + k → j' < n → w.toNat ≤ (s.timers j').key) ∨
      (j ≤ c' ∧ c' < j + k ∧ c' < n ∧ (s.timers c').key < w.toNat ∧
        ∀ j', j ≤ j' → j' < j + k → j' < n → (s.timers c').key ≤ (s.timers j').key)
  | 0, j, w, c, c', h => .inl ⟨h, fun j' h1 h2 _ => absurd h2 (by omega)⟩
  | k + 1, j, w, c, c', h => by
    rw [siftDownScan] at h
    split_ifs at h with hjn hlt
    · exact .inl ⟨h, fun j' h1 _ h3 => absurd h3 (by omega)⟩
    · -- child `j` is below `w`: the scan goes on with `j` as its best
      rw [UInt64.lt_iff_toNat_lt] at hlt
      refine .inr ?_
      rcases siftDownScan_some k _ _ _ c' h with ⟨hc, hge⟩ | ⟨h1, h2, h3, h4, hle⟩
      · obtain rfl := (Option.some.inj hc).symm
        refine ⟨le_rfl, by omega, by omega, hlt, fun j' h1 h2 h3 => ?_⟩
        rcases eq_or_lt_of_le h1 with rfl | h1
        · exact le_rfl
        · exact hge j' h1 (by omega) h3
      · refine ⟨by omega, by omega, h3, h4.trans hlt, fun j' h1' h2' h3' => ?_⟩
        rcases eq_or_lt_of_le h1' with rfl | h1'
        · exact h4.le
        · exact hle j' h1' (by omega) h3'
    · rw [UInt64.lt_iff_toNat_lt] at hlt
      rcases siftDownScan_some k _ _ _ c' h with ⟨hc, hge⟩ | ⟨h1, h2, h3, h4, hle⟩
      · refine .inl ⟨hc, fun j' h1 h2 h3 => ?_⟩
        rcases eq_or_lt_of_le h1 with rfl | h1
        · exact Nat.le_of_not_lt hlt
        · exact hge j' h1 (by omega) h3
      · refine .inr ⟨by omega, by omega, h3, h4, fun j' h1' h2' h3' => ?_⟩
        rcases eq_or_lt_of_le h1' with rfl | h1'
        · exact h4.le.trans (Nat.le_of_not_lt hlt)
        · exact hle j' h1' (by omega) h3'

end Scan

/-- The slots `sift_down` reads for node `i` are the children of `i`. -/
theorem child_iff {i j : Nat} (hj : 0 < j) :
    parent timerD j = i ↔ i * timerD + 1 ≤ j ∧ j < i * timerD + 1 + timerD := by
  rw [parent_eq_iff timerD (by decide) hj]
  simp only [timerD]
  omega

omit [DecidableEq E] in
/-- The scan of node `i` finds no child below `w`: every child is at least `w`. -/
theorem siftDownScan_stop {s : TimerHeap E} {i : Nat} {w : UInt64}
    (h : siftDownScan s n timerD (i * timerD + 1) w none = none) :
    ∀ j < n, 0 < j → parent timerD j = i → w.toNat ≤ (s.timers j).key := by
  intro j hj hpos hp
  obtain ⟨h1, h2⟩ := (child_iff hpos).1 hp
  exact (siftDownScan_none s n _ _ _ _ h).2 j h1 h2 hj

omit [DecidableEq E] in
/-- The scan of node `i` returns a least child, below `w`. -/
theorem siftDownScan_child {s : TimerHeap E} {i c : Nat} {w : UInt64}
    (h : siftDownScan s n timerD (i * timerD + 1) w none = some c) :
    c < n ∧ 0 < c ∧ parent timerD c = i ∧ (s.timers c).key < w.toNat ∧
      ∀ j < n, 0 < j → parent timerD j = i → (s.timers c).key ≤ (s.timers j).key := by
  rcases siftDownScan_some s n _ _ _ _ _ h with ⟨hc, -⟩ | ⟨h1, h2, h3, h4, hle⟩
  · exact absurd hc (Option.some_ne_none c).symm
  · have hpos : 0 < c := by omega
    refine ⟨h3, hpos, (child_iff hpos).2 ⟨h1, h2⟩, h4, fun j hj hjpos hp => ?_⟩
    obtain ⟨h1', h2'⟩ := (child_iff hjpos).1 hp
    exact hle j h1' h2' hj

theorem siftDownLoop_frame : ∀ (fuel : Nat) (s : TimerHeap E) (i : Nat),
    ∃ a p, siftDownLoop tmp n fuel s i = { s with timers := a, idx := p }
  | 0, s, _ => ⟨s.timers, s.idx, rfl⟩
  | fuel + 1, s, i => by
    rw [siftDownLoop]
    split
    · exact ⟨s.timers, s.idx, rfl⟩
    · rename_i c _
      obtain ⟨a, p, h⟩ := siftDownLoop_frame fuel ((s.setTimer i (s.timers c)).setTimer c tmp) c
      exact ⟨a, p, h⟩

@[simp] theorem siftDownLoop_timern (fuel : Nat) (s : TimerHeap E) (i : Nat) :
    (siftDownLoop tmp n fuel s i).timern = s.timern := by
  obtain ⟨a, p, h⟩ := @siftDownLoop_frame _ _ tmp n fuel s i
  rw [h]

@[simp] theorem siftDownLoop_armed (fuel : Nat) (s : TimerHeap E) (i : Nat) :
    (siftDownLoop tmp n fuel s i).armed = s.armed := by
  obtain ⟨a, p, h⟩ := @siftDownLoop_frame _ _ tmp n fuel s i
  rw [h]

/-- `sift_down` only swaps slots in the heap: it keeps the positions and the values. -/
theorem siftDownLoop_tracked : ∀ (fuel : Nat) (s : TimerHeap E) (i : Nat), i < n →
    s.timers i = tmp → Positions TimerIdx.e s.timers s.idx n →
    Positions TimerIdx.e (siftDownLoop tmp n fuel s i).timers (siftDownLoop tmp n fuel s i).idx n ∧
      DaryHeap.contents (siftDownLoop tmp n fuel s i).timers n = DaryHeap.contents s.timers n
  | 0, s, _, _, _, hp => ⟨hp, rfl⟩
  | fuel + 1, s, i, hi, hti, hp => by
    rw [siftDownLoop]
    split
    · exact ⟨hp, rfl⟩
    · rename_i c hscan
      obtain ⟨hc, -⟩ := siftDownScan_child hscan
      rw [TimerHeap.setTimer_pass s hti]
      obtain ⟨hp', hc'⟩ := siftDownLoop_tracked fuel (s.swapSlots i c) _ hc
        (by rw [TimerHeap.swapSlots_timers_right, hti]) (TimerHeap.Positions.swapSlots hp hi hc)
      exact ⟨hp', hc'.trans (contents_swap hi hc)⟩

/-- From a state where only the edges out of `i` may be out of order, `sift_down` restores the
heap. -/
theorem siftDownLoop_ordered : ∀ (fuel : Nat) (s : TimerHeap E) (i : Nat), n - i ≤ fuel →
    s.timers i = tmp → DownReady TimerIdx.key timerD s.timers n i →
    Ordered TimerIdx.key timerD (siftDownLoop tmp n fuel s i).timers n
  | 0, s, i, hf, _, h => absurd h.lt (by omega)
  | fuel + 1, s, i, hf, hti, h => by
    rw [siftDownLoop]
    split
    · -- no child is below `tmp`: the heap is in order
      rename_i hscan
      exact h.ordered fun j hj hpos hp => by
        rw [hti]
        exact siftDownScan_stop hscan j hj hpos hp
    · rename_i c hscan
      obtain ⟨hc, hcpos, hpc, hlt, hmin⟩ := siftDownScan_child hscan
      have hic : i < c := hpc ▸ parent_lt timerD hcpos
      rw [TimerHeap.setTimer_pass s hti]
      exact siftDownLoop_ordered fuel _ _ (by omega) (by rw [TimerHeap.swapSlots_timers_right, hti])
        (h.swap_down hc hcpos hpc (by rw [hti]; exact hlt) hmin)


/-- `sift_down` leaves the slot of an entry that is not in the heap as it was. -/
theorem siftDownLoop_idx_of_absent {f : E} : ∀ (fuel : Nat) (s : TimerHeap E) (i : Nat), i < n →
    s.timers i = tmp → (∀ j < n, (s.timers j).e ≠ f) → (siftDownLoop tmp n fuel s i).idx f = s.idx f
  | 0, _, _, _, _, _ => rfl
  | fuel + 1, s, i, hi, hti, hf => by
    rw [siftDownLoop]
    split
    · rfl
    · rename_i c hscan
      obtain ⟨hc, -⟩ := siftDownScan_child hscan
      rw [TimerHeap.setTimer_pass s hti, siftDownLoop_idx_of_absent fuel _ _ hc
        (by rw [TimerHeap.swapSlots_timers_right, hti]) (TimerHeap.absent_swapSlots hi hc hf)]
      exact s.swapSlots_idx_of_ne (hf i hi) (hf c hc)

/-- On a heap in order, `sift_down` from any slot finds no child below the value there, and
changes nothing. -/
theorem siftDownLoop_of_ordered (fuel : Nat) (s : TimerHeap E) (i : Nat) (hti : s.timers i = tmp)
    (h : Ordered TimerIdx.key timerD s.timers n) : siftDownLoop tmp n fuel s i = s := by
  cases fuel with
  | zero => rfl
  | succ fuel =>
    rw [siftDownLoop]
    split
    · rfl
    · rename_i c hscan
      obtain ⟨hc, hcpos, hpc, hlt, -⟩ := siftDownScan_child hscan
      -- the child the scan found is in the heap, in order with its parent `i`
      have hle := h c hc hcpos
      rw [hpc, hti] at hle
      exact absurd hle (Nat.not_le_of_lt hlt)

end Sift

/-! ### The heap order on every interleaving -/

section Ordered
variable {s s' : TimerHeap E} {e : E}

/-- `timer_start_locked` keeps the heap in order. -/
theorem timerStartLocked_ordered {d : UInt64} (h : Ordered TimerIdx.key timerD s.timers s.timern)
    (hs : timerStartLocked s e d = some s') : Ordered TimerIdx.key timerD s'.timers s'.timern := by
  unfold timerStartLocked at hs
  dsimp only at hs
  split_ifs at hs
  cases hs
  -- the new value appended at slot `timern`, only the edge into it out of order
  set t : TimerHeap E := ({ s with timern := s.timern + 1 } : TimerHeap E).setTimer s.timern ⟨d, e⟩
  show Ordered _ _ (siftUp t s.timern).timers (siftUp t s.timern).timern
  rw [siftUp, siftUpLoop_timern]
  exact siftUpLoop_ordered s.timern t s.timern le_rfl rfl (h.push _)

/-- The locked part of a pass of `timer_softirq_one` keeps the heap in order. -/
theorem timerSoftirqOne_ordered {nowUs : UInt64} (h : Ordered TimerIdx.key timerD s.timers s.timern)
    (hs : timerSoftirqOne s nowUs = some (e, s')) : Ordered TimerIdx.key timerD s'.timers s'.timern := by
  unfold timerSoftirqOne at hs
  dsimp only at hs
  split_ifs at hs with hc hi <;> simp only [Option.some.injEq, Prod.mk.injEq] at hs <;>
    obtain ⟨rfl, rfl⟩ := hs
  · -- the last value moves to the root and is sifted down
    set s₁ : TimerHeap E := ({ s with timern := s.timern - 1 } : TimerHeap E).setTimer 0
      (s.timers (s.timern - 1))
    have hdown : DownReady TimerIdx.key timerD s₁.timers (s.timern - 1) 0 :=
      ⟨h.hole_update hi (Nat.sub_le _ _) _, fun h0 => absurd h0 (lt_irrefl 0)⟩
    rw [siftDown, siftDownLoop_timern]
    exact siftDownLoop_ordered _ s₁ 0 (Nat.sub_le _ _) rfl hdown
  · -- the root was the only timer
    exact h.mono (Nat.sub_le _ _)

/-- `timer_cancel` keeps the heap in order, whatever slot the entry records. A slot in the heap is
filled from the last one and sifted up, then down from the slot the entry records after the
sift; a slot past the heap is written outside it, from where `sift_up` may carry the value in. -/
theorem timerCancel_ordered {r : Bool × TimerHeap E}
    (h : Ordered TimerIdx.key timerD s.timers s.timern) (hs : timerCancel s e = some r) :
    Ordered TimerIdx.key timerD r.2.timers r.2.timern := by
  unfold timerCancel at hs
  dsimp only at hs
  split_ifs at hs with ha h0 hlast
  · cases hs
    exact h
  · -- the entry's slot was the last one, which is dropped
    cases hs
    exact h.mono (Nat.sub_le _ _)
  cases hs
  dsimp only
  set s₁ : TimerHeap E :=
    { s with armed := Function.update s.armed e false, timern := s.timern - 1 } with hs₁
  set s₂ := s₁.setTimer (s.idx e) (s.timers (s.timern - 1)) with hs₂
  have h2idx : s₂.idx e = s.idx e := by
    simp only [hs₂, TimerHeap.setTimer, Function.update_apply]
    split_ifs <;> rfl
  rw [h2idx]
  set s₃ := siftUp s₂ (s.idx e) with hs₃
  have h3n : s₃.timern = s.timern - 1 := siftUpLoop_timern _ _ _
  -- `sift_up` either left the filled slot as it was, or put the heap in order
  have hup : (s₃ = s₂ ∧ DownReady TimerIdx.key timerD s₂.timers (s.timern - 1) (s.idx e)) ∨
      Ordered TimerIdx.key timerD s₃.timers (s.timern - 1) := by
    rcases Nat.lt_or_gt_of_ne hlast with hlt | hgt
    · exact siftUpLoop_hole _ s₂ _ le_rfl rfl (h.hole_update hlt (Nat.sub_le _ _) _)
    · refine .inr (siftUpLoop_outside _ s₂ _ le_rfl hgt.le rfl
        ((h.mono (Nat.sub_le _ _)).congr fun j hj => ?_))
      show s.timers j = Function.update s.timers (s.idx e) _ j
      rw [Function.update_of_ne (by omega)]
  rw [siftDown, siftDownLoop_timern, h3n]
  rcases hup with ⟨heq, hdown⟩ | hord
  · rw [heq, h2idx]
    exact siftDownLoop_ordered _ s₂ _ (Nat.sub_le _ _) rfl hdown
  · rw [siftDownLoop_of_ordered _ s₃ _ rfl hord]
    exact hord

end Ordered

/-- Every operation keeps the heap in order, from any state of the softirq thread. -/
theorem timerStep_ordered {s s' : TimerSys E} {op : TimerOp E}
    (h : Ordered TimerIdx.key timerD s.heap.timers s.heap.timern) (hs : timerStep s op = some s') :
    Ordered TimerIdx.key timerD s'.heap.timers s'.heap.timern := by
  cases op with
  | start e deadlineUs =>
    obtain ⟨t, ht, rfl⟩ := Option.map_eq_some_iff.1 hs
    exact timerStartLocked_ordered h ht
  | cancel e =>
    obtain ⟨r, hr, rfl⟩ := Option.map_eq_some_iff.1 hs
    exact timerCancel_ordered h hr
  | softirq nowUs =>
    simp only [timerStep] at hs
    split at hs
    · -- the softirq clears the entry it popped
      obtain rfl := Option.some.inj hs
      exact h
    · split at hs
      · rename_i heq
        cases hs
        exact timerSoftirqOne_ordered h heq
      · cases hs
        exact h

theorem timerRun_ordered : ∀ {s s' : TimerSys E} {ops : List (TimerOp E)},
    Ordered TimerIdx.key timerD s.heap.timers s.heap.timern → timerRun s ops = some s' →
    Ordered TimerIdx.key timerD s'.heap.timers s'.heap.timern
  | _, _, [], h, hs => by
    cases hs
    exact h
  | _, _, _ :: _, h, hs => by
    obtain ⟨s₁, h₁, hs⟩ := Option.bind_eq_some_iff.1 hs
    exact timerRun_ordered (timerStep_ordered h h₁) hs

/-! ## The debug check `is_valid_heap` -/

omit [DecidableEq E] in
/-- The loop from slot `i` checks the edges into slots `2` to `i`. -/
theorem isValidHeapLoop_iff (heap : Nat → TimerIdx E) : ∀ i,
    isValidHeapLoop heap i = true ↔
      ∀ j ≤ i, 1 < j → (heap ((j - 1) / timerD)).deadlineUs ≤ (heap j).deadlineUs
  | 0 => by simp [isValidHeapLoop]
  | i + 1 => by
    rw [isValidHeapLoop]
    by_cases hi : i + 1 > 1
    · -- the edge into `i + 1`, then the loop from `i`
      rw [if_pos hi]
      by_cases hp : (heap ((i + 1 - 1) / timerD)).deadlineUs > (heap (i + 1)).deadlineUs
      · rw [if_pos hp]
        exact ⟨fun h => absurd h (by decide), fun h => absurd (h (i + 1) le_rfl hi) (UInt64.not_le.mpr hp)⟩
      · rw [if_neg hp, isValidHeapLoop_iff heap i]
        refine ⟨fun h j hj h1 => ?_, fun h j hj h1 => h j (by omega) h1⟩
        rcases Nat.lt_or_eq_of_le hj with hj | rfl
        · exact h j (by omega) h1
        · exact UInt64.not_lt.mp hp
    · -- slots `0` and `1`: nothing to check
      rw [if_neg hi]
      exact ⟨fun _ j hj h1 => absurd h1 (by omega), fun _ => rfl⟩

omit [DecidableEq E] in
/-- `is_valid_heap` checks the heap order on every edge but the one into slot `1`. -/
theorem isValidHeap_iff (heap : Nat → TimerIdx E) (n : Nat) :
    isValidHeap heap n = true ↔
      ∀ j < n, 1 < j → (heap ((j - 1) / timerD)).deadlineUs ≤ (heap j).deadlineUs := by
  rw [isValidHeap, isValidHeapLoop_iff]
  exact ⟨fun h j hj h1 => h j (by omega) h1, fun h j hj h1 => h j (by omega) h1⟩

omit [DecidableEq E] in
/-- A heap whose only inversion is between the root and its first child passes the check. -/
theorem isValidHeap_misses_first_child {heap : Nat → TimerIdx E} {n : Nat} (hn : 1 < n)
    (hroot : (heap 1).deadlineUs < (heap 0).deadlineUs)
    (hrest : ∀ j < n, 1 < j → (heap ((j - 1) / timerD)).deadlineUs ≤ (heap j).deadlineUs) :
    isValidHeap heap n = true ∧
      ¬ ∀ i < n, 0 < i → (heap ((i - 1) / timerD)).deadlineUs ≤ (heap i).deadlineUs := by
  refine ⟨(isValidHeap_iff heap n).mpr hrest, fun h => ?_⟩
  have h1 := h 1 hn Nat.one_pos
  exact absurd h1 (UInt64.not_le.mpr hroot)

/-- Two timers, the later one at the root. -/
def timerRootInversion : Nat → TimerIdx Unit := fun i => if i = 0 then ⟨5, ()⟩ else ⟨3, ()⟩

theorem isValidHeap_misses_first_child_two :
    1 < 2 ∧ (timerRootInversion 1).deadlineUs < (timerRootInversion 0).deadlineUs ∧
      (∀ j < 2, 1 < j → (timerRootInversion ((j - 1) / timerD)).deadlineUs ≤
        (timerRootInversion j).deadlineUs) ∧
      isValidHeap timerRootInversion 2 = true ∧
      ¬ ∀ i < 2, 0 < i →
        (timerRootInversion ((i - 1) / timerD)).deadlineUs ≤ (timerRootInversion i).deadlineUs :=
  have hrest : ∀ j < 2, 1 < j → (timerRootInversion ((j - 1) / timerD)).deadlineUs ≤
      (timerRootInversion j).deadlineUs := fun j hj h1 => absurd hj (by omega)
  ⟨by decide, by decide, hrest, isValidHeap_misses_first_child (by decide) (by decide) hrest⟩
/-- `assert_timer_heap_is_valid` holds in every state a run of timer operations reaches, with the
softirq thread's steps interleaved with any other thread's `timer_start` and `timer_cancel`. -/
theorem timerRun_valid_heap {s : TimerSys E} (timers₀ : Nat → TimerIdx E) (idx₀ : E → Nat)
    (ops : List (TimerOp E)) (hs : timerRun (TimerSys.init timers₀ idx₀) ops = some s) :
    isValidHeap s.heap.timers s.heap.timern = true := by
  have h := timerRun_ordered (fun j hj => absurd hj (Nat.not_lt_zero j)) hs
  rw [isValidHeap_iff]
  exact fun j hj h1 => UInt64.le_iff_toNat_le.2 (h j hj (by omega))

/-- Three timers started; the softirq pops the earliest, a cancel of it meanwhile takes out the
next, and the softirq clears it. -/
theorem timerRun_valid_heap_three :
    ∃ s : TimerSys Nat, timerRun (TimerSys.init (fun _ => ⟨0, 0⟩) fun _ => 0)
        [.start 0 10, .start 1 20, .start 2 30, .softirq 15, .cancel 0, .softirq 15] = some s ∧
      isValidHeap s.heap.timers s.heap.timern = true :=
  ⟨_, rfl, timerRun_valid_heap (fun _ => ⟨0, 0⟩) (fun _ => 0)
    [.start 0 10, .start 1 20, .start 2 30, .softirq 15, .cancel 0, .softirq 15] rfl⟩

/-! ## The entries in the heap -/

namespace TimerHeap

/-- What the code expects of a kthread's timers: the used slots are a heap on the deadlines, each
entry in the heap records its slot, the entries in the heap are armed, and every armed entry is in
the heap. -/
structure Inv (s : TimerHeap E) : Prop where
  ordered : Ordered TimerIdx.key timerD s.timers s.timern
  positions : Positions TimerIdx.e s.timers s.idx s.timern
  armed_of_mem : ∀ x ∈ s.contents, s.armed x.e = true
  mem_of_armed : ∀ e, s.armed e = true → ∃ x ∈ s.contents, x.e = e

variable {s s' : TimerHeap E} {e : E}

omit [DecidableEq E] in
theorem Inv.armed_slot (h : s.Inv) {j : Nat} (hj : j < s.timern) : s.armed (s.timers j).e = true :=
  h.armed_of_mem _ (mem_contents.2 ⟨j, hj, rfl⟩)

/-- A step that adds a value to the heap and arms its entry keeps the invariant, given the heap
facts of the new array. -/
theorem Inv.insert (h : s.Inv) {x : TimerIdx E}
    (hord : Ordered TimerIdx.key timerD s'.timers s'.timern)
    (hpos : Positions TimerIdx.e s'.timers s'.idx s'.timern)
    (hc : s'.contents = x ::ₘ s.contents) (harmed : s'.armed = Function.update s.armed x.e true) :
    s'.Inv := by
  refine ⟨hord, hpos, fun y hy => ?_, fun f hf => ?_⟩
  · rw [hc, Multiset.mem_cons] at hy
    rw [harmed]
    by_cases hye : y.e = x.e
    · rw [hye, Function.update_self]
    · rw [Function.update_of_ne hye]
      exact h.armed_of_mem y (hy.resolve_left fun hyx => hye (hyx ▸ rfl))
  · rw [harmed] at hf
    by_cases hfe : f = x.e
    · exact ⟨x, hc ▸ Multiset.mem_cons_self _ _, hfe.symm⟩
    · rw [Function.update_of_ne hfe] at hf
      obtain ⟨y, hy, rfl⟩ := h.mem_of_armed f hf
      exact ⟨y, hc ▸ Multiset.mem_cons_of_mem hy, rfl⟩

end TimerHeap

section Entries
variable {s s' : TimerHeap E} {e : E}

omit [DecidableEq E] in
theorem init_timer_inv (timers₀ : Nat → TimerIdx E) (idx₀ : E → Nat) :
    (TimerSys.init timers₀ idx₀).heap.Inv where
  ordered j hj := absurd hj (Nat.not_lt_zero _)
  positions j hj := absurd hj (Nat.not_lt_zero _)
  armed_of_mem x hx := absurd hx (by simp [TimerHeap.contents, TimerSys.init])
  mem_of_armed e he := absurd he (by simp [TimerSys.init])

/-- `timer_start_locked` puts the new timer in the heap and arms its entry. -/
theorem timerStartLocked_inv {d : UInt64} (h : s.Inv) (hs : timerStartLocked s e d = some s') :
    s'.Inv ∧ s'.contents = ⟨d, e⟩ ::ₘ s.contents := by
  have hord := timerStartLocked_ordered h.ordered hs
  unfold timerStartLocked at hs
  dsimp only at hs
  split_ifs at hs with harmed hfull
  cases hs
  -- the new value appended at slot `timern`
  set t : TimerHeap E := ({ s with timern := s.timern + 1 } : TimerHeap E).setTimer s.timern ⟨d, e⟩
  have hnew : ∀ j < s.timern, (s.timers j).e ≠ e := fun j hj he =>
    harmed (he ▸ h.armed_slot hj)
  have hpos : Positions TimerIdx.e t.timers t.idx (s.timern + 1) :=
    h.positions.push ⟨d, e⟩ hnew
  obtain ⟨hpos', hc'⟩ := siftUpLoop_tracked (n := s.timern + 1) s.timern t s.timern
    (Nat.lt_succ_self _) rfl hpos
  have hn : (siftUp t s.timern).timern = s.timern + 1 := siftUpLoop_timern _ _ _
  have hc : DaryHeap.contents (siftUp t s.timern).timers (siftUp t s.timern).timern =
      ⟨d, e⟩ ::ₘ s.contents := by
    rw [hn]
    exact hc'.trans (contents_update_last _)
  refine ⟨h.insert (x := ⟨d, e⟩) hord ?_ hc ?_, hc⟩
  · show Positions _ (siftUp t s.timern).timers (siftUp t s.timern).idx (siftUp t s.timern).timern
    rw [hn]
    exact hpos'
  · show Function.update (siftUp t s.timern).armed e true = _
    rw [siftUp, siftUpLoop_armed]
    rfl

/-- From timers the code expects, the locked part of a pass takes the root's timer, and only it,
out of the heap; its entry stays armed and records slot `0`. -/
theorem timerSoftirqOne_pop {nowUs : UInt64} (h : s.Inv)
    (hs : timerSoftirqOne s nowUs = some (e, s')) :
    e = (s.timers 0).e ∧ 0 < s.timern ∧ s'.armed = s.armed ∧ s'.idx e = 0 ∧
      Positions TimerIdx.e s'.timers s'.idx s'.timern ∧ s.timers 0 ::ₘ s'.contents = s.contents := by
  unfold timerSoftirqOne at hs
  dsimp only at hs
  have hroot : ∀ hn : 0 < s.timern, s.idx (s.timers 0).e = 0 := fun hn => h.positions 0 hn
  split_ifs at hs with hc hi <;> simp only [Option.some.injEq, Prod.mk.injEq] at hs <;>
    obtain ⟨rfl, rfl⟩ := hs
  · -- the last value moves to the root and is sifted down
    have hn : s.timern = s.timern - 1 + 1 := by omega
    have hP : Positions TimerIdx.e s.timers s.idx (s.timern - 1 + 1) := hn ▸ h.positions
    set s₁ : TimerHeap E := ({ s with timern := s.timern - 1 } : TimerHeap E).setTimer 0
      (s.timers (s.timern - 1)) with hs₁
    obtain ⟨hpos, hc'⟩ := siftDownLoop_tracked (s.timern - 1) s₁ 0 hi rfl (hP.fill hi)
    -- the root's entry is in no slot the sift reads, so it keeps slot `0`
    have hab : ∀ j < s.timern - 1, (s₁.timers j).e ≠ (s.timers 0).e := by
      intro j hj he
      simp only [hs₁, TimerHeap.setTimer, Function.update_apply] at he
      split_ifs at he with hj0
      · exact absurd (h.positions.inj (by omega) hc.1 he) (by omega)
      · exact hj0 (h.positions.inj (by omega) hc.1 he)
    have hidx : s₁.idx (s.timers 0).e = 0 := by
      simp only [hs₁, TimerHeap.setTimer, Function.update_apply]
      split_ifs
      · rfl
      · exact hroot hc.1
    have hn' : (siftDown s₁ 0 (s.timern - 1)).timern = s.timern - 1 := siftDownLoop_timern _ _ _
    refine ⟨rfl, hc.1, siftDownLoop_armed _ _ _, ?_, ?_, ?_⟩
    · rw [siftDown, siftDownLoop_idx_of_absent _ s₁ 0 hi rfl hab, hidx]
    · rw [hn']
      exact hpos
    · rw [TimerHeap.contents, hn', siftDown, hc']
      show s.timers 0 ::ₘ DaryHeap.contents (Function.update s.timers 0
        (s.timers (s.timern - 1))) (s.timern - 1) = DaryHeap.contents s.timers s.timern
      rw [contents_fill hi, ← hn]
  · -- the root was the only timer
    have hn : s.timern = 1 := by omega
    refine ⟨rfl, hc.1, rfl, hroot hc.1, h.positions.mono (Nat.sub_le _ _), ?_⟩
    show s.timers 0 ::ₘ DaryHeap.contents s.timers (s.timern - 1) = DaryHeap.contents s.timers s.timern
    rw [hn, contents_succ]

/-- `timer_cancel` of an armed entry whose recorded slot is in the heap, and which stands in no
other slot: it returns true and takes the timer of that slot, and only it, out of the heap. -/
theorem timerCancel_slot (hpos : Positions TimerIdx.e s.timers s.idx s.timern)
    (ha : s.armed e = true) (hk : s.idx e < s.timern)
    (he : ∀ j < s.timern, (s.timers j).e = e → j = s.idx e) :
    ∃ s', timerCancel s e = some (true, s') ∧ s'.armed = Function.update s.armed e false ∧
      Positions TimerIdx.e s'.timers s'.idx s'.timern ∧
      s.timers (s.idx e) ::ₘ s'.contents = s.contents := by
  have hn : s.timern = s.timern - 1 + 1 := by omega
  have hP : Positions TimerIdx.e s.timers s.idx (s.timern - 1 + 1) := hn ▸ hpos
  unfold timerCancel
  simp only [ha, Bool.not_true, Bool.false_eq_true, if_false]
  rw [if_neg (by omega)]
  split_ifs with hlast
  · -- the slot was the last one, which is dropped
    refine ⟨_, rfl, rfl, hpos.mono (Nat.sub_le _ _), ?_⟩
    show _ ::ₘ DaryHeap.contents s.timers (s.timern - 1) = DaryHeap.contents s.timers s.timern
    rw [hlast, hn, contents_succ, ← hn]
  -- the last value moves into the slot and is sifted up and down from there
  have hlt : s.idx e < s.timern - 1 := by omega
  set s₁ : TimerHeap E :=
    { s with armed := Function.update s.armed e false, timern := s.timern - 1 } with hs₁
  set s₂ := s₁.setTimer (s.idx e) (s.timers (s.timern - 1)) with hs₂
  have h2idx : s₂.idx e = s.idx e := by
    simp only [hs₂, TimerHeap.setTimer, Function.update_apply]
    split_ifs <;> rfl
  -- the entry is in no slot of what is left
  have hab : ∀ j < s.timern - 1, (s₂.timers j).e ≠ e := by
    intro j hj hje
    simp only [hs₂, TimerHeap.setTimer, Function.update_apply] at hje
    split_ifs at hje with hjk
    · exact hlast (he _ (by omega) hje).symm
    · exact hjk (he j (by omega) hje)
  have hpos₂ : Positions TimerIdx.e s₂.timers s₂.idx (s.timern - 1) := hP.fill hlt
  have hc₂ : s.timers (s.idx e) ::ₘ DaryHeap.contents s₂.timers (s.timern - 1) = s.contents := by
    show s.timers (s.idx e) ::ₘ DaryHeap.contents (Function.update s.timers (s.idx e)
      (s.timers (s.timern - 1))) (s.timern - 1) = DaryHeap.contents s.timers s.timern
    rw [contents_fill hlt, ← hn]
  rw [h2idx]
  set s₃ := siftUp s₂ (s.idx e) with hs₃
  have h3idx : s₃.idx e = s.idx e :=
    (siftUpLoop_idx_of_absent _ s₂ _ hlt rfl hab).trans h2idx
  have h3n : s₃.timern = s.timern - 1 := siftUpLoop_timern _ _ _
  obtain ⟨hpos₃, hc₃⟩ := siftUpLoop_tracked _ s₂ _ hlt rfl hpos₂
  rw [h3idx, h3n]
  obtain ⟨hpos₄, hc₄⟩ := siftDownLoop_tracked (s.timern - 1) s₃ _ hlt rfl hpos₃
  have h4n : (siftDown s₃ (s.idx e) (s.timern - 1)).timern = s.timern - 1 :=
    (siftDownLoop_timern _ _ _).trans h3n
  refine ⟨_, rfl, ?_, ?_, ?_⟩
  · rw [siftDown, siftDownLoop_armed, hs₃, siftUp, siftUpLoop_armed]
    rfl
  · rw [h4n]
    exact hpos₄
  · rw [TimerHeap.contents, h4n, siftDown, hc₄, hs₃, siftUp, hc₃, hc₂]

/-- While the softirq thread runs the handler of the entry `e` it popped, before it clears
`e->armed`, a `timer_cancel` of `e` finds `e` armed and recording slot `0`: it returns true, yet
takes out the timer now at the root, whose entry stays armed in no slot, and the softirq goes on to
clear `e` and run its handler. -/
theorem timerCancel_during_expiry {s₁ : TimerHeap E} {nowUs : UInt64} (h : s.Inv)
    (hpop : timerSoftirqOne s nowUs = some (e, s₁)) (hn : 0 < s₁.timern) :
    ∃ s₂, timerCancel s₁ e = some (true, s₂) ∧ (s₁.timers 0).e ≠ e ∧
      s₂.armed (s₁.timers 0).e = true ∧ ∀ j < s₂.timern, (s₂.timers j).e ≠ (s₁.timers 0).e := by
  obtain ⟨rfl, hs0, harmed, hidx, hpos, hc⟩ := timerSoftirqOne_pop h hpop
  -- the popped entry stood once in the heap, so it is in no slot of what is left
  have hnd := h.positions.nodup
  rw [← TimerHeap.contents, ← hc, Multiset.map_cons, Multiset.nodup_cons] at hnd
  have habs : ∀ j < s₁.timern, (s₁.timers j).e ≠ (s.timers 0).e := fun j hj he =>
    hnd.1 (he ▸ Multiset.mem_map_of_mem _ (mem_contents.2 ⟨j, hj, rfl⟩))
  obtain ⟨s₂, hs₂, harmed₂, hpos₂, hc₂⟩ := timerCancel_slot hpos
    (by rw [harmed]; exact h.armed_slot hs0) (by rw [hidx]; exact hn)
    (fun j hj he => absurd he (habs j hj))
  rw [hidx] at hc₂
  have hB : (s₁.timers 0).e ≠ (s.timers 0).e := habs 0 hn
  refine ⟨s₂, hs₂, hB, ?_, fun j hj he => ?_⟩
  · -- the root's entry was armed in the heap, and the cancel disarms only `e`
    rw [harmed₂, Function.update_of_ne hB, harmed]
    exact h.armed_of_mem _ (hc ▸ Multiset.mem_cons_of_mem (mem_contents.2 ⟨0, hn, rfl⟩))
  · -- the root's timer stood once in the heap, and the cancel took it out
    have hnd₁ := hpos.nodup
    rw [← TimerHeap.contents, ← hc₂, Multiset.map_cons, Multiset.nodup_cons] at hnd₁
    exact hnd₁.1 (he ▸ Multiset.mem_map_of_mem _ (mem_contents.2 ⟨j, hj, rfl⟩))

/-- Timers of deadlines 1 and 5 started; at time 1 the softirq pops the first, and a cancel of it
takes out the second. -/
theorem timerCancel_during_expiry_two :
    ∃ s s₁ : TimerHeap Nat, timerRun (TimerSys.init (fun _ => ⟨0, 0⟩) fun _ => 0)
        [.start 0 1, .start 1 5, .softirq 1] = some ⟨s₁, some 0⟩ ∧ s.Inv ∧
      timerSoftirqOne s 1 = some (0, s₁) ∧ 0 < s₁.timern ∧
      ∃ s₂, timerCancel s₁ 0 = some (true, s₂) ∧ (s₁.timers 0).e ≠ 0 ∧
        s₂.armed (s₁.timers 0).e = true ∧ ∀ j < s₂.timern, (s₂.timers j).e ≠ (s₁.timers 0).e := by
  have h₁ := timerStartLocked_inv (e := 0) (d := 1) (init_timer_inv (fun _ => ⟨0, 0⟩) fun _ => 0) rfl
  have h₂ := timerStartLocked_inv (e := 1) (d := 5) h₁.1 rfl
  refine ⟨_, _, rfl, h₂.1, rfl, by decide, ?_⟩
  exact timerCancel_during_expiry h₂.1 (rfl : timerSoftirqOne _ 1 = _) (by decide)

end Entries

end Caladan
