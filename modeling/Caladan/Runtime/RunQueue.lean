import Mathlib
import Caladan.Runtime.Sched

/-!
# One kthread's run queue as a list

`Kthread.queue` reads the threads of a kthread in the order its scheduler takes them: the window of
the ring from `rq_tail`, then the overflow list. Over it each operation of `sched.c` is an
operation on a list: `thread_ready` appends, `thread_ready_head` conses (also where it moves the
newest thread of a full ring to the overflow list), `drain_overflow` changes nothing, the pop takes
the first thread, and `steal_work` hands the older part of the ring and the overflow list to the
thief.

`Kthread.RqOk` is what the operations keep of the counters: at most `RUNTIME_RQ_SIZE` threads in
the ring, an overflow list only behind a full ring, and exported counters whose difference is the
length of the queue. `Kthread.Counted` is the part without the overflow condition, which a steal
breaks for the thief until its pop drains the list it took.
-/

namespace Caladan

variable {T : Type}

namespace Kthread

variable (k : Kthread T) (th : T)

/-- The number of threads in the ring, `rq_head - rq_tail`. -/
def len : Nat := (k.rqHead - k.rqTail).toNat

/-- The queued threads, the next to run first. -/
def queue : List T := Ring.window k.rq k.rqTail (k.rqHead - k.rqTail).toNat ++ k.rqOverflow

/-- The ring holds at most `RUNTIME_RQ_SIZE` threads, and the exported counters count the ring and
the overflow list. -/
structure Counted : Prop where
  len_le : k.len ≤ runtimeRqSize
  q_eq : k.qHead - k.qTail = k.rqHead - k.rqTail + UInt32.ofNat k.rqOverflow.length

/-- The invariant of one kthread's queue: also, threads overflow only from a full ring. -/
structure RqOk : Prop extends k.Counted where
  full_of_overflow : k.rqOverflow ≠ [] → k.len = runtimeRqSize

theorem RqOk.overflow_nil {k : Kthread T} (h : k.RqOk) (hlt : k.len < runtimeRqSize) :
    k.rqOverflow = [] := by
  by_contra hne
  have := h.full_of_overflow hne
  omega

theorem len_add_one_lt {k : Kthread T} (h : k.len ≤ runtimeRqSize) :
    (k.rqHead - k.rqTail).toNat + 1 < 2 ^ 32 := by
  simp only [len, runtimeRqSize] at h; omega

theorem toNat_ofNat_rqSize : (UInt32.ofNat runtimeRqSize).toNat = runtimeRqSize := rfl

theorem rqSize_le_iff : UInt32.ofNat runtimeRqSize ≤ k.rqHead - k.rqTail ↔ runtimeRqSize ≤ k.len := by
  rw [UInt32.le_iff_toNat_le, toNat_ofNat_rqSize]; rfl

theorem lt_rqSize_iff : k.rqHead - k.rqTail < UInt32.ofNat runtimeRqSize ↔ k.len < runtimeRqSize := by
  rw [UInt32.lt_iff_toNat_lt, toNat_ofNat_rqSize]; rfl

theorem rqHead_sub_ne_zero_iff : k.rqHead - k.rqTail ≠ 0 ↔ 0 < k.len := by
  rw [Ne, ← UInt32.toNat_inj, UInt32.toNat_zero, len]; omega

/-! ## Appending: `thread_ready` -/

theorem rqPushTail_of_full (h : runtimeRqSize ≤ k.len) :
    rqPushTail k th = { k with rqOverflow := k.rqOverflow ++ [th], qHead := k.qHead + 1 } :=
  if_pos ((rqSize_le_iff k).2 h)

theorem rqPushTail_of_lt (h : k.len < runtimeRqSize) :
    rqPushTail k th =
      { k with rq := Ring.write k.rq k.rqHead th, rqHead := k.rqHead + 1, qHead := k.qHead + 1 } :=
  if_neg fun hge => absurd ((rqSize_le_iff k).1 hge) (Nat.not_le.2 h)

/-- A thread written at `rq_head` of a ring that is not full joins the end of its window. -/
theorem window_write_head (h : k.len < runtimeRqSize) :
    Ring.window (Ring.write k.rq k.rqHead th) k.rqTail (k.rqHead + 1 - k.rqTail).toNat =
      Ring.window k.rq k.rqTail (k.rqHead - k.rqTail).toNat ++ [th] := by
  have hw := Ring.window_write_end runtimeRqSize_dvd k.rq k.rqTail th h
  rw [show k.rqTail + UInt32.ofNat k.len = k.rqHead from Ring.add_ofNat_toNat_sub _ _] at hw
  rw [Ring.toNat_succ_sub (len_add_one_lt h.le)]
  exact hw

theorem RqOk.queue_rqPushTail {k : Kthread T} (h : k.RqOk) :
    (rqPushTail k th).queue = k.queue ++ [th] := by
  by_cases hf : runtimeRqSize ≤ k.len
  · rw [rqPushTail_of_full k th hf]
    simp [queue]
  · have hlt : k.len < runtimeRqSize := Nat.lt_of_not_le hf
    rw [rqPushTail_of_lt k th hlt]
    simp only [queue, window_write_head k th hlt, h.overflow_nil hlt, List.append_nil]

theorem RqOk.rqPushTail {k : Kthread T} (h : k.RqOk) : (rqPushTail k th).RqOk := by
  by_cases hf : runtimeRqSize ≤ k.len
  · have hfull : k.len = runtimeRqSize := Nat.le_antisymm h.len_le hf
    rw [rqPushTail_of_full k th hf]
    refine ⟨⟨h.len_le, ?_⟩, fun _ => hfull⟩
    show k.qHead + 1 - k.qTail = k.rqHead - k.rqTail + UInt32.ofNat (k.rqOverflow ++ [th]).length
    rw [List.length_append, List.length_singleton, ← Ring.one_add_ofNat,
      show k.qHead + 1 - k.qTail = k.qHead - k.qTail + 1 by abel, h.q_eq]
    abel
  · have hlt : k.len < runtimeRqSize := Nat.lt_of_not_le hf
    rw [rqPushTail_of_lt k th hlt]
    refine ⟨⟨?_, ?_⟩, fun hne => absurd (h.overflow_nil hlt) hne⟩
    · show (k.rqHead + 1 - k.rqTail).toNat ≤ runtimeRqSize
      rw [Ring.toNat_succ_sub (len_add_one_lt h.len_le)]
      exact hlt
    · show k.qHead + 1 - k.qTail = k.rqHead + 1 - k.rqTail + UInt32.ofNat k.rqOverflow.length
      rw [show k.qHead + 1 - k.qTail = k.qHead - k.qTail + 1 by abel, h.q_eq]
      abel

@[simp] theorem cur_rqPushTail : (rqPushTail k th).cur = k.cur := by
  unfold rqPushTail; split <;> rfl

/-! ## Consing: `thread_ready_head` and `thread_finish_cede` -/

theorem rqPushHead_of_lt (h : k.len < runtimeRqSize) :
    rqPushHead k th =
      { k with rq := Ring.write k.rq (k.rqTail - 1) th, rqTail := k.rqTail - 1, qHead := k.qHead + 1 } := by
  have hlen : (k.rqHead - (k.rqTail - 1)).toNat = k.len + 1 :=
    Ring.toNat_sub_pred (len_add_one_lt h.le)
  have hgt : ¬ k.rqHead - (k.rqTail - 1) > UInt32.ofNat runtimeRqSize := by
    rw [gt_iff_lt, UInt32.lt_iff_toNat_lt, toNat_ofNat_rqSize, hlen]; omega
  simp only [rqPushHead]
  rw [if_neg hgt]

theorem rqPushHead_of_full (h : k.len = runtimeRqSize) :
    rqPushHead k th =
      { k with rq := Ring.write k.rq (k.rqTail - 1) th, rqTail := k.rqTail - 1,
               rqOverflow := k.rq (Ring.slot (k.rqTail - 1)) :: k.rqOverflow,
               rqHead := k.rqHead - 1, qHead := k.qHead + 1 } := by
  have hlen : (k.rqHead - (k.rqTail - 1)).toNat = k.len + 1 :=
    Ring.toNat_sub_pred (len_add_one_lt h.le)
  have hgt : k.rqHead - (k.rqTail - 1) > UInt32.ofNat runtimeRqSize := by
    rw [gt_iff_lt, UInt32.lt_iff_toNat_lt, toNat_ofNat_rqSize, hlen]; omega
  simp only [rqPushHead]
  rw [if_pos hgt]

/-- `thread_ready_head` puts the thread first, also when the ring is full: the newest thread of
the ring, whose slot it takes, goes first in the overflow list. -/
theorem queue_rqPushHead (h : k.len ≤ runtimeRqSize) : (rqPushHead k th).queue = th :: k.queue := by
  rcases Nat.lt_or_eq_of_le h with hlt | hfull
  · have hlt' : (k.rqHead - k.rqTail).toNat < runtimeRqSize := hlt
    rw [rqPushHead_of_lt k th hlt]
    simp only [queue, Ring.toNat_sub_pred (len_add_one_lt h)]
    rw [Ring.window_write_front runtimeRqSize_dvd k.rq k.rqTail th hlt', List.cons_append]
  · rw [rqPushHead_of_full k th hfull]
    have hfull' : (k.rqHead - k.rqTail).toNat = runtimeRqSize := hfull
    simp only [queue, sub_sub_sub_cancel_right, hfull']
    rw [Ring.window_write_front_full runtimeRqSize_dvd, Ring.window_full runtimeRqSize_dvd k.rq]
    simp

theorem RqOk.rqPushHead {k : Kthread T} (h : k.RqOk) : (rqPushHead k th).RqOk := by
  rcases Nat.lt_or_eq_of_le h.len_le with hlt | hfull
  · have hlen : (k.rqHead - (k.rqTail - 1)).toNat = k.len + 1 :=
      Ring.toNat_sub_pred (len_add_one_lt h.len_le)
    rw [rqPushHead_of_lt k th hlt]
    refine ⟨⟨?_, ?_⟩, fun hne => absurd (h.overflow_nil hlt) hne⟩
    · show (k.rqHead - (k.rqTail - 1)).toNat ≤ runtimeRqSize
      rw [hlen]; exact hlt
    · show k.qHead + 1 - k.qTail = k.rqHead - (k.rqTail - 1) + UInt32.ofNat k.rqOverflow.length
      rw [show k.qHead + 1 - k.qTail = k.qHead - k.qTail + 1 by abel, h.q_eq]
      abel
  · have hlen : (k.rqHead - 1 - (k.rqTail - 1)).toNat = k.len := by
      rw [sub_sub_sub_cancel_right]; rfl
    rw [rqPushHead_of_full k th hfull]
    refine ⟨⟨?_, ?_⟩, fun _ => ?_⟩
    · show (k.rqHead - 1 - (k.rqTail - 1)).toNat ≤ runtimeRqSize
      rw [hlen]; exact h.len_le
    · show k.qHead + 1 - k.qTail =
        k.rqHead - 1 - (k.rqTail - 1) + UInt32.ofNat (k.rq (Ring.slot (k.rqTail - 1)) :: k.rqOverflow).length
      rw [List.length_cons, ← Ring.one_add_ofNat, sub_sub_sub_cancel_right,
        show k.qHead + 1 - k.qTail = k.qHead - k.qTail + 1 by abel, h.q_eq]
      abel
    · show (k.rqHead - 1 - (k.rqTail - 1)).toNat = runtimeRqSize
      rw [hlen]; exact hfull

theorem len_rqPushHead_pos (h : k.len ≤ runtimeRqSize) : 0 < (rqPushHead k th).len := by
  rcases Nat.lt_or_eq_of_le h with hlt | hfull
  · rw [rqPushHead_of_lt k th hlt]
    simp only [len, Ring.toNat_sub_pred (len_add_one_lt h)]
    omega
  · rw [rqPushHead_of_full k th hfull]
    have hfull' : (k.rqHead - k.rqTail).toNat = runtimeRqSize := hfull
    simp only [len, sub_sub_sub_cancel_right, hfull']
    exact Nat.pos_of_neZero runtimeRqSize

@[simp] theorem cur_rqPushHead : (rqPushHead k th).cur = k.cur := by
  simp only [rqPushHead]; split <;> rfl

/-! ## `drain_overflow` -/

theorem drainOverflow_of_nil (h : k.rqOverflow = []) : drainOverflow k = k := by
  simp only [drainOverflow, h, drainOverflowLoop]
  rw [← h]

theorem drainOverflow_of_cons {rest : List T} (h : k.rqOverflow = th :: rest) :
    drainOverflow k = if k.len < runtimeRqSize then
      drainOverflow { k with rq := Ring.write k.rq k.rqHead th, rqHead := k.rqHead + 1,
                             rqOverflow := rest }
    else k := by
  by_cases hlt : k.len < runtimeRqSize
  · simp only [drainOverflow, h, drainOverflowLoop, if_pos ((lt_rqSize_iff k).2 hlt), if_pos hlt]
  · simp only [drainOverflow, h, drainOverflowLoop,
      if_neg fun hlt' => hlt ((lt_rqSize_iff k).1 hlt'), if_neg hlt]
    rw [← h]

/-- The loop of `drain_overflow` moves one thread from the overflow list to the ring at a time. -/
theorem Counted.drain_step {k : Kthread T} (h : k.Counted) {rest : List T}
    (hov : k.rqOverflow = th :: rest) (hlt : k.len < runtimeRqSize) :
    let k' := { k with rq := Ring.write k.rq k.rqHead th, rqHead := k.rqHead + 1, rqOverflow := rest }
    k'.queue = k.queue ∧ k'.Counted := by
  refine ⟨?_, ⟨?_, ?_⟩⟩
  · simp only [queue, window_write_head k th hlt, hov, List.append_assoc, List.singleton_append]
  · show (k.rqHead + 1 - k.rqTail).toNat ≤ runtimeRqSize
    rw [Ring.toNat_succ_sub (len_add_one_lt h.len_le)]
    exact hlt
  · show k.qHead - k.qTail = k.rqHead + 1 - k.rqTail + UInt32.ofNat rest.length
    rw [h.q_eq, hov, List.length_cons, ← Ring.one_add_ofNat]
    abel

/-- `drain_overflow` keeps the queue, and leaves an overflow list only behind a full ring. -/
theorem Counted.drainOverflow {k : Kthread T} (h : k.Counted) :
    (drainOverflow k).queue = k.queue ∧ (drainOverflow k).RqOk := by
  obtain ⟨ov, hov⟩ : ∃ ov, k.rqOverflow = ov := ⟨_, rfl⟩
  -- the loop runs over the overflow list, with the kthread it has built so far
  induction ov generalizing k with
  | nil =>
    rw [drainOverflow_of_nil k hov]
    exact ⟨rfl, h, fun hne => absurd hov hne⟩
  | cons th rest ih =>
    rw [drainOverflow_of_cons k th hov]
    split_ifs with hlt
    · obtain ⟨hq, hc⟩ := h.drain_step th hov hlt
      obtain ⟨hq', hok⟩ := ih hc rfl
      exact ⟨hq'.trans hq, hok⟩
    · exact ⟨rfl, h, fun _ => Nat.le_antisymm h.len_le (Nat.le_of_not_lt hlt)⟩

theorem drainOverflow_frame :
    ∃ rq head ov, drainOverflow k = { k with rq := rq, rqHead := head, rqOverflow := ov } :=
  ⟨_, _, _, rfl⟩

@[simp] theorem cur_drainOverflow : (drainOverflow k).cur = k.cur := by
  obtain ⟨_, _, _, h⟩ := drainOverflow_frame k; rw [h]

/-! ## The pop of `schedule` and `enter_schedule` -/

/-- The scheduler runs the first thread of the queue; the rest stays in order. -/
theorem Counted.queue_rqPop {k : Kthread T} (h : k.Counted) (hpos : 0 < k.len) :
    (rqPop k).1 :: (rqPop k).2.queue = k.queue ∧ (rqPop k).2.RqOk := by
  set k' : Kthread T := { k with rqTail := k.rqTail + 1, qTail := k.qTail + 1 } with hk'
  have hlen : (k.rqHead - (k.rqTail + 1)).toNat = (k.rqHead - k.rqTail).toNat - 1 :=
    Ring.toNat_sub_succ hpos
  have hc : k'.Counted := by
    refine ⟨?_, ?_⟩
    · show (k.rqHead - (k.rqTail + 1)).toNat ≤ runtimeRqSize
      rw [hlen]
      exact Nat.le_trans (Nat.sub_le _ _) h.len_le
    · show k.qHead - (k.qTail + 1) = k.rqHead - (k.rqTail + 1) + UInt32.ofNat k.rqOverflow.length
      rw [show k.qHead - (k.qTail + 1) = k.qHead - k.qTail - 1 by abel, h.q_eq]
      abel
  have hq : k.rq (Ring.slot k.rqTail) :: k'.queue = k.queue := by
    obtain ⟨n, hn⟩ : ∃ n, (k.rqHead - k.rqTail).toNat = n + 1 :=
      ⟨_, (Nat.succ_pred_eq_of_pos hpos).symm⟩
    simp only [hk', queue, hlen, hn, Nat.add_sub_cancel, Ring.window_succ, List.cons_append]
  have h2 : (rqPop k).2.queue = k'.queue ∧ (rqPop k).2.RqOk := by
    simp only [rqPop]
    split_ifs with he
    · exact ⟨rfl, hc, fun hne => absurd (List.isEmpty_iff.1 he) hne⟩
    · exact hc.drainOverflow
  exact ⟨h2.1 ▸ hq, h2.2⟩

@[simp] theorem cur_rqPop : (rqPop k).2.cur = k.cur := by
  simp only [rqPop]; split <;> simp

/-! ## What the running thread does not change -/

section
variable (c : KthreadCur T)

@[simp] theorem queue_setCur : ({ k with cur := c } : Kthread T).queue = k.queue := rfl

@[simp] theorem len_setCur : ({ k with cur := c } : Kthread T).len = k.len := rfl

theorem RqOk.setCur {k : Kthread T} (h : k.RqOk) : ({ k with cur := c } : Kthread T).RqOk :=
  ⟨⟨h.len_le, h.q_eq⟩, h.full_of_overflow⟩

theorem rqPushTail_setCur : rqPushTail { k with cur := c } th = { rqPushTail k th with cur := c } := by
  unfold rqPushTail; split <;> rfl

theorem rqPushHead_setCur : rqPushHead { k with cur := c } th = { rqPushHead k th with cur := c } := by
  simp only [rqPushHead]; split <;> rfl

theorem rqPop_setCur : rqPop { k with cur := c } = ((rqPop k).1, { (rqPop k).2 with cur := c }) := by
  simp only [rqPop]; split <;> rfl

end

/-- The reset of an empty ring to slot `0` in `schedule`. -/
theorem RqOk.reset {k : Kthread T} (h : k.RqOk) (he : k.rqHead = k.rqTail) :
    let k' : Kthread T := { k with rqHead := 0, rqTail := 0 }
    k'.queue = k.queue ∧ k'.RqOk := by
  have hlen : k.len = 0 := by simp [len, he]
  have hov : k.rqOverflow = [] := h.overflow_nil (hlen ▸ Nat.pos_of_neZero runtimeRqSize)
  refine ⟨by simp [queue, he, hov], ⟨⟨by simp [len], ?_⟩, fun hne => absurd hov hne⟩⟩
  show k.qHead - k.qTail = 0 - 0 + UInt32.ofNat k.rqOverflow.length
  rw [h.q_eq, he, hov, sub_self, sub_self]

/-! ## `steal_work` -/

section
variable (kr kl : Kthread T) (a : UInt32)

/-- `div_up(avail, 2)`: the thief takes the older half of the victim's ring, rounded up. -/
theorem toNat_half (h : kr.len ≤ runtimeRqSize) :
    ((kr.rqHead - kr.rqTail + 2 - 1) / 2).toNat = (kr.len + 1) / 2 := by
  rw [UInt32.toNat_div, show kr.rqHead - kr.rqTail + 2 - 1 = kr.rqHead - kr.rqTail + 1 by abel,
    UInt32.toNat_add, UInt32.toNat_one, Nat.mod_eq_of_lt (len_add_one_lt h)]
  rfl

/-- The victim keeps the newer threads of its ring, after the `a` the thief took. -/
theorem queue_steal_victim (q : UInt32) (ha : a.toNat ≤ kr.len) :
    ({ kr with rqTail := kr.rqTail + a, rqOverflow := [], qTail := q } : Kthread T).queue =
      (Ring.window kr.rq kr.rqTail kr.len).drop a.toNat := by
  have hlen : (kr.rqHead - (kr.rqTail + a)).toNat = kr.len - a.toNat := by
    rw [show kr.rqHead - (kr.rqTail + a) = kr.rqHead - kr.rqTail - a by abel,
      UInt32.toNat_sub_of_le _ _ (UInt32.le_iff_toNat_le.2 ha)]
    rfl
  simp only [queue, hlen, List.append_nil]
  rw [Ring.window_drop _ _ ha, UInt32.ofNat_toNat]

/-- The thief, its ring reset to slot `0`, gets the `a` oldest threads of the victim's ring, then
the victim's overflow list. -/
theorem queue_steal_thief (q : UInt32) (ov : List T) (ha : a.toNat ≤ runtimeRqSize)
    (ht : kl.rqTail = 0) :
    ({ kl with rq := Ring.copy kl.rq kr.rq kr.rqTail a.toNat, rqHead := a,
               rqOverflow := kl.rqOverflow ++ ov, qHead := q } : Kthread T).queue =
      Ring.window kr.rq kr.rqTail a.toNat ++ (kl.rqOverflow ++ ov) := by
  simp only [queue, ht, sub_zero]
  rw [Ring.window_copy runtimeRqSize_dvd _ _ _ ha]

theorem Counted.steal_victim {kr : Kthread T} (h : kr.Counted) (ha : a.toNat ≤ kr.len) :
    ({ kr with rqTail := kr.rqTail + a, rqOverflow := [],
               qTail := kr.qTail + a + UInt32.ofNat kr.rqOverflow.length } : Kthread T).RqOk := by
  have hlen : (kr.rqHead - (kr.rqTail + a)).toNat = kr.len - a.toNat := by
    rw [show kr.rqHead - (kr.rqTail + a) = kr.rqHead - kr.rqTail - a by abel,
      UInt32.toNat_sub_of_le _ _ (UInt32.le_iff_toNat_le.2 ha)]
    rfl
  refine ⟨⟨?_, ?_⟩, fun hne => absurd rfl hne⟩
  · show (kr.rqHead - (kr.rqTail + a)).toNat ≤ runtimeRqSize
    rw [hlen]
    exact Nat.le_trans (Nat.sub_le _ _) h.len_le
  · show kr.qHead - (kr.qTail + a + UInt32.ofNat kr.rqOverflow.length) =
      kr.rqHead - (kr.rqTail + a) + UInt32.ofNat ([] : List T).length
    rw [show kr.qHead - (kr.qTail + a + UInt32.ofNat kr.rqOverflow.length) =
      kr.qHead - kr.qTail - a - UInt32.ofNat kr.rqOverflow.length by abel, h.q_eq]
    simp only [List.length_nil]
    abel_nf

theorem Counted.steal_thief {kl : Kthread T} (h : kl.Counted) (hh : kl.rqHead = 0)
    (ht : kl.rqTail = 0) (hov : kl.rqOverflow = []) (rq : Fin runtimeRqSize → T) (ov : List T)
    (ha : a.toNat ≤ runtimeRqSize) :
    ({ kl with rq := rq, rqHead := a, rqOverflow := kl.rqOverflow ++ ov,
               qHead := kl.qHead + a + UInt32.ofNat ov.length } : Kthread T).Counted := by
  have hq : kl.qHead - kl.qTail = 0 := by
    rw [h.q_eq, hh, ht, hov]
    rfl
  refine ⟨?_, ?_⟩
  · show (a - kl.rqTail).toNat ≤ runtimeRqSize
    rw [ht, sub_zero]
    exact ha
  · show kl.qHead + a + UInt32.ofNat ov.length - kl.qTail =
      a - kl.rqTail + UInt32.ofNat (kl.rqOverflow ++ ov).length
    rw [show kl.qHead + a + UInt32.ofNat ov.length - kl.qTail =
      kl.qHead - kl.qTail + a + UInt32.ofNat ov.length by abel, hq, ht, hov, List.nil_append,
      zero_add, sub_zero]

end

end Kthread

end Caladan
