import Mathlib
import Caladan.Runtime.RunQueue

/-!
# The run-queue invariant of the runtime

Across all kthreads, `Runtime.queued` is the multiset of the threads in the queues and
`Runtime.runs` that of the threads the kthreads run. `Runtime.Inv` holds in every state the steps
of `sched.c` reach: each kthread's queue keeps `Kthread.RqOk`, a thread is queued once exactly
when its `thread_ready` flag is set and never twice, and no thread is both queued and running or
running on two kthreads.

Each step is an operation on these multisets: making a thread ready adds it (the `BUG_ON` of
`thread_ready_prepare` and the caller's promise that the thread does not run keep it new), the
pop moves a queued thread to the kthread that runs it, and a steal moves threads between two
queues without changing the multiset. Between a successful steal and its pop the thief's overflow
list may follow a ring that is not full (`Runtime.CanRun`); the pop drains it.
-/

namespace Caladan

variable {T : Type} {nk : Nat}

/-- The thread a kthread runs, as a multiset of at most one thread. -/
def KthreadCur.runs : KthreadCur T → Multiset T
  | .running th => {th}
  | _ => 0

namespace Runtime

/-- The threads in the queues of all kthreads. -/
def queued (s : Runtime T nk) : Multiset T := ∑ k, ((s.ks k).queue : Multiset T)

/-- The threads the kthreads run. -/
def runs (s : Runtime T nk) : Multiset T := ∑ k, (s.ks k).cur.runs

section
variable (s : Runtime T nk) (k : Fin nk) (kt : Kthread T)

@[simp] theorem setK_ks_self : (s.setK k kt).ks k = kt := Function.update_self _ _ _

@[simp] theorem setK_ks_of_ne {j : Fin nk} (h : j ≠ k) : (s.setK k kt).ks j = s.ks j :=
  Function.update_of_ne h _ _

@[simp] theorem setK_ready : (s.setK k kt).ready = s.ready := rfl

theorem setK_setK (kt' : Kthread T) : (s.setK k kt).setK k kt' = s.setK k kt' := by
  simp only [setK, Function.update_idem]

/-- Replacing one kthread replaces its summand in a sum over the kthreads. -/
theorem sum_setK {M : Type*} [AddCommMonoid M] (f : Kthread T → M) :
    ∑ j, f ((s.setK k kt).ks j) + f (s.ks k) = ∑ j, f (s.ks j) + f kt := by
  have e : ∀ j, f ((s.setK k kt).ks j) = Function.update (fun j => f (s.ks j)) k (f kt) j :=
    fun j => Function.apply_update (fun _ => f) s.ks k kt j
  simp only [e]
  rw [Finset.sum_update_of_mem (Finset.mem_univ k), ← Finset.add_sum_erase _ _ (Finset.mem_univ k),
    Finset.sdiff_singleton_eq_erase]
  abel

theorem queued_setK : (s.setK k kt).queued + (s.ks k).queue = s.queued + kt.queue :=
  sum_setK s k kt fun kt => (kt.queue : Multiset T)

theorem runs_setK : (s.setK k kt).runs + (s.ks k).cur.runs = s.runs + kt.cur.runs :=
  sum_setK s k kt fun kt => kt.cur.runs

theorem mem_runs {th : T} : th ∈ s.runs ↔ s.Running th := by
  simp only [runs, Multiset.mem_sum, Finset.mem_univ, true_and, Running]
  refine exists_congr fun j => ?_
  cases (s.ks j).cur <;> simp [KthreadCur.runs, eq_comm]

/-- Two kthreads run a thread each. -/
theorem pair_le_runs {j : Fin nk} (hjk : j ≠ k) :
    (s.ks j).cur.runs + (s.ks k).cur.runs ≤ s.runs :=
  calc (s.ks j).cur.runs + (s.ks k).cur.runs = ∑ x ∈ {j, k}, (s.ks x).cur.runs := by
        rw [Finset.sum_pair hjk]
    _ ≤ s.runs := Finset.sum_le_sum_of_subset (Finset.subset_univ _)

theorem running_iff_of_cur {s' : Runtime T nk} (h : ∀ j, (s'.ks j).cur = (s.ks j).cur) {th : T} :
    s'.Running th ↔ s.Running th := by
  simp only [Running, h]


theorem forall_setK {P : Kthread T → Prop} {kt : Kthread T} (hk : P kt)
    (hj : ∀ j, j ≠ k → P (s.ks j)) (j : Fin nk) : P ((s.setK k kt).ks j) := by
  by_cases h : j = k
  · subst h; rwa [setK_ks_self]
  · rw [setK_ks_of_ne s k kt h]; exact hj j h

theorem cur_setK_of {kt : Kthread T} (hc : kt.cur = (s.ks k).cur) (j : Fin nk) :
    ((s.setK k kt).ks j).cur = (s.ks j).cur := by
  by_cases hj : j = k
  · subst hj; rw [setK_ks_self, hc]
  · rw [setK_ks_of_ne _ _ _ hj]

theorem forall_full_setK {kt : Kthread T} (hk : kt.rqOverflow ≠ [] → kt.len = runtimeRqSize)
    (hj : ∀ j, j ≠ k → (s.ks j).rqOverflow ≠ [] → (s.ks j).len = runtimeRqSize) (j : Fin nk) :
    ((s.setK k kt).ks j).rqOverflow ≠ [] → ((s.setK k kt).ks j).len = runtimeRqSize :=
  @forall_setK T nk s k (fun x => x.rqOverflow ≠ [] → x.len = runtimeRqSize) kt hk hj j

theorem queued_setK_of_queue {kt : Kthread T} (hq : kt.queue = (s.ks k).queue) :
    (s.setK k kt).queued = s.queued :=
  add_right_cancel ((queued_setK s k kt).trans (by rw [hq]))

theorem runs_setK_of_cur {kt : Kthread T} (hc : kt.cur = (s.ks k).cur) :
    (s.setK k kt).runs = s.runs :=
  add_right_cancel ((runs_setK s k kt).trans (by rw [hc]))

variable [DecidableEq T]

@[simp] theorem setReady_ks (th : T) (b : Bool) : (s.setReady th b).ks = s.ks := rfl

@[simp] theorem queued_setReady (th : T) (b : Bool) : (s.setReady th b).queued = s.queued := rfl

@[simp] theorem runs_setReady (th : T) (b : Bool) : (s.setReady th b).runs = s.runs := rfl

theorem setReady_setK (th : T) (b : Bool) :
    (s.setK k kt).setReady th b = (s.setReady th b).setK k kt := rfl

/-- `runNext` with its pop spelled out. -/
theorem runNext_eq : runNext s k =
    (s.setReady (rqPop (s.ks k)).1 false).setK k { (rqPop (s.ks k)).2 with cur := .running (rqPop (s.ks k)).1 } :=
  rfl

theorem setReady_of_eq {th : T} {b : Bool} (h : s.ready th = b) : s.setReady th b = s := by
  simp only [setReady, ← h, Function.update_eq_self]

end

/-! ## The invariant -/

variable [DecidableEq T]

/-- What the invariant says of the threads, with the counters' part of each kthread's. -/
structure Core (s : Runtime T nk) : Prop where
  counted : ∀ k, (s.ks k).Counted
  count_queued : ∀ th, s.queued.count th = (s.ready th).toNat
  nodup : (s.queued + s.runs).Nodup

/-- The run-queue invariant. -/
structure Inv (s : Runtime T nk) : Prop extends s.Core where
  full_of_overflow : ∀ k, (s.ks k).rqOverflow ≠ [] → (s.ks k).len = runtimeRqSize

/-- What the pop of kthread `l` needs: the invariant, but for an overflow list of `l` that may
follow a ring that is not full, and a thread in the ring of `l`. -/
structure CanRun (s : Runtime T nk) (l : Fin nk) : Prop extends s.Core where
  full_of_overflow : ∀ j, j ≠ l → (s.ks j).rqOverflow ≠ [] → (s.ks j).len = runtimeRqSize
  len_pos : 0 < (s.ks l).len

section
variable {s : Runtime T nk} {th : T}

theorem Inv.rqOk (h : s.Inv) (k : Fin nk) : (s.ks k).RqOk := ⟨h.counted k, h.full_of_overflow k⟩

theorem Inv.canRun (h : s.Inv) {l : Fin nk} (hpos : 0 < (s.ks l).len) : s.CanRun l :=
  ⟨h.toCore, fun j _ => h.full_of_overflow j, hpos⟩

theorem Core.mem_queued_iff (h : s.Core) : th ∈ s.queued ↔ s.ready th = true := by
  rw [← Multiset.count_pos, h.count_queued]
  cases s.ready th <;> simp

theorem Core.not_mem_queued_of_running (h : s.Core) (hr : s.Running th) : th ∉ s.queued :=
  fun hq => Multiset.disjoint_left.1 (Multiset.nodup_add.1 h.nodup).2.2 hq ((mem_runs s).2 hr)

theorem Core.ready_eq_false_of_running (h : s.Core) (hr : s.Running th) : s.ready th = false := by
  have hq := h.not_mem_queued_of_running hr
  rw [h.mem_queued_iff] at hq
  simpa using hq

/-- No thread runs on two kthreads. -/
theorem Core.running_unique (h : s.Core) {j k : Fin nk} (hj : (s.ks j).cur = .running th)
    (hk : (s.ks k).cur = .running th) : j = k := by
  by_contra hjk
  have hle := pair_le_runs s k hjk
  rw [hj, hk] at hle
  have hnd := Multiset.nodup_of_le hle (Multiset.nodup_add.1 h.nodup).2.1
  exact Multiset.not_nodup_pair th hnd

/-- A kthread replaced by one with the same queue that runs no other thread keeps the invariant:
the drain, the reset of an empty ring, and a thread that stops running. -/
theorem Inv.setK {k : Fin nk} {kt : Kthread T} (h : s.Inv) (hok : kt.RqOk)
    (hq : kt.queue = (s.ks k).queue) (hr : kt.cur.runs ≤ (s.ks k).cur.runs) : (s.setK k kt).Inv := by
  have hqd := queued_setK_of_queue s k hq
  have hrs : (s.setK k kt).runs ≤ s.runs := by
    have e : (s.setK k kt).runs + (s.ks k).cur.runs ≤ s.runs + (s.ks k).cur.runs := by
      rw [runs_setK]; exact add_le_add le_rfl hr
    exact le_of_add_le_add_right e
  have hle : (s.setK k kt).queued + (s.setK k kt).runs ≤ s.queued + s.runs := by
    rw [hqd]; exact add_le_add le_rfl hrs
  refine ⟨⟨forall_setK s k hok.toCounted fun j _ => h.counted j, fun t => ?_,
    Multiset.nodup_of_le hle h.nodup⟩, forall_full_setK s k hok.full_of_overflow fun j _ => h.full_of_overflow j⟩
  rw [hqd, setK_ready]
  exact h.count_queued t

/-- Kthread `k` stops running its thread, for the scheduler. -/
theorem Inv.stop (h : s.Inv) (k : Fin nk) : (s.setK k { s.ks k with cur := .sched }).Inv :=
  h.setK ((h.rqOk k).setCur _) rfl (by simp [KthreadCur.runs])

/-- Once kthread `k` stops running `th`, no kthread runs it. -/
theorem Core.not_running_stop (h : s.Core) {k : Fin nk} (hk : (s.ks k).cur = .running th) :
    ¬ (s.setK k { s.ks k with cur := .sched }).Running th := by
  rintro ⟨j, hj⟩
  by_cases hjk : j = k
  · subst hjk
    simp at hj
  · rw [setK_ks_of_ne s k _ hjk] at hj
    exact hjk (h.running_unique hj hk)

/-- Making ready a thread that is neither ready nor running adds it to the queued threads. -/
theorem Core.push {k : Fin nk} {kt : Kthread T} (h : s.Core) (hready : s.ready th = false)
    (hrun : ¬ s.Running th) (hq : (kt.queue : Multiset T) = th ::ₘ (s.ks k).queue)
    (hc : kt.Counted) (hcur : kt.cur = (s.ks k).cur) : ((s.setReady th true).setK k kt).Core := by
  have hqd : ((s.setReady th true).setK k kt).queued = th ::ₘ s.queued := by
    have e := queued_setK (s.setReady th true) k kt
    rw [queued_setReady, setReady_ks, hq, Multiset.add_cons, ← Multiset.cons_add] at e
    exact add_right_cancel e
  have hrs : ((s.setReady th true).setK k kt).runs = s.runs := runs_setK_of_cur _ k hcur
  refine ⟨forall_setK _ _ hc fun j _ => h.counted j, fun t => ?_, ?_⟩
  · rw [hqd, setK_ready]
    by_cases ht : t = th
    · subst ht
      rw [Multiset.count_cons_self, h.count_queued, hready]
      simp [setReady]
    · rw [Multiset.count_cons_of_ne ht, h.count_queued]
      simp [setReady, Function.update_of_ne ht]
  · rw [hqd, hrs, Multiset.cons_add, Multiset.nodup_cons, Multiset.mem_add]
    refine ⟨?_, h.nodup⟩
    rintro (hm | hm)
    · rw [h.mem_queued_iff, hready] at hm
      exact Bool.false_ne_true hm
    · exact hrun ((mem_runs s).1 hm)

/-- `thread_ready` on a kthread keeps the invariant. -/
theorem Inv.pushTail (h : s.Inv) (k : Fin nk) (hready : s.ready th = false)
    (hrun : ¬ s.Running th) : ((s.setReady th true).setK k (rqPushTail (s.ks k) th)).Inv := by
  have hok := (h.rqOk k).rqPushTail th
  have hq : ((rqPushTail (s.ks k) th).queue : Multiset T) = th ::ₘ (s.ks k).queue := by
    rw [(h.rqOk k).queue_rqPushTail]
    exact Multiset.coe_eq_coe.2 (List.perm_append_singleton _ _)
  exact ⟨h.push hready hrun hq hok.toCounted (Kthread.cur_rqPushTail _ _),
    forall_full_setK _ _ hok.full_of_overflow fun j _ => h.full_of_overflow j⟩

/-- `thread_ready_head` on a kthread keeps the invariant, and leaves a thread in its ring. -/
theorem Inv.pushHead (h : s.Inv) (k : Fin nk) (hready : s.ready th = false)
    (hrun : ¬ s.Running th) : ((s.setReady th true).setK k (rqPushHead (s.ks k) th)).Inv := by
  have hok := (h.rqOk k).rqPushHead th
  have hq : ((rqPushHead (s.ks k) th).queue : Multiset T) = th ::ₘ (s.ks k).queue := by
    rw [Kthread.queue_rqPushHead _ _ (h.counted k).len_le]
    rfl
  exact ⟨h.push hready hrun hq hok.toCounted (Kthread.cur_rqPushHead _ _),
    forall_full_setK _ _ hok.full_of_overflow fun j _ => h.full_of_overflow j⟩

/-- The pop: kthread `l` runs the first thread of its queue, which stops being ready. -/
theorem CanRun.runNext_inv {l : Fin nk} (h : s.CanRun l) : (runNext s l).Inv := by
  obtain ⟨hq, hok⟩ := (h.counted l).queue_rqPop h.len_pos
  set th := (rqPop (s.ks l)).1
  set kt := (rqPop (s.ks l)).2
  rw [runNext_eq]
  set s' := (s.setReady th false).setK l { kt with cur := .running th }
  -- the pop moves `th` from the queued threads to the running ones
  have hqd : th ::ₘ s'.queued = s.queued := by
    have e := queued_setK (s.setReady th false) l { kt with cur := .running th }
    rw [queued_setReady, setReady_ks, ← hq, Kthread.queue_setCur, ← Multiset.cons_coe,
      Multiset.add_cons, ← Multiset.cons_add] at e
    exact add_right_cancel e
  have hrs : s'.runs + (s.ks l).cur.runs = s.runs + {th} := runs_setK (s.setReady th false) l _
  have hready : s.ready th = true := h.mem_queued_iff.1 (hqd ▸ Multiset.mem_cons_self _ _)
  have hle : s'.queued + s'.runs ≤ s.queued + s.runs :=
    calc s'.queued + s'.runs ≤ s'.queued + (s'.runs + (s.ks l).cur.runs) :=
          add_le_add le_rfl le_self_add
      _ = s.queued + s.runs := by rw [hrs, ← hqd, ← Multiset.singleton_add]; abel
  refine ⟨⟨forall_setK _ _ (hok.setCur _).toCounted fun j _ => h.counted j, fun t => ?_,
    Multiset.nodup_of_le hle h.nodup⟩, forall_full_setK _ _ (hok.setCur _).full_of_overflow h.full_of_overflow⟩
  have hc := h.count_queued t
  rw [← hqd] at hc
  rw [setK_ready]
  by_cases ht : t = th
  · subst ht
    rw [Multiset.count_cons_self, hready] at hc
    simp only [Bool.toNat_true] at hc
    simp [setReady, Nat.add_eq_right.1 hc]
  · rw [Multiset.count_cons_of_ne ht] at hc
    simp [setReady, Function.update_of_ne ht, hc]

end

end Runtime

end Caladan
