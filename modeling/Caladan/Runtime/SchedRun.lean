import Mathlib
import Caladan.Runtime.SchedInv

/-!
# Every step of the scheduler keeps the run-queue invariant

One lemma per function of `sched.c`, each from the lemmas of `SchedInv.lean` on what a push, a
pop, a kthread that stops running its thread and a steal do to the queued threads; then a step
lemma over the events and, by induction, the run lemma: every state reached from the start
satisfies `Runtime.Inv`.

`thread_yield` and `thread_finish_cede` queue the thread the kthread still runs; their lemmas let
the kthread stop running it first, which the step's later `enter_schedule` or its own update of
`cur` makes no difference to.
-/

namespace Caladan

open Caladan.Runtime

variable {T : Type} [DecidableEq T] {nk : Nat} {s s' : Runtime T nk} {k l r : Fin nk} {th : T}

/-! ## Making threads ready -/

theorem threadReadyLocked_eq_some (hs : threadReadyLocked s k th = some s') :
    s.ready th = false ∧ s' = (s.setReady th true).setK k (rqPushTail (s.ks k) th) := by
  cases hr : s.ready th <;> simp [threadReadyLocked, threadReadyPrepare, hr] at hs
  exact ⟨rfl, hs.symm⟩

theorem threadReadyHeadLocked_eq_some (hs : threadReadyHeadLocked s k th = some s') :
    s.ready th = false ∧ s' = (s.setReady th true).setK k (rqPushHead (s.ks k) th) := by
  cases hr : s.ready th <;> simp [threadReadyHeadLocked, threadReadyPrepare, hr] at hs
  exact ⟨rfl, hs.symm⟩

theorem threadReady_inv (h : s.Inv) (hrun : ¬ s.Running th) (hs : threadReady s k th = some s') :
    s'.Inv := by
  obtain ⟨hready, rfl⟩ := threadReadyLocked_eq_some hs
  exact h.pushTail k hready hrun

theorem threadReadyHead_inv (h : s.Inv) (hrun : ¬ s.Running th)
    (hs : threadReadyHead s k th = some s') : s'.Inv := by
  obtain ⟨hready, rfl⟩ := threadReadyHeadLocked_eq_some hs
  exact h.pushHead k hready hrun

theorem softirqSched_false {ths : List T} (hs : softirqSched s k ths = some (false, s')) :
    s' = s := by
  cases ths with
  | nil =>
    simp only [softirqSched, Option.some.injEq, Prod.mk.injEq, true_and] at hs
    exact hs.symm
  | cons th ths =>
    obtain ⟨_, -, hs⟩ := Option.bind_eq_some_iff.1 hs
    obtain ⟨_, -, hr⟩ := Option.map_eq_some_iff.1 hs
    simp at hr

/-- `softirq_sched` keeps the invariant and what the kthreads run; when it finds softirq work,
the ring of the kthread it runs on holds a thread. -/
theorem softirqSched_inv {ths : List T} {found : Bool} (h : s.Inv)
    (hrun : ∀ th ∈ ths, ¬ s.Running th) (hs : softirqSched s k ths = some (found, s')) :
    s'.Inv ∧ (∀ j, (s'.ks j).cur = (s.ks j).cur) ∧ (found = true → 0 < (s'.ks k).len) := by
  -- one `thread_ready_head_locked` per softirq thread
  induction ths generalizing s found s' with
  | nil =>
    simp only [softirqSched, Option.some.injEq, Prod.mk.injEq] at hs
    obtain ⟨rfl, rfl⟩ := hs
    exact ⟨h, fun _ => rfl, fun hf => absurd hf Bool.false_ne_true⟩
  | cons th ths ih =>
    obtain ⟨s1, hs1, hs⟩ := Option.bind_eq_some_iff.1 hs
    obtain ⟨⟨f, s2⟩, hs2, hr⟩ := Option.map_eq_some_iff.1 hs
    simp only [Prod.mk.injEq] at hr
    obtain ⟨rfl, rfl⟩ := hr
    obtain ⟨hready, rfl⟩ := threadReadyHeadLocked_eq_some hs1
    have h1 := h.pushHead k hready (hrun th List.mem_cons_self)
    have hcur1 := cur_setK_of (s.setReady th true) k (Kthread.cur_rqPushHead (s.ks k) th)
    have hrun1 : ∀ t ∈ ths, ¬ ((s.setReady th true).setK k (rqPushHead (s.ks k) th)).Running t :=
      fun t ht => (running_iff_of_cur (s.setReady th true) hcur1).not.2
        (hrun t (List.mem_cons_of_mem _ ht))
    obtain ⟨h2, hcur2, hpos2⟩ := ih h1 hrun1 hs2
    refine ⟨h2, fun j => (hcur2 j).trans (hcur1 j), fun _ => ?_⟩
    cases f
    · rw [softirqSched_false hs2, setK_ks_self]
      exact Kthread.len_rqPushHead_pos _ _ (h.counted k).len_le
    · exact hpos2 rfl

/-! ## Entering the scheduler -/

theorem enterSchedule_inv (h : s.Inv) (k : Fin nk) (slow : Bool) : (enterSchedule s k slow).Inv := by
  unfold enterSchedule
  split_ifs with hc
  · exact h.stop k
  · have hne : (s.ks k).rqHead - (s.ks k).rqTail ≠ 0 := by
      simp only [Bool.or_eq_true, decide_eq_true_eq, not_or] at hc
      exact sub_ne_zero.2 hc.1
    exact (h.canRun (((s.ks k).rqHead_sub_ne_zero_iff).1 hne)).runNext_inv

/-- `enter_schedule` sets what the kthread runs: what it ran before makes no difference. -/
theorem enterSchedule_setCur (c : KthreadCur T) (slow : Bool) :
    enterSchedule (s.setK k { s.ks k with cur := c }) k slow = enterSchedule s k slow := by
  simp only [enterSchedule, runNext_eq, setK_ks_self, Kthread.rqPop_setCur, setReady_setK, setK_setK]

theorem threadReady_setCur (c : KthreadCur T) (hs : threadReady s k th = some s') :
    threadReady (s.setK k { s.ks k with cur := c }) k th = some (s'.setK k { s'.ks k with cur := c }) := by
  obtain ⟨hready, rfl⟩ := threadReadyLocked_eq_some hs
  simp [threadReady, threadReadyLocked, threadReadyPrepare, hready, setReady_setK, setK_setK,
    Kthread.rqPushTail_setCur]

theorem threadParkAndUnlockNp_inv (h : s.Inv) (hs : threadParkAndUnlockNp s k = some s') :
    s'.Inv := by
  unfold threadParkAndUnlockNp at hs
  split at hs
  · cases hs
    exact h.setK ((h.rqOk k).setCur _) rfl (by simp [KthreadCur.runs])
  · cases hs

/-- `thread_yield`: the thread goes to the end of its kthread's queue, behind the softirq threads
`softirq_run` found, and the kthread enters the scheduler. -/
theorem threadYield_inv {softirqs : List T} {slow : Bool} (h : s.Inv)
    (hrun : ∀ th ∈ softirqs, ¬ s.Running th) (hs : threadYield s k softirqs slow = some s') :
    s'.Inv := by
  unfold threadYield at hs
  split at hs
  · rename_i curth hcur
    obtain ⟨⟨_, s1⟩, hs1, hs⟩ := Option.bind_eq_some_iff.1 hs
    obtain ⟨s2, hs2, hs⟩ := Option.bind_eq_some_iff.1 hs
    cases hs
    obtain ⟨h1, hcur1, -⟩ := softirqSched_inv h hrun hs1
    have hk : (s1.ks k).cur = .running curth := (hcur1 k).trans hcur
    rw [setReady_of_eq s1 (h1.ready_eq_false_of_running ⟨k, hk⟩)] at hs2
    -- `curth` stops running on `k` before it is queued
    have h2 := threadReady_inv (h1.stop k) (h1.not_running_stop hk)
      (threadReady_setCur (KthreadCur.sched) hs2)
    rw [← enterSchedule_setCur (KthreadCur.sched) slow]
    exact enterSchedule_inv h2 k slow
  · cases hs

/-- `thread_finish_cede`: the thread cuts in at the front of its kthread's queue. -/
theorem threadFinishCede_inv (h : s.Inv) (hs : threadFinishCede s k = some s') : s'.Inv := by
  unfold threadFinishCede at hs
  split at hs
  · rename_i myth hcur
    cases hs
    have h2 := (h.stop k).pushHead k (h.ready_eq_false_of_running ⟨k, hcur⟩)
      (h.not_running_stop hcur)
    simpa only [setK_ks_self, setReady_ks, Kthread.rqPushHead_setCur, setReady_setK, setK_setK]
      using h2
  · cases hs

/-! ## Stealing -/

theorem stealWork_false {locked pending : Bool} {softirqs : List T}
    (hs : stealWork s l r locked pending softirqs = some (false, s')) : s' = s := by
  dsimp only [stealWork] at hs
  -- `work_available`, then `spin_try_lock`, then the three ways to find work
  split at hs
  · simp only [Option.some.injEq, Prod.mk.injEq, true_and] at hs
    exact hs.symm
  split at hs
  · simp only [Option.some.injEq, Prod.mk.injEq, true_and] at hs
    exact hs.symm
  split at hs
  · simp at hs
  split at hs
  · simp at hs
  · exact softirqSched_false hs

/-- The steal of the older half of the victim's ring with its overflow list leaves every thread
queued once: the thief's ring holds the stolen half and its overflow list the victim's. -/
theorem stealHalf_canRun (h : s.Inv) (hlr : l ≠ r) (hh : (s.ks l).rqHead = 0)
    (ht : (s.ks l).rqTail = 0) (hpos : 0 < (s.ks r).len) :
    let kr := s.ks r
    let a := (kr.rqHead - kr.rqTail + 2 - 1) / 2
    let kl := s.ks l
    ((s.setK r { kr with rqTail := kr.rqTail + a, rqOverflow := [],
                         qTail := kr.qTail + a + UInt32.ofNat kr.rqOverflow.length }).setK l
      { kl with rq := Ring.copy kl.rq kr.rq kr.rqTail a.toNat, rqHead := a,
                rqOverflow := kl.rqOverflow ++ kr.rqOverflow,
                qHead := kl.qHead + a + UInt32.ofNat kr.rqOverflow.length }).CanRun l := by
  intro kr a kl
  set kr' : Kthread T :=
    { kr with rqTail := kr.rqTail + a, rqOverflow := [],
              qTail := kr.qTail + a + UInt32.ofNat kr.rqOverflow.length } with hkr'
  set kl' : Kthread T :=
    { kl with rq := Ring.copy kl.rq kr.rq kr.rqTail a.toNat, rqHead := a,
              rqOverflow := kl.rqOverflow ++ kr.rqOverflow,
              qHead := kl.qHead + a + UInt32.ofNat kr.rqOverflow.length } with hkl'
  set s1 := s.setK r kr'
  have hokr := h.rqOk r
  have hl1 : s1.ks l = kl := setK_ks_of_ne s r kr' hlr
  have hlen0 : kl.len = 0 := by simp [Kthread.len, kl, hh, ht]
  have hlov : kl.rqOverflow = [] := (h.rqOk l).overflow_nil (hlen0 ▸ Nat.pos_of_neZero _)
  have ha : a.toNat = (kr.len + 1) / 2 := Kthread.toNat_half kr hokr.len_le
  have ha_le : a.toNat ≤ kr.len := by omega
  have ha_sz : a.toNat ≤ runtimeRqSize := ha_le.trans hokr.len_le
  -- the thief's queue and what the victim keeps make up the victim's queue
  have hsplit : (kl'.queue : Multiset T) + kr'.queue = kr.queue := by
    rw [hkl', Kthread.queue_steal_thief kr kl a _ _ ha_sz ht, hkr',
      Kthread.queue_steal_victim kr a _ ha_le, hlov, List.nil_append,
      ← Ring.window_take _ _ ha_le, Multiset.coe_add, Multiset.coe_eq_coe]
    -- the overflow list moves behind the stolen half, ahead of what the victim keeps
    rw [List.append_assoc]
    refine (List.perm_append_comm.append_left _).trans ?_
    rw [← List.append_assoc, List.take_append_drop]
    rfl
  have hqd : (s1.setK l kl').queued = s.queued := by
    have e1 := queued_setK s r kr'
    have e2 := queued_setK s1 l kl'
    have hq0 : kl.queue = [] := by
      show Ring.window kl.rq kl.rqTail kl.len ++ kl.rqOverflow = []
      rw [hlen0, hlov]
      rfl
    rw [hl1, hq0, Multiset.coe_nil, add_zero] at e2
    have e : (s1.setK l kl').queued + kr.queue = s.queued + kr.queue :=
      calc (s1.setK l kl').queued + kr.queue = s1.queued + kr.queue + kl'.queue := by
            rw [e2]; abel
        _ = s.queued + ((kl'.queue : Multiset T) + kr'.queue) := by rw [e1]; abel
        _ = s.queued + kr.queue := by rw [hsplit]
    exact add_right_cancel e
  have hrs : (s1.setK l kl').runs = s.runs :=
    (runs_setK_of_cur s1 l (by rw [hl1])).trans (runs_setK_of_cur s r rfl)
  have hokr' : kr'.RqOk := hokr.toCounted.steal_victim a ha_le
  refine ⟨⟨forall_setK s1 l ((h.counted l).steal_thief a hh ht hlov _ _ ha_sz)
      (fun j _ => forall_setK s r hokr'.toCounted (fun j _ => h.counted j) j),
    fun t => by rw [hqd]; exact h.count_queued t, by rw [hqd, hrs]; exact h.nodup⟩,
    fun j hj => ?_, ?_⟩
  · rw [setK_ks_of_ne s1 l kl' hj]
    exact forall_full_setK s r hokr'.full_of_overflow (fun j _ => h.full_of_overflow j) j
  · rw [setK_ks_self]
    show 0 < (a - kl.rqTail).toNat
    have hpos' : 0 < kr.len := hpos
    rw [ht, sub_zero, ha]
    omega

/-- A successful `steal_work` leaves the thief with a thread to run. -/
theorem stealWork_canRun {locked pending : Bool} {softirqs : List T} (h : s.Inv) (hlr : l ≠ r)
    (hh : (s.ks l).rqHead = 0) (ht : (s.ks l).rqTail = 0) (hrun : ∀ th ∈ softirqs, ¬ s.Running th)
    (hs : stealWork s l r locked pending softirqs = some (true, s')) : s'.CanRun l := by
  dsimp only [stealWork] at hs
  split at hs
  · simp at hs
  split at hs
  · simp at hs
  split at hs
  · rename_i ha
    cases hs
    exact stealHalf_canRun h hlr hh ht (((s.ks r).rqHead_sub_ne_zero_iff).1 ha)
  rename_i ha
  split at hs
  · -- an overflow list behind an empty ring: the invariant rules it out
    rename_i hov
    have hfull := (h.rqOk r).full_of_overflow (by rw [hov]; exact List.cons_ne_nil _ _)
    have hlen0 : (s.ks r).len = 0 := by
      rw [not_not] at ha
      simp [Kthread.len, ha]
    rw [hlen0] at hfull
    exact absurd hfull.symm (NeZero.ne runtimeRqSize)
  · obtain ⟨h', -, hpos⟩ := softirqSched_inv h hrun hs
    exact h'.canRun (hpos rfl)

/-- The steal attempts of a pass of `schedule`: up to the first that finds work, nothing changes. -/
theorem stealLoop_inv {steals : List (StealTry T nk)} {found : Bool} (h : s.Inv)
    (hh : (s.ks l).rqHead = 0) (ht : (s.ks l).rqTail = 0)
    (hrun : ∀ t ∈ steals, ∀ th ∈ t.softirqs, ¬ s.Running th)
    (hs : stealLoop s l steals = some (found, s')) :
    (found = false → s' = s) ∧ (found = true → s'.CanRun l) := by
  induction steals with
  | nil =>
    simp only [stealLoop, Option.some.injEq, Prod.mk.injEq] at hs
    obtain ⟨rfl, rfl⟩ := hs
    exact ⟨fun _ => rfl, fun hf => absurd hf Bool.false_ne_true⟩
  | cons t ts ih =>
    have hrun' : ∀ t ∈ ts, ∀ th ∈ t.softirqs, ¬ s.Running th :=
      fun t' ht' => hrun t' (List.mem_cons_of_mem _ ht')
    simp only [stealLoop] at hs
    split_ifs at hs with htl
    · exact ih hrun' hs
    · obtain ⟨⟨f, s1⟩, hs1, hs⟩ := Option.bind_eq_some_iff.1 hs
      cases f
      · rw [stealWork_false hs1] at hs
        exact ih hrun' hs
      · simp only [if_true, Option.some.injEq, Prod.mk.injEq] at hs
        obtain ⟨rfl, rfl⟩ := hs
        exact ⟨fun hf => Bool.noConfusion hf,
          fun _ => stealWork_canRun h (Ne.symm htl) hh ht (hrun t List.mem_cons_self) hs1⟩

/-! ## A pass of `schedule` -/

theorem scheduleAgain_inv {softirqs recheck : List T} {steals : List (StealTry T nk)} (h : s.Inv)
    (hh : (s.ks l).rqHead = 0) (ht : (s.ks l).rqTail = 0)
    (hrun : ∀ th ∈ softirqs ++ steals.flatMap StealTry.softirqs ++ recheck, ¬ s.Running th)
    (hs : scheduleAgain s l softirqs steals recheck = some s') : s'.Inv := by
  simp only [List.mem_append, List.mem_flatMap] at hrun
  unfold scheduleAgain at hs
  obtain ⟨⟨f1, s1⟩, hs1, hs⟩ := Option.bind_eq_some_iff.1 hs
  obtain ⟨h1, -, hpos1⟩ := softirqSched_inv h (fun th hm => hrun th (.inl (.inl hm))) hs1
  cases f1
  · -- no softirq work: try to steal
    rw [softirqSched_false hs1] at hs
    obtain ⟨⟨f2, s2⟩, hs2, hs⟩ := Option.bind_eq_some_iff.1 hs
    obtain ⟨hf2, ht2⟩ :=
      stealLoop_inv h hh ht (fun t hm th ht' => hrun th (.inl (.inr ⟨t, hm, ht'⟩))) hs2
    cases f2
    · -- nothing to steal: the last check of the softirqs
      rw [hf2 rfl] at hs
      obtain ⟨⟨f3, s3⟩, hs3, rfl⟩ := Option.map_eq_some_iff.1 hs
      obtain ⟨h3, -, hpos3⟩ := softirqSched_inv h (fun th hm => hrun th (.inr hm)) hs3
      cases f3
      · exact h3
      · exact (h3.canRun (hpos3 rfl)).runNext_inv
    · simp only [if_true, Option.some.injEq] at hs
      rw [← hs]
      exact (ht2 rfl).runNext_inv
  · simp only [if_true, Option.some.injEq] at hs
    rw [← hs]
    exact (h1.canRun (hpos1 rfl)).runNext_inv

/-- One pass of `schedule`, from taking the kthread's lock to jumping to the thread it found or
parking. -/
theorem schedule_inv {watchdog : Option (List T)} {softirqs recheck : List T}
    {steals : List (StealTry T nk)} (h : s.Inv)
    (hrun : ∀ th ∈ watchdog.getD [] ++ softirqs ++ steals.flatMap StealTry.softirqs ++ recheck,
      ¬ s.Running th)
    (hs : schedule s l watchdog softirqs steals recheck = some s') : s'.Inv := by
  simp only [List.append_assoc, List.mem_append] at hrun
  unfold schedule at hs
  obtain ⟨⟨f1, s1⟩, hs1, hs⟩ := Option.bind_eq_some_iff.1 hs
  obtain ⟨h1, -, hpos1⟩ := softirqSched_inv h (fun th hm => hrun th (.inl hm)) hs1
  cases f1
  · rw [softirqSched_false hs1] at hs
    simp only [Bool.false_eq_true, if_false] at hs
    -- drain the overflow list into the ring
    set s2 := if (s.ks l).rqOverflow.isEmpty = true then s else s.setK l (drainOverflow (s.ks l))
    have h2 : s2.Inv := by
      simp only [s2]
      split_ifs
      · exact h
      · obtain ⟨hq, hok⟩ := (h.counted l).drainOverflow
        exact h.setK hok hq (by rw [Kthread.cur_drainOverflow])
    have hcur2 : ∀ j, (s2.ks j).cur = (s.ks j).cur := by
      simp only [s2]
      split_ifs
      · exact fun _ => rfl
      · exact cur_setK_of s l (Kthread.cur_drainOverflow _)
    split_ifs at hs with hne
    · cases hs
      exact (h2.canRun (((s2.ks l).rqHead_sub_ne_zero_iff).1 (sub_ne_zero.2 hne))).runNext_inv
    · -- reset the empty ring to slot 0
      rw [not_not] at hne
      obtain ⟨hq, hok⟩ := (h2.rqOk l).reset hne
      have h3 := h2.setK hok hq le_rfl
      refine scheduleAgain_inv h3 (by rw [setK_ks_self]) (by rw [setK_ks_self]) ?_ hs
      intro th hm
      have hcur3 := cur_setK_of s2 l
        (show ({ s2.ks l with rqHead := 0, rqTail := 0 } : Kthread T).cur = (s2.ks l).cur from rfl)
      refine (running_iff_of_cur s fun j => (hcur3 j).trans (hcur2 j)).not.2 (hrun th (.inr ?_))
      simpa only [List.append_assoc, List.mem_append] using hm
  · simp only [if_true, Option.some.injEq] at hs
    rw [← hs]
    exact (h1.canRun (hpos1 rfl)).runNext_inv

/-! ## Runs -/

/-- Every event keeps the run-queue invariant. -/
theorem schedStep_inv {e : SchedEvent T nk} (h : s.Inv) (hs : schedStep s e = some s') :
    s'.Inv := by
  unfold schedStep at hs
  split_ifs at hs with hw
  have hrun : ∀ th ∈ e.woken, ¬ s.Running th := by
    intro th hm hr
    exact hw (List.any_eq_true.2 ⟨th, hm, decide_eq_true hr⟩)
  cases e with
  | ready k th => exact threadReady_inv h (hrun th (by simp [SchedEvent.woken])) hs
  | readyHead k th => exact threadReadyHead_inv h (hrun th (by simp [SchedEvent.woken])) hs
  | park k => exact threadParkAndUnlockNp_inv h hs
  | enterSchedule k slow =>
    dsimp only at hs
    split at hs
    · cases hs
      exact enterSchedule_inv h k slow
    · cases hs
  | yield k softirqs slow => exact threadYield_inv h hrun hs
  | finishCede k => exact threadFinishCede_inv h hs
  | schedule k watchdog softirqs steals recheck =>
    dsimp only at hs
    split at hs
    · exact schedule_inv h hrun hs
    · cases hs

/-- Every run of events keeps the run-queue invariant. -/
theorem schedRun_inv {es : List (SchedEvent T nk)} (h : s.Inv) (hs : schedRun s es = some s') :
    s'.Inv := by
  induction es generalizing s with
  | nil =>
    simp only [schedRun, Option.some.injEq] at hs
    exact hs ▸ h
  | cons e es ih =>
    obtain ⟨s1, hs1, hs⟩ := Option.bind_eq_some_iff.1 hs
    exact ih (schedStep_inv h hs1) hs

theorem init_inv (rq₀ : Fin runtimeRqSize → T) : (Runtime.init rq₀ : Runtime T nk).Inv := by
  have hq : (Runtime.init rq₀ : Runtime T nk).queued = 0 :=
    Finset.sum_eq_zero fun _ _ => by simp [Kthread.queue, Runtime.init]
  have hr : (Runtime.init rq₀ : Runtime T nk).runs = 0 :=
    Finset.sum_eq_zero fun _ _ => rfl
  refine ⟨⟨fun _ => ⟨by simp [Kthread.len, Runtime.init], by simp [Runtime.init]⟩, fun th => ?_, ?_⟩,
    fun _ hne => ?_⟩
  · rw [hq]; rfl
  · rw [hq, hr]; exact Multiset.nodup_zero
  · exact absurd rfl hne

/-- In every state a run of the scheduler reaches, on any number of kthreads: each kthread's ring
holds at most `RUNTIME_RQ_SIZE` threads, its overflow list is empty unless the ring is full, and
its exported counters differ by the length of its queue; and across all kthreads no thread is
queued twice, and the queued threads are exactly those whose `thread_ready` is set. -/
theorem schedRun_runqueues_ok (rq₀ : Fin runtimeRqSize → T) (es : List (SchedEvent T nk))
    (hs : schedRun (Runtime.init rq₀) es = some s) :
    (∀ k, (s.ks k).len ≤ runtimeRqSize ∧
      ((s.ks k).rqOverflow ≠ [] → (s.ks k).len = runtimeRqSize) ∧
      (s.ks k).qHead - (s.ks k).qTail =
        (s.ks k).rqHead - (s.ks k).rqTail + UInt32.ofNat (s.ks k).rqOverflow.length) ∧
    s.queued.Nodup ∧ ∀ th, th ∈ s.queued ↔ s.ready th = true := by
  have h := schedRun_inv (init_inv rq₀) hs
  exact ⟨fun k => ⟨(h.counted k).len_le, h.full_of_overflow k, (h.counted k).q_eq⟩,
    (Multiset.nodup_add.1 h.nodup).1, fun _ => h.mem_queued_iff⟩

/-- Three threads made ready on kthread `0`, then kthread `1` steals two of them and runs one. -/
theorem schedRun_steal_ok :
    ∃ s : Runtime Nat 2, schedRun (Runtime.init fun _ => 0)
        [.ready 0 1, .ready 0 2, .ready 0 3, .schedule 1 none [] [⟨0, true, false, []⟩] []] = some s ∧
      (∀ k, (s.ks k).len ≤ runtimeRqSize ∧
        ((s.ks k).rqOverflow ≠ [] → (s.ks k).len = runtimeRqSize) ∧
        (s.ks k).qHead - (s.ks k).qTail =
          (s.ks k).rqHead - (s.ks k).rqTail + UInt32.ofNat (s.ks k).rqOverflow.length) ∧
      s.queued.Nodup ∧ ∀ th, th ∈ s.queued ↔ s.ready th = true :=
  ⟨_, rfl, schedRun_runqueues_ok (fun _ => 0)
    [.ready 0 1, .ready 0 2, .ready 0 3, .schedule 1 none [] [⟨0, true, false, []⟩] []] rfl⟩

/-- In every state a run of the scheduler reaches, a thread that runs on a kthread runs on no other,
waits in no run queue and is not marked ready: a waker cannot queue it again while it runs. -/
theorem schedRun_running_exclusive (rq₀ : Fin runtimeRqSize → T) (es : List (SchedEvent T nk))
    (hs : schedRun (Runtime.init rq₀) es = some s) {th : T} {k : Fin nk}
    (hk : (s.ks k).cur = .running th) :
    (∀ j, (s.ks j).cur = .running th → j = k) ∧ th ∉ s.queued ∧ s.ready th = false := by
  have h := (schedRun_inv (init_inv rq₀) hs).toCore
  have hr : s.Running th := ⟨k, hk⟩
  exact ⟨fun j hj => h.running_unique hj hk, h.not_mem_queued_of_running hr,
    h.ready_eq_false_of_running hr⟩

/-- A thread made ready on kthread `0` and then run by its scheduler. -/
theorem schedRun_runs_one :
    ∃ s : Runtime Nat 2, schedRun (Runtime.init fun _ => 0)
        [.ready 0 1, .schedule 0 none [] [] []] = some s ∧ (s.ks 0).cur = .running 1 ∧
      (∀ j, (s.ks j).cur = .running 1 → j = 0) ∧ 1 ∉ s.queued ∧ s.ready 1 = false :=
  ⟨_, rfl, rfl, schedRun_running_exclusive (fun _ => 0) [.ready 0 1, .schedule 0 none [] [] []] rfl rfl⟩

end Caladan
