import Mathlib
import Caladan.Lib.Run

/-!
# RCU grace periods (`runtime/rcu.c`, `runtime/sched.c`)

Each kthread counts its way in and out of uthreads in `rcu_gen`: `schedule()` adds one on entry
(even: in the scheduler) and one before `jmp_thread` (odd: in a uthread), the direct switch of
`enter_schedule` adds two, `thread_finish_cede` adds one on each side of its park, and
`schedule_start` sets it to one. `rcu_worker` takes the list that `rcu_free` and
`synchronize_rcu` push onto, reads every counter once, and after each sleep reads them all again:
it calls the heads' `func` when no kthread shows the odd counter of its snapshot.

A kthread is its counter and where its code is; each read of a counter by the worker is a step.
Ghost fields number the read-side critical sections (an interval of one uthread run with
preemption off, in which the uthread neither parks nor yields), record those in progress when a
head is pushed, count each counter's increments, and log the calls of `head->func`. The worker is
a process of its own: that it runs as a uthread on some kthread only adds runs.
-/

namespace Caladan

/-- Where a kthread's code is, as far as `rcu_gen` tells. -/
inductive KPhase
  /-- not yet through `schedule_start` -/
  | init
  /-- in `schedule()`, parked there or not -/
  | sched
  /-- in a uthread -/
  | run
  /-- parked in `thread_finish_cede` -/
  | ceded
  /-- on the runtime stack, on the way into `schedule()` after `schedule_start` or a cede -/
  | back
deriving DecidableEq, Repr

/-- The RCU part of a `struct kthread`, with two ghost fields: the critical section of its uthread
by number, and how many times `rcu_gen` was incremented. -/
structure RcuKthread where
  rcuGen : UInt32
  phase : KPhase
  cs : Option Nat
  ticks : Nat
deriving DecidableEq, Repr

namespace RcuKthread

/-- A kthread as `allock` zeroes it. -/
def zero : RcuKthread := ⟨0, .init, none, 0⟩

/-- `store_release(&k->rcu_gen, k->rcu_gen + d)`, as the kthread moves to `ph`. -/
def bump (t : RcuKthread) (d : UInt32) (ph : KPhase) : RcuKthread :=
  { t with rcuGen := t.rcuGen + d, ticks := t.ticks + d.toNat, phase := ph }

end RcuKthread

/-- Where `rcu_worker` is, with the list it took and its `last_rcu_gen` snapshot. -/
inductive RcuWorker
  /-- at the top of its loop, or asleep on an empty list -/
  | idle
  /-- reading the counters into `last_rcu_gen`, the next one at `last.length` -/
  | snap (heads : List Nat) (last : List UInt32)
  /-- in a pass over the counters, the next one at `i` -/
  | check (heads : List Nat) (last : List UInt32) (i : Nat)
  /-- calling `func` on each head of the list -/
  | free (heads : List Nat)
deriving DecidableEq, Repr

/-- The heads the worker holds. -/
def RcuWorker.heads : RcuWorker → List Nat
  | .idle => []
  | .snap hs _ => hs
  | .check hs _ _ => hs
  | .free hs => hs

/-- The test after the loop over the counters, `i` where the loop stopped: `continue` to sleep and
read them all again, or free the list. -/
def RcuWorker.afterPass (maxks : Nat) (hs : List Nat) (last : List UInt32) (i : Nat) :
    RcuWorker :=
  if i ≠ maxks then .check hs last 0 else .free hs

/-- The kthreads `ks[0..nrks)`, `maxks`, `rcu_head` (a head by number, the newest first) and the
worker; then the ghost fields: the next critical section's number, the sections in progress when
each head was pushed, the heads ever pushed and those of `synchronize_rcu`, the counts of
increments at the snapshot, and the heads whose `func` was called. -/
structure Rcu where
  ks : List RcuKthread
  maxks : Nat
  rcuHead : List Nat
  worker : RcuWorker
  nextCs : Nat
  pend : Nat → List Nat
  enq : List Nat
  syncs : List Nat
  snapTicks : List Nat
  invoked : List Nat

namespace Rcu

/-- After `runtime_init`: `nrks == maxks` kthreads, none started. -/
def init (n : Nat) : Rcu :=
  ⟨List.replicate n .zero, n, [], .idle, 0, fun _ => [], [], [], [], []⟩

/-- Kthread `k`. -/
def kt (s : Rcu) (k : Nat) : RcuKthread := s.ks.getD k .zero

/-- The critical sections in progress. -/
def active (s : Rcu) : List Nat := s.ks.filterMap (·.cs)

/-- Critical section `c` is in progress on some kthread. -/
def Open (s : Rcu) (c : Nat) : Prop := ∃ k, (s.kt k).cs = some c

/-- A step of kthread `k` alone: `f` says what it does, `none` where it cannot. -/
def onK (s : Rcu) (k : Nat) (f : RcuKthread → Option RcuKthread) : Option Rcu :=
  match s.ks[k]? with
  | some t => (f t).map fun t' => { s with ks := s.ks.set k t' }
  | none => none

/-- Pushing head `h` onto `rcu_head` under `rcu_lock`. -/
def enqueue (s : Rcu) (h : Nat) : Rcu :=
  { s with rcuHead := h :: s.rcuHead, enq := h :: s.enq, pend := Function.update s.pend h s.active }

end Rcu

/-- What kthread code does to its own counter and critical section. -/
inductive KOp
  /-- `schedule_start` once the kthread is attached -/
  | start
  /-- entering `schedule()` from a uthread that parks, yields or exits, or after a start or a cede -/
  | schedEnter
  /-- leaving `schedule()` into the next uthread -/
  | schedExit
  /-- the fast path of `enter_schedule`, straight into the next uthread -/
  | direct
  /-- `thread_finish_cede` up to `kthread_park` -/
  | cedePark
  /-- `thread_finish_cede` back from `kthread_park` -/
  | cedeWake
  /-- `rcu_read_lock` in a uthread -/
  | readLock
  /-- `rcu_read_unlock` -/
  | readUnlock
deriving DecidableEq, Repr

/-- A kthread's step, with `c` the number a new critical section gets; `none` where it cannot be
taken. A uthread leaves its run (parks, yields, cedes, exits) only outside a critical section. -/
def RcuKthread.step (c : Nat) (t : RcuKthread) : KOp → Option RcuKthread
  | .start => if t.phase = .init then some { t with rcuGen := 1, ticks := 1, phase := .back } else none
  | .schedEnter =>
    if t.phase = .back ∨ t.phase = .run ∧ t.cs = none then some (t.bump 1 .sched) else none
  | .schedExit => if t.phase = .sched then some (t.bump 1 .run) else none
  | .direct => if t.phase = .run ∧ t.cs = none then some (t.bump 2 .run) else none
  | .cedePark => if t.phase = .run ∧ t.cs = none then some (t.bump 1 .ceded) else none
  | .cedeWake => if t.phase = .ceded then some (t.bump 1 .back) else none
  | .readLock => if t.phase = .run ∧ t.cs = none then some { t with cs := some c } else none
  | .readUnlock => if t.cs.isSome then some { t with cs := none } else none

/-- The steps of the kthreads and of the worker. -/
inductive RcuOp
  /-- kthread `k` runs its code -/
  | kthread (k : Nat) (op : KOp)
  /-- `rcu_free` of head `h` by a uthread on kthread `k` -/
  | rcuFree (k h : Nat)
  /-- `synchronize_rcu` with head `h`, whose park takes the fast path of `enter_schedule` or not -/
  | synchronize (k h : Nat) (fast : Bool)
  /-- `rcu_worker` takes the list, or sleeps on an empty one -/
  | take
  /-- `rcu_worker` reads a counter into `last_rcu_gen` -/
  | snap
  /-- `rcu_worker` reads a counter in a pass, or ends the pass -/
  | check
  /-- `rcu_worker` calls the next head's `func`, having read `next` first -/
  | invoke

/-- One step, `none` where it cannot be taken; a head is pushed once. -/
def rcuStep (s : Rcu) : RcuOp → Option Rcu
  | .kthread k op => Rcu.onK { s with nextCs := s.nextCs + 1 } k fun t => t.step s.nextCs op
  | .rcuFree k h =>
    if (s.kt k).phase = .run ∧ k < s.ks.length ∧ h ∉ s.enq then some (s.enqueue h) else none
  | .synchronize k h fast =>
    if h ∈ s.enq then none
    else Rcu.onK { s.enqueue h with syncs := h :: s.syncs } k fun t =>
      if t.phase = .run then t.step 0 (if fast then .direct else .schedEnter) else none
  | .take =>
    match s.worker with
    | .idle =>
      if s.rcuHead = [] then some s
      else some { s with worker := .snap s.rcuHead [], rcuHead := [], snapTicks := [] }
    | _ => none
  | .snap =>
    match s.worker with
    | .snap hs last =>
      match s.ks[last.length]? with
      | some t => some { s with
          worker := .snap hs (last ++ [t.rcuGen]), snapTicks := s.snapTicks ++ [t.ticks] }
      | none => some { s with worker := .check hs last 0 }
    | _ => none
  | .check =>
    match s.worker with
    | .check hs last i =>
      some { s with worker :=
        match s.ks[i]? with
        | some t =>
          if t.rcuGen &&& 1 = 1 ∧ t.rcuGen = last.getD i 0 then .afterPass s.maxks hs last i
          else .check hs last (i + 1)
        | none => .afterPass s.maxks hs last i }
    | _ => none
  | .invoke =>
    match s.worker with
    | .free (h :: rest) => some { s with worker := .free rest, invoked := s.invoked ++ [h] }
    | .free [] => some { s with worker := .idle }
    | _ => none

/-! ## A kthread -/

namespace RcuKthread

/-- What a kthread keeps: `rcu_gen` is its count of increments modulo `2^32`, odd exactly in a
uthread or on the way back into `schedule()`, and a critical section is only open in a uthread. -/
structure Ok (t : RcuKthread) : Prop where
  gen : t.rcuGen.toNat = t.ticks % 2 ^ 32
  odd : t.ticks % 2 = 1 ↔ t.phase = .run ∨ t.phase = .back
  cs_run : ∀ c, t.cs = some c → t.phase = .run

variable {t t' : RcuKthread} {c : Nat} {op : KOp}

theorem zero_ok : zero.Ok := ⟨rfl, by simp [zero], by simp [zero]⟩

theorem Ok.bump (h : t.Ok) {d : UInt32} {ph : KPhase}
    (hodd : (t.ticks + d.toNat) % 2 = 1 ↔ ph = .run ∨ ph = .back) (hcs : t.cs = none ∨ ph = .run) :
    (t.bump d ph).Ok where
  gen := by
    have := h.gen
    simp only [RcuKthread.bump, UInt32.toNat_add]
    omega
  odd := hodd
  cs_run c' hc' := hcs.resolve_left (by simp_all [RcuKthread.bump])

/-- The worker's test `(gen & 0x1) == 0x1` reads the parity of the count. -/
theorem Ok.and_one (h : t.Ok) : t.rcuGen &&& 1 = 1 ↔ t.ticks % 2 = 1 := by
  rw [← UInt32.toNat_inj, UInt32.toNat_and, UInt32.toNat_one, Nat.and_one_is_mod, h.gen]
  omega

theorem Ok.cs_eq_none (h : t.Ok) (hp : t.phase ≠ .run) : t.cs = none :=
  Option.eq_none_iff_forall_ne_some.2 fun c hc => hp (h.cs_run c hc)

/-- A kthread step keeps `Ok`; a critical section open after it is the new one, or was open
before with the counter as it was. -/
theorem step_ok (h : t.Ok) (hs : t.step c op = some t') :
    t'.Ok ∧ ∀ c', t'.cs = some c' → c' = c ∧ op = .readLock ∨ t.cs = some c' ∧ t'.rcuGen = t.rcuGen := by
  have hodd := h.odd
  -- every step but the critical section's own moves the counter with no section open
  have hmove : ∀ {d ph}, t.cs = none →
      ((t.ticks + UInt32.toNat d) % 2 = 1 ↔ ph = .run ∨ ph = .back) → (t.bump d ph).Ok ∧
        ∀ c', (t.bump d ph).cs = some c' → c' = c ∧ op = .readLock ∨
          t.cs = some c' ∧ (t.bump d ph).rcuGen = t.rcuGen := fun hcs hpar =>
    ⟨h.bump hpar (.inl hcs), fun c' hc' => by simp [bump, hcs] at hc'⟩
  cases op with
  | start =>
    obtain ⟨hp, ⟨⟩⟩ := Option.ite_none_right_eq_some.1 hs
    have hcs := h.cs_eq_none (by rw [hp]; decide)
    exact ⟨⟨rfl, by simp, fun c' hc' => by simp [hcs] at hc'⟩, fun c' hc' => by simp [hcs] at hc'⟩
  | schedEnter =>
    obtain ⟨hp, ⟨⟩⟩ := Option.ite_none_right_eq_some.1 hs
    rcases hp with hp | ⟨hp, hcs⟩
    · simp only [hp, or_true, iff_true] at hodd
      exact hmove (h.cs_eq_none (by rw [hp]; decide)) (by simp; omega)
    · simp only [hp, true_or, iff_true] at hodd
      exact hmove hcs (by simp; omega)
  | schedExit =>
    obtain ⟨hp, ⟨⟩⟩ := Option.ite_none_right_eq_some.1 hs
    simp only [hp, reduceCtorEq, or_self, iff_false] at hodd
    exact hmove (h.cs_eq_none (by rw [hp]; decide)) (by simp; omega)
  | direct =>
    obtain ⟨⟨hp, hcs⟩, ⟨⟩⟩ := Option.ite_none_right_eq_some.1 hs
    simp only [hp, true_or, iff_true] at hodd
    exact hmove hcs (by simp; omega)
  | cedePark =>
    obtain ⟨⟨hp, hcs⟩, ⟨⟩⟩ := Option.ite_none_right_eq_some.1 hs
    simp only [hp, true_or, iff_true] at hodd
    exact hmove hcs (by simp; omega)
  | cedeWake =>
    obtain ⟨hp, ⟨⟩⟩ := Option.ite_none_right_eq_some.1 hs
    simp only [hp, reduceCtorEq, or_self, iff_false] at hodd
    exact hmove (h.cs_eq_none (by rw [hp]; decide)) (by simp; omega)
  | readLock =>
    obtain ⟨⟨hp, -⟩, ⟨⟩⟩ := Option.ite_none_right_eq_some.1 hs
    exact ⟨⟨h.gen, h.odd, fun _ _ => hp⟩, fun c' hc' => .inl ⟨(Option.some.inj hc').symm, rfl⟩⟩
  | readUnlock =>
    obtain ⟨-, ⟨⟩⟩ := Option.ite_none_right_eq_some.1 hs
    exact ⟨⟨h.gen, h.odd, fun _ hc' => by simp at hc'⟩, fun c' hc' => by simp at hc'⟩

end RcuKthread

/-! ## The state -/

namespace Rcu

variable {s s' : Rcu} {k j c : Nat} {t t' : RcuKthread}

theorem kt_of_getElem? (h : s.ks[k]? = some t) : s.kt k = t := by
  simp [kt, List.getD_eq_getElem?_getD, h]

theorem kt_of_length_le (h : s.ks.length ≤ k) : s.kt k = .zero := by
  simp [kt, List.getD_eq_getElem?_getD, List.getElem?_eq_none h]

/-- Kthread `j` after kthread `k` of `s` was set to `t'`. -/
theorem kt_set (h : s'.ks = s.ks.set k t') (hk : k < s.ks.length) (j : Nat) :
    s'.kt j = if j = k then t' else s.kt j := by
  simp only [kt, h, List.getD_eq_getElem?_getD, List.getElem?_set, hk, if_true]
  by_cases hj : j = k
  · simp [hj]
  · simp [hj, Ne.symm hj]

theorem cs_kt_eq_none_of_length_le (h : s.ks.length ≤ k) : (s.kt k).cs = none := by
  rw [kt_of_length_le h]
  rfl

theorem lt_length_of_cs (h : (s.kt k).cs = some c) : k < s.ks.length := by
  by_contra hk
  rw [cs_kt_eq_none_of_length_le (Nat.le_of_not_lt hk)] at h
  cases h

theorem mem_active : c ∈ s.active ↔ s.Open c := by
  simp only [active, List.mem_filterMap, Open]
  constructor
  · rintro ⟨t, ht, hc⟩
    obtain ⟨k, hk, rfl⟩ := List.getElem_of_mem ht
    exact ⟨k, by rw [kt_of_getElem? (List.getElem?_eq_getElem hk)]; exact hc⟩
  · rintro ⟨k, hc⟩
    have hk := lt_length_of_cs hc
    rw [kt_of_getElem? (List.getElem?_eq_getElem hk)] at hc
    exact ⟨_, List.getElem_mem hk, hc⟩

/-- What a kthread step can do to the state. -/
theorem onK_eq_some {f : RcuKthread → Option RcuKthread} :
    s.onK k f = some s' ↔ ∃ t t', s.ks[k]? = some t ∧ f t = some t' ∧
      s' = { s with ks := s.ks.set k t' } := by
  unfold onK
  rcases h : s.ks[k]? with _ | t
  · simp
  · simp only [Option.map_eq_some_iff, Option.some.injEq, exists_and_left, exists_eq_left']
    constructor
    · rintro ⟨t', ht', rfl⟩
      exact ⟨t', ht', rfl⟩
    · rintro ⟨t', ht', rfl⟩
      exact ⟨t', ht', rfl⟩

/-- `last_rcu_gen` holds the counts of increments at the snapshot, modulo `2^32`. -/
def SnapOk (s : Rcu) (last : List UInt32) : Prop :=
  s.snapTicks.length = last.length ∧
    ∀ k < last.length, (last.getD k 0).toNat = s.snapTicks.getD k 0 % 2 ^ 32

/-- What the worker knows of the critical sections in progress when its heads were pushed: those
still in progress are on kthreads whose snapshot is their counter now, and that the pass has not
read yet; once it frees, none is in progress. -/
def WorkerOk (s : Rcu) : RcuWorker → Prop
  | .idle => True
  | .snap hs last => last.length ≤ s.ks.length ∧ s.SnapOk last ∧
    ∀ h ∈ hs, ∀ c ∈ s.pend h, ∀ k, (s.kt k).cs = some c → k < last.length →
      last.getD k 0 = (s.kt k).rcuGen
  | .check hs last i => last.length = s.ks.length ∧ s.SnapOk last ∧
    ∀ h ∈ hs, ∀ c ∈ s.pend h, ∀ k, (s.kt k).cs = some c →
      last.getD k 0 = (s.kt k).rcuGen ∧ i ≤ k
  | .free hs => ∀ h ∈ hs, ∀ c ∈ s.pend h, ¬ s.Open c

/-- What every reachable state keeps. -/
structure Inv (s : Rcu) : Prop where
  nrks : s.ks.length = s.maxks
  ks : ∀ t ∈ s.ks, t.Ok
  cs_lt : ∀ k c, (s.kt k).cs = some c → c < s.nextCs
  pend_lt : ∀ h, ∀ c ∈ s.pend h, c < s.nextCs
  /-- each head pushed is on `rcu_head`, with the worker, or done, once -/
  heads : (s.rcuHead ++ s.worker.heads ++ s.invoked).Perm s.enq
  enq_nodup : s.enq.Nodup
  syncs : ∀ h ∈ s.syncs, h ∈ s.enq
  worker : s.WorkerOk s.worker
  invoked : ∀ h ∈ s.invoked, ∀ c ∈ s.pend h, ¬ s.Open c

theorem Inv.kt_ok (hi : s.Inv) (k : Nat) : (s.kt k).Ok := by
  by_cases hk : k < s.ks.length
  · rw [kt_of_getElem? (List.getElem?_eq_getElem hk)]
    exact hi.ks _ (List.getElem_mem hk)
  · rw [kt_of_length_le (Nat.le_of_not_lt hk)]
    exact RcuKthread.zero_ok

theorem init_inv (n : Nat) : (init n).Inv where
  nrks := List.length_replicate
  ks t ht := (List.eq_of_mem_replicate ht) ▸ RcuKthread.zero_ok
  cs_lt k c h := by
    simp [kt, init, List.getD_eq_getElem?_getD, List.getElem?_replicate] at h
    split_ifs at h <;> simp [RcuKthread.zero] at h
  pend_lt _ _ h := absurd h List.not_mem_nil
  heads := List.Perm.refl _
  enq_nodup := List.nodup_nil
  syncs _ h := absurd h List.not_mem_nil
  worker := trivial
  invoked _ h := absurd h List.not_mem_nil

/-- The critical sections of the heads `hs` that are open in `s'` were open in `s`, on the same
kthread and with the same counter. -/
def Quiet (s s' : Rcu) (hs : List Nat) : Prop :=
  ∀ h ∈ hs, ∀ c ∈ s'.pend h, ∀ k, (s'.kt k).cs = some c →
    c ∈ s.pend h ∧ (s.kt k).cs = some c ∧ (s'.kt k).rcuGen = (s.kt k).rcuGen

theorem WorkerOk.of_quiet {w : RcuWorker} (hw : s.WorkerOk w) (hq : Quiet s s' w.heads)
    (hlen : s'.ks.length = s.ks.length) (hsnap : s'.snapTicks = s.snapTicks) : s'.WorkerOk w := by
  cases w with
  | idle => trivial
  | snap hs last =>
    obtain ⟨hle, hsn, hw⟩ := hw
    refine ⟨hlen ▸ hle, by rwa [SnapOk, hsnap], fun h hh c hc k hk hlt => ?_⟩
    obtain ⟨hc', hk', hg⟩ := hq h hh c hc k hk
    exact (hw h hh c hc' k hk' hlt).trans hg.symm
  | check hs last i =>
    obtain ⟨hle, hsn, hw⟩ := hw
    refine ⟨hlen ▸ hle, by rwa [SnapOk, hsnap], fun h hh c hc k hk => ?_⟩
    obtain ⟨hc', hk', hg⟩ := hq h hh c hc k hk
    obtain ⟨hlast, hik⟩ := hw h hh c hc' k hk'
    exact ⟨hlast.trans hg.symm, hik⟩
  | free hs =>
    rintro h hh c hc ⟨k, hk⟩
    obtain ⟨hc', hk', -⟩ := hq h hh c hc k hk
    exact hw h hh c hc' ⟨k, hk'⟩

theorem not_open_of_quiet {hs : List Nat} (hq : Quiet s s' hs)
    (hd : ∀ h ∈ hs, ∀ c ∈ s.pend h, ¬ s.Open c) : ∀ h ∈ hs, ∀ c ∈ s'.pend h, ¬ s'.Open c := by
  rintro h hh c hc ⟨k, hk⟩
  obtain ⟨hc', hk', -⟩ := hq h hh c hc k hk
  exact hd h hh c hc' ⟨k, hk'⟩

/-- Setting kthread `k` keeps the invariant when every critical section open on it afterwards is
numbered already, and either belongs to no head or was open before with the counter unchanged. -/
theorem Inv.setK (hi : s.Inv) (ht : s.ks[k]? = some t) (hok : t'.Ok)
    (hcs : ∀ c, t'.cs = some c → c < s.nextCs ∧
      ((∀ h, c ∉ s.pend h) ∨ t.cs = some c ∧ t'.rcuGen = t.rcuGen)) :
    ({ s with ks := s.ks.set k t' } : Rcu).Inv := by
  have hk : k < s.ks.length := (List.getElem?_eq_some_iff.1 ht).1
  have hkt : ∀ j, ({ s with ks := s.ks.set k t' } : Rcu).kt j = if j = k then t' else s.kt j :=
    kt_set rfl hk
  have hq : ∀ hs, Quiet s { s with ks := s.ks.set k t' } hs := by
    intro hs h _ c hc j hj
    rw [hkt] at hj ⊢
    by_cases hjk : j = k
    · subst hjk
      rw [if_pos rfl] at hj ⊢
      rcases (hcs c hj).2 with hno | ⟨hc', hg⟩
      · exact absurd hc (hno h)
      · rw [kt_of_getElem? ht]
        exact ⟨hc, hc', hg⟩
    · rw [if_neg hjk] at hj ⊢
      exact ⟨hc, hj, rfl⟩
  refine ⟨by simp [hi.nrks], ?_, ?_, hi.pend_lt, hi.heads, hi.enq_nodup, hi.syncs,
    hi.worker.of_quiet (hq _) (List.length_set ..) rfl,
    not_open_of_quiet (hq _) hi.invoked⟩
  · intro t'' ht''
    rcases List.mem_or_eq_of_mem_set ht'' with ht'' | rfl
    · exact hi.ks _ ht''
    · exact hok
  · intro j c hj
    rw [hkt] at hj
    by_cases hjk : j = k
    · rw [if_pos hjk] at hj
      exact (hcs c hj).1
    · rw [if_neg hjk] at hj
      exact hi.cs_lt j c hj

theorem Inv.bumpCs (hi : s.Inv) : ({ s with nextCs := s.nextCs + 1 } : Rcu).Inv where
  nrks := hi.nrks
  ks := hi.ks
  cs_lt k c h := Nat.lt_succ_of_lt (hi.cs_lt k c h)
  pend_lt h c hc := Nat.lt_succ_of_lt (hi.pend_lt h c hc)
  heads := hi.heads
  enq_nodup := hi.enq_nodup
  syncs := hi.syncs
  worker := hi.worker
  invoked := hi.invoked

theorem Inv.kthread {op : KOp} (hi : s.Inv) (h : rcuStep s (.kthread k op) = some s') : s'.Inv := by
  obtain ⟨t, t', ht, hst, rfl⟩ := onK_eq_some.1 h
  have htok : t.Ok := kt_of_getElem? ht ▸ hi.kt_ok k
  obtain ⟨hok, hcs⟩ := RcuKthread.step_ok htok hst
  refine hi.bumpCs.setK ht hok fun c hc => ?_
  rcases hcs c hc with ⟨rfl, -⟩ | ⟨hc', hg⟩
  · exact ⟨Nat.lt_succ_self _, .inl fun h hp => Nat.lt_irrefl _ (hi.pend_lt h _ hp)⟩
  · exact ⟨Nat.lt_succ_of_lt (hi.cs_lt k c (kt_of_getElem? ht ▸ hc')), .inr ⟨hc', hg⟩⟩

@[simp] theorem enqueue_ks (h : Nat) : (s.enqueue h).ks = s.ks := rfl
@[simp] theorem enqueue_pend (h : Nat) : (s.enqueue h).pend = Function.update s.pend h s.active := rfl
@[simp] theorem enqueue_enq (h : Nat) : (s.enqueue h).enq = h :: s.enq := rfl
@[simp] theorem enqueue_rcuHead (h : Nat) : (s.enqueue h).rcuHead = h :: s.rcuHead := rfl
@[simp] theorem enqueue_worker (h : Nat) : (s.enqueue h).worker = s.worker := rfl
@[simp] theorem enqueue_invoked (h : Nat) : (s.enqueue h).invoked = s.invoked := rfl

theorem quiet_of_ks_eq {hs : List Nat} (hks : s'.ks = s.ks) (hp : ∀ h ∈ hs, s'.pend h = s.pend h) :
    Quiet s s' hs := by
  intro h hh c hc k hk
  have hkt : s'.kt k = s.kt k := by simp only [kt, hks]
  rw [hkt] at hk ⊢
  exact ⟨hp h hh ▸ hc, hk, rfl⟩

theorem Inv.mem_enq (hi : s.Inv) {h : Nat} (hh : h ∈ s.rcuHead ∨ h ∈ s.worker.heads ∨ h ∈ s.invoked) :
    h ∈ s.enq :=
  hi.heads.subset (by simp only [List.mem_append]; tauto)

/-- Pushing a head that was never pushed keeps the invariant; it records the critical sections in
progress. -/
theorem Inv.enqueue (hi : s.Inv) {h : Nat} (hh : h ∉ s.enq) : (s.enqueue h).Inv := by
  have hpend : ∀ h' ∈ s.enq, (s.enqueue h).pend h' = s.pend h' := fun h' h'e =>
    Function.update_of_ne (fun e : h' = h => hh (e ▸ h'e)) _ _
  refine ⟨hi.nrks, hi.ks, hi.cs_lt, ?_, ?_, List.nodup_cons.2 ⟨hh, hi.enq_nodup⟩,
    fun h' h's => List.mem_cons_of_mem _ (hi.syncs h' h's),
    hi.worker.of_quiet (quiet_of_ks_eq rfl fun h' h'w => hpend h' (hi.mem_enq (.inr (.inl h'w))))
      rfl rfl,
    not_open_of_quiet (s := s)
      (quiet_of_ks_eq rfl fun h' h'i => hpend h' (hi.mem_enq (.inr (.inr h'i)))) hi.invoked⟩
  · intro h' c hc
    by_cases he : h' = h
    · rw [he, enqueue_pend, Function.update_self, mem_active] at hc
      obtain ⟨k, hk⟩ := hc
      exact hi.cs_lt k c hk
    · rw [enqueue_pend, Function.update_of_ne he] at hc
      exact hi.pend_lt h' c hc
  · show (h :: s.rcuHead ++ s.worker.heads ++ s.invoked).Perm (h :: s.enq)
    simpa only [List.cons_append] using hi.heads.cons h

theorem Inv.rcuFree {h : Nat} (hi : s.Inv) (hs : rcuStep s (.rcuFree k h) = some s') : s'.Inv := by
  obtain ⟨⟨-, -, hh⟩, ⟨⟩⟩ := Option.ite_none_right_eq_some.1 hs
  exact hi.enqueue hh

theorem Inv.synchronize {h : Nat} {fast : Bool} (hi : s.Inv)
    (hs : rcuStep s (.synchronize k h fast) = some s') : s'.Inv := by
  simp only [rcuStep] at hs
  by_cases hh : h ∈ s.enq
  · rw [if_pos hh] at hs
    cases hs
  rw [if_neg hh] at hs
  obtain ⟨t, t', ht, hst, rfl⟩ := onK_eq_some.1 hs
  obtain ⟨-, hst⟩ := Option.ite_none_right_eq_some.1 hst
  have hi₀ := hi.enqueue hh
  have hi₁ : ({ s.enqueue h with syncs := h :: s.syncs } : Rcu).Inv := by
    refine ⟨hi₀.nrks, hi₀.ks, hi₀.cs_lt, hi₀.pend_lt, hi₀.heads, hi₀.enq_nodup, ?_, hi₀.worker,
      hi₀.invoked⟩
    intro h' h's
    rcases List.mem_cons.1 h's with rfl | h's
    · exact List.mem_cons_self ..
    · exact hi₀.syncs h' h's
  have htok : t.Ok := kt_of_getElem? ht ▸ hi₁.kt_ok k
  obtain ⟨hok, hcs⟩ := RcuKthread.step_ok htok hst
  -- the park opens no critical section
  refine hi₁.setK ht hok fun c hc => ?_
  rcases hcs c hc with ⟨-, hop⟩ | ⟨hc', hg⟩
  · cases fast <;> cases hop
  · exact ⟨hi₁.cs_lt k c (kt_of_getElem? ht ▸ hc'), .inr ⟨hc', hg⟩⟩

/-- A worker step that keeps its heads and the snapshot keeps the invariant when its new place
is `WorkerOk`. -/
theorem Inv.setWorker {w : RcuWorker} (hi : s.Inv) (hh : w.heads = s.worker.heads)
    (hw : s.WorkerOk w) : ({ s with worker := w } : Rcu).Inv :=
  ⟨hi.nrks, hi.ks, hi.cs_lt, hi.pend_lt, hh ▸ hi.heads, hi.enq_nodup, hi.syncs, hw, hi.invoked⟩

theorem Inv.take (hi : s.Inv) (hs : rcuStep s .take = some s') : s'.Inv := by
  simp only [rcuStep] at hs
  rcases hw : s.worker with _ | _ | _ | _ <;> rw [hw] at hs <;> try cases hs
  by_cases he : s.rcuHead = []
  · rw [if_pos he] at hs
    cases hs
    exact hi
  rw [if_neg he] at hs
  cases hs
  refine ⟨hi.nrks, hi.ks, hi.cs_lt, hi.pend_lt, ?_, hi.enq_nodup, hi.syncs, ?_, hi.invoked⟩
  · simpa [hw, RcuWorker.heads] using hi.heads
  · exact ⟨Nat.zero_le _, ⟨rfl, fun k hk => absurd hk (Nat.not_lt_zero _)⟩,
      fun _ _ _ _ _ _ hk => absurd hk (Nat.not_lt_zero _)⟩

theorem getD_snoc {α : Type*} (l : List α) (x d : α) (j : Nat) :
    (l ++ [x]).getD j d = if j < l.length then l.getD j d else if j = l.length then x else d := by
  split_ifs with h₁ h₂
  · exact List.getD_append _ _ _ _ h₁
  · subst h₂
    simp
  · rw [List.getD_append_right _ _ _ _ (Nat.le_of_not_lt h₁)]
    simp only [List.getD_eq_getElem?_getD, List.getElem?_singleton]
    rw [if_neg (by omega)]
    rfl

theorem Inv.snap (hi : s.Inv) (hs : rcuStep s .snap = some s') : s'.Inv := by
  simp only [rcuStep] at hs
  rcases hw : s.worker with _ | ⟨hs', last⟩ | _ | _ <;> rw [hw] at hs <;> dsimp only at hs <;>
    try cases hs
  have hwok := hi.worker
  rw [hw] at hwok
  obtain ⟨hle, ⟨hsl, hsn⟩, hpd⟩ := hwok
  rcases hk : s.ks[last.length]? with _ | t <;> rw [hk] at hs <;> cases hs
  · -- every counter is read: the passes start
    have hlen : last.length = s.ks.length := le_antisymm hle (List.getElem?_eq_none_iff.1 hk)
    refine hi.setWorker (by rw [hw]; rfl) ⟨hlen, ⟨hsl, hsn⟩, fun h hh c hc k hck => ?_⟩
    exact ⟨hpd h hh c hc k hck (hlen ▸ lt_length_of_cs hck), Nat.zero_le _⟩
  · -- counter `last.length` joins the snapshot
    obtain ⟨hlt, rfl⟩ := List.getElem?_eq_some_iff.1 hk
    have htok : s.ks[last.length].Ok := hi.ks _ (List.getElem_mem hlt)
    refine ⟨hi.nrks, hi.ks, hi.cs_lt, hi.pend_lt, by simpa [hw, RcuWorker.heads] using hi.heads,
      hi.enq_nodup,
      hi.syncs, ⟨by simpa using hlt, ⟨by simp [hsl], fun j hj => ?_⟩, fun h hh c hc j hjc hj => ?_⟩,
      hi.invoked⟩
    · simp only [getD_snoc, hsl]
      split_ifs with h₁ h₂
      · exact hsn j h₁
      · exact htok.gen
      · simp at hj
        omega
    · simp only [getD_snoc]
      split_ifs with h₁ h₂
      · exact hpd h hh c hc j hjc h₁
      · subst h₂
        show _ = (s.kt _).rcuGen
        rw [kt_of_getElem? hk]
      · simp at hj
        omega

/-- A critical section of a pushed head still in progress on kthread `k` fails the pass's read of
`k`: its counter is odd and the one of the snapshot. -/
theorem Inv.read_fails {hs : List Nat} {last : List UInt32} {i h : Nat} (hi : s.Inv)
    (hpd : ∀ h ∈ hs, ∀ c ∈ s.pend h, ∀ k, (s.kt k).cs = some c → last.getD k 0 = (s.kt k).rcuGen)
    (hh : h ∈ hs) (hc : c ∈ s.pend h) (hck : (s.kt i).cs = some c) :
    (s.kt i).rcuGen &&& 1 = 1 ∧ (s.kt i).rcuGen = last.getD i 0 := by
  have hok := hi.kt_ok i
  refine ⟨hok.and_one.2 (hok.odd.2 (.inl (hok.cs_run c hck))), (hpd h hh c hc i hck).symm⟩

theorem afterPass_heads (m : Nat) (hs : List Nat) (last : List UInt32) (i : Nat) :
    (RcuWorker.afterPass m hs last i).heads = hs := by
  unfold RcuWorker.afterPass
  split_ifs <;> rfl

theorem Inv.check (hi : s.Inv) (hs : rcuStep s .check = some s') : s'.Inv := by
  simp only [rcuStep] at hs
  rcases hw : s.worker with _ | _ | ⟨hs', last, i⟩ | _ <;> rw [hw] at hs <;> dsimp only at hs <;>
    try cases hs
  have hwok := hi.worker
  rw [hw] at hwok
  obtain ⟨hlen, hsn, hpd⟩ := hwok
  -- the place after a pass that stopped at `j`: another pass, or freeing once every counter is read
  have hafter : ∀ j, (j < s.ks.length ∨ s.ks.length ≤ j ∧ ∀ h ∈ hs', ∀ c ∈ s.pend h, ∀ k,
      (s.kt k).cs = some c → j ≤ k) →
      ({ s with worker := .afterPass s.maxks hs' last j } : Rcu).Inv := by
    intro j hj
    refine hi.setWorker (by rw [hw, afterPass_heads]; rfl) ?_
    unfold RcuWorker.afterPass
    split_ifs with hm
    · exact ⟨hlen, hsn, fun h hh c hc k hk => ⟨(hpd h hh c hc k hk).1, Nat.zero_le _⟩⟩
    · rcases hj with hj | ⟨hj, hjk⟩
      · exact absurd (hi.nrks ▸ hj) (by omega)
      · rintro h hh c hc ⟨k, hk⟩
        have := hjk h hh c hc k hk
        have := lt_length_of_cs hk
        omega
  rcases hk : s.ks[i]? with _ | t
  · refine hafter i (.inr ⟨List.getElem?_eq_none_iff.1 hk, fun h hh c hc k hck => ?_⟩)
    exact (hpd h hh c hc k hck).2
  · have hlt : i < s.ks.length := (List.getElem?_eq_some_iff.1 hk).1
    have hkt : s.kt i = t := kt_of_getElem? hk
    dsimp only
    split_ifs with hf
    · exact hafter i (.inl hlt)
    · -- the read passed: no section of the heads is open on kthread `i`
      refine hi.setWorker (by rw [hw]; rfl) ⟨hlen, hsn, fun h hh c hc k hck =>
        ⟨(hpd h hh c hc k hck).1, ?_⟩⟩
      rcases Nat.lt_or_eq_of_le (hpd h hh c hc k hck).2 with hik | rfl
      · exact hik
      · exact absurd (hkt ▸ hi.read_fails (fun h hh c hc k hk => (hpd h hh c hc k hk).1) hh hc hck)
          hf

theorem Inv.invoke (hi : s.Inv) (hs : rcuStep s .invoke = some s') : s'.Inv := by
  simp only [rcuStep] at hs
  rcases hw : s.worker with _ | _ | _ | _ | ⟨h, rest⟩ <;> rw [hw] at hs <;> dsimp only at hs <;>
    try cases hs
  · exact hi.setWorker (by rw [hw]; rfl) trivial
  · have hwok := hi.worker
    rw [hw] at hwok
    refine ⟨hi.nrks, hi.ks, hi.cs_lt, hi.pend_lt, ?_, hi.enq_nodup, hi.syncs,
      fun h' h'r => hwok h' (List.mem_cons_of_mem _ h'r), fun h' h'i => ?_⟩
    · -- the head moves from the worker's list to the calls made
      refine List.Perm.trans ?_ (hw ▸ hi.heads)
      simp only [RcuWorker.heads, List.append_assoc, List.cons_append]
      refine List.Perm.append_left _ ?_
      rw [← List.append_assoc]
      exact List.perm_append_singleton _ _
    · rcases List.mem_append.1 h'i with h'i | h'i
      · exact hi.invoked h' h'i
      · rw [List.mem_singleton.1 h'i]
        exact hwok h (List.mem_cons_self ..)

theorem rcuStep_invariant : StepRun.Invariant rcuStep Inv := by
  intro s op s' hi hs
  cases op with
  | kthread k op => exact hi.kthread hs
  | rcuFree k h => exact hi.rcuFree hs
  | synchronize k h fast => exact hi.synchronize hs
  | take => exact hi.take hs
  | snap => exact hi.snap hs
  | check => exact hi.check hs
  | invoke => exact hi.invoke hs

/-! ## Progress of the worker -/

/-- A read in a pass passes on a kthread in the scheduler, parked, or not started, and on one
whose count of increments moved on from the snapshot by fewer than `2^32`. -/
theorem Inv.check_passes {hs : List Nat} {last : List UInt32} {i : Nat} (hi : s.Inv)
    (hw : s.worker = .check hs last i) (ht : s.ks[i]? = some t)
    (hmoved : t.phase = .sched ∨ t.phase = .ceded ∨ t.phase = .init ∨
      s.snapTicks.getD i 0 < t.ticks ∧ t.ticks < s.snapTicks.getD i 0 + 2 ^ 32) :
    rcuStep s .check = some { s with worker := .check hs last (i + 1) } := by
  have hwok := hi.worker
  rw [hw] at hwok
  obtain ⟨hlen, ⟨-, hsn⟩, -⟩ := hwok
  have hlt : i < s.ks.length := (List.getElem?_eq_some_iff.1 ht).1
  have hok : t.Ok := kt_of_getElem? ht ▸ hi.kt_ok i
  have hpass : ¬(t.rcuGen &&& 1 = 1 ∧ t.rcuGen = last.getD i 0) := by
    rintro ⟨hodd, hsame⟩
    have hodd' := hok.odd.1 (hok.and_one.1 hodd)
    rcases hmoved with hp | hp | hp | ⟨hlo, hhi⟩
    all_goals try (rw [hp] at hodd'; simp at hodd')
    -- the same count modulo `2^32` as at the snapshot, but fewer than `2^32` increments later
    have h₁ := hsn i (hlen ▸ hlt)
    rw [← hsame, hok.gen] at h₁
    omega
  simp only [rcuStep, hw, ht, if_neg hpass]

/-- Once a pass has read every kthread, the list is freed: `nrks == maxks`. -/
theorem Inv.check_ends {hs : List Nat} {last : List UInt32} (hi : s.Inv)
    (hw : s.worker = .check hs last s.ks.length) :
    rcuStep s .check = some { s with worker := .free hs } := by
  have hnone : s.ks[s.ks.length]? = none := List.getElem?_eq_none (Nat.le_refl _)
  have hm : ¬(s.ks.length ≠ s.maxks) := not_not.2 hi.nrks
  simp only [rcuStep, hw, hnone, RcuWorker.afterPass, if_neg hm]

/-- The worker's calls of the heads of its list, each `func` once, in order. -/
theorem run_invoke {hs : List Nat} (hw : s.worker = .free hs) :
    StepRun.run rcuStep s (List.replicate (hs.length + 1) .invoke) =
      some { s with worker := .idle, invoked := s.invoked ++ hs } := by
  induction hs generalizing s with
  | nil => simp [StepRun.run, rcuStep, hw]
  | cons h rest ih =>
    rw [List.length_cons, List.replicate_succ, StepRun.run_cons]
    simp only [rcuStep, hw, Option.bind_some]
    rw [ih rfl]
    simp

/-- `m` direct switches of kthread `k` from a uthread outside a critical section: its counter
and its count of increments move by `2 m`. -/
theorem run_direct {k : Nat} (m : Nat) (hk : s.ks[k]? = some t) (hp : t.phase = .run)
    (hcs : t.cs = none) :
    StepRun.run rcuStep s (List.replicate m (.kthread k .direct)) = some { s with
      ks := s.ks.set k { t with rcuGen := t.rcuGen + UInt32.ofNat (2 * m), ticks := t.ticks + 2 * m }
      nextCs := s.nextCs + m } := by
  induction m generalizing s t with
  | zero =>
    obtain ⟨hlt, rfl⟩ := List.getElem?_eq_some_iff.1 hk
    have ht : ({ s.ks[k] with
        rcuGen := s.ks[k].rcuGen + UInt32.ofNat (2 * 0), ticks := s.ks[k].ticks + 2 * 0 } :
        RcuKthread) = s.ks[k] := by
      simp only [Nat.mul_zero, Nat.add_zero]
      exact congrArg (fun g => ({ s.ks[k] with rcuGen := g } : RcuKthread)) (add_zero _)
    rw [ht, List.set_getElem_self, Nat.add_zero]
    rfl
  | succ m ih =>
    have hstep : rcuStep s (.kthread k .direct) =
        some { s with nextCs := s.nextCs + 1, ks := s.ks.set k (t.bump 2 .run) } := by
      simp [rcuStep, onK, hk, RcuKthread.step, hp, hcs]
    have hk' : (s.ks.set k (t.bump 2 .run))[k]? = some (t.bump 2 .run) := by
      simp [(List.getElem?_eq_some_iff.1 hk).1]
    rw [List.replicate_succ, StepRun.run_cons, hstep, Option.bind_some,
      ih (s := { s with nextCs := s.nextCs + 1, ks := s.ks.set k (t.bump 2 .run) })
        (t := t.bump 2 .run) hk' rfl hcs]
    -- a switch of `2` and then `2 m` is one of `2 (m + 1)`
    have hgen : t.rcuGen + 2 + UInt32.ofNat (2 * m) = t.rcuGen + UInt32.ofNat (2 * (m + 1)) := by
      rw [add_assoc, Nat.mul_succ, Nat.add_comm, UInt32.ofNat_add]
      rfl
    have h2 : UInt32.toNat 2 = 2 := rfl
    simp only [List.set_set, RcuKthread.bump, hgen, hp, h2, Nat.add_assoc, Nat.mul_succ,
      Nat.add_comm 2 (2 * m), Nat.add_comm 1 m]

end Rcu

open Rcu

/-- Along any interleaving of `n` kthreads (`nrks == maxks`) with `rcu_worker`: each head's
`func` is called at most once and only for a head pushed by `rcu_free` or `synchronize_rcu`;
when it is called, and ever after, no read-side critical section in progress when the head was
pushed still is; the worker holds no head whose `func` it called. And the worker makes progress:
a read in a pass passes on a kthread in the scheduler, parked or not started, or one that moved
on from the snapshot by fewer than `2^32` increments; a pass that read every kthread frees the
list, and then calls each head's `func` in turn. -/
theorem rcuRun_grace (n : Nat) (ops : List RcuOp) {s : Rcu}
    (hrun : StepRun.run rcuStep (Rcu.init n) ops = some s) :
    s.invoked.Nodup ∧ (∀ h ∈ s.invoked, h ∈ s.enq) ∧ (∀ h ∈ s.syncs, h ∈ s.enq) ∧
    (∀ h rest, s.worker = .free (h :: rest) → ∀ c ∈ s.pend h, ¬ s.Open c) ∧
    (∀ h ∈ s.invoked, ∀ c ∈ s.pend h, ¬ s.Open c) ∧
    (∀ h ∈ s.invoked, h ∉ s.worker.heads ∧ h ∉ s.rcuHead) ∧
    (∀ hs last i t, s.worker = .check hs last i → s.ks[i]? = some t →
      (t.phase = .sched ∨ t.phase = .ceded ∨ t.phase = .init ∨
        s.snapTicks.getD i 0 < t.ticks ∧ t.ticks < s.snapTicks.getD i 0 + 2 ^ 32) →
      rcuStep s .check = some { s with worker := .check hs last (i + 1) }) ∧
    (∀ hs last, s.worker = .check hs last s.ks.length →
      rcuStep s .check = some { s with worker := .free hs }) ∧
    (∀ hs, s.worker = .free hs → StepRun.run rcuStep s (List.replicate (hs.length + 1) .invoke) =
      some { s with worker := .idle, invoked := s.invoked ++ hs }) := by
  have hi := rcuStep_invariant.run (init_inv n) hrun
  -- every head pushed is in one place: on `rcu_head`, with the worker, or called
  have hnd : (s.rcuHead ++ s.worker.heads ++ s.invoked).Nodup := hi.heads.nodup_iff.2 hi.enq_nodup
  refine ⟨(List.nodup_append.1 hnd).2.1, fun h hh => hi.mem_enq (.inr (.inr hh)), hi.syncs,
    fun h rest hw => ?_, hi.invoked, fun h hh => ?_,
    fun hs last i t hw ht hmoved => hi.check_passes hw ht hmoved,
    fun hs last hw => hi.check_ends hw, fun hs hw => run_invoke hw⟩
  · have hwok := hi.worker
    rw [hw] at hwok
    exact hwok h (List.mem_cons_self ..)
  · obtain ⟨-, -, hdisj⟩ := List.nodup_append.1 hnd
    refine ⟨fun hw => hdisj h (List.mem_append_right _ hw) h hh rfl,
      fun hr => hdisj h (List.mem_append_left _ hr) h hh rfl⟩

/-- One kthread: a uthread opens a critical section and frees head 7 in it; the worker's first
pass fails, and after the section ends and the kthread switches uthreads, the next pass frees. -/
def rcuGraceTrace : List RcuOp :=
  [.kthread 0 .start, .kthread 0 .schedEnter, .kthread 0 .schedExit, .kthread 0 .readLock,
    .rcuFree 0 7, .take, .snap, .snap, .check, .kthread 0 .readUnlock, .kthread 0 .direct, .check,
    .check, .invoke, .invoke]

theorem rcuRun_grace_one : ∃ s, StepRun.run rcuStep (Rcu.init 1) rcuGraceTrace = some s ∧
    s.invoked = [7] ∧
    (s.invoked.Nodup ∧ (∀ h ∈ s.invoked, h ∈ s.enq) ∧ (∀ h ∈ s.syncs, h ∈ s.enq) ∧
    (∀ h rest, s.worker = .free (h :: rest) → ∀ c ∈ s.pend h, ¬ s.Open c) ∧
    (∀ h ∈ s.invoked, ∀ c ∈ s.pend h, ¬ s.Open c) ∧
    (∀ h ∈ s.invoked, h ∉ s.worker.heads ∧ h ∉ s.rcuHead) ∧
    (∀ hs last i t, s.worker = .check hs last i → s.ks[i]? = some t →
      (t.phase = .sched ∨ t.phase = .ceded ∨ t.phase = .init ∨
        s.snapTicks.getD i 0 < t.ticks ∧ t.ticks < s.snapTicks.getD i 0 + 2 ^ 32) →
      rcuStep s .check = some { s with worker := .check hs last (i + 1) }) ∧
    (∀ hs last, s.worker = .check hs last s.ks.length →
      rcuStep s .check = some { s with worker := .free hs }) ∧
    (∀ hs, s.worker = .free hs → StepRun.run rcuStep s (List.replicate (hs.length + 1) .invoke) =
      some { s with worker := .idle, invoked := s.invoked ++ hs })) :=
  ⟨_, rfl, rfl, rcuRun_grace 1 rcuGraceTrace rfl⟩

/-- One kthread starts, runs a uthread that frees head 7, and the worker takes the list, reads the
counter, 3, and starts its passes. -/
def rcuWrapTrace : List RcuOp :=
  [.kthread 0 .start, .kthread 0 .schedEnter, .kthread 0 .schedExit, .rcuFree 0 7, .take, .snap,
    .snap]

/-- After `m` rounds of a failed pass and `2^31` direct switches: the counter wrapped back to the
snapshot, 3, with `m * 2^32` increments more. -/
def rcuWrapState (m : Nat) : Rcu :=
  ⟨[⟨3, .run, none, 3 + m * 2 ^ 32⟩], 1, [], .check [7] [3] 0, 3 + m * 2 ^ 31,
    Function.update (fun _ => []) 7 [], [7], [], [3], []⟩

/-- A pass of the worker, then `2^31` switches of the kthread into its next uthread. -/
def rcuWrapRound : List RcuOp := .check :: List.replicate (2 ^ 31) (.kthread 0 .direct)

/-- With its 32-bit counter, a kthread that leaves every uthread run can still starve the worker:
repeating `rcuWrapRound` forever, the kthread leaves each run and the worker runs a pass each
round, yet every pass finds the snapshot's odd counter and head 7's `func` is never called. -/
theorem rcuRun_wrap_never_frees :
    StepRun.run rcuStep (Rcu.init 1) rcuWrapTrace = some (rcuWrapState 0) ∧
    ∀ m, StepRun.run rcuStep (rcuWrapState m) rcuWrapRound = some (rcuWrapState (m + 1)) ∧
      7 ∈ (rcuWrapState m).worker.heads ∧ 7 ∉ (rcuWrapState m).invoked := by
  refine ⟨rfl, fun m => ⟨?_, by simp [rcuWrapState, RcuWorker.heads], by simp [rcuWrapState]⟩⟩
  -- the pass fails on the first read and starts over
  have hodd : (3 : UInt32) &&& 1 = 1 := by decide
  have hcheck : rcuStep (rcuWrapState m) .check = some (rcuWrapState m) := by
    simp only [rcuStep, rcuWrapState, List.getElem?_cons_zero, List.getD_cons_zero, hodd,
      and_self, if_true, RcuWorker.afterPass]
    rfl
  rw [rcuWrapRound, StepRun.run_cons, hcheck, Option.bind_some,
    run_direct (2 ^ 31) (t := ⟨3, .run, none, 3 + m * 2 ^ 32⟩) rfl rfl rfl]
  -- `2^31` switches of two wrap the counter
  have hwrap : (3 : UInt32) + UInt32.ofNat (2 * 2 ^ 31) = 3 := by decide
  simp only [rcuWrapState, List.set_cons_zero, hwrap, Option.some.injEq, Rcu.mk.injEq,
    List.cons.injEq, RcuKthread.mk.injEq, true_and, and_true]
  constructor <;> ring

end Caladan
