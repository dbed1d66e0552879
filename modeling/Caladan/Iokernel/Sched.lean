import Mathlib
import Caladan.Lib.Run
import Caladan.Lib.DaryHeap

/-!
# Core assignment in the IOKernel (`iokernel/sched.c`)

The IOKernel hands cores to the kthreads of its runtimes. Each core has a two-stage pipeline:
`cur_th`, the kthread last started there, and while that start has not finished (`wait`), the
next request waits in `pending_th` (`pending`). Each proc keeps its active kthreads in the
swap-remove array `active_threads[0..active_thread_count)`, with the slot of each in `at_idx`, the
others on the list `idle_threads`, and a flow steering table `flow_tbl` that the RX path indexes;
active kthreads are also in the polling array `ts[0..nrts)` of the dataplane, with their slot in
`ts_idx`.

A thread is a pair (proc, index in `p->threads`). `sched_run_on_core`, `sched_idle_on_core` and
the fast pass of `sched_poll` are steps; what the kernel module and the queues answer
(`ksched_poll_run_done`, `ksched_poll_idle`, `sched_try_fast_rewake` with `p->kill`,
`lrpc_empty(&th->txpktq)`) are inputs. The per-thread `ts_idx` and the per-proc reference count
are maps of the state. The commands to the kernel module (`ksched_run`, interrupts, idle hints)
and the slow pass of `sched_poll` are left out.
-/

namespace Caladan

/-- `NCPU` -/
def ncpu : Nat := 256

/-- `UINT_MAX`, the value of an unset `core`, `at_idx`, `ts_idx` or `flow_tbl` entry. -/
def uintMax : Nat := 4294967295

/-- `EINVAL` -/
def IkSched.einval : Int := 22

/-- `ENOENT` -/
def enoent : Int := 2

/-- The scheduler's fields of a `struct thread`. -/
structure IkThread where
  active : Bool
  core : Nat
  atIdx : Nat
deriving DecidableEq, Repr

/-- The scheduler's fields of a `struct proc`. -/
structure IkProc where
  threadCount : Nat
  threads : Nat → IkThread
  activeThreads : Nat → Nat
  activeThreadCount : Nat
  idleThreads : List Nat
  flowTbl : Nat → Nat

/-- A `struct core_state`; a thread is a pair (proc, thread index). -/
structure CoreState where
  pendingTh : Option (Nat × Nat)
  curTh : Option (Nat × Nat)
  idle : Bool
  pending : Bool
  wait : Bool
deriving DecidableEq, Repr

/-- The IOKernel's scheduler: the procs, `state[NCPU]`, `sched_cores_tbl`, `sched_siblings`, the
polling array `ts[0..nrts)` with each thread's `ts_idx`, and each proc's reference count. -/
structure IkSched where
  procs : Nat → IkProc
  state : Nat → CoreState
  allowed : List Nat
  siblings : Nat → Nat
  ts : Nat → Nat × Nat
  nrts : Nat
  tsIdx : Nat × Nat → Nat
  ref : Nat → Nat

namespace IkProc

/-- `sched_steer_flows`: with no active thread the table is left as it is; otherwise each active
thread's index maps to itself, and the other indices below `thread_count` round-robin over
`active_threads`. -/
def steerFlows (p : IkProc) : IkProc :=
  if p.activeThreadCount = 0 then p
  else
    let tbl := (List.range p.activeThreadCount).foldl
      (fun tbl i => Function.update tbl (p.activeThreads i) (p.activeThreads i)) fun _ => uintMax
    let tbl := ((List.range p.threadCount).foldl (fun (acc : (Nat → Nat) × Nat) i =>
      if acc.1 i ≠ uintMax then acc
      else (Function.update acc.1 i (p.activeThreads (acc.2 % p.activeThreadCount)), acc.2 + 1))
      (tbl, 0)).1
    { p with flowTbl := tbl }

/-- `sched_enable_kthread` on the proc's side. -/
def enable (p : IkProc) (i core : Nat) : IkProc :=
  steerFlows { p with
    threads := Function.update p.threads i
      { p.threads i with active := true, core := core, atIdx := p.activeThreadCount }
    idleThreads := p.idleThreads.erase i
    activeThreads := Function.update p.activeThreads p.activeThreadCount i
    activeThreadCount := p.activeThreadCount + 1 }

/-- `sched_disable_kthread` on the proc's side: the last active thread moves into the slot of
`i`, and `i` goes to the head of `idle_threads`. -/
def disable (p : IkProc) (i : Nat) : IkProc :=
  let k := (p.threads i).atIdx
  let n := p.activeThreadCount - 1
  let p := { p with
    threads := Function.update p.threads i { p.threads i with active := false }
    activeThreads := Function.update p.activeThreads k (p.activeThreads n)
    activeThreadCount := n }
  let moved := p.activeThreads k
  steerFlows { p with
    threads := Function.update p.threads moved { p.threads moved with atIdx := k }
    idleThreads := i :: p.idleThreads }

/-- `sched_pick_kthread`: an idle thread that last ran on `core`, else on its sibling, else the
least recently used one. -/
def pick (p : IkProc) (core sibling : Nat) : Option Nat :=
  match p.idleThreads.find? (fun i => (p.threads i).core == core) with
  | some i => some i
  | none =>
    match p.idleThreads.find? (fun i => (p.threads i).core == sibling) with
    | some i => some i
    | none => p.idleThreads.getLast?

end IkProc

namespace IkSched

/-- Thread `th`. -/
def thread (s : IkSched) (th : Nat × Nat) : IkThread := (s.procs th.1).threads th.2

/-- `proc_get` -/
def procGet (s : IkSched) (p : Nat) : IkSched := { s with ref := Function.update s.ref p (s.ref p + 1) }

/-- `proc_put` -/
def procPut (s : IkSched) (p : Nat) : IkSched := { s with ref := Function.update s.ref p (s.ref p - 1) }

/-- `poll_thread`: a thread not yet polled is appended to `ts`, with a reference to its proc. -/
def pollThread (s : IkSched) (th : Nat × Nat) : IkSched :=
  if s.tsIdx th ≠ uintMax then s
  else { s.procGet th.1 with
    ts := Function.update s.ts s.nrts th, tsIdx := Function.update s.tsIdx th s.nrts
    nrts := s.nrts + 1 }

/-- `unpoll_thread`: the last polled thread moves into the slot of `th`. -/
def unpollThread (s : IkSched) (th : Nat × Nat) : IkSched :=
  if s.tsIdx th = uintMax then s
  else
    let k := s.tsIdx th
    let n := s.nrts - 1
    let ts := Function.update s.ts k (s.ts n)
    let tsIdx := Function.update (Function.update s.tsIdx (ts k) k) th uintMax
    { s with ts := ts, nrts := n, tsIdx := tsIdx }.procPut th.1

/-- Replaces proc `p`. -/
def setProc (s : IkSched) (p : Nat) (q : IkProc) : IkSched :=
  { s with procs := Function.update s.procs p q }

/-- `sched_enable_kthread` -/
def enableKthread (s : IkSched) (th : Nat × Nat) (core : Nat) : IkSched :=
  (s.setProc th.1 ((s.procs th.1).enable th.2 core)).pollThread th

/-- `sched_disable_kthread`, with `txEmpty` what `lrpc_empty(&th->txpktq)` answers. -/
def disableKthread (s : IkSched) (th : Nat × Nat) (txEmpty : Bool) : IkSched :=
  let s := s.setProc th.1 ((s.procs th.1).disable th.2)
  if txEmpty then s.unpollThread th else s

/-- `if (th) { sched_disable_kthread(th); proc_put(th->p); }`: the thread that leaves a core is
disabled and its reference dropped. -/
def release (s : IkSched) (th : Option (Nat × Nat)) (txEmpty : Bool) : IkSched :=
  match th with
  | some th => (s.disableKthread th txEmpty).procPut th.1
  | none => s

/-- Replaces `state[core]`. -/
def setState (s : IkSched) (core : Nat) (cs : CoreState) : IkSched :=
  { s with state := Function.update s.state core cs }

/-- `__sched_run`: while the core still waits for its last start, the request waits in
`pending_th`, displacing the one there; otherwise the thread is started and `cur_th` leaves. -/
def schedRun (s : IkSched) (core : Nat) (th : Option (Nat × Nat)) (txEmpty : Bool) : IkSched :=
  let cs := s.state core
  if cs.wait then
    (s.release cs.pendingTh txEmpty).setState core { cs with pendingTh := th, pending := true }
  else
    (s.release cs.curTh txEmpty).setState core { cs with curTh := th, wait := true, idle := false }

/-- `sched_run_on_core` -/
def schedRunOnCore (s : IkSched) (p core : Nat) (txEmpty : Bool) : Except Int IkSched :=
  if (s.procs p).idleThreads = [] ∨ ncpu ≤ core ∨ core ∉ s.allowed then .error (-einval)
  else
    match (s.procs p).pick core (s.siblings core) with
    | none => .error (-enoent)
    | some i => .ok (((s.procGet p).enableKthread (p, i) core).schedRun core (some (p, i)) txEmpty)

/-- `sched_idle_on_core` -/
def schedIdleOnCore (s : IkSched) (core : Nat) (txEmpty : Bool) : Except Int IkSched :=
  if ncpu ≤ core ∨ core ∉ s.allowed then .error (-einval)
  else .ok (s.schedRun core none txEmpty)

/-- `sched_get_thread_on_core`: the pending start if there is one, else the current thread. -/
def getThreadOnCore (s : IkSched) (core : Nat) : Option (Nat × Nat) :=
  let cs := s.state core
  if cs.pending then cs.pendingTh else cs.curTh

/-- What the fast pass of `sched_poll` learns about one core. -/
structure PollInput where
  /-- `ksched_poll_run_done` -/
  runDone : Bool
  /-- `ksched_poll_idle` -/
  idle : Bool
  /-- `!p->kill && sched_try_fast_rewake(th) == 0` -/
  rewake : Bool
  /-- `lrpc_empty(&th->txpktq)` for the thread that leaves the core -/
  txEmpty : Bool
deriving DecidableEq, Repr

/-- The first check of the fast pass of `sched_poll` on a core: a finished start hands the core to
the pending request, if there is one. -/
def pollRunDone (s : IkSched) (core : Nat) (runDone txEmpty : Bool) : IkSched :=
  let cs := s.state core
  if cs.wait ∧ runDone then
    if cs.pending then
      (s.release cs.curTh txEmpty).setState core
        { cs with pendingTh := none, pending := false, curTh := cs.pendingTh }
    else s.setState core { cs with wait := false }
  else s

/-- The second check of the fast pass of `sched_poll` on a core: a core gone idle loses its
thread, unless the thread is woken again in place. -/
def pollIdle (s : IkSched) (core : Nat) (idle rewake txEmpty : Bool) : IkSched :=
  let cs := s.state core
  if ¬cs.wait ∧ ¬cs.idle ∧ idle then
    match cs.curTh with
    | some ct =>
      if rewake then
        s.setState (s.thread ct).core { s.state (s.thread ct).core with wait := true }
      else
        let s := s.release (some ct) txEmpty
        s.setState core { s.state core with curTh := none, idle := true }
    | none => s.setState core { cs with idle := true }
  else s

/-- One core of the fast pass of `sched_poll`. At most one thread leaves the core: after a
pending start is taken, `wait` stays set and the second check does not run. -/
def pollCore (s : IkSched) (core : Nat) (o : PollInput) : IkSched :=
  (s.pollRunDone core o.runDone o.txEmpty).pollIdle core o.idle o.rewake o.txEmpty

/-- The fast pass of `sched_poll` over the allowed cores. -/
def schedPoll (s : IkSched) (o : Nat → PollInput) : IkSched :=
  s.allowed.foldl (fun s core => s.pollCore core (o core)) s

/-- Whether the fast pass finds `core` idle (`bitmap_set(idle, core)`): the second check runs and
does not wake the thread again. -/
def wentIdle (s : IkSched) (core : Nat) (o : PollInput) : Bool :=
  let cs := (s.pollRunDone core o.runDone o.txEmpty).state core
  !cs.wait && !cs.idle && o.idle && !(cs.curTh.isSome && o.rewake)

/-- The fast pass of `sched_poll` with the bitmap of the cores it found idle, which it hands to
the policy. -/
def schedPollIdle (s : IkSched) (o : Nat → PollInput) : IkSched × (Nat → Bool) :=
  s.allowed.foldl (fun (acc : IkSched × (Nat → Bool)) core =>
    (acc.1.pollCore core (o core),
      if acc.1.wentIdle core (o core) then Function.update acc.2 core true else acc.2))
    (s, fun _ => false)

end IkSched

/-- The calls on the scheduler. -/
inductive IkOp
  /-- `sched_run_on_core(p, core)` -/
  | runOnCore (p core : Nat) (txEmpty : Bool)
  /-- `sched_idle_on_core(hint, core)` -/
  | idleOnCore (core : Nat) (txEmpty : Bool)
  /-- the fast pass of `sched_poll` -/
  | poll (o : Nat → IkSched.PollInput)

/-- One call; a call that fails leaves the state as it was. -/
def ikStep (s : IkSched) : IkOp → Option IkSched
  | .runOnCore p core te =>
    match s.schedRunOnCore p core te with
    | .ok s' => some s'
    | .error _ => some s
  | .idleOnCore core te =>
    match s.schedIdleOnCore core te with
    | .ok s' => some s'
    | .error _ => some s
  | .poll o => some (s.schedPoll o)

/-! ## A proc's arrays -/

namespace IkProc

open DaryHeap

/-- What a proc's thread arrays keep: `active_threads[0..active_thread_count)` holds each active
thread once, at the slot its `at_idx` names, and `idle_threads` holds each inactive one once. -/
structure Slots (p : IkProc) : Prop where
  tc_le : p.threadCount ≤ ncpu
  pos : Positions id p.activeThreads (fun i => (p.threads i).atIdx) p.activeThreadCount
  active_mem : ∀ j < p.activeThreadCount, (p.threads (p.activeThreads j)).active = true
  mem_active : ∀ i, (p.threads i).active = true → ∃ j < p.activeThreadCount, p.activeThreads j = i
  active_lt : ∀ i, (p.threads i).active = true → i < p.threadCount
  idle_nodup : p.idleThreads.Nodup
  mem_idle : ∀ i, i ∈ p.idleThreads ↔ i < p.threadCount ∧ (p.threads i).active = false

/-- The arrays, and once a thread is active, a flow table that sends every index below
`thread_count` to an active thread, an active one to itself. -/
structure Ok (p : IkProc) : Prop extends Slots p where
  flow : 0 < p.activeThreadCount → ∀ i < p.threadCount,
    (∃ j < p.activeThreadCount, p.flowTbl i = p.activeThreads j) ∧
      ((p.threads i).active = true → p.flowTbl i = i)

variable {p : IkProc} {i : Nat}

/-- The identity pass of `sched_steer_flows`: the indices written are the values of `f`. -/
theorem foldl_update_self {L : List Nat} (f : Nat → Nat) (t0 : Nat → Nat) (x : Nat) :
    L.foldl (fun tbl i => Function.update tbl (f i) (f i)) t0 x =
      if ∃ i ∈ L, f i = x then x else t0 x := by
  induction L generalizing t0 with
  | nil => simp
  | cons a L ih =>
    rw [List.foldl_cons, ih]
    by_cases hx : ∃ i ∈ L, f i = x
    · rw [if_pos hx, if_pos (let ⟨i, hi, he⟩ := hx; ⟨i, List.mem_cons_of_mem _ hi, he⟩)]
    · rw [if_neg hx]
      by_cases ha : f a = x
      · rw [if_pos ⟨a, List.mem_cons_self .., ha⟩, ← ha, Function.update_self]
      · rw [Function.update_of_ne (Ne.symm ha)]
        refine (if_neg ?_).symm
        rintro ⟨i, hi, he⟩
        rcases List.mem_cons.1 hi with rfl | hi
        · exact ha he
        · exact hx ⟨i, hi, he⟩

/-- The round-robin pass of `sched_steer_flows`: every index of `L` ends with a value that `P`
holds of, and an entry already written stays. -/
theorem foldl_roundRobin {P : Nat → Prop} {L : List Nat} {g : Nat → Nat}
    (hg : ∀ j, g j ≠ uintMax ∧ P (g j))
    (acc : (Nat → Nat) × Nat) (hacc : ∀ x, acc.1 x ≠ uintMax → P (acc.1 x)) :
    let r := (L.foldl (fun (acc : (Nat → Nat) × Nat) i =>
      if acc.1 i ≠ uintMax then acc else (Function.update acc.1 i (g acc.2), acc.2 + 1)) acc).1
    (∀ x ∈ L, P (r x)) ∧ (∀ x, acc.1 x ≠ uintMax → r x = acc.1 x) ∧
      ∀ x, r x ≠ uintMax → P (r x) := by
  induction L generalizing acc with
  | nil => exact ⟨fun x hx => absurd hx List.not_mem_nil, fun _ _ => rfl, hacc⟩
  | cons a L ih =>
    simp only [List.foldl_cons]
    split_ifs with ha
    · obtain ⟨hL, hkeep, hP⟩ := ih acc hacc
      refine ⟨fun x hx => ?_, hkeep, hP⟩
      rcases List.mem_cons.1 hx with rfl | hx
      · rw [hkeep x ha]
        exact hacc x ha
      · exact hL x hx
    · -- entry `a` is unset and gets the next value of the round robin
      set t := Function.update acc.1 a (g acc.2)
      have hta : t a = g acc.2 := Function.update_self ..
      have htx : ∀ x ≠ a, t x = acc.1 x := fun x hxa => Function.update_of_ne hxa ..
      have hacc' : ∀ x, t x ≠ uintMax → P (t x) := by
        intro x hx
        by_cases hxa : x = a
        · rw [hxa, hta]
          exact (hg _).2
        · rw [htx x hxa] at hx ⊢
          exact hacc x hx
      obtain ⟨hL, hkeep, hP⟩ := ih (t, acc.2 + 1) hacc'
      refine ⟨fun x hx => ?_, fun x hx => ?_, hP⟩
      · rcases List.mem_cons.1 hx with rfl | hx
        · have hne : t x ≠ uintMax := hta ▸ (hg _).1
          rw [hkeep x hne]
          exact hacc' x hne
        · exact hL x hx
      · have hxa : x ≠ a := fun h => ha (h ▸ hx)
        have hx' : t x ≠ uintMax := by rwa [htx x hxa]
        exact (hkeep x hx').trans (htx x hxa)

theorem steerFlows_eq (p : IkProc) : p.steerFlows = { p with flowTbl := p.steerFlows.flowTbl } := by
  unfold steerFlows
  split <;> rfl

theorem steerFlows_flowTbl (h : p.activeThreadCount ≠ 0) :
    p.steerFlows.flowTbl = ((List.range p.threadCount).foldl (fun (acc : (Nat → Nat) × Nat) i =>
      if acc.1 i ≠ uintMax then acc
      else (Function.update acc.1 i (p.activeThreads (acc.2 % p.activeThreadCount)), acc.2 + 1))
      ((List.range p.activeThreadCount).foldl
        (fun tbl i => Function.update tbl (p.activeThreads i) (p.activeThreads i))
        fun _ => uintMax, 0)).1 := by
  rw [steerFlows, if_neg h]

theorem Slots.ne_uintMax (h : Slots p) {i : Nat} (hi : i < p.threadCount) : i ≠ uintMax := by
  have := h.tc_le
  unfold ncpu at this
  unfold uintMax
  omega

/-- `sched_steer_flows` fills the flow table from the arrays. -/
theorem Slots.steerFlows (h : Slots p) : Ok p.steerFlows := by
  have hs : Slots p.steerFlows := by
    rw [steerFlows_eq]
    exact ⟨h.tc_le, h.pos, h.active_mem, h.mem_active, h.active_lt, h.idle_nodup, h.mem_idle⟩
  refine ⟨hs, fun hn i hi => ?_⟩
  rw [steerFlows_eq] at hn hi ⊢
  dsimp only at hn hi ⊢
  rw [steerFlows_flowTbl (Nat.pos_iff_ne_zero.1 hn)]
  set tbl₀ := (List.range p.activeThreadCount).foldl
    (fun tbl i => Function.update tbl (p.activeThreads i) (p.activeThreads i)) fun _ => uintMax
  -- the values of the round robin: the active threads
  let P := fun x => ∃ j < p.activeThreadCount, x = p.activeThreads j
  have hP : ∀ j, p.activeThreads (j % p.activeThreadCount) ≠ uintMax ∧
      P (p.activeThreads (j % p.activeThreadCount)) := by
    intro j
    have hj : j % p.activeThreadCount < p.activeThreadCount := Nat.mod_lt _ hn
    exact ⟨h.ne_uintMax (h.active_lt _ (h.active_mem _ hj)), _, hj, rfl⟩
  have hident : ∀ x, tbl₀ x = if ∃ j ∈ List.range p.activeThreadCount, p.activeThreads j = x
      then x else uintMax := foldl_update_self _ _
  have h₀ : ∀ x, tbl₀ x ≠ uintMax → P (tbl₀ x) := by
    intro x hx
    rw [hident x] at hx ⊢
    split_ifs at hx ⊢ with hxa
    · obtain ⟨j, hj, rfl⟩ := hxa
      exact ⟨j, List.mem_range.1 hj, rfl⟩
    · exact absurd rfl hx
  obtain ⟨hL, hkeep, -⟩ := foldl_roundRobin (L := List.range p.threadCount) hP (tbl₀, 0) h₀
  refine ⟨?_, fun ha => ?_⟩
  · obtain ⟨j, hj, he⟩ := hL i (List.mem_range.2 hi)
    exact ⟨j, hj, he⟩
  · -- an active thread keeps the identity entry of the first pass
    obtain ⟨j, hj, rfl⟩ := h.mem_active i ha
    have hid : tbl₀ (p.activeThreads j) = p.activeThreads j := by
      rw [hident, if_pos ⟨j, List.mem_range.2 hj, rfl⟩]
    have hne : tbl₀ (p.activeThreads j) ≠ uintMax := by
      rw [hid]
      exact h.ne_uintMax hi
    exact (hkeep _ hne).trans hid

theorem Slots.idle_inactive (h : Slots p) (hi : i ∈ p.idleThreads) :
    ∀ j < p.activeThreadCount, p.activeThreads j ≠ i := by
  intro j hj he
  have ha := h.active_mem j hj
  rw [he, ((h.mem_idle i).1 hi).2] at ha
  exact Bool.false_ne_true ha

/-- The slot of an active thread is its `at_idx`. -/
theorem Slots.at_atIdx (h : Slots p) (ha : (p.threads i).active = true) :
    (p.threads i).atIdx < p.activeThreadCount ∧ p.activeThreads (p.threads i).atIdx = i := by
  obtain ⟨j, hj, rfl⟩ := h.mem_active i ha
  have hp : (p.threads (p.activeThreads j)).atIdx = j := h.pos j hj
  rw [hp]
  exact ⟨hj, rfl⟩

/-- `sched_enable_kthread` of an idle thread keeps the arrays. -/
theorem Ok.enable (h : Ok p) (hi : i ∈ p.idleThreads) (c : Nat) : Ok (p.enable i c) := by
  obtain ⟨hlt, hina⟩ := (h.mem_idle i).1 hi
  have hne := h.idle_inactive hi
  have hact : ∀ x, (Function.update p.threads i
      { active := true, core := c, atIdx := p.activeThreadCount } x).active =
      (decide (x = i) || (p.threads x).active) := by
    intro x
    by_cases hx : x = i <;> simp [hx]
  apply Slots.steerFlows
  refine ⟨h.tc_le, ?_, fun j hj => ?_, fun x hx => ?_, fun x hx => ?_, h.idle_nodup.erase i,
    fun x => ?_⟩
  all_goals dsimp only at *
  · -- the thread takes the slot past the end
    have hpos : (fun x => (Function.update p.threads i
        { active := true, core := c, atIdx := p.activeThreadCount } x).atIdx) =
        Function.update (fun x => (p.threads x).atIdx) i p.activeThreadCount := by
      funext x
      by_cases hx : x = i <;> simp [hx]
    rw [hpos]
    exact h.pos.push i hne
  · rw [hact]
    rcases Nat.lt_succ_iff_lt_or_eq.1 hj with hj | rfl
    · rw [Function.update_of_ne hj.ne, h.active_mem j hj, Bool.or_true]
    · simp
  · rw [hact] at hx
    by_cases hxi : x = i
    · exact ⟨p.activeThreadCount, Nat.lt_succ_self _, by simp [hxi]⟩
    · obtain ⟨j, hj, rfl⟩ := h.mem_active x (by simpa [hxi] using hx)
      exact ⟨j, Nat.lt_succ_of_lt hj, by rw [Function.update_of_ne hj.ne]⟩
  · rw [hact] at hx
    by_cases hxi : x = i
    · exact hxi ▸ hlt
    · exact h.active_lt x (by simpa [hxi] using hx)
  · rw [hact, h.idle_nodup.mem_erase_iff, h.mem_idle]
    by_cases hxi : x = i <;> simp [hxi]

/-- `sched_disable_kthread` of an active thread keeps the arrays. -/
theorem Ok.disable (h : Ok p) (ha : (p.threads i).active = true) : Ok (p.disable i) := by
  obtain ⟨hk, hak⟩ := h.at_atIdx ha
  obtain ⟨n, hn⟩ : ∃ n, p.activeThreadCount = n + 1 :=
    Nat.exists_eq_add_one_of_ne_zero (Nat.pos_iff_ne_zero.1 (Nat.zero_lt_of_lt hk))
  have hpos := hn ▸ h.pos
  unfold IkProc.disable
  apply Slots.steerFlows
  dsimp only
  simp only [hn, Nat.add_sub_cancel, Function.update_self]
  rw [hn] at hk
  set k := (p.threads i).atIdx
  set m := p.activeThreads n
  set T₁ := Function.update p.threads i { active := false, core := (p.threads i).core, atIdx := k }
  set T₂ := Function.update T₁ m { active := (T₁ m).active, core := (T₁ m).core, atIdx := k }
  -- `i` leaves the active threads, and only the moved thread changes slot
  have hact : ∀ x, (T₂ x).active = (!decide (x = i) && (p.threads x).active) := by
    intro x
    simp only [T₂, T₁, Function.update_apply]
    split_ifs <;> simp_all
  have hat : (fun x => (T₂ x).atIdx) = Function.update (fun x => (p.threads x).atIdx) m k := by
    funext x
    simp only [T₂, T₁, Function.update_apply]
    split_ifs <;> simp_all [k]
  have hne : ∀ j < n + 1, j ≠ k → p.activeThreads j ≠ i := fun j hj hjk he =>
    hjk (hpos.inj hj hk (by rw [he, hak]))
  refine ⟨h.tc_le, ?_, fun j hj => ?_, fun x hx => ?_, fun x hx => ?_, ?_, fun x => ?_⟩
  all_goals dsimp only at *
  · rw [hat]
    by_cases hkn : k < n
    · exact hpos.fill hkn
    · -- `i` held the last slot: nothing moves
      have hmi : m = i := by
        show p.activeThreads n = i
        rwa [show n = k by omega]
      intro j hj
      have hjk : j ≠ k := by omega
      rw [Function.update_of_ne hjk, hmi, id_eq, Function.update_of_ne (hne j (by omega) hjk)]
      exact hpos j (by omega)
  · rw [hact]
    by_cases hjk : j = k
    · have hmi : m ≠ i := hne n (Nat.lt_succ_self n) (by omega)
      have hma : (p.threads m).active = true := h.active_mem n (by omega)
      rw [hjk, Function.update_self]
      simp [hmi, hma]
    · rw [Function.update_of_ne hjk]
      simp [hne j (by omega) hjk, h.active_mem j (by omega)]
  · simp only [hact, Bool.and_eq_true, Bool.not_eq_true', decide_eq_false_iff_not] at hx
    obtain ⟨j, hj, rfl⟩ := h.mem_active _ hx.2
    have hjk : j ≠ k := fun e => hx.1 (e ▸ hak)
    rcases Nat.lt_succ_iff_lt_or_eq.1 (hn ▸ hj) with hj | rfl
    · exact ⟨j, hj, Function.update_of_ne hjk ..⟩
    · exact ⟨k, by omega, Function.update_self ..⟩
  · simp only [hact, Bool.and_eq_true] at hx
    exact h.active_lt x hx.2
  · refine List.nodup_cons.2 ⟨fun hi => ?_, h.idle_nodup⟩
    rw [((h.mem_idle i).1 hi).2] at ha
    exact Bool.false_ne_true ha
  · rw [hact, List.mem_cons, h.mem_idle]
    by_cases hxi : x = i
    · simp [hxi, h.active_lt i ha]
    · simp [hxi]

theorem enable_threads (c x : Nat) : (p.enable i c).threads x =
    Function.update p.threads i { active := true, core := c, atIdx := p.activeThreadCount } x := by
  rw [enable, steerFlows_eq]

/-- Disabling a thread clears its `active` flag and no other. -/
theorem disable_active (x : Nat) :
    ((p.disable i).threads x).active = (!decide (x = i) && (p.threads x).active) := by
  rw [IkProc.disable, steerFlows_eq]
  dsimp only
  simp only [Function.update_apply]
  split_ifs <;> simp_all

theorem disable_core (x : Nat) : ((p.disable i).threads x).core = (p.threads x).core := by
  rw [IkProc.disable, steerFlows_eq]
  dsimp only
  simp only [Function.update_apply]
  split_ifs <;> simp_all

/-- `sched_pick_kthread` picks an idle thread. -/
theorem pick_mem {core sibling : Nat} (h : p.pick core sibling = some i) : i ∈ p.idleThreads := by
  unfold pick at h
  split at h
  · next j hj =>
    cases h
    exact List.mem_of_find?_eq_some hj
  · split at h
    · next j hj =>
      cases h
      exact List.mem_of_find?_eq_some hj
    · exact List.mem_of_getLast? h

end IkProc

/-! ## The cores -/

/-- The threads on a core: `cur_th`, then `pending_th`. -/
def CoreState.slots (cs : CoreState) : List (Nat × Nat) := cs.curTh.toList ++ cs.pendingTh.toList

theorem CoreState.mem_slots {cs : CoreState} {th : Nat × Nat} :
    th ∈ cs.slots ↔ cs.curTh = some th ∨ cs.pendingTh = some th := by
  simp [CoreState.slots]

namespace IkSched

variable {s : IkSched} {f o : Option (Nat × Nat)} {c p i : Nat}

@[simp] theorem procGet_procs : (s.procGet p).procs = s.procs := rfl
@[simp] theorem procGet_state : (s.procGet p).state = s.state := rfl
@[simp] theorem procPut_procs : (s.procPut p).procs = s.procs := rfl
@[simp] theorem procPut_state : (s.procPut p).state = s.state := rfl

@[simp] theorem pollThread_procs (th : Nat × Nat) : (s.pollThread th).procs = s.procs := by
  unfold pollThread
  split <;> rfl

@[simp] theorem pollThread_state (th : Nat × Nat) : (s.pollThread th).state = s.state := by
  unfold pollThread
  split <;> rfl

@[simp] theorem unpollThread_procs (th : Nat × Nat) : (s.unpollThread th).procs = s.procs := by
  unfold unpollThread
  split <;> rfl

@[simp] theorem unpollThread_state (th : Nat × Nat) : (s.unpollThread th).state = s.state := by
  unfold unpollThread
  split <;> rfl

@[simp] theorem setState_procs (cs : CoreState) : (s.setState c cs).procs = s.procs := rfl

@[simp] theorem setState_state (cs : CoreState) :
    (s.setState c cs).state = Function.update s.state c cs := rfl

@[simp] theorem release_state (te : Bool) : (s.release o te).state = s.state := by
  cases o with
  | none => rfl
  | some t =>
    simp only [release, disableKthread, setProc]
    split <;> simp

theorem release_procs (t : Nat × Nat) (te : Bool) :
    (s.release (some t) te).procs = Function.update s.procs t.1 ((s.procs t.1).disable t.2) := by
  simp only [release, disableKthread, setProc]
  split <;> simp

theorem enableKthread_procs (th : Nat × Nat) :
    (s.enableKthread th c).procs = Function.update s.procs th.1 ((s.procs th.1).enable th.2 c) := by
  simp [enableKthread, setProc]

@[simp] theorem enableKthread_state (th : Nat × Nat) : (s.enableKthread th c).state = s.state := by
  simp [enableKthread, setProc]

theorem thread_of_procs {t : IkSched} (hp : t.procs = s.procs) : t.thread = s.thread := by
  funext th
  simp only [thread, hp]

/-- The thread that leaves a core is no longer active; nothing else changes. -/
theorem release_active (te : Bool) (th : Nat × Nat) :
    ((s.release o te).thread th).active = true ↔ th ∉ o ∧ (s.thread th).active = true := by
  cases o with
  | none => simp [release]
  | some t =>
    simp only [thread, release_procs, Function.update_apply, Option.mem_def, Option.some.injEq]
    by_cases h₁ : th.1 = t.1
    · rw [if_pos h₁, IkProc.disable_active, h₁]
      by_cases h₂ : th.2 = t.2
      · simp [h₂, Prod.ext_iff, h₁]
      · simp [h₂, Ne.symm h₂, Prod.ext_iff, h₁]
    · rw [if_neg h₁]
      simp [Prod.ext_iff, Ne.symm h₁]

theorem release_core (te : Bool) (th : Nat × Nat) :
    ((s.release o te).thread th).core = (s.thread th).core := by
  cases o with
  | none => rfl
  | some t =>
    simp only [thread, release_procs, Function.update_apply]
    split_ifs with h₁
    · rw [IkProc.disable_core, h₁]
    · rfl

theorem release_ok (hok : ∀ p, (s.procs p).Ok) (ho : ∀ t ∈ o, (s.thread t).active = true)
    (te : Bool) (p : Nat) : ((s.release o te).procs p).Ok := by
  cases o with
  | none => exact hok p
  | some t =>
    rw [release_procs, Function.update_apply]
    split_ifs with h₁
    · exact h₁ ▸ (hok t.1).disable (ho t rfl)
    · exact hok p

/-- What the scheduler keeps across calls: every proc's arrays, and each active thread on exactly
one slot of exactly one core, its own `core`, except for `f`, a thread just enabled and not yet
on a core. -/
structure Inv (s : IkSched) (f : Option (Nat × Nat)) : Prop where
  ok : ∀ p, (s.procs p).Ok
  slot : ∀ c, ∀ th ∈ (s.state c).slots, (s.thread th).active = true ∧ (s.thread th).core = c
  nodup : ∀ c, (s.state c).slots.Nodup
  placed : ∀ th, (s.thread th).active = true → th ∉ f → th ∈ (s.state (s.thread th).core).slots
  fresh : ∀ th ∈ f, (s.thread th).active = true ∧ ∀ c, th ∉ (s.state c).slots

theorem Inv.of_procs_state {t : IkSched} (h : s.Inv f) (hp : t.procs = s.procs)
    (hs : t.state = s.state) : t.Inv f := by
  have ht := thread_of_procs hp
  exact ⟨hp ▸ h.ok, hs ▸ ht ▸ h.slot, hs ▸ h.nodup, hs ▸ ht ▸ h.placed, hs ▸ ht ▸ h.fresh⟩

/-- The step every core change is made of: thread `o` leaves slot-list `o :: rest` of core `c`
and `f`, if any, joins it. -/
theorem Inv.exchange {rest : List (Nat × Nat)} {cs : CoreState} (h : s.Inv f)
    (hf : ∀ th ∈ f, (s.thread th).core = c) (ho : (s.state c).slots.Perm (o.toList ++ rest))
    (hcs : cs.slots.Perm (f.toList ++ rest)) (te : Bool) :
    ((s.release o te).setState c cs).Inv none := by
  have hoc : ∀ t ∈ o, t ∈ (s.state c).slots := fun t ht =>
    ho.mem_iff.2 (List.mem_append_left _ (Option.mem_toList.2 ht))
  have hrc : ∀ t ∈ rest, t ∈ (s.state c).slots := fun t ht =>
    ho.mem_iff.2 (List.mem_append_right _ ht)
  have hnd := ho.nodup_iff.1 (h.nodup c)
  have hro : ∀ t ∈ rest, t ∉ o := fun t ht hto =>
    List.disjoint_of_nodup_append hnd (Option.mem_toList.2 hto) ht
  have hfo : ∀ t ∈ f, t ∉ o := fun t htf hto => (h.fresh t htf).2 c (hoc t hto)
  -- the state after: `o` inactive, core `c` replaced
  have ht := thread_of_procs (t := (s.release o te).setState c cs) rfl
  have hact : ∀ th, (((s.release o te).setState c cs).thread th).active = true ↔
      th ∉ o ∧ (s.thread th).active = true := fun th => ht ▸ release_active te th
  have hcore : ∀ th, (((s.release o te).setState c cs).thread th).core = (s.thread th).core :=
    fun th => ht ▸ release_core te th
  have hst : ∀ c', ((s.release o te).setState c cs).state c' =
      if c' = c then cs else s.state c' := fun c' => by
    simp [Function.update_apply]
  refine ⟨release_ok h.ok (fun t hto => (h.slot c t (hoc t hto)).1) te, fun c' th hth => ?_,
    fun c' => ?_, fun th hth _ => ?_, fun th hth => absurd hth (Option.not_mem_none _)⟩
  · rw [hst] at hth
    rw [hact, hcore]
    split_ifs at hth with hc'
    · -- a thread on core `c` after the change came in as `f` or stayed
      rcases List.mem_append.1 (hcs.mem_iff.1 hth) with hth | hth
      · have htf := Option.mem_toList.1 hth
        exact ⟨⟨hfo th htf, (h.fresh th htf).1⟩, hc' ▸ hf th htf⟩
      · exact ⟨⟨hro th hth, (h.slot c th (hrc th hth)).1⟩, hc' ▸ (h.slot c th (hrc th hth)).2⟩
    · obtain ⟨ha, hco⟩ := h.slot c' th hth
      refine ⟨⟨fun hto => hc' ?_, ha⟩, hco⟩
      rw [← hco, (h.slot c th (hoc th hto)).2]
  · rw [hst]
    split_ifs
    · refine hcs.nodup_iff.2 (List.nodup_append.2 ⟨?_, (List.nodup_append.1 hnd).2.1, ?_⟩)
      · cases f <;> simp
      · intro a haf b hb hab
        exact (h.fresh a (Option.mem_toList.1 haf)).2 c (hab ▸ hrc b hb)
    · exact h.nodup _
  · obtain ⟨hno, ha⟩ := (hact th).1 hth
    rw [hcore, hst]
    by_cases htf : th ∈ f
    · rw [if_pos (hf th htf)]
      exact hcs.mem_iff.2 (List.mem_append_left _ (Option.mem_toList.2 htf))
    · have hp := h.placed th ha htf
      split_ifs with hc'
      · rw [hc'] at hp
        rcases List.mem_append.1 (ho.mem_iff.1 hp) with hto | htr
        · exact absurd (Option.mem_toList.1 hto) hno
        · exact hcs.mem_iff.2 (List.mem_append_right _ htr)
      · exact hp

/-- A change of a core's flags only. -/
theorem Inv.setState_slots {cs : CoreState} (h : s.Inv none) (hcs : cs.slots = (s.state c).slots) :
    (s.setState c cs).Inv none :=
  h.exchange (o := none) (fun _ hth => absurd hth (Option.not_mem_none _)) (List.Perm.refl _)
    (hcs ▸ List.Perm.refl _) false

/-- `__sched_run` puts `f`, enabled for `core`, on the core: the start waits as pending behind an
unfinished one, displacing the pending thread, or replaces the current thread. -/
theorem Inv.schedRun (h : s.Inv f) (hf : ∀ th ∈ f, (s.thread th).core = c) (te : Bool) :
    (s.schedRun c f te).Inv none := by
  unfold IkSched.schedRun
  dsimp only
  split_ifs
  · exact h.exchange hf List.perm_append_comm List.perm_append_comm te
  · exact h.exchange hf (List.Perm.refl _) (List.Perm.refl _) te

theorem Inv.pollRunDone (h : s.Inv none) (runDone te : Bool) :
    (s.pollRunDone c runDone te).Inv none := by
  unfold IkSched.pollRunDone
  dsimp only
  split_ifs
  · -- the pending start took the core: `cur_th` leaves, `pending_th` takes its place
    refine h.exchange (fun _ hth => absurd hth (Option.not_mem_none _)) (List.Perm.refl _) ?_ te
    simp [CoreState.slots]
  · exact h.setState_slots rfl
  · exact h

theorem Inv.pollIdle (h : s.Inv none) (idle rewake te : Bool) :
    (s.pollIdle c idle rewake te).Inv none := by
  unfold IkSched.pollIdle
  dsimp only
  by_cases hcond : ¬(s.state c).wait = true ∧ ¬(s.state c).idle = true ∧ idle = true
  · rw [if_pos hcond]
    split
    · next ct hct =>
      split_ifs
      · -- woken again in place: only `wait` changes
        exact h.setState_slots rfl
      · -- the core went idle: `cur_th` leaves
        have ho : (s.state c).slots.Perm ((some ct).toList ++ (s.state c).pendingTh.toList) := by
          rw [CoreState.slots, hct]
        refine h.exchange (fun _ hth => absurd hth (Option.not_mem_none _)) ho ?_ te
        simp [CoreState.slots]
    · exact h.setState_slots rfl
  · rw [if_neg hcond]
    exact h

theorem Inv.pollCore (h : s.Inv none) (o : PollInput) : (s.pollCore c o).Inv none :=
  (h.pollRunDone o.runDone o.txEmpty).pollIdle o.idle o.rewake o.txEmpty

/-- The fast pass of `sched_poll`, one allowed core after the other. -/
theorem Inv.schedPoll (h : s.Inv none) (o : Nat → PollInput) : (s.schedPoll o).Inv none := by
  unfold IkSched.schedPoll
  generalize s.allowed = cores
  induction cores generalizing s with
  | nil => exact h
  | cons c cores ih => exact ih (h.pollCore (o c))

/-- `sched_enable_kthread` of an idle thread for `core`: the thread is active, on no core yet. -/
theorem Inv.enableKthread (h : s.Inv none) (hi : i ∈ (s.procs p).idleThreads) (c : Nat) :
    (s.enableKthread (p, i) c).Inv (some (p, i)) ∧
      ((s.enableKthread (p, i) c).thread (p, i)).core = c := by
  have hina := (((h.ok p).mem_idle i).1 hi).2
  have hthr : ∀ th, (s.enableKthread (p, i) c).thread th =
      if th = (p, i) then { active := true, core := c, atIdx := (s.procs p).activeThreadCount }
      else s.thread th := by
    rintro ⟨q, j⟩
    simp only [thread, enableKthread_procs, Function.update_apply, Prod.mk.injEq]
    by_cases h₁ : q = p
    · subst h₁
      rw [if_pos rfl, IkProc.enable_threads, Function.update_apply]
      by_cases h₂ : j = i <;> simp [h₂]
    · simp [h₁]
  -- a thread on a core is active, so it is not the idle thread enabled
  have hne : ∀ c', ∀ th ∈ (s.state c').slots, th ≠ (p, i) := fun c' th hth he => by
    have ha := (h.slot c' th hth).1
    rw [he] at ha
    exact Bool.false_ne_true (hina ▸ ha)
  refine ⟨⟨fun q => ?_, fun c' th hth => ?_, fun c' => ?_, fun th hth hf => ?_, ?_⟩, ?_⟩
  · rw [enableKthread_procs, Function.update_apply]
    split_ifs with hq
    · dsimp only at hq
      subst hq
      exact (h.ok q).enable hi c
    · exact h.ok q
  · rw [enableKthread_state] at hth
    rw [hthr, if_neg (hne c' th hth)]
    exact h.slot c' th hth
  · rw [enableKthread_state]
    exact h.nodup c'
  · have hne' : th ≠ (p, i) := fun he => hf (he ▸ rfl)
    rw [hthr, if_neg hne'] at hth ⊢
    rw [enableKthread_state]
    exact h.placed th hth (Option.not_mem_none _)
  · rintro th ⟨⟩
    rw [hthr, if_pos rfl, enableKthread_state]
    exact ⟨rfl, fun c' hc' => hne c' _ hc' rfl⟩
  · rw [hthr, if_pos rfl]

theorem Inv.schedRunOnCore {s' : IkSched} (h : s.Inv none) {te : Bool}
    (hs : s.schedRunOnCore p c te = .ok s') : s'.Inv none := by
  unfold IkSched.schedRunOnCore at hs
  split_ifs at hs
  split at hs
  · cases hs
  · next i hpick =>
    cases hs
    have h₀ : (s.procGet p).Inv none := h.of_procs_state rfl rfl
    obtain ⟨h₁, hc⟩ := h₀.enableKthread (IkProc.pick_mem hpick) c
    exact h₁.schedRun (fun th hth => Option.mem_some_iff.1 hth ▸ hc) te

theorem Inv.schedIdleOnCore {s' : IkSched} (h : s.Inv none) {te : Bool}
    (hs : s.schedIdleOnCore c te = .ok s') : s'.Inv none := by
  unfold IkSched.schedIdleOnCore at hs
  split_ifs at hs
  cases hs
  exact h.schedRun (fun _ hth => absurd hth (Option.not_mem_none _)) te

end IkSched

/-- A proc as `sched_attach_proc` leaves it: every thread idle, in order, and on no core. -/
def IkProc.attach (threadCount : Nat) : IkProc where
  threadCount := threadCount
  threads := fun _ => { active := false, core := uintMax, atIdx := uintMax }
  activeThreads := fun _ => 0
  activeThreadCount := 0
  idleThreads := List.range threadCount
  flowTbl := fun _ => 0

theorem IkProc.attach_ok {n : Nat} (h : n ≤ ncpu) : (IkProc.attach n).Ok where
  tc_le := h
  pos := fun _ hj => absurd hj (Nat.not_lt_zero _)
  active_mem := fun _ hj => absurd hj (Nat.not_lt_zero _)
  mem_active := fun _ ha => absurd ha Bool.false_ne_true
  active_lt := fun _ ha => absurd ha Bool.false_ne_true
  idle_nodup := List.nodup_range
  mem_idle := fun _ => by simp [IkProc.attach]
  flow := fun hn => absurd hn (Nat.lt_irrefl 0)

/-- The scheduler before any call: each proc `p` attached with `counts p` threads (`control.c`
refuses more than `NCPU`), every core empty, nothing polled. -/
def IkSched.init (counts : Nat → Nat) (allowed : List Nat) (siblings : Nat → Nat) : IkSched where
  procs := fun p => IkProc.attach (counts p)
  state := fun _ =>
    { pendingTh := none, curTh := none, idle := false, pending := false, wait := false }
  allowed := allowed
  siblings := siblings
  ts := fun _ => (0, 0)
  nrts := 0
  tsIdx := fun _ => uintMax
  ref := fun _ => 1

theorem IkSched.init_inv {counts : Nat → Nat} (hc : ∀ p, counts p ≤ ncpu) (allowed : List Nat)
    (siblings : Nat → Nat) : (IkSched.init counts allowed siblings).Inv none where
  ok := fun p => IkProc.attach_ok (hc p)
  slot := fun _ _ hth => absurd hth (by simp [IkSched.init, CoreState.slots])
  nodup := fun _ => List.nodup_nil
  placed := fun _ ha => absurd ha Bool.false_ne_true
  fresh := fun _ hth => absurd hth (Option.not_mem_none _)

theorem ikStep_invariant : StepRun.Invariant ikStep fun s => s.Inv none := by
  intro s op s' h hs
  cases op with
  | runOnCore p core te =>
    rcases hrun : s.schedRunOnCore p core te with e | s₁ <;>
      simp only [ikStep, hrun, Option.some.injEq] at hs <;> subst hs
    · exact h
    · exact h.schedRunOnCore hrun
  | idleOnCore core te =>
    rcases hrun : s.schedIdleOnCore core te with e | s₁ <;>
      simp only [ikStep, hrun, Option.some.injEq] at hs <;> subst hs
    · exact h
    · exact h.schedIdleOnCore hrun
  | poll o =>
    cases hs
    exact h.schedPoll o

theorem CoreState.not_cur_and_pending {cs : CoreState} {th : Nat × Nat} (h : cs.slots.Nodup) :
    ¬(cs.curTh = some th ∧ cs.pendingTh = some th) := by
  rintro ⟨hc, hp⟩
  rw [CoreState.slots, hc, hp] at h
  simp at h

theorem ikRun_bookkeeping (counts : Nat → Nat) (hc : ∀ p, counts p ≤ ncpu) (allowed : List Nat)
    (siblings : Nat → Nat) (ops : List IkOp) {s : IkSched}
    (hrun : StepRun.run ikStep (IkSched.init counts allowed siblings) ops = some s) (p : Nat) :
    (∀ j < (s.procs p).activeThreadCount,
      ((s.procs p).threads ((s.procs p).activeThreads j)).active = true ∧
        ((s.procs p).threads ((s.procs p).activeThreads j)).atIdx = j) ∧
    (∀ j₁ < (s.procs p).activeThreadCount, ∀ j₂ < (s.procs p).activeThreadCount,
      (s.procs p).activeThreads j₁ = (s.procs p).activeThreads j₂ → j₁ = j₂) ∧
    (∀ i, ((s.procs p).threads i).active = true →
      i < (s.procs p).threadCount ∧ ∃ j < (s.procs p).activeThreadCount, (s.procs p).activeThreads j = i) ∧
    (s.procs p).idleThreads.Nodup ∧
    (∀ i, i ∈ (s.procs p).idleThreads ↔
      i < (s.procs p).threadCount ∧ ((s.procs p).threads i).active = false) ∧
    (∀ i, ((s.procs p).threads i).active = true → ∀ c,
      ((s.state c).curTh = some (p, i) ∨ (s.state c).pendingTh = some (p, i) ↔
        c = ((s.procs p).threads i).core) ∧
      ¬((s.state c).curTh = some (p, i) ∧ (s.state c).pendingTh = some (p, i))) ∧
    (∀ c i, (s.state c).curTh = some (p, i) ∨ (s.state c).pendingTh = some (p, i) →
      ((s.procs p).threads i).active = true) ∧
    (0 < (s.procs p).activeThreadCount → ∀ i < (s.procs p).threadCount,
      (∃ j < (s.procs p).activeThreadCount, (s.procs p).flowTbl i = (s.procs p).activeThreads j) ∧
      (((s.procs p).threads i).active = true → (s.procs p).flowTbl i = i)) := by
  have hi := ikStep_invariant.run (IkSched.init_inv hc allowed siblings) hrun
  have hok := hi.ok p
  refine ⟨fun j hj => ⟨hok.active_mem j hj, hok.pos j hj⟩,
    fun j₁ h₁ j₂ h₂ he => hok.pos.inj h₁ h₂ he,
    fun i ha => ⟨hok.active_lt i ha, hok.mem_active i ha⟩, hok.idle_nodup, hok.mem_idle,
    fun i ha c => ⟨⟨fun hcp => ?_, fun hcore => ?_⟩, CoreState.not_cur_and_pending (hi.nodup c)⟩,
    fun c i hcp => (hi.slot c (p, i) (CoreState.mem_slots.2 hcp)).1, hok.flow⟩
  · -- a thread on core `c` names `c` as its core
    exact ((hi.slot c (p, i) (CoreState.mem_slots.2 hcp)).2).symm
  · -- an active thread is on its own core
    subst hcore
    exact CoreState.mem_slots.1 (hi.placed (p, i) ha (Option.not_mem_none _))

/-- Two procs of two threads on cores 0 and 1: a start, a second start, a poll that finishes both,
and a start of the other proc that displaces the first thread. -/
def ikTrace : List IkOp :=
  [.runOnCore 0 0 true, .runOnCore 0 1 true,
    .poll fun _ => { runDone := true, idle := false, rewake := false, txEmpty := true },
    .runOnCore 1 0 true]

theorem ikRun_bookkeeping_trace : (∀ p : Nat, (fun _ => 2) p ≤ ncpu) ∧
    ∃ s, StepRun.run ikStep (IkSched.init (fun _ => 2) [0, 1] id) ikTrace = some s ∧
    (s.state 0).curTh = some (1, 1) ∧ (s.state 1).curTh = some (0, 0) ∧
    ((∀ j < (s.procs 0).activeThreadCount,
      ((s.procs 0).threads ((s.procs 0).activeThreads j)).active = true ∧
        ((s.procs 0).threads ((s.procs 0).activeThreads j)).atIdx = j) ∧
    (∀ j₁ < (s.procs 0).activeThreadCount, ∀ j₂ < (s.procs 0).activeThreadCount,
      (s.procs 0).activeThreads j₁ = (s.procs 0).activeThreads j₂ → j₁ = j₂) ∧
    (∀ i, ((s.procs 0).threads i).active = true →
      i < (s.procs 0).threadCount ∧ ∃ j < (s.procs 0).activeThreadCount, (s.procs 0).activeThreads j = i) ∧
    (s.procs 0).idleThreads.Nodup ∧
    (∀ i, i ∈ (s.procs 0).idleThreads ↔
      i < (s.procs 0).threadCount ∧ ((s.procs 0).threads i).active = false) ∧
    (∀ i, ((s.procs 0).threads i).active = true → ∀ c,
      ((s.state c).curTh = some (0, i) ∨ (s.state c).pendingTh = some (0, i) ↔
        c = ((s.procs 0).threads i).core) ∧
      ¬((s.state c).curTh = some (0, i) ∧ (s.state c).pendingTh = some (0, i))) ∧
    (∀ c i, (s.state c).curTh = some (0, i) ∨ (s.state c).pendingTh = some (0, i) →
      ((s.procs 0).threads i).active = true) ∧
    (0 < (s.procs 0).activeThreadCount → ∀ i < (s.procs 0).threadCount,
      (∃ j < (s.procs 0).activeThreadCount, (s.procs 0).flowTbl i = (s.procs 0).activeThreads j) ∧
      (((s.procs 0).threads i).active = true → (s.procs 0).flowTbl i = i))) :=
  ⟨fun _ => show 2 ≤ ncpu by decide, _, rfl, rfl, rfl,
    ikRun_bookkeeping (fun _ => 2) (fun _ => show 2 ≤ ncpu by decide) [0, 1] id ikTrace rfl 0⟩

end Caladan
