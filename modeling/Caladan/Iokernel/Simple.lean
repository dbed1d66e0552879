import Mathlib
import Caladan.Lib.Run
import Caladan.Iokernel.Ias

/-!
# The simple scheduler policy (`iokernel/simple.c`)

The policy gives each core to one proc (`cores[core]`, a proc's `simple_data`, here the proc's
number), counts each proc's cores in `threads_active`, keeps the procs that wait for a core on
`congested_procs`, and the cores it left idle in `simple_idle_cores`. `hist[core]` remembers the
last `NHIST` owners of a core, which `simple_choose_kthread` prefers.

What the scheduler layer answers is an input of each call (`SimpleIn`): whether a proc has a
thread to spare (`sched_threads_avail`), what `sched_run_on_core` returns, and the cores of a
proc's idle threads. `procs` lists the `simple_data` that `simple_attach` allocated and
`simple_detach` has not freed. Not modelled: the `-ENOMEM` of a failed `malloc`.
-/

namespace Caladan

/-- `NHIST` -/
def nhist : Nat := 4

/-- The fields of a `struct sched_spec` that `simple_attach` reads. -/
structure SimpleSpec where
  guaranteedCores : Nat
  maxCores : Nat
  qdelayUs : Nat
deriving DecidableEq, Repr

/-- A proc's `struct simple_data`. -/
structure SimpleData where
  isCongested : Bool
  qdelayUs : Nat
  threadsGuaranteed : Int
  threadsMax : Int
  threadsActive : Int
  waking : Bool

/-- The machine: `sched_allowed_cores`, in increasing order, and `sched_siblings`. -/
structure SimpleCfg where
  allowed : List Nat
  siblings : Nat → Nat
  allowed_lt : ∀ c ∈ allowed, c < ncpu

/-- The answers of the scheduler layer during one call. -/
structure SimpleIn where
  /-- `sched_threads_avail(p) != 0` -/
  avail : Nat → Bool
  /-- the return value of `sched_run_on_core(p, core)` -/
  runRet : Nat → Nat → Int
  /-- the cores `th->core` of the threads on `p->idle_threads`, in list order -/
  idleThreads : Nat → List Nat

/-- The state of `simple.c`. -/
structure Simple where
  cfg : SimpleCfg
  procs : List Nat
  sd : Nat → SimpleData
  /-- `congested_procs`, newest first -/
  congested : List Nat
  idleCores : Nat → Bool
  cores : Nat → Option Nat
  hist : Nat → List (Option Nat)

namespace Simple

/-- Changes proc `sd`'s `simple_data`. -/
def modifySd (s : Simple) (sd : Nat) (f : SimpleData → SimpleData) : Simple :=
  { s with sd := Function.update s.sd sd (f (s.sd sd)) }

/-- `simple_proc_is_preemptible` -/
def procIsPreemptible (s : Simple) (cursd nextsd : Nat) : Bool :=
  decide ((s.sd cursd).threadsGuaranteed < (s.sd cursd).threadsActive) &&
    decide ((s.sd nextsd).threadsActive < (s.sd nextsd).threadsGuaranteed)

/-- `cores[core] != sd && cores[core] && simple_proc_is_preemptible(cores[core], sd)` -/
def preemptsAt (s : Simple) (sd core : Nat) : Bool :=
  match s.cores core with
  | some cur => cur != sd && s.procIsPreemptible cur sd
  | none => false

/-- `cores[core] != sd && (cores[core] == NULL || simple_proc_is_preemptible(cores[core], sd))` -/
def canTake (s : Simple) (sd core : Nat) : Bool :=
  s.cores core == none || s.preemptsAt sd core

/-- `simple_cleanup_core`: the owner of `core` loses it and goes to the front of its history. -/
def cleanupCore (s : Simple) (core : Nat) : Simple :=
  match s.cores core with
  | none => s
  | some sd =>
    { s.modifySd sd fun d => { d with threadsActive := d.threadsActive - 1 } with
      cores := Function.update s.cores core none
      hist := Function.update s.hist core (some sd :: (s.hist core).take (nhist - 1)) }

/-- `simple_mark_congested` -/
def markCongested (s : Simple) (sd : Nat) : Simple :=
  if (s.sd sd).isCongested then s
  else { s.modifySd sd fun d => { d with isCongested := true } with
    congested := sd :: s.congested }

/-- `simple_unmark_congested` -/
def unmarkCongested (s : Simple) (sd : Nat) : Simple :=
  if !(s.sd sd).isCongested then s
  else { s.modifySd sd fun d => { d with isCongested := false } with
    congested := s.congested.erase sd }

/-- `simple_attach` -/
def attach (s : Simple) (p : Nat) (spec : SimpleSpec) : Simple :=
  { s with
    procs := p :: s.procs
    sd := Function.update s.sd p
      { isCongested := false, qdelayUs := spec.qdelayUs,
        threadsGuaranteed := spec.guaranteedCores, threadsMax := spec.maxCores,
        threadsActive := 0, waking := false } }

/-- `simple_detach`: the proc leaves `congested_procs`, and every core and history entry that
names it is cleared. -/
def detach (s : Simple) (p : Nat) : Simple :=
  let s := s.unmarkCongested p
  { s with
    procs := s.procs.erase p
    cores := fun c => if c < ncpu ∧ s.cores c = some p then none else s.cores c
    hist := fun c => if c < ncpu then (s.hist c).map fun o => if o = some p then none else o
      else s.hist c }

/-- `simple_run_kthread_on_core`; the scheduler's answers decide. -/
def runKthreadOnCore (s : Simple) (i : SimpleIn) (sd core : Nat) : Simple × Int :=
  if !i.avail sd then (s, -ebusy)
  else if i.runRet sd core ≠ 0 then (s, i.runRet sd core)
  else
    let s := s.cleanupCore core
    ({ s.modifySd sd fun d => { d with threadsActive := d.threadsActive + 1, waking := true } with
      cores := Function.update s.cores core (some sd)
      idleCores := Function.update s.idleCores core false }, 0)

/-- The idle-thread loop of `simple_choose_core`: the core of an idle thread, or its sibling if
allowed, that `sd` can take; the loop stops at a core of `NCPU` or more. -/
def chooseIdleThread (s : Simple) (sd : Nat) : List Nat → Option Nat
  | [] => none
  | core :: cores =>
    if ncpu ≤ core then none
    else if s.canTake sd core then some core
    else
      let sib := s.cfg.siblings core
      if s.canTake sd sib && decide (sib ∈ s.cfg.allowed) then some sib
      else s.chooseIdleThread sd cores

/-- `simple_choose_core`, `NCPU` if no core will do: the free sibling of a core `sd` runs on, a
core of one of its idle threads, an idle core, a core it may preempt. -/
def chooseCore (s : Simple) (sd : Nat) (idleThreads : List Nat) : Nat :=
  match s.cfg.allowed.find? (fun core => s.cores core == some sd &&
      s.canTake sd (s.cfg.siblings core) && decide (s.cfg.siblings core ∈ s.cfg.allowed)) with
  | some core => s.cfg.siblings core
  | none =>
    match s.chooseIdleThread sd idleThreads with
    | some core => core
    | none =>
      match (List.range ncpu).find? s.idleCores with
      | some core => core
      | none => ((s.cfg.allowed.find? (s.preemptsAt sd)).getD ncpu)

/-- `simple_add_kthread`: refused at `threads_max`. -/
def addKthread (s : Simple) (i : SimpleIn) (sd : Nat) : Simple × Int :=
  if (s.sd sd).threadsMax ≤ (s.sd sd).threadsActive then (s, -enoent)
  else
    let core := s.chooseCore sd (i.idleThreads sd)
    if core = ncpu then (s, -enoent) else s.runKthreadOnCore i sd core

/-- `simple_notify_core_needed` -/
def notifyCoreNeeded (s : Simple) (i : SimpleIn) (sd : Nat) : Simple × Int :=
  s.addKthread i sd

/-- `simple_notify_congested` -/
def notifyCongested (s : Simple) (i : SimpleIn) (sd : Nat) (busy : Bool) (delay : Nat)
    (parkedThreadDelay : Bool) : Simple :=
  let d := s.sd sd
  let congested := (if d.qdelayUs = 0 then busy else decide (d.qdelayUs ≤ delay)) ||
    parkedThreadDelay
  -- a core woken during the last interval silences this one
  if d.waking then s.modifySd sd fun d => { d with waking := false }
  else if !congested then s.unmarkCongested sd
  else if d.isCongested then s
  else
    let r := s.addKthread i sd
    if r.2 = 0 then r.1 else r.1.markCongested sd

/-- `simple_choose_kthread`: the congested owner of the sibling core, then a congested proc of
the core's or the sibling's history, then the first proc on `congested_procs` with a thread to
spare; the last pass does not look at `is_congested`. -/
def chooseKthread (s : Simple) (i : SimpleIn) (core : Nat) : Option Nat :=
  let ok := fun sd => (s.sd sd).isCongested && i.avail sd
  let sib := s.cfg.siblings core
  let cands := s.cores sib :: (List.range nhist).flatMap fun j =>
    [(s.hist core).getD j none, (s.hist sib).getD j none]
  (cands.findSome? (Option.filter ok)).or (s.congested.find? i.avail)

/-- The rest of one core of the loop of `simple_sched_poll`, once the core is free: it goes to
the kthread `simple_choose_kthread` picks, or becomes idle; a failed start leaves it idle and
marks the proc congested. -/
def pollChoose (s : Simple) (i : SimpleIn) (core : Nat) : Simple :=
  match s.chooseKthread i core with
  | none => { s with idleCores := Function.update s.idleCores core true }
  | some sd =>
    let r := s.runKthreadOnCore i sd core
    if r.2 ≠ 0 then { r.1 with idleCores := Function.update r.1.idleCores core true }.markCongested sd
    else r.1

/-- One core of the loop of `simple_sched_poll`: its owner is unmarked and loses it. -/
def pollCore (s : Simple) (i : SimpleIn) (core : Nat) : Simple :=
  let s := match s.cores core with
    | some sd => s.unmarkCongested sd
    | none => s
  (s.cleanupCore core).pollChoose i core

/-- `simple_sched_poll` over the cores set in `idle`. -/
def schedPoll (s : Simple) (i : SimpleIn) (idleCnt : Nat) (idle : Nat → Bool) : Simple :=
  if idleCnt = 0 then s
  else ((List.range ncpu).filter idle).foldl (fun s core => s.pollCore i core) s

/-- The policy after `simple_init`: the allowed cores idle, no proc. -/
def init (cfg : SimpleCfg) : Simple where
  cfg := cfg
  procs := []
  sd := fun _ =>
    { isCongested := false, qdelayUs := 0, threadsGuaranteed := 0, threadsMax := 0,
      threadsActive := 0, waking := false }
  congested := []
  idleCores := fun c => decide (c ∈ cfg.allowed)
  cores := fun _ => none
  hist := fun _ => List.replicate nhist none

end Simple

/-- The calls into the policy; a call on a proc is for an attached one. -/
inductive SimpleOp
  /-- `simple_attach` of a new proc -/
  | attach (p : Nat) (spec : SimpleSpec)
  /-- `simple_detach` -/
  | detach (p : Nat)
  /-- `simple_notify_congested` -/
  | congested (p : Nat) (busy : Bool) (delay : Nat) (parkedThreadDelay : Bool) (i : SimpleIn)
  /-- `simple_notify_core_needed` -/
  | coreNeeded (p : Nat) (i : SimpleIn)
  /-- `simple_sched_poll` with the idle bitmap and its count -/
  | poll (idleCnt : Nat) (idle : Nat → Bool) (i : SimpleIn)

/-- One call of the policy. -/
def simpleStep (s : Simple) : SimpleOp → Option Simple
  | .attach p spec => if p ∈ s.procs then none else some (s.attach p spec)
  | .detach p => if p ∈ s.procs then some (s.detach p) else none
  | .congested p busy delay pk i =>
    if p ∈ s.procs then some (s.notifyCongested i p busy delay pk) else none
  | .coreNeeded p i => if p ∈ s.procs then some (s.notifyCoreNeeded i p).1 else none
  | .poll n idle i => some (s.schedPoll i n idle)

/-- Two allowed cores, each its own sibling. -/
def simpleTwoCores : SimpleCfg where
  allowed := [0, 1]
  siblings := id
  allowed_lt := by decide

/-- A scheduler layer that always has a thread to spare and starts it. -/
def simpleAlwaysIn : SimpleIn where
  avail := fun _ => true
  runRet := fun _ _ => 0
  idleThreads := fun _ => []

/-- Proc 0, allowed one core, takes a core; it reports congestion twice (`waking` absorbs the
first report, and the second finds it at `threads_max`); then the poll finds core 1 idle. -/
def simpleOverTrace : List SimpleOp :=
  [.attach 0 ⟨0, 1, 0⟩, .coreNeeded 0 simpleAlwaysIn, .congested 0 true 0 false simpleAlwaysIn,
    .congested 0 true 0 false simpleAlwaysIn, .poll 1 (fun c => c == 1) simpleAlwaysIn]

/-- `simple_sched_poll` hands an idle core to a congested proc without looking at
`threads_max`: after `simpleOverTrace`, proc 0 owns two cores with `threads_max = 1`. -/
theorem simple_poll_exceeds_threads_max :
    ∃ s, StepRun.run simpleStep (Simple.init simpleTwoCores) simpleOverTrace = some s ∧
      s.procs = [0] ∧ (s.sd 0).threadsMax = 1 ∧ (s.sd 0).threadsActive = 2 ∧
      (List.range ncpu).countP (fun c => s.cores c == some 0) = 2 := by
  have hrun : (StepRun.run simpleStep (Simple.init simpleTwoCores) simpleOverTrace).map
      (fun s => (s.procs, (s.sd 0).threadsMax, (s.sd 0).threadsActive,
        (List.range ncpu).countP (fun c => s.cores c == some 0))) = some ([0], 1, 2, 2) := by
    decide +kernel
  obtain ⟨s, hs, heq⟩ := Option.map_eq_some_iff.mp hrun
  simp only [Prod.mk.injEq] at heq
  exact ⟨s, hs, heq⟩

end Caladan
