import Mathlib
import Caladan.Lib.Ring

/-!
# The run queues of the runtime (`runtime/sched.c`)

Each kthread keeps its runnable uthreads in a ring of `RUNTIME_RQ_SIZE` slots between the
free-running counters `rq_tail` and `rq_head`, followed by the list `rq_overflow` for what does
not fit. It exports the counters `q_ptrs->rq_head` and `q_ptrs->rq_tail`, whose difference the
IOKernel reads as the length of its queue. A thread joins the end of the queue of the kthread it
is made ready on (`thread_ready`), or its front (`thread_ready_head`, the softirq threads, a
thread ceding its core); the kthread's scheduler takes threads from the front, and a scheduler
with nothing to run steals the older half of another kthread's ring with all of its overflow list.

Each function is one atomic step. Threads are values of a type `T`; the thread a kthread runs is
`cur`, and `ready` is the `thread_ready` flag of every thread. Timestamps, statistics, the RCU
generation, the GC support (compiled out by default) and the softirq threads' busy flags are
left out: which softirq threads are found with work is an input of the step that looks for them.
-/

namespace Caladan

/-- `RUNTIME_RQ_SIZE` -/
def runtimeRqSize : Nat := 32

instance : NeZero runtimeRqSize := ⟨by decide⟩

theorem runtimeRqSize_dvd : runtimeRqSize ∣ 2 ^ 32 := ⟨2 ^ 27, by decide⟩

/-- What a kthread runs. -/
inductive KthreadCur (T : Type) where
  /-- the scheduler, or nothing while the kthread is parked -/
  | sched
  /-- the uthread `th` (`__self`) -/
  | running (th : T)
  /-- the uthread `th` on its way into the scheduler, after it released the lock it parks on:
  from here on a waker may make it ready -/
  | parking (th : T)
deriving DecidableEq, Repr

/-- The run-queue fields of `struct kthread` and the counters of its `q_ptrs`. -/
structure Kthread (T : Type) where
  rq : Fin runtimeRqSize → T
  rqHead : UInt32
  rqTail : UInt32
  rqOverflow : List T
  /-- `q_ptrs->rq_head` -/
  qHead : UInt32
  /-- `q_ptrs->rq_tail` -/
  qTail : UInt32
  cur : KthreadCur T

/-- The kthreads `ks[]` of the runtime and the `thread_ready` flags of its threads. -/
structure Runtime (T : Type) (nk : Nat) where
  ks : Fin nk → Kthread T
  ready : T → Bool

variable {T : Type} [DecidableEq T] {nk : Nat}

namespace Runtime

/-- The runtime with kthread `k` replaced by `kt`. -/
def setK (s : Runtime T nk) (k : Fin nk) (kt : Kthread T) : Runtime T nk :=
  { s with ks := Function.update s.ks k kt }

/-- The runtime with the `thread_ready` flag of `th` set to `b`. -/
def setReady (s : Runtime T nk) (th : T) (b : Bool) : Runtime T nk :=
  { s with ready := Function.update s.ready th b }

/-- Some kthread runs `th`. -/
def Running (s : Runtime T nk) (th : T) : Prop := ∃ k, (s.ks k).cur = .running th

instance (s : Runtime T nk) (th : T) : Decidable (s.Running th) :=
  inferInstanceAs (Decidable (∃ k, (s.ks k).cur = .running th))

end Runtime

/-! ## One kthread's queue -/

section
variable (k : Kthread T) (th : T)

/-- The queue part of `thread_ready_locked`: the end of the ring, or the end of the overflow list
when the ring is full. -/
def rqPushTail : Kthread T :=
  if k.rqHead - k.rqTail ≥ UInt32.ofNat runtimeRqSize then
    { k with rqOverflow := k.rqOverflow ++ [th], qHead := k.qHead + 1 }
  else
    { k with rq := Ring.write k.rq k.rqHead th, rqHead := k.rqHead + 1, qHead := k.qHead + 1 }

/-- The queue part of `thread_ready_head_locked`, also that of `thread_finish_cede`: the front of
the ring, where in a full ring it takes the slot of the newest thread, which moves to the front of
the overflow list. -/
def rqPushHead : Kthread T :=
  let oldestth := k.rq (Ring.slot (k.rqTail - 1))
  let k := { k with rqTail := k.rqTail - 1 }
  let k := { k with rq := Ring.write k.rq k.rqTail th }
  let k := if k.rqHead - k.rqTail > UInt32.ofNat runtimeRqSize then
      { k with rqOverflow := oldestth :: k.rqOverflow, rqHead := k.rqHead - 1 }
    else k
  { k with qHead := k.qHead + 1 }

/-- The loop of `drain_overflow`: the ring, its head and what is left of the overflow list. -/
def drainOverflowLoop (tail : UInt32) :
    (Fin runtimeRqSize → T) → UInt32 → List T → (Fin runtimeRqSize → T) × UInt32 × List T
  | rq, head, [] => (rq, head, [])
  | rq, head, th :: rest =>
    if head - tail < UInt32.ofNat runtimeRqSize then
      drainOverflowLoop tail (Ring.write rq head th) (head + 1) rest
    else (rq, head, th :: rest)

/-- `drain_overflow`: move overflow threads into the free slots of the ring. -/
def drainOverflow : Kthread T :=
  let (rq, head, ov) := drainOverflowLoop k.rqTail k.rq k.rqHead k.rqOverflow
  { k with rq := rq, rqHead := head, rqOverflow := ov }

/-- The pop of `schedule` and of the fast path of `enter_schedule`: the thread at the tail of the
ring, and the queue after it, with the overflow list drained into the freed slot. -/
def rqPop : T × Kthread T :=
  let th := k.rq (Ring.slot k.rqTail)
  let k := { k with rqTail := k.rqTail + 1, qTail := k.qTail + 1 }
  (th, if k.rqOverflow.isEmpty then k else drainOverflow k)

end

/-! ## The steps -/

section
variable (s : Runtime T nk)

/-- `thread_ready_prepare`: `none` is its `BUG_ON` for a thread that is ready already. -/
def threadReadyPrepare (th : T) : Option (Runtime T nk) :=
  if s.ready th then none else some (s.setReady th true)

/-- `thread_ready_locked` on kthread `k`. -/
def threadReadyLocked (k : Fin nk) (th : T) : Option (Runtime T nk) :=
  (threadReadyPrepare s th).map fun s => s.setK k (rqPushTail (s.ks k) th)

/-- `thread_ready` on kthread `k`: `thread_ready_locked` with the kthread's lock taken only for the
overflow list. -/
def threadReady (k : Fin nk) (th : T) : Option (Runtime T nk) := threadReadyLocked s k th

/-- `thread_ready_head_locked` on kthread `k`. -/
def threadReadyHeadLocked (k : Fin nk) (th : T) : Option (Runtime T nk) :=
  (threadReadyPrepare s th).map fun s => s.setK k (rqPushHead (s.ks k) th)

/-- `thread_ready_head` on kthread `k`: `thread_ready_head_locked` taking the lock itself. -/
def threadReadyHead (k : Fin nk) (th : T) : Option (Runtime T nk) := threadReadyHeadLocked s k th


end

/-- `softirq_sched` run by kthread `k`, given the softirq threads it finds with work: each is made
ready at the head of `k`'s queue (`myk()`, also when the softirqs are another kthread's). Also
says whether there were any. -/
def softirqSched (s : Runtime T nk) (k : Fin nk) : List T → Option (Bool × Runtime T nk)
  | [] => some (false, s)
  | th :: ths => (threadReadyHeadLocked s k th).bind fun s =>
    (softirqSched s k ths).map fun r => (true, r.2)

section
variable (s : Runtime T nk)

/-- Kthread `k` pops the thread at the front of its queue and jumps to it (`jmp_thread`,
`jmp_thread_direct`), which clears its `thread_ready` flag. -/
def runNext (k : Fin nk) : Runtime T nk :=
  let (th, kt) := rqPop (s.ks k)
  (s.setReady th false).setK k { kt with cur := .running th }

/-- `enter_schedule` on kthread `k`: with a thread in the ring and the watchdog not due (`slow`),
the next thread runs at once (the same thread as before, if it was the next one); otherwise the
kthread switches to the scheduler, whose pass is a step of its own. -/
def enterSchedule (k : Fin nk) (slow : Bool) : Runtime T nk :=
  if (s.ks k).rqHead = (s.ks k).rqTail || slow then s.setK k { s.ks k with cur := .sched }
  else runNext s k

/-- The first half of `thread_park_and_unlock_np` and `thread_park_and_preempt_enable` on
kthread `k`: the running thread releases the lock it waits on. -/
def threadParkAndUnlockNp (k : Fin nk) : Option (Runtime T nk) :=
  match (s.ks k).cur with
  | .running th => some (s.setK k { s.ks k with cur := .parking th })
  | _ => none

/-- `thread_yield` on kthread `k`, given the softirq threads `softirq_run` finds with work. -/
def threadYield (k : Fin nk) (softirqs : List T) (slow : Bool) : Option (Runtime T nk) :=
  match (s.ks k).cur with
  | .running curth => do
    let (_, s) ← softirqSched s k softirqs
    let s ← threadReady (s.setReady curth false) k curth
    pure (enterSchedule s k slow)
  | _ => none

/-- `thread_finish_cede` on kthread `k`: the thread it ran goes to the front of its queue, ready
without the check of `thread_ready_prepare`, and the kthread parks. -/
def threadFinishCede (k : Fin nk) : Option (Runtime T nk) :=
  match (s.ks k).cur with
  | .running myth =>
    let s := s.setReady myth true
    some (s.setK k { rqPushHead (s.ks k) myth with cur := .sched })
  | _ => none

/-- `steal_work` by kthread `l` from kthread `r`, given whether `spin_try_lock` took `r`'s lock,
whether `r` has softirq work pending, and the softirq threads `softirq_sched(r)` finds with work:
whether work was found, and the runtime. -/
def stealWork (l r : Fin nk) (locked pending : Bool) (softirqs : List T) :
    Option (Bool × Runtime T nk) :=
  let kr := s.ks r
  if !(kr.rqTail != kr.rqHead || pending) then some (false, s)
  else if !locked then some (false, s)
  else
    let avail := kr.rqHead - kr.rqTail
    if avail ≠ 0 then
      -- steal half the tasks, and the whole overflow list after them
      let avail := (avail + 2 - 1) / 2
      let ov := kr.rqOverflow
      let kl := s.ks l
      let s := s.setK r { kr with
        rqTail := kr.rqTail + avail
        rqOverflow := []
        qTail := kr.qTail + avail + UInt32.ofNat ov.length }
      some (true, s.setK l { kl with
        rq := Ring.copy kl.rq kr.rq kr.rqTail avail.toNat
        rqHead := avail
        rqOverflow := kl.rqOverflow ++ ov
        qHead := kl.qHead + avail + UInt32.ofNat ov.length })
    else match kr.rqOverflow with
      | th :: rest =>
        let s := s.setK r { kr with rqOverflow := rest, qTail := kr.qTail + 1 }
        let kl := s.ks l
        some (true, s.setK l { kl with
          rq := Ring.write kl.rq kl.rqHead th
          rqHead := kl.rqHead + 1
          qHead := kl.qHead + 1 })
      | [] => softirqSched s l softirqs

end

/-- One steal attempt of `schedule`: the kthread tried, whether its lock was free, whether it had
softirq work pending, and the softirq threads found with work. -/
structure StealTry (T : Type) (nk : Nat) where
  r : Fin nk
  locked : Bool
  pending : Bool
  softirqs : List T

/-- The steal attempts of `schedule` in order, up to the first that finds work. A failed attempt
changes nothing, so the attempts of several polling rounds are one list. -/
def stealLoop (s : Runtime T nk) (l : Fin nk) : List (StealTry T nk) → Option (Bool × Runtime T nk)
  | [] => some (false, s)
  | t :: ts =>
    if t.r = l then stealLoop s l ts
    else (stealWork s l t.r t.locked t.pending t.softirqs).bind fun (found, s) =>
      if found then some (true, s) else stealLoop s l ts

/-- What `schedule` does once it found work, or after the last check: `l` runs the next thread,
or parks with nothing to run. -/
def scheduleFound (s : Runtime T nk) (l : Fin nk) (found : Bool) : Runtime T nk :=
  if found then runNext s l else s

/-- The part of `schedule` from its label `again`, on a kthread whose ring is empty and reset: the
kthread's softirqs, the steal attempts, and the last check of its softirqs. -/
def scheduleAgain (s : Runtime T nk) (l : Fin nk) (softirqs : List T) (steals : List (StealTry T nk))
    (recheck : List T) : Option (Runtime T nk) :=
  (softirqSched s l softirqs).bind fun (found, s) =>
  if found then some (runNext s l)
  else (stealLoop s l steals).bind fun (found, s) =>
  if found then some (runNext s l)
  else (softirqSched s l recheck).map fun (found, s) => scheduleFound s l found

/-- One pass of `schedule` on kthread `l`, given the softirq threads the watchdog finds with work
(`none` when it is not due), those the first local check finds, the steal attempts, and those the
last local check finds. -/
def schedule (s : Runtime T nk) (l : Fin nk) (watchdog : Option (List T)) (softirqs : List T)
    (steals : List (StealTry T nk)) (recheck : List T) : Option (Runtime T nk) :=
  (softirqSched s l (watchdog.getD [])).bind fun (found, s) =>
  if found then some (runNext s l)
  else
    -- move overflow tasks into the runqueue
    let s := if (s.ks l).rqOverflow.isEmpty then s else s.setK l (drainOverflow (s.ks l))
    -- first try the local runqueue
    if (s.ks l).rqHead ≠ (s.ks l).rqTail then some (runNext s l)
    -- reset the local runqueue since it's empty
    else scheduleAgain (s.setK l { s.ks l with rqHead := 0, rqTail := 0 }) l softirqs steals recheck

/-! ## Runs -/

/-- The events of the run queues. -/
inductive SchedEvent (T : Type) (nk : Nat) where
  /-- `thread_ready` or `thread_ready_locked` on kthread `k` -/
  | ready (k : Fin nk) (th : T)
  /-- `thread_ready_head` or `thread_ready_head_locked` on kthread `k` -/
  | readyHead (k : Fin nk) (th : T)
  /-- the thread running on `k` parks and releases its lock -/
  | park (k : Fin nk)
  /-- the parking thread of `k` enters `enter_schedule` -/
  | enterSchedule (k : Fin nk) (slow : Bool)
  | yield (k : Fin nk) (softirqs : List T) (slow : Bool)
  | finishCede (k : Fin nk)
  | schedule (k : Fin nk) (watchdog : Option (List T)) (softirqs : List T)
      (steals : List (StealTry T nk)) (recheck : List T)

/-- The threads an event makes ready on the caller's behalf. -/
def SchedEvent.woken : SchedEvent T nk → List T
  | .ready _ th | .readyHead _ th => [th]
  | .yield _ softirqs _ => softirqs
  | .schedule _ watchdog softirqs steals recheck =>
    watchdog.getD [] ++ softirqs ++ steals.flatMap StealTry.softirqs ++ recheck
  | _ => []

/-- One event. A thread may be made ready only when it does not run ("This function can only be
called when @th is parked"), and the events of a kthread happen in the states its code is in:
`none` is a caller breaking that contract, or a `BUG_ON`. -/
def schedStep (s : Runtime T nk) (e : SchedEvent T nk) : Option (Runtime T nk) :=
  if e.woken.any fun th => decide (s.Running th) then none
  else match e with
    | .ready k th => threadReady s k th
    | .readyHead k th => threadReadyHead s k th
    | .park k => threadParkAndUnlockNp s k
    | .enterSchedule k slow =>
      match (s.ks k).cur with
      | .parking _ => some (enterSchedule s k slow)
      | _ => none
    | .yield k softirqs slow => threadYield s k softirqs slow
    | .finishCede k => threadFinishCede s k
    | .schedule k watchdog softirqs steals recheck =>
      match (s.ks k).cur with
      | .sched => schedule s k watchdog softirqs steals recheck
      | _ => none

/-- A run of events. -/
def schedRun (s : Runtime T nk) : List (SchedEvent T nk) → Option (Runtime T nk)
  | [] => some s
  | e :: es => (schedStep s e).bind (schedRun · es)

/-- The kthreads at start: empty queues, each in its scheduler, no thread ready; `rq₀` stands for
the zeroed slots. -/
def Runtime.init (rq₀ : Fin runtimeRqSize → T) : Runtime T nk :=
  ⟨fun _ => ⟨rq₀, 0, 0, [], 0, 0, .sched⟩, fun _ => false⟩

end Caladan
