import Mathlib
import Caladan.Lib.Run
import Caladan.Runtime.Sched

/-!
# Switching uthreads, statement by statement (`runtime/sched.c`, `runtime/switch.S`)

A parking uthread releases its lock before its context is saved, so a waker may make it ready and
another kthread may pop it while the parking kthread still runs on its stack. `thread_running`
keeps the two apart: the kthread that takes the thread spins until the flag is clear and then sets
it, and the kthread that leaves the thread clears it only once its trap frame is saved and the
kthread is off its stack: at the top of `schedule()` on the slow path, inside
`__jmp_thread_direct` after the stack switch on the fast path, at the start of
`thread_finish_cede`.

Each kthread has a place (`SwPc`): running a uthread; in `enter_schedule` (its lock, its test,
then the fast path through `jmp_thread_direct` or the slow path through `__jmp_runtime` into
`schedule`); in `schedule`; in `jmp_thread`; in `thread_finish_cede`; in `thread_finish_exit`.
Each C statement that touches the flags, the trap frame, the stack pointer or a run queue is one
step, and so is each store and load of a trap frame in `switch.S`. Statements that only touch the
kthread's own registers, statistics and counters are merged into the step before them, and so are
the statements under the kthread's lock that only touch its own queue, which no other kthread can
see while the lock is held. A run queue is the list view of its ring (from `rq_tail` to
`rq_head`, at most `RUNTIME_RQ_SIZE` threads) followed by `rq_overflow`; `Runtime.Sched` has the
ring's slot arithmetic. Each queue operation is one step.

The uthreads' own code is the source of the calls: `thread_park_and_unlock_np` (its unlock is the
step `park`), `thread_yield`, `thread_cede`, `thread_exit`, `thread_spawn`, and `thread_ready` or
`thread_ready_head` on a parked thread, which a uthread or the scheduler's `softirq_sched` makes
on its own kthread's queue. A thread is parked ("waiting") from the unlock of its park until a
waker readies it; a call on another thread breaks the caller's contract and is not a step. Four
fields are ghosts: `waiting`, the time `parkedAt` of the last park or yield with the clock that
stamps it, and whether the `struct thread` is allocated. The memory is sequentially consistent: on
x86 the stores of a trap frame are ordered before the store that clears `thread_running`, and the
spinning loads are acquires.
-/

namespace Caladan

/-- The words a save stores in `struct thread_tf`: the six callee-saved registers, `RIP` and
`RSP`. -/
def tfWords : Nat := 8

/-- The callee-saved registers `__jmp_thread_direct` loads after it switched stacks. -/
def tfCalleeRegs : Nat := 6

/-- The runtime function `__jmp_runtime` enters on the runtime stack. -/
inductive SwFn
  | schedule
  | finishCede
deriving DecidableEq, Repr

/-- Where a kthread is. `cur` is the thread whose context it leaves, `th` the one it enters. -/
inductive SwPc (T : Type)
  /-- running `th`'s own code, on its stack -/
  | uthread (th : T)
  /-- `enter_schedule(cur)`: `spin_lock(&k->lock)` -/
  | lock (cur : T)
  /-- `enter_schedule(cur)`: the test for the slow path, and on the fast path the pop and unlock -/
  | test (cur : T)
  /-- `__jmp_runtime`: store `i` of `cur`'s trap frame -/
  | save (cur : T) (fn : SwFn) (i : Nat)
  /-- `__jmp_runtime`: `movq %rdx, %rsp`, then the jump into `fn` -/
  | toRuntime (cur : T) (fn : SwFn)
  /-- `schedule()`: `store_release(&__self->thread_running, false); __self = NULL;` -/
  | clear (cur : T)
  /-- in `schedule()` from `again:`, holding the lock or parked with an empty queue -/
  | sched
  /-- `thread_finish_cede`: in `kthread_park`, the lock released -/
  | parked
  /-- `jmp_thread(th)`: `__self = th; th->thread_ready = false;` -/
  | ready (th : T)
  /-- `jmp_thread(th)`: `while (load_acquire(&th->thread_running)) cpu_relax();` -/
  | spin (th : T)
  /-- `jmp_thread(th)`: `th->thread_running = true;` -/
  | set (th : T)
  /-- `__jmp_thread`: load `i` of `th`'s trap frame -/
  | restore (th : T) (i : Nat)
  /-- `jmp_thread_direct(cur, th)`: `__self = newth; newth->thread_ready = false;` -/
  | dReady (cur th : T)
  /-- `jmp_thread_direct(cur, th)`: the spin on `newth->thread_running` -/
  | dSpin (cur th : T)
  /-- `jmp_thread_direct(cur, th)`: `newth->thread_running = true;` -/
  | dSet (cur th : T)
  /-- `__jmp_thread_direct`: store `i` of `cur`'s trap frame -/
  | dSave (cur th : T) (i : Nat)
  /-- `__jmp_thread_direct`: `movq RSP(%rsi), %rsp` and `movq RIP(%rsi), %rcx` -/
  | dSwitch (cur th : T)
  /-- `__jmp_thread_direct`: `movl $0, (%rdx)`, clearing `cur`'s `thread_running` -/
  | dClear (cur th : T)
  /-- `__jmp_thread_direct`: load `i` of the callee-saved registers of `th` -/
  | dRestore (th : T) (i : Nat)
  /-- `thread_finish_cede`: `myth->thread_running = false;` -/
  | cedeClear (cur : T)
  /-- `thread_finish_cede`: `myth->thread_ready = true;` -/
  | cedeReady (cur : T)
  /-- `thread_finish_cede`: the push at the head of the queue, under the lock -/
  | cedePush (cur : T)
  /-- `__jmp_runtime_nosave`: `movq %rsi, %rsp` -/
  | exitSwitch (cur : T)
  /-- `thread_finish_exit`: `stack_free`, `tcache_free`, `__self = NULL`, then `schedule()` -/
  | exitFree (cur : T)
deriving DecidableEq, Repr

namespace SwPc

variable {T : Type}

/-- The threads the kthread has in hand: the one it runs, one it popped, one it cedes or frees.
A thread that parked or yielded is no longer in its kthread's hand. -/
def tokens : SwPc T → List T
  | uthread th | ready th | spin th | set th | restore th _ | dRestore th _ => [th]
  | save cur .finishCede _ | toRuntime cur .finishCede => [cur]
  | dReady _ th | dSpin _ th | dSet _ th | dSave _ th _ | dSwitch _ th | dClear _ th => [th]
  | cedeClear cur | cedeReady cur | cedePush cur | exitSwitch cur | exitFree cur => [cur]
  | _ => []

/-- The threads whose `thread_running` the kthread set or has yet to clear. -/
def holding : SwPc T → List T
  | uthread th | restore th _ | dRestore th _ => [th]
  | lock cur | test cur | save cur _ _ | toRuntime cur _ | clear cur => [cur]
  | dReady cur _ | dSpin cur _ | dSet cur _ => [cur]
  | dSave cur th _ | dSwitch cur th | dClear cur th => [cur, th]
  | cedeClear cur | exitSwitch cur | exitFree cur => [cur]
  | _ => []

/-- The thread whose stack or registers the kthread uses. -/
def inUse : SwPc T → Option T
  | uthread th | restore th _ | dClear _ th | dRestore th _ => some th
  | lock cur | test cur | save cur _ _ | toRuntime cur _ | exitSwitch cur => some cur
  | dReady cur _ | dSpin cur _ | dSet cur _ | dSave cur _ _ | dSwitch cur _ => some cur
  | _ => none

/-- The thread whose trap frame the kthread's next instruction loads. -/
def restoring : SwPc T → Option T
  | restore th _ | dSwitch _ th | dRestore th _ => some th
  | _ => none

/-- The thread whose trap frame the kthread saves, with the stores done. -/
def savePos : SwPc T → Option (T × Nat)
  | save cur _ i | dSave cur _ i => some (cur, i)
  | _ => none

/-- The thread whose trap frame is written in part. -/
def saving : SwPc T → Option T
  | save cur _ (_ + 1) | dSave cur _ (_ + 1) => some cur
  | _ => none

/-- The thread whose `thread_running` the kthread spins on. -/
def spinOn : SwPc T → Option T
  | spin th | dSpin _ th => some th
  | _ => none

/-- The thread whose `thread_running` the kthread's next statement sets. -/
def setting : SwPc T → Option T
  | set th | dSet _ th => some th
  | _ => none

/-- The thread a kthread in `enter_schedule` leaves, before its lock is released. -/
def entering : SwPc T → Option T
  | lock cur | test cur => some cur
  | _ => none

/-- The two threads of `jmp_thread_direct` before its `thread_running` store. -/
def direct : SwPc T → Option (T × T)
  | dReady cur th | dSpin cur th | dSet cur th => some (cur, th)
  | _ => none

/-- The places where the kthread holds its lock across steps. -/
def locked : SwPc T → Bool
  | test _ | save _ .schedule _ | toRuntime _ .schedule | clear _ | sched => true
  | _ => false

/-- The places from which code on the kthread may call `thread_ready`: a uthread, or the
scheduler's `softirq_sched`. -/
def wakes : SwPc T → Bool
  | uthread _ | sched => true
  | _ => false

end SwPc

/-- A kthread's run queue: the ring from `rq_tail` to `rq_head`, and `rq_overflow`. -/
structure SwQueue (T : Type) where
  rq : List T
  overflow : List T
deriving DecidableEq, Repr

namespace SwQueue

variable {T : Type} (q : SwQueue T) (th : T)

/-- The queue in order. -/
def all : List T := q.rq ++ q.overflow

/-- The queue part of `thread_ready`: the end of the ring, or of the overflow list when the ring
is full. -/
def pushTail : SwQueue T :=
  if runtimeRqSize ≤ q.rq.length then ⟨q.rq, q.overflow ++ [th]⟩ else ⟨q.rq ++ [th], q.overflow⟩

/-- The queue part of `thread_ready_head` and `thread_finish_cede`: the front of the ring, whose
newest thread moves to the front of the overflow list when the ring was full. -/
def pushHead : SwQueue T :=
  let rq := th :: q.rq
  if runtimeRqSize < rq.length then ⟨rq.take runtimeRqSize, rq.drop runtimeRqSize ++ q.overflow⟩
  else ⟨rq, q.overflow⟩

/-- `drain_overflow`: overflow threads move to the end of the ring while it has room. -/
def drain : SwQueue T :=
  ⟨q.rq ++ q.overflow.take (runtimeRqSize - q.rq.length), q.overflow.drop (runtimeRqSize - q.rq.length)⟩

/-- The pop of `schedule` and of the fast path: the thread at `rq_tail`, then `drain_overflow`. -/
def pop : Option (T × SwQueue T) :=
  match q.rq with
  | [] => none
  | th :: rest => some (th, drain ⟨rest, q.overflow⟩)

/-- `steal_work(l, r)` on the queues of a thief `l` with an empty ring and a victim `r`: half of
the victim's ring, rounded up, with its whole overflow list after them; or, from an empty ring, the
first overflow thread. -/
def steal (l r : SwQueue T) : Option (SwQueue T × SwQueue T) :=
  if r.rq ≠ [] then
    let avail := (r.rq.length + 1) / 2
    some (⟨r.rq.take avail, l.overflow ++ r.overflow⟩, ⟨r.rq.drop avail, []⟩)
  else match r.overflow with
    | th :: rest => some (⟨l.rq ++ [th], l.overflow⟩, ⟨r.rq, rest⟩)
    | [] => none

/-! The queue operations move threads; none is lost or made up. -/

theorem all_pushTail : ((q.pushTail th).all : Multiset T) = th ::ₘ q.all := by
  rw [Multiset.cons_coe, Multiset.coe_eq_coe]
  unfold pushTail all
  split
  · rw [← List.append_assoc]
    exact List.perm_append_singleton _ _
  · rw [List.append_assoc, List.singleton_append]
    exact List.perm_middle

@[simp] theorem all_pushHead : (q.pushHead th).all = th :: q.all := by
  unfold pushHead all
  dsimp only
  split
  · rw [← List.append_assoc, List.take_append_drop]
    rfl
  · rfl

@[simp] theorem all_drain : q.drain.all = q.all := by
  simp only [drain, all, List.append_assoc, List.take_append_drop]

theorem all_of_pop {q' : SwQueue T} (h : q.pop = some (th, q')) :
    (q.all : Multiset T) = th ::ₘ q'.all := by
  unfold pop at h
  cases hq : q.rq with
  | nil => simp [hq] at h
  | cons x rest =>
    simp only [hq, Option.some.injEq, Prod.mk.injEq] at h
    obtain ⟨rfl, rfl⟩ := h
    rw [all_drain]
    simp [all, hq]

theorem mem_of_pop {q' : SwQueue T} (h : q.pop = some (th, q')) : th ∈ q.all := by
  rw [← Multiset.mem_coe, all_of_pop q th h]
  exact Multiset.mem_cons_self _ _

theorem all_of_steal {l r l' r' : SwQueue T} (hl : l.rq = []) (h : steal l r = some (l', r')) :
    (l'.all : Multiset T) + r'.all = l.all + r.all := by
  unfold steal at h
  split at h
  · obtain ⟨rfl, rfl⟩ := Prod.mk.inj (Option.some.inj h)
    simp only [all, hl, List.nil_append, List.append_nil]
    conv_rhs => rw [← List.take_append_drop ((r.rq.length + 1) / 2) r.rq]
    simp only [← Multiset.coe_add]
    abel
  · cases hr : r.overflow with
    | nil => simp [hr] at h
    | cons x rest =>
      simp only [hr, Option.some.injEq, Prod.mk.injEq] at h
      obtain ⟨rfl, rfl⟩ := h
      simp only [all, hl, hr, List.nil_append, ← Multiset.coe_add, ← Multiset.cons_coe,
        Multiset.coe_nil, ← Multiset.singleton_add]
      abel

/-- A steal takes from the victim only threads it had. -/
theorem mem_of_steal_right {l r l' r' : SwQueue T} (h : steal l r = some (l', r')) {w : T}
    (hw : w ∈ r'.all) : w ∈ r.all := by
  unfold steal at h
  split at h
  · obtain ⟨rfl, rfl⟩ := Prod.mk.inj (Option.some.inj h)
    simp only [all, List.append_nil] at hw ⊢
    exact List.mem_append_left _ (List.mem_of_mem_drop hw)
  · cases hr : r.overflow with
    | nil => simp [hr] at h
    | cons x rest =>
      simp only [hr, Option.some.injEq, Prod.mk.injEq] at h
      obtain ⟨rfl, rfl⟩ := h
      simp only [all, hr, List.mem_append, List.mem_cons] at hw ⊢
      tauto

end SwQueue

/-- A `struct thread` as the switch reads it: `thread_ready`, `thread_running`, the stores of the
save in progress (`tfWords` when the frame is complete), and the ghosts. -/
structure SwThread where
  ready : Bool
  running : Bool
  tfSaved : Nat
  /-- parked, its lock released, and not made ready since -/
  waiting : Bool
  /-- the clock at its last park or yield -/
  parkedAt : Nat
  /-- allocated, from `thread_create` to the `tcache_free` of `thread_finish_exit` -/
  alive : Bool
deriving DecidableEq, Repr

/-- A kthread: its place and its run queue. -/
structure SwKthread (T : Type) where
  pc : SwPc T
  q : SwQueue T
deriving DecidableEq, Repr

/-- The threads, the kthreads `ks[]`, and the clock of `parkedAt`. -/
structure SwSys (T : Type) (nk : Nat) where
  ths : T → SwThread
  ks : Fin nk → SwKthread T
  clock : Nat

namespace SwSys

variable {T : Type} [DecidableEq T] {nk : Nat} (s : SwSys T nk)

/-- Kthread `k` replaced by `kt`. -/
def setK (k : Fin nk) (kt : SwKthread T) : SwSys T nk := { s with ks := Function.update s.ks k kt }

/-- Kthread `k` moved to `pc`. -/
def setPc (k : Fin nk) (pc : SwPc T) : SwSys T nk := s.setK k { s.ks k with pc := pc }

/-- Kthread `k`'s queue replaced by `q`. -/
def setQ (k : Fin nk) (q : SwQueue T) : SwSys T nk := s.setK k { s.ks k with q := q }

/-- Thread `th` changed by `f`. -/
def modTh (th : T) (f : SwThread → SwThread) : SwSys T nk :=
  { s with ths := Function.update s.ths th (f (s.ths th)) }

/-- `thread_ready` of `th` set to `b`. -/
def setReady (th : T) (b : Bool) : SwSys T nk := s.modTh th fun t => { t with ready := b }

/-- `thread_running` of `th` set to `b`. -/
def setRunning (th : T) (b : Bool) : SwSys T nk := s.modTh th fun t => { t with running := b }

/-- The stores of the save of `th`'s trap frame so far. -/
def setTf (th : T) (n : Nat) : SwSys T nk := s.modTh th fun t => { t with tfSaved := n }

/-- Kthread `k`'s next statement or instruction where it depends on nothing but the state. -/
def next (k : Fin nk) : Option (SwSys T nk) :=
  match (s.ks k).pc with
  | .uthread _ | .test _ | .sched => none
  | .lock cur => some (s.setPc k (.test cur))
  | .save cur fn i =>
    some ((s.setPc k (if i + 1 < tfWords then .save cur fn (i + 1) else .toRuntime cur fn)).setTf
      cur (i + 1))
  | .toRuntime cur fn =>
    some (s.setPc k (match fn with
      | .schedule => .clear cur
      | .finishCede => .cedeClear cur))
  | .clear cur => some ((s.setPc k .sched).setRunning cur false)
  | .parked => some (s.setPc k .sched)
  | .ready th => some ((s.setPc k (.spin th)).setReady th false)
  | .spin th => some (s.setPc k (if (s.ths th).running then .spin th else .set th))
  | .set th => some ((s.setPc k (.restore th 0)).setRunning th true)
  | .restore th i => some (s.setPc k (if i + 1 < tfWords then .restore th (i + 1) else .uthread th))
  | .dReady cur th => some ((s.setPc k (.dSpin cur th)).setReady th false)
  | .dSpin cur th => some (s.setPc k (if (s.ths th).running then .dSpin cur th else .dSet cur th))
  | .dSet cur th => some ((s.setPc k (.dSave cur th 0)).setRunning th true)
  | .dSave cur th i =>
    some ((s.setPc k (if i + 1 < tfWords then .dSave cur th (i + 1) else .dSwitch cur th)).setTf
      cur (i + 1))
  | .dSwitch cur th => some (s.setPc k (.dClear cur th))
  | .dClear cur th => some ((s.setPc k (.dRestore th 0)).setRunning cur false)
  | .dRestore th i =>
    some (s.setPc k (if i + 1 < tfCalleeRegs then .dRestore th (i + 1) else .uthread th))
  | .cedeClear cur => some ((s.setPc k (.cedeReady cur)).setRunning cur false)
  | .cedeReady cur => some ((s.setPc k (.cedePush cur)).setReady cur true)
  | .cedePush cur => some (s.setK k ⟨.parked, (s.ks k).q.pushHead cur⟩)
  | .exitSwitch cur => some (s.setPc k (.exitFree cur))
  | .exitFree cur => some ((s.setPc k .sched).modTh cur fun t => { t with alive := false })

/-- The start: the main thread of `thread_spawn_main` ready on kthread `k₀`, every kthread in its
scheduler. -/
def init (k₀ : Fin nk) (main : T) : SwSys T nk where
  ths th := ⟨decide (th = main), false, tfWords, false, 0, decide (th = main)⟩
  ks k := ⟨.sched, if k = k₀ then ⟨[main], []⟩ else ⟨[], []⟩⟩
  clock := 1

end SwSys

/-- What happens next: kthread `k`'s next statement, a call of the uthread it runs, its
`enter_schedule` test (`watchdog`: the watchdog is due), the pop and a steal of its `schedule`. -/
inductive SwOp (T : Type) (nk : Nat)
  | next (k : Fin nk)
  /-- `thread_park_and_unlock_np`'s `spin_unlock`, or `thread_park_and_preempt_enable` -/
  | park (k : Fin nk)
  | yield (k : Fin nk)
  | cede (k : Fin nk)
  | exit (k : Fin nk)
  /-- `thread_ready` (`head` false) or `thread_ready_head` of `th`, by code on kthread `k` -/
  | wake (k : Fin nk) (th : T) (head : Bool)
  /-- `thread_spawn` of a new thread `th` -/
  | spawn (k : Fin nk) (th : T)
  | test (k : Fin nk) (watchdog : Bool)
  | pop (k : Fin nk)
  /-- `steal_work(k, r)` -/
  | steal (k r : Fin nk)

namespace SwSys

variable {T : Type} [DecidableEq T] {nk : Nat} (s : SwSys T nk)

/-- The calls a uthread makes on its kthread, from its place `uthread cur`. -/
def call (k : Fin nk) (f : T → Option (SwSys T nk)) : Option (SwSys T nk) :=
  match (s.ks k).pc with
  | .uthread cur => f cur
  | _ => none

/-- One step; `none` where it cannot happen, or where the caller breaks its contract. -/
def step : SwOp T nk → Option (SwSys T nk)
  | .next k => s.next k
  | .park k => s.call k fun cur =>
    some { (s.setPc k (.lock cur)).modTh cur fun t => { t with waiting := true, parkedAt := s.clock }
      with clock := s.clock + 1 }
  | .yield k => s.call k fun cur =>
    -- `curth->thread_ready = false; thread_ready(curth);`
    some { (s.setK k ⟨.lock cur, (s.ks k).q.pushTail cur⟩).modTh cur fun t =>
      { t with ready := true, parkedAt := s.clock } with clock := s.clock + 1 }
  | .cede k => s.call k fun cur => some (s.setPc k (.save cur .finishCede 0))
  | .exit k => s.call k fun cur => some (s.setPc k (.exitSwitch cur))
  | .wake k th head =>
    if !(s.ks k).pc.wakes || !(s.ths th).waiting then none
    -- the `BUG_ON` of `thread_ready_prepare`
    else if (s.ths th).ready then none
    else some ((s.setQ k (if head then (s.ks k).q.pushHead th else (s.ks k).q.pushTail th)).modTh th
      fun t => { t with ready := true, waiting := false })
  | .spawn k th => s.call k fun _ =>
    if (s.ths th).alive then none
    else some ((s.setQ k ((s.ks k).q.pushTail th)).modTh th
      fun t => { t with ready := true, running := false, tfSaved := tfWords, alive := true })
  | .test k watchdog =>
    match (s.ks k).pc with
    | .test cur =>
      if (s.ks k).q.rq = [] ∨ watchdog = true then some (s.setPc k (.save cur .schedule 0))
      else match (s.ks k).q.pop with
        | none => none
        | some (th, q) =>
          -- switching into the same thread as before
          if th = cur then some ((s.setK k ⟨.uthread cur, q⟩).setReady cur false)
          else some (s.setK k ⟨.dReady cur th, q⟩)
    | _ => none
  | .pop k =>
    match (s.ks k).pc, (s.ks k).q.drain.pop with
    | .sched, some (th, q) => some (s.setK k ⟨.ready th, q⟩)
    | _, _ => none
  | .steal k r =>
    if (s.ks k).pc = .sched ∧ (s.ks k).q.all = [] ∧ r ≠ k ∧ (s.ks r).pc.locked = false then
      match SwQueue.steal (s.ks k).q (s.ks r).q with
      | some (l, q) => some ((s.setQ k l).setQ r q)
      | none => none
    else none

end SwSys

/-- The runs of the switch from `thread_spawn_main`. -/
def swRun {T : Type} [DecidableEq T] {nk : Nat} (k₀ : Fin nk) (main : T) (ops : List (SwOp T nk)) :
    Option (SwSys T nk) :=
  StepRun.run SwSys.step (SwSys.init k₀ main) ops

end Caladan
