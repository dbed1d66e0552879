import Mathlib
import Caladan.Lib.DaryHeap

/-!
# Timers (`runtime/timer.c`)

Each kthread keeps its armed timers in a 4-ary min-heap on the deadline: the array `timers` of
`struct timer_idx`, of which `timern` slots are in use. Every `struct timer_entry` in the heap
records its slot in `idx` and has `armed` set. `sift_up` and `sift_down` move a value along the
heap with one swap per level, writing the slot of each value they move into its entry.

`timer_start` and `timer_cancel` are one step each, as they run under the kthread's `timer_lock`.
The kthread's timer softirq thread runs the loop of `timer_softirq_one`, and a pass of the loop is
two steps: under the lock it pops the root (`timerSoftirqOne`); then it drops the lock, clears the
fired entry's `armed` (`timerSoftirqClear`) and runs the handler, whose effects are later steps.
Between the two steps any other thread may take the lock; `TimerSys` records the entry whose
`armed` the softirq has yet to clear. Whether the loop goes on (`preempt_needed` and the clock)
is the time the step is given.

Entries are values of a type `E`; the slots of `timers` beyond `timern`, and the `idx` of entries
never started, hold whatever they held. The export of the first deadline to the IOKernel
(`update_q_ptrs`) and the entry's kthread (`localk`, one kthread here) are left out.
-/

namespace Caladan

/-- `RUNTIME_MAX_TIMERS` -/
def runtimeMaxTimers : Nat := 4096

/-- `D`, the arity of the heap -/
def timerD : Nat := 4

/-- `struct timer_idx` -/
structure TimerIdx (E : Type) where
  deadlineUs : UInt64
  e : E
deriving DecidableEq, Repr

/-- A kthread's timer heap (`timers`, `timern`) with the fields `idx` and `armed` of the timer
entries. -/
structure TimerHeap (E : Type) where
  timers : Nat → TimerIdx E
  timern : Nat
  idx : E → Nat
  armed : E → Bool

variable {E : Type} [DecidableEq E]

omit [DecidableEq E] in
/-- The loop of `is_valid_heap` from slot `i` down: it stops once `i > 1` fails. -/
def isValidHeapLoop (heap : Nat → TimerIdx E) : Nat → Bool
  | 0 => true
  | i + 1 =>
    if i + 1 > 1 then
      let p := (i + 1 - 1) / timerD
      if (heap p).deadlineUs > (heap (i + 1)).deadlineUs then false
      else isValidHeapLoop heap i
    else true

omit [DecidableEq E] in
/-- `is_valid_heap`: the loop starts at `n - 1`; for `n = 0` it does not run. -/
def isValidHeap (heap : Nat → TimerIdx E) (n : Nat) : Bool := isValidHeapLoop heap (n - 1)

/-- `heap[i] = t; heap[i].e->idx = i` -/
def TimerHeap.setTimer (s : TimerHeap E) (i : Nat) (t : TimerIdx E) : TimerHeap E :=
  { s with timers := Function.update s.timers i t, idx := Function.update s.idx t.e i }

/-- The loop of `sift_up` moving `tmp` up from slot `i`. The C loop has no bound; `fuel` passes,
of which `i` are enough, stand for it. -/
def siftUpLoop (tmp : TimerIdx E) : Nat → TimerHeap E → Nat → TimerHeap E
  | 0, s, _ => s
  | fuel + 1, s, i =>
    if i > 0 then
      let p := (i - 1) / timerD
      if tmp.deadlineUs ≥ (s.timers p).deadlineUs then s
      else siftUpLoop tmp fuel ((s.setTimer i (s.timers p)).setTimer p tmp) p
    else s

/-- `sift_up` -/
def siftUp (s : TimerHeap E) (i : Nat) : TimerHeap E :=
  siftUpLoop (s.timers i) i s i

/-- The inner loop of `sift_down` over the children of a node from slot `j`, `k` of them left,
with the least deadline `w` seen so far and its slot `c` (`none` for `INT_MAX`). -/
def siftDownScan (s : TimerHeap E) (n : Nat) : Nat → Nat → UInt64 → Option Nat → Option Nat
  | 0, _, _, c => c
  | k + 1, j, w, c =>
    if j ≥ n then c
    else if (s.timers j).deadlineUs < w then
      siftDownScan s n k (j + 1) (s.timers j).deadlineUs (some j)
    else siftDownScan s n k (j + 1) w c

/-- The loop of `sift_down` moving `tmp` down from slot `i` of a heap of `n` slots; `n` passes
are enough. -/
def siftDownLoop (tmp : TimerIdx E) (n : Nat) : Nat → TimerHeap E → Nat → TimerHeap E
  | 0, s, _ => s
  | fuel + 1, s, i =>
    match siftDownScan s n timerD (i * timerD + 1) tmp.deadlineUs none with
    | none => s
    | some c => siftDownLoop tmp n fuel ((s.setTimer i (s.timers c)).setTimer c tmp) c

/-- `sift_down` -/
def siftDown (s : TimerHeap E) (i n : Nat) : TimerHeap E :=
  siftDownLoop (s.timers i) n n s i

/-- `timer_start_locked`: `none` for its `BUG`s, an entry armed twice or a full heap. -/
def timerStartLocked (s : TimerHeap E) (e : E) (deadlineUs : UInt64) : Option (TimerHeap E) :=
  if s.armed e then none
  else
    let i := s.timern
    let s := { s with timern := s.timern + 1 }
    if s.timern ≥ runtimeMaxTimers then none
    else
      let s := siftUp (s.setTimer i ⟨deadlineUs, e⟩) i
      some { s with armed := Function.update s.armed e true }

/-- `timer_cancel`: whether the entry was armed, and the heap. It is `none` where the code reads
`timers[-1]`: an armed entry on an empty heap, for which `--timern` gives `-1`. -/
def timerCancel (s : TimerHeap E) (e : E) : Option (Bool × TimerHeap E) :=
  if !s.armed e then some (false, s)
  else if s.timern = 0 then none
  else
    let s := { s with armed := Function.update s.armed e false, timern := s.timern - 1 }
    let last := s.timern
    if s.idx e = last then some (true, s)
    else
      let s := s.setTimer (s.idx e) (s.timers last)
      let s := siftUp s (s.idx e)
      some (true, siftDown s (s.idx e) s.timern)

/-- The part of a pass of the loop of `timer_softirq_one` that holds `timer_lock`, at time
`nowUs`: the entry it pops and the heap, or `none` when the loop stops. -/
def timerSoftirqOne (s : TimerHeap E) (nowUs : UInt64) : Option (E × TimerHeap E) :=
  if s.timern > 0 ∧ (s.timers 0).deadlineUs ≤ nowUs then
    let i := s.timern - 1
    let s := { s with timern := i }
    let e := (s.timers 0).e
    let s := if i > 0 then siftDown (s.setTimer 0 (s.timers i)) 0 i else s
    some (e, s)
  else none

/-- `e->armed = false`, which a pass of `timer_softirq_one` runs after `spin_unlock`, before the
handler. -/
def timerSoftirqClear (s : TimerHeap E) (e : E) : TimerHeap E :=
  { s with armed := Function.update s.armed e false }

/-- A kthread's timers and its timer softirq thread: `firing` is the entry the thread popped and
whose `armed` it has not yet cleared, `none` when the thread is at the head of its loop. -/
structure TimerSys (E : Type) where
  heap : TimerHeap E
  firing : Option E

/-- The operations on a kthread's timers: a `timer_start`, a `timer_cancel`, or the next step of
the timer softirq thread. -/
inductive TimerOp (E : Type)
  | start (e : E) (deadlineUs : UInt64)
  | cancel (e : E)
  | softirq (nowUs : UInt64)

/-- One operation; `none` is a `BUG` or an out-of-bounds access. The softirq thread either clears
the entry it popped, or pops the next one; when its loop stops nothing changes. -/
def timerStep (s : TimerSys E) : TimerOp E → Option (TimerSys E)
  | .start e deadlineUs => (timerStartLocked s.heap e deadlineUs).map fun h => { s with heap := h }
  | .cancel e => (timerCancel s.heap e).map fun r => { s with heap := r.2 }
  | .softirq nowUs =>
    match s.firing with
    | some e => some ⟨timerSoftirqClear s.heap e, none⟩
    | none =>
      match timerSoftirqOne s.heap nowUs with
      | some (e, h) => some ⟨h, some e⟩
      | none => some s

/-- A run of operations. -/
def timerRun (s : TimerSys E) : List (TimerOp E) → Option (TimerSys E)
  | [] => some s
  | op :: ops => (timerStep s op).bind (timerRun · ops)

/-- A kthread's timers at start: no timer armed (`timer_init` clears `armed`), and the softirq
thread at the head of its loop. -/
def TimerSys.init (timers₀ : Nat → TimerIdx E) (idx₀ : E → Nat) : TimerSys E :=
  ⟨⟨timers₀, 0, idx₀, fun _ => false⟩, none⟩

end Caladan
