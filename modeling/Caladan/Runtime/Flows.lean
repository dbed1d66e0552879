import Mathlib
import Caladan.Lib.Run
import Caladan.Lib.RoundRobin
import Caladan.Base.Bitmap
import Caladan.Iokernel.Sched

/-!
# Directpath flow steering (`runtime/kthread.c`)

With directpath, the runtime steers the NIC's flow groups to its awake kthreads. A kthread that
wakes sets its bit of `kthread_awake` and one that parks clears it (`bitmap_atomic_set`,
`bitmap_atomic_clear`), then increments `kthread_gen` and, unless it parks involuntarily, calls
`flows_update`. `flows_update` does not wait for `flow_assignment_lock`: a caller that loses the
try-lock returns and leaves the work to the holder, who records the generation it read in
`flow_assignment_gen`, copies `kthread_awake` word by word, builds `fg_map` (each awake kthread
below `maxks` to itself, the others round-robin over the awake ones), passes it to
`net_ops.steer_flows` unless none is awake, unlocks, and starts again if `kthread_gen` moved.

Each atomic operation, try-lock, unlock, read or write of a shared word, and each
`net_ops.steer_flows` call is one step of one kthread; the loops over `kawake_local` are local and
run in the step that calls `steer_flows`. The kthreads are the indices below `maxks`, the bitmap
has `BITMAP_LONG_SIZE(NCPU)` words, and the generations are naturals. `cfg_directpath_enabled`
is taken to be set.
-/

namespace Caladan

open Bitmap

/-- Where a kthread is in `flows_notify_waking`, `flows_notify_parking` and `flows_update`. -/
inductive FlowsPc where
  /-- in none of them -/
  | idle
  /-- after its bitmap operation, before `atomic64_inc(&kthread_gen)`; `update` says whether
  `flows_update` follows -/
  | incGen (update : Bool)
  /-- at `again:`, before `spin_try_lock_np` -/
  | tryLock
  /-- holding the lock, before `atomic64_read(&kthread_gen)` -/
  | readGen
  /-- `cur_gen == flow_assignment_gen`: before `spin_unlock_np` and `goto done` -/
  | unlockEarly
  /-- before `flow_assignment_gen = cur_gen` -/
  | setFag
  /-- before copying word `i` of `kthread_awake` -/
  | copy (i : Nat)
  /-- building `fg_map` and calling `net_ops.steer_flows` -/
  | steer
  /-- at `out:`, before `spin_unlock_np` -/
  | unlock
  /-- before comparing `flow_assignment_gen` with `kthread_gen` again -/
  | recheck
  deriving DecidableEq, Repr

/-- A kthread's place and the locals of `flows_update`: `cur_gen`, and the words of
`kawake_local` copied in this pass. -/
structure FlowsThread where
  pc : FlowsPc
  curGen : Nat
  kawakeLocal : List (BitVec 64)
  deriving DecidableEq, Repr

/-- The globals of flow steering, the last map passed to `net_ops.steer_flows`, and the
kthreads. -/
structure FlowsState where
  kthreadAwake : List (BitVec 64)
  kthreadGen : Nat
  flowAssignmentGen : Nat
  flowAssignmentLock : Bool
  steered : Option (List Nat)
  ks : Nat → FlowsThread

/-- Static storage: every word and counter zero, no map steered yet, every kthread outside. -/
def FlowsState.init : FlowsState :=
  ⟨List.replicate (bitmapLongSize ncpu) 0, 0, 0, false, none, fun _ => ⟨.idle, 0, []⟩⟩

def FlowsState.setK (s : FlowsState) (k : Nat) (t : FlowsThread) : FlowsState :=
  { s with ks := Function.update s.ks k t }

/-- The two loops of `flows_update` over `kawake_local`, with `fg_map` and `awakeks` as arrays
of unknown contents: `none` where no kthread below `maxks` is awake (`goto out`), otherwise the
`maxks` entries of `fg_map` passed to `net_ops.steer_flows`. -/
def flowsFgMap (kawakeLocal : List (BitVec 64)) (maxks : Nat) : Option (List Nat) :=
  -- `fg_map[i] = i; awakeks[nrawake++] = i;`
  let r := (bitmapForEachSet kawakeLocal maxks).foldl RoundRobin.keep (fun _ => 0, fun _ => 0, 0)
  if r.2.2 = 0 then none
  else
    -- `fg_map[i] = awakeks[pos++]; if (pos == nrawake) pos = 0;`
    let fgMap := ((bitmapForEachCleared kawakeLocal maxks).foldl
      (RoundRobin.deal r.2.1 r.2.2) (r.1, 0)).1
    some ((List.range maxks).map fgMap)

/-- Kthread `k`'s next step from place `t`. -/
def flowsThreadStep (maxks : Nat) (s : FlowsState) (k : Nat) (t : FlowsThread) :
    Option FlowsState :=
  match t.pc with
  | .idle => none
  | .incGen update =>
    some { s.setK k { t with pc := if update then .tryLock else .idle } with
      kthreadGen := s.kthreadGen + 1 }
  | .tryLock =>
    if s.flowAssignmentLock then some (s.setK k { t with pc := .idle })
    else some { s.setK k { t with pc := .readGen } with flowAssignmentLock := true }
  | .readGen =>
    some (s.setK k
      { t with
        curGen := s.kthreadGen
        pc := if s.kthreadGen = s.flowAssignmentGen then .unlockEarly else .setFag })
  | .unlockEarly => some { s.setK k { t with pc := .idle } with flowAssignmentLock := false }
  | .setFag =>
    some { s.setK k { t with pc := .copy 0, kawakeLocal := [] } with
      flowAssignmentGen := t.curGen }
  | .copy i =>
    some (s.setK k
      { t with
        kawakeLocal := t.kawakeLocal ++ [s.kthreadAwake.getD i 0]
        pc := if i + 1 < bitmapLongSize ncpu then .copy (i + 1) else .steer })
  | .steer =>
    match flowsFgMap t.kawakeLocal maxks with
    | none => some (s.setK k { t with pc := .unlock })
    | some fgMap => some { s.setK k { t with pc := .unlock } with steered := some fgMap }
  | .unlock => some { s.setK k { t with pc := .recheck } with flowAssignmentLock := false }
  | .recheck =>
    some (s.setK k { t with
      pc := if s.flowAssignmentGen ≠ s.kthreadGen then .tryLock else .idle })

/-- The calls and steps of the kthreads. -/
inductive FlowsOp where
  /-- `flows_notify_waking` on kthread `k`, to its `bitmap_atomic_set` -/
  | waking (k : Nat)
  /-- `flows_notify_parking(voluntary)` on kthread `k`, to its `bitmap_atomic_clear` -/
  | parking (k : Nat) (voluntary : Bool)
  /-- kthread `k`'s next step -/
  | step (k : Nat)
  deriving DecidableEq, Repr

/-- Whether an operation changes `kthread_awake`. -/
def FlowsOp.changesAwake : FlowsOp → Bool
  | .waking _ | .parking _ _ => true
  | .step _ => false

/-- One operation; a kthread calls a notifier only from outside the three functions. -/
def flowsStep (maxks : Nat) (s : FlowsState) : FlowsOp → Option FlowsState
  | .waking k =>
    if k < maxks ∧ (s.ks k).pc = .idle then
      some { s.setK k { s.ks k with pc := .incGen true } with
        kthreadAwake := bitmapAtomicSet s.kthreadAwake k }
    else none
  | .parking k voluntary =>
    if k < maxks ∧ (s.ks k).pc = .idle then
      some { s.setK k { s.ks k with pc := .incGen voluntary } with
        kthreadAwake := bitmapAtomicClear s.kthreadAwake k }
    else none
  | .step k => flowsThreadStep maxks s k (s.ks k)

/-- The loops of `flows_update` build the round-robin table of the kthreads awake below
`maxks`. -/
theorem flowsFgMap_eq {bits : List (BitVec 64)} {maxks : Nat}
    (hlen : bitmapLongSize maxks ≤ bits.length) :
    flowsFgMap bits maxks = if RoundRobin.holders (bitmapTest bits ·) maxks = [] then none
      else some ((List.range maxks).map (RoundRobin.assign (bitmapTest bits ·) maxks)) := by
  have hset : bitmapForEachSet bits maxks = RoundRobin.holders (bitmapTest bits ·) maxks :=
    bitmapForEachSet_eq hlen
  have hclr : bitmapForEachCleared bits maxks =
      RoundRobin.holders (fun j => !bitmapTest bits j) maxks :=
    bitmapForEachCleared_eq hlen
  simp only [flowsFgMap, hset, hclr]
  by_cases hnil : RoundRobin.holders (bitmapTest bits ·) maxks = []
  · simp only [RoundRobin.holders] at hnil
    simp [RoundRobin.holders, hnil]
  · -- `nrawake` is the number of awake kthreads, so the map is steered
    have hpos : ((RoundRobin.holders (bitmapTest bits ·) maxks).foldl RoundRobin.keep
        (fun _ => 0, fun _ => 0, 0)).2.2 ≠ 0 := by
      rw [RoundRobin.foldl_keep]
      simpa using hnil
    rw [if_neg hnil, if_neg hpos]
    refine congrArg some (List.map_congr_left fun j hj => ?_)
    exact RoundRobin.foldl_deal_keep _ _ _ _ hnil (List.mem_range.mp hj)

/-- In the initial state no kthread is awake. -/
theorem flowsFgMap_init {maxks : Nat} (hmax : maxks ≤ ncpu) :
    flowsFgMap FlowsState.init.kthreadAwake maxks = none := by
  have hlen : bitmapLongSize maxks ≤ FlowsState.init.kthreadAwake.length := by
    simpa [FlowsState.init] using bitmapLongSize_le_of_le hmax
  rw [flowsFgMap_eq hlen, if_pos (RoundRobin.holders_eq_nil_iff.mpr fun i _ => ?_)]
  simp [FlowsState.init, bitmapTest, List.getD_eq_getElem?_getD]

/-! ## The invariant -/

namespace FlowsPc

/-- Where a kthread holds `flow_assignment_lock`. -/
def holdsLock : FlowsPc → Bool
  | .readGen | .unlockEarly | .setFag | .copy _ | .steer | .unlock => true
  | _ => false

/-- Between `flow_assignment_gen = cur_gen` and the call of `net_ops.steer_flows`. -/
def inWindow : FlowsPc → Bool
  | .copy _ | .steer => true
  | _ => false

/-- Between the bitmap operation and the increment of `kthread_gen`. -/
def pending : FlowsPc → Bool
  | .incGen _ => true
  | _ => false

/-- How many words of `kthread_awake` a kthread in the window has copied. -/
def copied : FlowsPc → Nat
  | .copy i => i
  | _ => bitmapLongSize ncpu

theorem holdsLock_of_inWindow {pc : FlowsPc} (h : pc.inWindow) : pc.holdsLock := by
  cases pc <;> simp_all [inWindow, holdsLock]

/-- The places whose steps touch only the kthread's own state and the lock. -/
theorem outside {pc : FlowsPc} (h : pc ∈ [.tryLock, .readGen, .unlockEarly, .unlock, .recheck]) :
    pc ≠ .idle ∧ pc.pending = false ∧ pc.inWindow = false := by
  simp only [List.mem_cons, List.not_mem_nil, or_false] at h
  rcases h with rfl | rfl | rfl | rfl | rfl <;> simp [pending, inWindow]

end FlowsPc

namespace FlowsState

variable {maxks : Nat} {s : FlowsState} {k j : Nat} {t : FlowsThread}

@[simp] theorem setK_ks_self : (s.setK k t).ks k = t := Function.update_self ..
@[simp] theorem setK_kthreadAwake : (s.setK k t).kthreadAwake = s.kthreadAwake := rfl
@[simp] theorem setK_kthreadGen : (s.setK k t).kthreadGen = s.kthreadGen := rfl
@[simp] theorem setK_flowAssignmentGen : (s.setK k t).flowAssignmentGen = s.flowAssignmentGen := rfl
@[simp] theorem setK_flowAssignmentLock :
    (s.setK k t).flowAssignmentLock = s.flowAssignmentLock := rfl
@[simp] theorem setK_steered : (s.setK k t).steered = s.steered := rfl

theorem setK_ks_of_ne (h : j ≠ k) : (s.setK k t).ks j = s.ks j := Function.update_of_ne h ..

/-- No kthread is between its bitmap operation and its increment of `kthread_gen`. -/
def Quiet (ks : Nat → FlowsThread) : Prop := ∀ k, (ks k).pc.pending = false

theorem Quiet.of_update {ks : Nat → FlowsThread} (h : Quiet (Function.update ks k t))
    (hk : (ks k).pc.pending = false) : Quiet ks := by
  intro j
  by_cases hj : j = k
  · rw [hj]
    exact hk
  · simpa [Function.update_of_ne hj] using h j

/-- The last map steered is the map of `kthread_awake`, or no kthread below `maxks` is awake. -/
def Steered (maxks : Nat) (s : FlowsState) : Prop :=
  flowsFgMap s.kthreadAwake maxks = none ∨ s.steered = flowsFgMap s.kthreadAwake maxks

/-- What a kthread's place says of the globals: it read a generation no later than
`kthread_gen`; in the window, `flow_assignment_gen` is the generation it read, and while
`kthread_gen` is still that generation and no kthread is between its bitmap operation and its
increment, the words it copied are those of `kthread_awake`. -/
structure ThreadOk (s : FlowsState) (t : FlowsThread) : Prop where
  curGen_le : t.curGen ≤ s.kthreadGen
  fag_eq : t.pc.inWindow → s.flowAssignmentGen = t.curGen
  copy_lt : ∀ i, t.pc = .copy i → i < bitmapLongSize ncpu
  copied : t.pc.inWindow → t.curGen = s.kthreadGen → Quiet s.ks →
    t.kawakeLocal = s.kthreadAwake.take t.pc.copied

theorem ThreadOk.of_eq {s' : FlowsState} (h : ThreadOk s t) (hgen : s'.kthreadGen = s.kthreadGen)
    (hfag : s'.flowAssignmentGen = s.flowAssignmentGen)
    (hawake : s'.kthreadAwake = s.kthreadAwake) (hq : Quiet s'.ks → Quiet s.ks) :
    ThreadOk s' t where
  curGen_le := hgen ▸ h.curGen_le
  fag_eq hw := hfag ▸ h.fag_eq hw
  copy_lt := h.copy_lt
  copied hw hc hq' := hawake ▸ h.copied hw (hgen ▸ hc) (hq hq')

/-- `flow_assignment_lock` is held by at most one kthread, and set while it is. -/
structure LockOk (ks : Nat → FlowsThread) (lock : Bool) : Prop where
  locked : ∀ k, (ks k).pc.holdsLock → lock = true
  unique : ∀ k j, (ks k).pc.holdsLock → (ks j).pc.holdsLock → k = j

/-- Kthread `k` moves to `t`, taking the lock only when it is free and freeing it only when it
held it. -/
theorem LockOk.update {ks : Nat → FlowsThread} {lock lock' : Bool} (h : LockOk ks lock)
    (hlock : t.pc.holdsLock → lock' = true)
    (htake : t.pc.holdsLock → (ks k).pc.holdsLock ∨ lock = false)
    (hdrop : lock' = false → (ks k).pc.holdsLock ∨ lock = false) :
    LockOk (Function.update ks k t) lock' := by
  -- while `k` holds the lock after the step, no other kthread holds it
  have hsole : t.pc.holdsLock → ∀ j ≠ k, (ks j).pc.holdsLock = false := by
    intro ht j hj
    cases hjl : (ks j).pc.holdsLock
    · rfl
    · rcases htake ht with hk | hfree
      · exact absurd (h.unique j k hjl hk) hj
      · simpa [hfree] using h.locked j hjl
  constructor
  · intro j hj
    by_cases hjk : j = k
    · subst hjk
      exact hlock (by simpa using hj)
    · rw [Function.update_of_ne hjk] at hj
      cases lock'
      · rcases hdrop rfl with hk | hfree
        · exact absurd (h.unique j k hj hk) hjk
        · simpa [hfree] using h.locked j hj
      · rfl
  · intro j j' hj hj'
    by_cases hjk : j = k <;> by_cases hj'k : j' = k
    · rw [hjk, hj'k]
    · subst hjk
      rw [Function.update_self] at hj
      rw [Function.update_of_ne hj'k] at hj'
      simp [hsole hj j' hj'k] at hj'
    · subst hj'k
      rw [Function.update_self] at hj'
      rw [Function.update_of_ne hjk] at hj
      simp [hsole hj' j hjk] at hj
    · rw [Function.update_of_ne hjk] at hj
      rw [Function.update_of_ne hj'k] at hj'
      exact h.unique j j' hj hj'

/-- A step that neither takes nor frees the lock. -/
theorem LockOk.update_same {ks : Nat → FlowsThread} {lock : Bool} (h : LockOk ks lock)
    (ht : t.pc.holdsLock = (ks k).pc.holdsLock) : LockOk (Function.update ks k t) lock :=
  h.update (fun htl => h.locked k (ht ▸ htl)) (fun htl => .inl (ht ▸ htl)) (fun hl => .inr hl)

/-- The lock is held by at most one kthread, and held while it is; kthreads from `maxks` on never
run; every kthread's place agrees with the globals; and once `flow_assignment_gen` has caught up
with `kthread_gen` and no increment is outstanding, the last map steered is that of
`kthread_awake`, unless a holder is still on its way to steering. -/
structure Inv (maxks : Nat) (s : FlowsState) : Prop where
  awake_length : s.kthreadAwake.length = bitmapLongSize ncpu
  fag_le : s.flowAssignmentGen ≤ s.kthreadGen
  lock : LockOk s.ks s.flowAssignmentLock
  idle_of_le : ∀ k, maxks ≤ k → (s.ks k).pc = .idle
  thread : ∀ k, ThreadOk s (s.ks k)
  current : s.flowAssignmentGen = s.kthreadGen → Quiet s.ks →
    Steered maxks s ∨ ∃ k, (s.ks k).pc.inWindow

theorem init_inv (hmax : maxks ≤ ncpu) : FlowsState.init.Inv maxks where
  awake_length := List.length_replicate ..
  fag_le := le_rfl
  lock := ⟨fun _ h => by simp [init, FlowsPc.holdsLock] at h,
    fun _ _ h => by simp [init, FlowsPc.holdsLock] at h⟩
  idle_of_le _ _ := rfl
  thread _ := ⟨le_rfl, by simp [init, FlowsPc.inWindow], by simp [init],
    by simp [init, FlowsPc.inWindow]⟩
  current _ _ := .inl (.inl (flowsFgMap_init hmax))

namespace Inv

theorem lt_of_ne_idle (h : s.Inv maxks) (hk : (s.ks k).pc ≠ .idle) : k < maxks :=
  Nat.lt_of_not_le fun hle => hk (h.idle_of_le k hle)

theorem idle_update (h : s.Inv maxks) (hk : k < maxks) :
    ∀ j, maxks ≤ j → (Function.update s.ks k t j).pc = .idle := by
  intro j hj
  rw [Function.update_of_ne (by omega)]
  exact h.idle_of_le j hj

/-- While `k` holds the lock, no other kthread is in the window. -/
theorem not_inWindow (h : s.Inv maxks) (hk : (s.ks k).pc.holdsLock) (hj : j ≠ k) :
    (s.ks j).pc.inWindow = false := by
  cases hw : (s.ks j).pc.inWindow
  · rfl
  · exact absurd (h.lock.unique j k (FlowsPc.holdsLock_of_inWindow hw) hk) hj

/-- A step of kthread `k` outside the window and the increment that changes only its place,
its `cur_gen` and the lock. -/
theorem frame (h : s.Inv maxks) (lock : Bool)
    (hk : (s.ks k).pc ∈ [.tryLock, .readGen, .unlockEarly, .unlock, .recheck])
    (hwin' : t.pc.inWindow = false) (hcur : t.curGen ≤ s.kthreadGen)
    (hlock : t.pc.holdsLock → lock = true)
    (htake : t.pc.holdsLock → (s.ks k).pc.holdsLock ∨ s.flowAssignmentLock = false)
    (hdrop : lock = false → (s.ks k).pc.holdsLock ∨ s.flowAssignmentLock = false) :
    Inv maxks { s.setK k t with flowAssignmentLock := lock } where
  awake_length := h.awake_length
  fag_le := h.fag_le
  lock := h.lock.update hlock htake hdrop
  idle_of_le := h.idle_update (h.lt_of_ne_idle (FlowsPc.outside hk).1)
  thread j := by
    dsimp only [setK]
    by_cases hjk : j = k
    · subst hjk
      rw [Function.update_self]
      exact ⟨hcur, fun hw => absurd hw (by simp [hwin']),
        fun i hi => absurd hwin' (by simp [hi, FlowsPc.inWindow]), fun hw => absurd hw (by simp [hwin'])⟩
    · rw [Function.update_of_ne hjk]
      exact (h.thread j).of_eq rfl rfl rfl fun hq => hq.of_update (FlowsPc.outside hk).2.1
  current hfg hq := by
    rcases h.current hfg (Quiet.of_update hq (FlowsPc.outside hk).2.1) with hst | ⟨j, hj⟩
    · exact .inl hst
    · have hjk : j ≠ k := by
        rintro rfl
        simp [(FlowsPc.outside hk).2.2] at hj
      exact .inr ⟨j, by simpa [setK, Function.update_of_ne hjk] using hj⟩

/-- `bitmap_atomic_set` or `bitmap_atomic_clear` by an idle kthread `k`. -/
theorem notify (h : s.Inv maxks) (hk : k < maxks) (hidle : (s.ks k).pc = .idle) (u : Bool)
    (bits : List (BitVec 64)) (hbits : bits.length = s.kthreadAwake.length) :
    Inv maxks { s.setK k { s.ks k with pc := .incGen u } with kthreadAwake := bits } where
  awake_length := hbits.trans h.awake_length
  fag_le := h.fag_le
  lock := h.lock.update_same (by simp [hidle, FlowsPc.holdsLock])
  idle_of_le := h.idle_update hk
  thread j := by
    dsimp only [setK]
    -- while `k`'s increment is outstanding, no copy is vouched for
    have hnq : ¬ Quiet (Function.update s.ks k { s.ks k with pc := .incGen u }) := fun hq => by
      simpa [FlowsPc.pending] using hq k
    by_cases hjk : j = k
    · subst hjk
      rw [Function.update_self]
      exact ⟨(h.thread j).curGen_le, by simp [FlowsPc.inWindow], by simp,
        by simp [FlowsPc.inWindow]⟩
    · rw [Function.update_of_ne hjk]
      exact ⟨(h.thread j).curGen_le, (h.thread j).fag_eq, (h.thread j).copy_lt,
        fun _ _ hq => absurd hq hnq⟩
  current _ hq := absurd (hq k) (by simp [setK, FlowsPc.pending])

/-- `atomic64_inc(&kthread_gen)`. -/
theorem incGen (h : s.Inv maxks) (hpc : (s.ks k).pc = .incGen u) :
    Inv maxks { s.setK k { s.ks k with pc := if u then .tryLock else .idle } with
      kthreadGen := s.kthreadGen + 1 } where
  awake_length := h.awake_length
  fag_le := Nat.le_succ_of_le h.fag_le
  lock := h.lock.update_same (by cases u <;> simp [hpc, FlowsPc.holdsLock])
  idle_of_le := h.idle_update (h.lt_of_ne_idle (by simp [hpc]))
  thread j := by
    dsimp only [setK]
    by_cases hjk : j = k
    · subst hjk
      rw [Function.update_self]
      exact ⟨Nat.le_succ_of_le (h.thread j).curGen_le, by cases u <;> simp [FlowsPc.inWindow],
        by cases u <;> simp, by cases u <;> simp [FlowsPc.inWindow]⟩
    · -- a generation read before the increment is behind `kthread_gen` from now on
      rw [Function.update_of_ne hjk]
      have hle := (h.thread j).curGen_le
      exact ⟨Nat.le_succ_of_le hle, (h.thread j).fag_eq, (h.thread j).copy_lt,
        fun _ hc _ => absurd hc (by dsimp only; omega)⟩
  current hfg _ := absurd hfg (by have := h.fag_le; dsimp only [setK]; omega)

/-- `flow_assignment_gen = cur_gen`: the holder enters the window with nothing copied. -/
theorem setFag (h : s.Inv maxks) (hpc : (s.ks k).pc = .setFag) :
    Inv maxks { s.setK k { s.ks k with pc := .copy 0, kawakeLocal := [] } with
      flowAssignmentGen := (s.ks k).curGen } where
  awake_length := h.awake_length
  fag_le := (h.thread k).curGen_le
  lock := h.lock.update_same (by simp [hpc, FlowsPc.holdsLock])
  idle_of_le := h.idle_update (h.lt_of_ne_idle (by simp [hpc]))
  thread j := by
    dsimp only [setK]
    by_cases hjk : j = k
    · subst hjk
      rw [Function.update_self]
      refine ⟨(h.thread j).curGen_le, fun _ => rfl, fun i hi => ?_, fun _ _ _ => by simp [FlowsPc.copied]⟩
      cases hi
      decide
    · -- the holder is the only kthread that can be in the window
      have hw := h.not_inWindow (by simp [hpc, FlowsPc.holdsLock]) hjk
      rw [Function.update_of_ne hjk]
      exact ⟨(h.thread j).curGen_le, fun hw' => absurd hw' (by simp [hw]), (h.thread j).copy_lt,
        fun hw' => absurd hw' (by simp [hw])⟩
  current _ _ := .inr ⟨k, by simp [setK, FlowsPc.inWindow]⟩

/-- Copying word `i` of `kthread_awake`. -/
theorem copy (h : s.Inv maxks) (hpc : (s.ks k).pc = .copy i) :
    Inv maxks (s.setK k
      { s.ks k with
        kawakeLocal := (s.ks k).kawakeLocal ++ [s.kthreadAwake.getD i 0]
        pc := if i + 1 < bitmapLongSize ncpu then .copy (i + 1) else .steer }) where
  awake_length := h.awake_length
  fag_le := h.fag_le
  lock := h.lock.update_same (by split_ifs <;> simp [hpc, FlowsPc.holdsLock])
  idle_of_le := h.idle_update (h.lt_of_ne_idle (by simp [hpc]))
  thread j := by
    have hpend : (s.ks k).pc.pending = false := by simp [hpc, FlowsPc.pending]
    dsimp only [setK]
    by_cases hjk : j = k
    · subst hjk
      rw [Function.update_self]
      have ht := h.thread j
      have hw : (s.ks j).pc.inWindow := by simp [hpc, FlowsPc.inWindow]
      have hlt : i < s.kthreadAwake.length := h.awake_length ▸ ht.copy_lt i hpc
      refine ⟨ht.curGen_le, fun _ => ht.fag_eq hw, fun i' hi' => ?_, fun _ hc hq => ?_⟩
      · split_ifs at hi' with hnext
        cases hi'
        exact hnext
      · -- the word read extends the copy by one
        have hprev := ht.copied hw hc (hq.of_update hpend)
        have hcopied : (if i + 1 < bitmapLongSize ncpu then FlowsPc.copy (i + 1)
            else .steer).copied = i + 1 := by
          split_ifs with hnext
          · rfl
          · have := h.awake_length
            show bitmapLongSize ncpu = i + 1
            omega
        rw [hpc, FlowsPc.copied] at hprev
        dsimp only
        rw [hcopied, hprev, List.take_add_one, List.getElem?_eq_getElem hlt,
          List.getD_eq_getElem _ _ hlt]
        rfl
    · rw [Function.update_of_ne hjk]
      exact (h.thread j).of_eq rfl rfl rfl fun hq => hq.of_update hpend
  current hfg hq := by
    rcases h.current hfg (Quiet.of_update hq (by simp [hpc, FlowsPc.pending])) with hst | -
    · exact .inl hst
    · exact .inr ⟨k, by simp only [setK, Function.update_self]; split_ifs <;> rfl⟩

/-- `net_ops.steer_flows(fg_map)`, or `goto out` where no kthread is awake; `steered` is the last
map steered after the step. -/
theorem steer (h : s.Inv maxks) (hpc : (s.ks k).pc = .steer) (steered : Option (List Nat))
    (hst : flowsFgMap (s.ks k).kawakeLocal maxks = none ∧ steered = s.steered ∨
      steered = flowsFgMap (s.ks k).kawakeLocal maxks) :
    Inv maxks { s.setK k { s.ks k with pc := .unlock } with steered := steered } where
  awake_length := h.awake_length
  fag_le := h.fag_le
  lock := h.lock.update_same (by simp [hpc, FlowsPc.holdsLock])
  idle_of_le := h.idle_update (h.lt_of_ne_idle (by simp [hpc]))
  thread j := by
    dsimp only [setK]
    by_cases hjk : j = k
    · subst hjk
      rw [Function.update_self]
      exact ⟨(h.thread j).curGen_le, by simp [FlowsPc.inWindow], by simp,
        by simp [FlowsPc.inWindow]⟩
    · rw [Function.update_of_ne hjk]
      exact (h.thread j).of_eq rfl rfl rfl fun hq => hq.of_update (by simp [hpc, FlowsPc.pending])
  current hfg hq := by
    -- the holder read the current generation, so what it copied is `kthread_awake`
    have ht := h.thread k
    have hw : (s.ks k).pc.inWindow := by simp [hpc, FlowsPc.inWindow]
    have hfg' : s.flowAssignmentGen = s.kthreadGen := hfg
    have hcur : (s.ks k).curGen = s.kthreadGen := (ht.fag_eq hw).symm.trans hfg'
    have hcopy := ht.copied hw hcur (Quiet.of_update hq (by simp [hpc, FlowsPc.pending]))
    rw [hpc, show FlowsPc.steer.copied = bitmapLongSize ncpu from rfl,
      List.take_of_length_le h.awake_length.le] at hcopy
    rw [hcopy] at hst
    rcases hst with ⟨hnone, -⟩ | heq
    · exact .inl (.inl hnone)
    · exact .inl (.inr heq)

/-- Kthread `k`'s step from its place. -/
theorem threadStep (h : s.Inv maxks) {s' : FlowsState}
    (hs : flowsThreadStep maxks s k (s.ks k) = some s') : s'.Inv maxks := by
  have hcur := (h.thread k).curGen_le
  cases hpc : (s.ks k).pc with
  | idle => simp [flowsThreadStep, hpc] at hs
  | incGen u =>
    simp only [flowsThreadStep, hpc, Option.some.injEq] at hs
    subst hs
    exact h.incGen hpc
  | tryLock =>
    simp only [flowsThreadStep, hpc] at hs
    split_ifs at hs with hl <;> cases hs
    · -- the lock is taken: `goto done`
      exact h.frame _ (by simp [hpc]) rfl hcur (by simp [FlowsPc.holdsLock])
        (by simp [FlowsPc.holdsLock]) (by simp [hl])
    · exact h.frame true (by simp [hpc]) rfl hcur (fun _ => rfl) (fun _ => .inr (by simpa using hl))
        (by simp)
  | readGen =>
    simp only [flowsThreadStep, hpc, Option.some.injEq] at hs
    subst hs
    have hheld : (s.ks k).pc.holdsLock := by simp [hpc, FlowsPc.holdsLock]
    exact h.frame _ (by simp [hpc]) (by split_ifs <;> rfl) le_rfl
      (fun _ => h.lock.locked k hheld) (fun _ => .inl hheld) (fun _ => .inl hheld)
  | unlockEarly =>
    simp only [flowsThreadStep, hpc, Option.some.injEq] at hs
    subst hs
    exact h.frame false (by simp [hpc]) rfl hcur (by simp [FlowsPc.holdsLock])
      (by simp [FlowsPc.holdsLock]) (fun _ => .inl (by simp [hpc, FlowsPc.holdsLock]))
  | setFag =>
    simp only [flowsThreadStep, hpc, Option.some.injEq] at hs
    subst hs
    exact h.setFag hpc
  | copy i =>
    simp only [flowsThreadStep, hpc, Option.some.injEq] at hs
    subst hs
    exact h.copy hpc
  | steer =>
    simp only [flowsThreadStep, hpc] at hs
    split at hs <;> rename_i hmap <;> cases hs
    · exact h.steer hpc s.steered (.inl ⟨hmap, rfl⟩)
    · exact h.steer hpc _ (.inr hmap.symm)
  | unlock =>
    simp only [flowsThreadStep, hpc, Option.some.injEq] at hs
    subst hs
    exact h.frame false (by simp [hpc]) rfl hcur (by simp [FlowsPc.holdsLock])
      (by simp [FlowsPc.holdsLock]) (fun _ => .inl (by simp [hpc, FlowsPc.holdsLock]))
  | recheck =>
    simp only [flowsThreadStep, hpc, Option.some.injEq] at hs
    subst hs
    exact h.frame _ (by simp [hpc]) (by split_ifs <;> rfl) hcur
      (by split_ifs <;> simp [FlowsPc.holdsLock]) (by split_ifs <;> simp [FlowsPc.holdsLock])
      (fun hl => .inr hl)

end Inv

end FlowsState

open FlowsState in
theorem flowsStep_inv (maxks : Nat) : StepRun.Invariant (flowsStep maxks) (Inv maxks) := by
  intro s op s' h hs
  cases op with
  | waking k =>
    obtain ⟨⟨hk, hidle⟩, hs⟩ := Option.ite_none_right_eq_some.mp hs
    cases hs
    exact h.notify hk hidle true _ (length_bitmapAtomicSet ..)
  | parking k voluntary =>
    obtain ⟨⟨hk, hidle⟩, hs⟩ := Option.ite_none_right_eq_some.mp hs
    cases hs
    exact h.notify hk hidle voluntary _ (length_bitmapAtomicClear ..)
  | step k => exact h.threadStep hs

/-! ## Steering after a run -/

open FlowsState in
/-- Once every kthread is outside the three functions and `flow_assignment_gen` has caught up
with `kthread_gen`, the last map passed to `net_ops.steer_flows` is the round-robin table of the
kthreads awake now, if any is: it sends each kthread below `maxks` to an awake one, and an awake
one to itself. -/
theorem flowsRun_steers_awake {maxks : Nat} (hmax : maxks ≤ ncpu) (ops : List FlowsOp)
    {s : FlowsState} (hs : StepRun.run (flowsStep maxks) FlowsState.init ops = some s)
    (hidle : ∀ k < maxks, (s.ks k).pc = .idle) (hgen : s.flowAssignmentGen = s.kthreadGen)
    (hawake : ∃ k < maxks, bitmapTest s.kthreadAwake k = true) :
    s.steered =
        some ((List.range maxks).map (RoundRobin.assign (bitmapTest s.kthreadAwake ·) maxks)) ∧
      ∀ i < maxks, RoundRobin.assign (bitmapTest s.kthreadAwake ·) maxks i < maxks ∧
        bitmapTest s.kthreadAwake (RoundRobin.assign (bitmapTest s.kthreadAwake ·) maxks i) =
          true := by
  have h := (flowsStep_inv maxks).run (init_inv hmax) hs
  have hall : ∀ k, (s.ks k).pc = .idle := fun k => by
    by_cases hk : k < maxks
    · exact hidle k hk
    · exact h.idle_of_le k (Nat.le_of_not_lt hk)
  have hnil : RoundRobin.holders (bitmapTest s.kthreadAwake ·) maxks ≠ [] := fun hn => by
    obtain ⟨k, hk, htest⟩ := hawake
    simp [RoundRobin.holders_eq_nil_iff.mp hn k hk] at htest
  have hlen : bitmapLongSize maxks ≤ s.kthreadAwake.length :=
    h.awake_length ▸ bitmapLongSize_le_of_le hmax
  have hmap := flowsFgMap_eq hlen
  rw [if_neg hnil] at hmap
  refine ⟨?_, fun i hi => RoundRobin.mem_holders.mp (RoundRobin.assign_mem_holders hnil hi)⟩
  -- no kthread is in the window, so the invariant leaves only the map of `kthread_awake`
  rcases h.current hgen (fun k => by simp [hall k, FlowsPc.pending]) with (hnone | hst) | ⟨k, hk⟩
  · rw [hmap] at hnone
    cases hnone
  · rw [hst, hmap]
  · simp [hall k, FlowsPc.inWindow] at hk

/-- Kthread 0 wakes and its `flows_update` steers every flow group to it. -/
def flowsWakeTrace : List FlowsOp :=
  .waking 0 :: List.replicate 11 (.step 0)

set_option maxRecDepth 2000 in
theorem flowsRun_steers_awake_wake : ∃ s,
    StepRun.run (flowsStep 2) FlowsState.init flowsWakeTrace = some s ∧
    (2 ≤ ncpu ∧ (∀ k < 2, (s.ks k).pc = .idle) ∧ s.flowAssignmentGen = s.kthreadGen ∧
      ∃ k < 2, bitmapTest s.kthreadAwake k = true) ∧
    (s.steered = some ((List.range 2).map (RoundRobin.assign (bitmapTest s.kthreadAwake ·) 2)) ∧
      ∀ i < 2, RoundRobin.assign (bitmapTest s.kthreadAwake ·) 2 i < 2 ∧
        bitmapTest s.kthreadAwake (RoundRobin.assign (bitmapTest s.kthreadAwake ·) 2 i) = true) := by
  refine ⟨_, rfl, ?_⟩
  refine ⟨⟨by decide, ?idle, rfl, ?awake⟩,
    flowsRun_steers_awake (by decide) flowsWakeTrace rfl ?idle rfl ?awake⟩
  · decide
  · decide

/-- Two kthreads wake and bump `kthread_gen` to `2`; kthread 0's `flows_update` steers by both
and returns; kthread 1's takes the lock and finds `flow_assignment_gen` current; kthread 0 parks
voluntarily, and its `flows_update` loses the try-lock to kthread 1, which unlocks and returns
without looking again. -/
def flowsLostUpdateTrace : List FlowsOp :=
  [.waking 0, .step 0, .waking 1, .step 1] ++ List.replicate 10 (.step 0) ++
    [.step 1, .step 1, .parking 0 true, .step 0, .step 0, .step 1]

set_option maxRecDepth 2000 in
theorem flows_update_steers_to_parked : ∃ s,
    StepRun.run (flowsStep 2) FlowsState.init flowsLostUpdateTrace = some s ∧
    (∀ k < 2, (s.ks k).pc = .idle) ∧
    (flowsLostUpdateTrace.filter FlowsOp.changesAwake).getLast? = some (.parking 0 true) ∧
    bitmapTest s.kthreadAwake 1 = true ∧ bitmapTest s.kthreadAwake 0 = false ∧
    s.steered = some [0, 1] ∧
    (List.range 2).map (RoundRobin.assign (bitmapTest s.kthreadAwake ·) 2) = [1, 1] ∧
    s.flowAssignmentGen ≠ s.kthreadGen := by
  refine ⟨_, rfl, ?_⟩
  decide

end Caladan
