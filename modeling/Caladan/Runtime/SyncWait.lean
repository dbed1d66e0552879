import Mathlib
import Caladan.Lib.Run
import Caladan.Lib.WaitQueue

/-!
# Condition variables, wait groups and barriers (`runtime/sync.c`)

Each primitive is a state machine over threads of any type `T`. A step of a thread is one
critical section of the primitive's spinlock, with `thread_park_and_unlock_np`, which puts the
thread on the queue before it releases the lock. The `thread_ready` calls on the threads a call
took off a queue are merged into its step: between the two nothing can reach those threads.
The mutex of a condition variable is its owner, taken and given back in one step each, as
`mutex_lock` and `mutex_unlock` keep it (`mutexStep_run_ok`). Two ghost fields serve only the
statements: when each thread entered `condvar_wait`, and the generation of each arrival at a
barrier.
-/

namespace Caladan

open WaitQueue

variable {T : Type} [DecidableEq T]

/-! ## Condition variables -/

/-- Where a thread is with respect to a condition variable and its mutex. -/
inductive CvPc
  /-- outside, without the mutex -/
  | idle
  /-- outside, holding the mutex -/
  | locked
  /-- in `condvar_wait`, on `cv->waiters` -/
  | parked
  /-- in `condvar_wait`, woken, at its `mutex_lock` -/
  | woken
deriving DecidableEq, Repr

/-- A `condvar_t` with its mutex. -/
structure Condvar (T : Type) where
  owner : Option T
  waiters : List T
  pc : T → CvPc
  /-- the `condvar_wait` calls so far -/
  clock : Nat
  /-- when each thread last entered `condvar_wait` -/
  entered : T → Nat

namespace Condvar

/-- `condvar_wait` up to `thread_park_and_unlock_np`: `mutex_unlock(m)` and `list_add_tail`
under `waiter_lock`. -/
def condvarWait (c : Condvar T) (t : T) : Condvar T :=
  { c with
    owner := none
    waiters := c.waiters ++ [t]
    pc := Function.update c.pc t .parked
    clock := c.clock + 1
    entered := Function.update c.entered t c.clock }

/-- `condvar_signal` -/
def condvarSignal (c : Condvar T) : Condvar T :=
  match c.waiters with
  | [] => c
  | w :: ws => { c with waiters := ws, pc := Function.update c.pc w .woken }

/-- `condvar_broadcast` -/
def condvarBroadcast (c : Condvar T) : Condvar T :=
  { c with waiters := [], pc := wakeAll c.waiters c.pc .woken }

/-- `mutex_lock` returning to `t`. -/
def takeMutex (c : Condvar T) (t : T) : Condvar T :=
  { c with owner := some t, pc := Function.update c.pc t .locked }

/-- `condvar_init`, with the mutex free and every thread outside. -/
def init : Condvar T := ⟨none, [], fun _ => .idle, 0, fun _ => 0⟩

end Condvar

/-- The steps of a thread `t` on a condition variable and its mutex. -/
inductive CvOp (T : Type)
  /-- `mutex_lock` outside `condvar_wait` -/
  | lock (t : T)
  | unlock (t : T)
  | wait (t : T)
  | signal (t : T)
  | broadcast (t : T)
  /-- the `mutex_lock` that ends `condvar_wait` -/
  | relock (t : T)

/-- One step; `none` when the thread is not there, or the mutex is taken. -/
def cvStep (c : Condvar T) : CvOp T → Option (Condvar T)
  | .lock t => if c.pc t = .idle ∧ c.owner = none then some (c.takeMutex t) else none
  | .unlock t =>
    if c.pc t = .locked then some { c with owner := none, pc := Function.update c.pc t .idle }
    else none
  | .wait t => if c.pc t = .locked then some (c.condvarWait t) else none
  | .signal t => if c.pc t = .idle ∨ c.pc t = .locked then some c.condvarSignal else none
  | .broadcast t => if c.pc t = .idle ∨ c.pc t = .locked then some c.condvarBroadcast else none
  | .relock t => if c.pc t = .woken ∧ c.owner = none then some (c.takeMutex t) else none

namespace Condvar

variable {c c' : Condvar T} {t u w : T}

/-- The queue is the parked threads in the order they entered, and the mutex's owner is the one
thread that holds it. -/
structure Ok (c : Condvar T) : Prop where
  tracks : Tracks .parked c.waiters c.pc
  sorted : c.waiters.Pairwise fun a b => c.entered a < c.entered b
  entered_lt : ∀ t ∈ c.waiters, c.entered t < c.clock
  owner : ∀ t, c.owner = some t ↔ c.pc t = .locked

omit [DecidableEq T] in
theorem init_ok : (init : Condvar T).Ok where
  tracks := Tracks.nil (by decide)
  sorted := List.Pairwise.nil
  entered_lt _ h := absurd h List.not_mem_nil
  owner _ := by simp [init]

/-- A thread that does not hold the mutex moves to another state without it. -/
theorem owner_update {o : Option T} {pc : T → CvPc} {p : CvPc}
    (h : ∀ x, o = some x ↔ pc x = .locked) (ht : pc t ≠ .locked) (hp : p ≠ .locked) :
    ∀ x, o = some x ↔ Function.update pc t p x = .locked := by
  intro x
  by_cases hx : x = t
  · subst hx
    rw [Function.update_self, h x]
    exact ⟨fun he => absurd he ht, fun he => absurd he hp⟩
  · rw [Function.update_of_ne hx]
    exact h x

theorem Ok.takeMutex (h : c.Ok) (ht : c.pc t ≠ .parked) (hfree : c.owner = none) :
    (c.takeMutex t).Ok where
  tracks := h.tracks.setPc ht (by decide)
  sorted := h.sorted
  entered_lt := h.entered_lt
  owner x := by
    by_cases hx : x = t
    · subst hx
      simp [Condvar.takeMutex]
    · have hnx : c.pc x ≠ .locked := fun he => by simp [(h.owner x).mpr he] at hfree
      simp [Condvar.takeMutex, Function.update_of_ne hx, Ne.symm hx, hnx]

theorem Ok.unlock (h : c.Ok) (ht : c.pc t = .locked) :
    Condvar.Ok { c with owner := none, pc := Function.update c.pc t .idle } where
  tracks := h.tracks.setPc (by rw [ht]; decide) (by decide)
  sorted := h.sorted
  entered_lt := h.entered_lt
  owner x := by
    have hown := (h.owner t).mpr ht
    by_cases hx : x = t
    · subst hx
      simp
    · have hnx : c.pc x ≠ .locked := fun he => hx (Option.some_injective _ (hown ▸ (h.owner x).mpr he)).symm
      simp [Function.update_of_ne hx, hnx]

theorem Ok.condvarWait (h : c.Ok) (ht : c.pc t = .locked) : (c.condvarWait t).Ok := by
  have hnot : t ∉ c.waiters := h.tracks.not_mem (by rw [ht]; decide)
  have hen : ∀ x ∈ c.waiters, Function.update c.entered t c.clock x = c.entered x :=
    fun x hx => Function.update_of_ne (by rintro rfl; exact hnot hx) _ _
  have hown := (h.owner t).mpr ht
  refine ⟨h.tracks.enqueue (by rw [ht]; decide), ?_, fun x hx => ?_, fun x => ?_⟩
  · -- the new waiter entered last
    refine List.pairwise_append.mpr ⟨?_, List.pairwise_singleton _ _, fun a ha b hb => ?_⟩
    · exact h.sorted.imp_of_mem fun ha hb hab => by
        simp only [Condvar.condvarWait]
        rwa [hen _ ha, hen _ hb]
    · rw [List.mem_singleton] at hb
      subst hb
      simpa [Condvar.condvarWait, hen a ha] using h.entered_lt a ha
  · simp only [Condvar.condvarWait, List.mem_append, List.mem_singleton] at hx ⊢
    rcases hx with hx | rfl
    · rw [hen x hx]
      exact Nat.lt_succ_of_lt (h.entered_lt x hx)
    · simp
  · by_cases hx : x = t
    · subst hx
      simp [Condvar.condvarWait]
    · have hnx : c.pc x ≠ .locked :=
        fun he => hx (Option.some_injective _ (hown ▸ (h.owner x).mpr he)).symm
      simp [Condvar.condvarWait, Function.update_of_ne hx, hnx]

theorem Ok.condvarSignal (h : c.Ok) : c.condvarSignal.Ok := by
  unfold Condvar.condvarSignal
  split
  · exact h
  · rename_i x ws hw
    have htr := h.tracks
    rw [hw] at htr
    have hx : c.pc x = .parked := (htr.mem_iff x).mpr List.mem_cons_self
    have hsorted := h.sorted
    rw [hw, List.pairwise_cons] at hsorted
    refine ⟨htr.pop (by decide), hsorted.2, fun y hy => h.entered_lt y (hw ▸ List.mem_cons_of_mem _ hy),
      owner_update h.owner (by rw [hx]; decide) (by decide)⟩

theorem Ok.condvarBroadcast (h : c.Ok) : c.condvarBroadcast.Ok where
  tracks := h.tracks.wakeAll (by decide)
  sorted := List.Pairwise.nil
  entered_lt _ hx := absurd hx List.not_mem_nil
  owner x := by
    by_cases hx : x ∈ c.waiters
    · have hp : c.pc x = .parked := (h.tracks.mem_iff x).mpr hx
      simp only [Condvar.condvarBroadcast, wakeAll_of_mem hx, reduceCtorEq, iff_false]
      rw [h.owner x, hp]
      decide
    · simp only [Condvar.condvarBroadcast, wakeAll_of_not_mem hx]
      exact h.owner x

theorem cvStep_ok : StepRun.Invariant (cvStep (T := T)) Condvar.Ok := by
  intro c op c' h hs
  cases op with
  | lock t =>
    simp only [cvStep] at hs
    split_ifs at hs with ht
    cases hs
    exact h.takeMutex (by rw [ht.1]; decide) ht.2
  | unlock t =>
    simp only [cvStep] at hs
    split_ifs at hs with ht
    cases hs
    exact h.unlock ht
  | wait t =>
    simp only [cvStep] at hs
    split_ifs at hs with ht
    cases hs
    exact h.condvarWait ht
  | signal t =>
    simp only [cvStep] at hs
    split_ifs at hs
    cases hs
    exact h.condvarSignal
  | broadcast t =>
    simp only [cvStep] at hs
    split_ifs at hs
    cases hs
    exact h.condvarBroadcast
  | relock t =>
    simp only [cvStep] at hs
    split_ifs at hs with ht
    cases hs
    exact h.takeMutex (by rw [ht.1]; decide) ht.2

/-- `condvar_signal` wakes the waiter that entered first: a thread parked at that moment, or
one that entered before it, and no other thread changes. -/
theorem Ok.signal_wakes_first (h : c.Ok) (hw : c.pc w = .parked) :
    ∃ x, c.pc x = .parked ∧ c.condvarSignal.pc x = .woken ∧
      (x = w ∨ c.entered x < c.entered w) ∧ ∀ y, y ≠ x → c.condvarSignal.pc y = c.pc y := by
  have hmem : w ∈ c.waiters := (h.tracks.mem_iff w).mp hw
  cases hq : c.waiters with
  | nil => simp [hq] at hmem
  | cons x ws =>
    have hsorted := h.sorted
    rw [hq, List.pairwise_cons] at hsorted
    have hcs : c.condvarSignal = { c with waiters := ws, pc := Function.update c.pc x .woken } := by
      simp [Condvar.condvarSignal, hq]
    refine ⟨x, (h.tracks.mem_iff x).mpr (hq ▸ List.mem_cons_self), by simp [hcs], ?_,
      fun y hy => by simp [hcs, Function.update_of_ne hy]⟩
    rw [hq, List.mem_cons] at hmem
    rcases hmem with rfl | hmem
    · exact .inl rfl
    · exact .inr (hsorted.1 w hmem)

theorem Ok.broadcast_wakes (h : c.Ok) (hw : c.pc w = .parked) : c.condvarBroadcast.pc w = .woken :=
  wakeAll_of_mem ((h.tracks.mem_iff w).mp hw)

theorem cvStep_signal (hs : cvStep c (.signal u) = some c') : c' = c.condvarSignal := by
  simp only [cvStep] at hs
  split_ifs at hs
  cases hs
  rfl

theorem cvStep_broadcast (hs : cvStep c (.broadcast u) = some c') : c' = c.condvarBroadcast := by
  simp only [cvStep] at hs
  split_ifs at hs
  cases hs
  rfl

theorem cvStep_relock (hs : cvStep c (.relock t) = some c') :
    c.pc t = .woken ∧ c.owner = none ∧ c' = c.takeMutex t := by
  simp only [cvStep] at hs
  split_ifs at hs with ht
  cases hs
  exact ⟨ht.1, ht.2, rfl⟩

/-- In every state a run reaches: a `condvar_signal` wakes a thread that entered `condvar_wait`
no later than any parked thread, and only it; a `condvar_broadcast` wakes every parked thread;
and the `mutex_lock` that ends `condvar_wait` makes its thread the one holder of the mutex. -/
theorem cvStep_run_wakeups (ops : List (CvOp T)) (hc : StepRun.run cvStep init ops = some c) :
    (∀ u c' w, cvStep c (.signal u) = some c' → c.pc w = .parked →
      ∃ x, c.pc x = .parked ∧ c'.pc x = .woken ∧ (x = w ∨ c.entered x < c.entered w) ∧
        ∀ y, y ≠ x → c'.pc y = c.pc y) ∧
    (∀ u c' w, cvStep c (.broadcast u) = some c' → c.pc w = .parked → c'.pc w = .woken) ∧
    (∀ t c', cvStep c (.relock t) = some c' →
      c.pc t = .woken ∧ c'.owner = some t ∧ ∀ x, c'.pc x = .locked ↔ x = t) := by
  have h := cvStep_ok.run init_ok hc
  refine ⟨fun u c' w hs hw => ?_, fun u c' w hs hw => ?_, fun t c' hs => ?_⟩
  · rw [cvStep_signal hs]
    exact h.signal_wakes_first hw
  · rw [cvStep_broadcast hs]
    exact h.broadcast_wakes hw
  · obtain ⟨hw, hfree, rfl⟩ := cvStep_relock hs
    have h' := h.takeMutex (t := t) (by rw [hw]; decide) hfree
    refine ⟨hw, rfl, fun x => ?_⟩
    rw [← h'.owner x]
    simp [Condvar.takeMutex, eq_comm]

end Condvar

/-! ## Wait groups -/

/-- Where a thread is with respect to a wait group. -/
inductive WgPc
  | idle
  /-- in `waitgroup_wait`, on `wg->waiters` -/
  | parked
  /-- in `waitgroup_wait`, woken -/
  | woken
deriving DecidableEq, Repr

/-- A `waitgroup_t`. -/
structure Waitgroup (T : Type) where
  cnt : Int
  waiters : List T
  pc : T → WgPc

namespace Waitgroup

/-- `waitgroup_add`; `none` where `BUG_ON(wg->cnt < 0)` stops the program. -/
def waitgroupAdd (g : Waitgroup T) (cnt : Int) : Option (Waitgroup T) :=
  if g.cnt + cnt < 0 then none
  else if g.cnt + cnt = 0 then
    some { cnt := 0, waiters := [], pc := wakeAll g.waiters g.pc .woken }
  else some { g with cnt := g.cnt + cnt }

/-- `waitgroup_wait` up to its return or `thread_park_and_unlock_np`. -/
def waitgroupWait (g : Waitgroup T) (t : T) : Waitgroup T :=
  if g.cnt = 0 then g
  else { g with waiters := g.waiters ++ [t], pc := Function.update g.pc t .parked }

/-- `waitgroup_init` -/
def init : Waitgroup T := ⟨0, [], fun _ => .idle⟩

end Waitgroup

inductive WgOp (T : Type)
  | add (t : T) (cnt : Int)
  | wait (t : T)
  /-- a woken thread returns from `waitgroup_wait` -/
  | resume (t : T)

def wgStep (g : Waitgroup T) : WgOp T → Option (Waitgroup T)
  | .add t cnt => if g.pc t = .idle then g.waitgroupAdd cnt else none
  | .wait t => if g.pc t = .idle then some (g.waitgroupWait t) else none
  | .resume t => if g.pc t = .woken then some { g with pc := Function.update g.pc t .idle } else none

namespace Waitgroup

variable {g g' : Waitgroup T} {t : T}

structure Ok (g : Waitgroup T) : Prop where
  tracks : Tracks .parked g.waiters g.pc
  nonneg : 0 ≤ g.cnt
  /-- a count of zero has woken every waiter -/
  zero : g.cnt = 0 → g.waiters = []

omit [DecidableEq T] in
theorem init_ok : (init : Waitgroup T).Ok :=
  ⟨Tracks.nil (by decide), le_rfl, fun _ => rfl⟩

/-- What `waitgroup_add` does: it wakes every waiter exactly when the count reaches zero. -/
theorem waitgroupAdd_eq_some {cnt : Int} (hs : g.waitgroupAdd cnt = some g') :
    0 ≤ g.cnt + cnt ∧ g'.cnt = g.cnt + cnt ∧
      (g.cnt + cnt = 0 → g'.waiters = [] ∧ g'.pc = wakeAll g.waiters g.pc .woken) ∧
      (g.cnt + cnt ≠ 0 → g'.waiters = g.waiters ∧ g'.pc = g.pc) := by
  unfold Waitgroup.waitgroupAdd at hs
  split_ifs at hs with hneg hz <;> cases hs
  · exact ⟨by omega, hz.symm, fun _ => ⟨rfl, rfl⟩, fun hne => absurd hz hne⟩
  · exact ⟨by omega, rfl, fun he => absurd he hz, fun _ => ⟨rfl, rfl⟩⟩

theorem wgStep_ok : StepRun.Invariant (wgStep (T := T)) Waitgroup.Ok := by
  intro g op g' h hs
  cases op with
  | add t cnt =>
    simp only [wgStep] at hs
    split_ifs at hs
    obtain ⟨hnn, hcnt, hz, hnz⟩ := waitgroupAdd_eq_some hs
    by_cases h0 : g.cnt + cnt = 0
    · obtain ⟨hw, hpc⟩ := hz h0
      exact ⟨hw ▸ hpc ▸ h.tracks.wakeAll (by decide), hcnt ▸ hnn, fun _ => hw⟩
    · obtain ⟨hw, hpc⟩ := hnz h0
      exact ⟨hw ▸ hpc ▸ h.tracks, hcnt ▸ hnn, fun he => absurd (hcnt ▸ he) h0⟩
  | wait t =>
    simp only [wgStep] at hs
    split_ifs at hs with ht
    cases hs
    unfold Waitgroup.waitgroupWait
    split_ifs with h0
    · exact h
    · exact ⟨h.tracks.enqueue (by rw [ht]; decide), h.nonneg, fun he => absurd he h0⟩
  | resume t =>
    simp only [wgStep] at hs
    split_ifs at hs with ht
    cases hs
    exact ⟨h.tracks.setPc (by rw [ht]; decide) (by decide), h.nonneg, h.zero⟩

/-- A parked thread leaves the queue only at the step that brings the count to zero, and that
step wakes every thread on it. -/
theorem Ok.step_wakes (h : g.Ok) {op : WgOp T} (hs : wgStep g op = some g') :
    (∀ t, g.pc t = .parked → g'.pc t ≠ .parked → g'.cnt = 0 ∧ g'.pc t = .woken) ∧
      (g'.cnt = 0 → ∀ t, g.pc t = .parked → g'.pc t = .woken) := by
  cases op with
  | add u cnt =>
    simp only [wgStep] at hs
    split_ifs at hs
    obtain ⟨-, hcnt, hz, hnz⟩ := waitgroupAdd_eq_some hs
    by_cases h0 : g.cnt + cnt = 0
    · have hwoken : ∀ t, g.pc t = .parked → g'.pc t = .woken := fun t ht => by
        rw [(hz h0).2, wakeAll_of_mem ((h.tracks.mem_iff t).mp ht)]
      exact ⟨fun t ht _ => ⟨hcnt.trans h0, hwoken t ht⟩, fun _ => hwoken⟩
    · rw [(hnz h0).2]
      exact ⟨fun t ht hne => absurd ht hne, fun he => absurd (hcnt ▸ he) h0⟩
  | wait u =>
    simp only [wgStep] at hs
    split_ifs at hs with hu
    cases hs
    unfold Waitgroup.waitgroupWait
    split_ifs with h0
    · exact ⟨fun t ht hne => absurd ht hne, fun _ t ht => absurd ((h.tracks.mem_iff t).mp ht)
        (by rw [h.zero h0]; exact List.not_mem_nil)⟩
    · have hne : ∀ t, g.pc t = .parked → t ≠ u := fun t ht he => by rw [he, hu] at ht; cases ht
      refine ⟨fun t ht hne' => absurd (by simp [Function.update_of_ne (hne t ht), ht]) hne', ?_⟩
      exact fun he => absurd he h0
  | resume u =>
    simp only [wgStep] at hs
    split_ifs at hs with hu
    cases hs
    have hne : ∀ t, g.pc t = .parked → t ≠ u := fun t ht he => by rw [he, hu] at ht; cases ht
    refine ⟨fun t ht hne' => absurd (by simp [Function.update_of_ne (hne t ht), ht]) hne', ?_⟩
    intro h0 t ht
    exact absurd ((h.tracks.mem_iff t).mp ht) (by rw [h.zero h0]; exact List.not_mem_nil)

/-- `waitgroup_add` calls `thread_ready` only on the threads it takes off the queue. -/
theorem Ok.add_keeps (h : g.Ok) {u x : T} {cnt : Int} (hs : wgStep g (.add u cnt) = some g')
    (hx : g.pc x ≠ .parked) : g'.pc x = g.pc x := by
  simp only [wgStep] at hs
  split_ifs at hs
  obtain ⟨-, -, hz, hnz⟩ := waitgroupAdd_eq_some hs
  by_cases h0 : g.cnt + cnt = 0
  · rw [(hz h0).2, wakeAll_of_not_mem (h.tracks.not_mem hx)]
  · rw [(hnz h0).2]

/-- `waitgroup_wait` returns at once exactly when the count is zero. -/
theorem wgStep_wait_returns (hs : wgStep g (.wait t) = some g') : g'.pc t = .idle ↔ g.cnt = 0 := by
  simp only [wgStep] at hs
  split_ifs at hs with ht
  cases hs
  unfold Waitgroup.waitgroupWait
  split_ifs with h0
  · exact ⟨fun _ => h0, fun _ => ht⟩
  · simp [h0]

/-- A parked thread leaves the queue only at a state where the count is zero and it is woken:
the first step that moves it. -/
theorem Ok.parked_until_zero (h : g.Ok) {ops : List (WgOp T)} (ht : g.pc t = .parked)
    (hs : StepRun.run wgStep g ops = some g') (hn : g'.pc t ≠ .parked) :
    ∃ ops₀ ops₁ g₀, ops = ops₀ ++ ops₁ ∧ StepRun.run wgStep g ops₀ = some g₀ ∧
      g₀.cnt = 0 ∧ g₀.pc t = .woken :=
  wgStep_ok.run_exit (P := fun g => g.pc t = .parked) (Q := fun g => g.cnt = 0 ∧ g.pc t = .woken)
    (fun _ _ _ h ht hs hn => (h.step_wakes hs).1 t ht hn) h ht hs hn

/-- In every state a run reaches: `waitgroup_wait` returns at once only at count zero; a parked
thread comes off the queue only woken at a count of zero; a step that brings the count to zero
wakes every parked thread, and `waitgroup_add` wakes no thread that is not parked. -/
theorem wgStep_run_wakeups (ops : List (WgOp T)) (hg : StepRun.run wgStep init ops = some g) :
    (∀ t g', wgStep g (.wait t) = some g' → (g'.pc t = .idle ↔ g.cnt = 0)) ∧
    (∀ t (ops' : List (WgOp T)) g', g.pc t = .parked → StepRun.run wgStep g ops' = some g' →
      g'.pc t ≠ .parked → ∃ ops₀ ops₁ g₀, ops' = ops₀ ++ ops₁ ∧
        StepRun.run wgStep g ops₀ = some g₀ ∧ g₀.cnt = 0 ∧ g₀.pc t = .woken) ∧
    (∀ op g', wgStep g op = some g' → g'.cnt = 0 → ∀ t, g.pc t = .parked → g'.pc t = .woken) ∧
    (∀ u cnt g' x, wgStep g (.add u cnt) = some g' → g.pc x ≠ .parked → g'.pc x = g.pc x) := by
  have h := wgStep_ok.run init_ok hg
  exact ⟨fun _ _ hs => wgStep_wait_returns hs, fun _ _ _ ht hs hn => h.parked_until_zero ht hs hn,
    fun _ _ hs => (h.step_wakes hs).2, fun _ _ _ _ hs hx => h.add_keeps hs hx⟩

end Waitgroup

/-! ## Barriers -/

/-- Where a thread is with respect to a barrier. -/
inductive BarPc
  | idle
  /-- in `barrier_wait`, on `b->waiters` -/
  | parked
  /-- in `barrier_wait`, released, about to return `false` -/
  | released
deriving DecidableEq, Repr

/-- A `barrier_t`. -/
structure Barrier (T : Type) where
  count : Int
  waiting : Int
  waiters : List T
  pc : T → BarPc
  /-- the releases so far -/
  gen : Nat
  /-- the generation each thread last arrived in -/
  arrival : T → Nat

namespace Barrier

/-- `barrier_wait` up to its return or `thread_park_and_unlock_np`: `some true` when the thread
releases the barrier and returns at once. -/
def barrierWait (b : Barrier T) (t : T) : Barrier T × Option Bool :=
  if b.count ≤ b.waiting + 1 then
    ({ b with
      waiting := 0
      waiters := []
      pc := wakeAll b.waiters b.pc .released
      gen := b.gen + 1
      arrival := Function.update b.arrival t b.gen }, some true)
  else
    ({ b with
      waiting := b.waiting + 1
      waiters := b.waiters ++ [t]
      pc := Function.update b.pc t .parked
      arrival := Function.update b.arrival t b.gen }, none)

/-- `barrier_init(b, count)` -/
def init (count : Int) : Barrier T := ⟨count, 0, [], fun _ => .idle, 0, fun _ => 0⟩

end Barrier

inductive BarOp (T : Type)
  | wait (t : T)
  /-- a released thread returns `false` from `barrier_wait` -/
  | resume (t : T)

def barStep (b : Barrier T) : BarOp T → Option (Barrier T)
  | .wait t => if b.pc t = .idle then some (b.barrierWait t).1 else none
  | .resume t =>
    if b.pc t = .released then some { b with pc := Function.update b.pc t .idle } else none

namespace Barrier

variable {b b' : Barrier T} {t : T}

/-- The waiters are the threads parked in this generation, fewer than `count`. -/
structure Ok (b : Barrier T) : Prop where
  tracks : Tracks .parked b.waiters b.pc
  waiting : (b.waiters.length : Int) = b.waiting
  lt : b.waiting < b.count
  arrival : ∀ t ∈ b.waiters, b.arrival t = b.gen

omit [DecidableEq T] in
theorem init_ok {count : Int} (hc : 1 ≤ count) : (init count : Barrier T).Ok :=
  ⟨Tracks.nil (by decide), rfl, by simp [init]; omega, fun _ h => absurd h List.not_mem_nil⟩

theorem barStep_count {op : BarOp T} (hs : barStep b op = some b') : b'.count = b.count := by
  cases op with
  | wait t =>
    simp only [barStep] at hs
    split_ifs at hs
    cases hs
    unfold Barrier.barrierWait
    split_ifs <;> rfl
  | resume t =>
    simp only [barStep] at hs
    split_ifs at hs
    cases hs
    rfl

theorem Ok.barrierWait (h : b.Ok) (ht : b.pc t = .idle) : (b.barrierWait t).1.Ok := by
  have hnot : t ∉ b.waiters := h.tracks.not_mem (by rw [ht]; decide)
  have hlt := h.lt
  have hnn : 0 ≤ b.waiting := by
    rw [← h.waiting]
    exact Int.natCast_nonneg _
  unfold Barrier.barrierWait
  split_ifs with hrel
  · refine ⟨h.tracks.wakeAll (by decide), rfl, ?_, fun _ hx => absurd hx List.not_mem_nil⟩
    dsimp only
    omega
  · refine ⟨h.tracks.enqueue (by rw [ht]; decide), ?_, ?_, fun x hx => ?_⟩
    · simp [← h.waiting]
    · dsimp only
      omega
    · dsimp only at hx ⊢
      rw [List.mem_append, List.mem_singleton] at hx
      rcases hx with hx | rfl
      · have hne : x ≠ t := by
          rintro rfl
          exact hnot hx
        rw [Function.update_of_ne hne]
        exact h.arrival x hx
      · simp

theorem barStep_ok : StepRun.Invariant (barStep (T := T)) Barrier.Ok := by
  intro b op b' h hs
  cases op with
  | wait t =>
    simp only [barStep] at hs
    split_ifs at hs with ht
    cases hs
    exact h.barrierWait ht
  | resume t =>
    simp only [barStep] at hs
    split_ifs at hs with ht
    cases hs
    exact ⟨h.tracks.setPc (by rw [ht]; decide) (by decide), h.waiting, h.lt, h.arrival⟩

/-- An arrival either releases the barrier or parks. It releases exactly when it is the
`count`-th arrival of its generation: it then returns `true` and releases every parked thread,
all of this generation, and starts the next. Otherwise it parks in this generation and no
thread is released. -/
theorem Ok.barrierWait_spec (h : b.Ok) :
    ((b.barrierWait t).2 = some true ↔ (b.waiters.length : Int) + 1 = b.count) ∧
      ((b.barrierWait t).2 = some true →
        (∀ x, b.pc x = .parked → (b.barrierWait t).1.pc x = .released ∧ b.arrival x = b.gen) ∧
        (∀ x, b.pc x ≠ .parked → (b.barrierWait t).1.pc x = b.pc x) ∧
        (b.barrierWait t).1.gen = b.gen + 1) ∧
      ((b.barrierWait t).2 = none →
        (b.barrierWait t).1.pc t = .parked ∧ (b.barrierWait t).1.arrival t = b.gen ∧
        ∀ x, x ≠ t → (b.barrierWait t).1.pc x = b.pc x) := by
  have hlen := h.waiting
  have hlt := h.lt
  unfold Barrier.barrierWait
  split_ifs with hrel
  · refine ⟨⟨fun _ => by omega, fun _ => rfl⟩, fun _ => ⟨fun x hx => ?_, fun x hx => ?_, rfl⟩,
      fun hn => absurd hn (by simp)⟩
    · have hm := (h.tracks.mem_iff x).mp hx
      exact ⟨wakeAll_of_mem hm, h.arrival x hm⟩
    · exact wakeAll_of_not_mem (h.tracks.not_mem hx)
  · refine ⟨⟨fun hn => absurd hn (by simp), fun he => by omega⟩,
      fun hn => absurd hn (by simp), fun _ => ⟨by simp, by simp, fun x hx => ?_⟩⟩
    simp [Function.update_of_ne hx]

theorem barStep_run_ok {count : Int} {ops : List (BarOp T)} (hc : 1 ≤ count)
    (hb : StepRun.run barStep (init count) ops = some b) : b.Ok ∧ b.count = count :=
  (barStep_ok.and fun _ _ _ _ hcount hs => (barStep_count hs).trans hcount).run
    ⟨init_ok hc, rfl⟩ hb

/-- In every state a run of a barrier for `count ≥ 1` reaches: the parked threads are the queue,
fewer than `count`, all of the current generation; an arrival releases exactly when it is the
`count`-th of its generation, and then releases every parked thread and only those and starts
the next generation; otherwise it parks and releases no one. -/
theorem barStep_run_generations {count : Int} (ops : List (BarOp T)) (hc : 1 ≤ count)
    (hb : StepRun.run barStep (init count) ops = some b) :
    b.count = count ∧ Tracks .parked b.waiters b.pc ∧ (b.waiters.length : Int) < count ∧
    (∀ x, b.pc x = .parked → b.arrival x = b.gen) ∧
    ∀ t, ((b.barrierWait t).2 = some true ↔ (b.waiters.length : Int) + 1 = count) ∧
      ((b.barrierWait t).2 = some true →
        (∀ x, b.pc x = .parked → (b.barrierWait t).1.pc x = .released ∧ b.arrival x = b.gen) ∧
        (∀ x, b.pc x ≠ .parked → (b.barrierWait t).1.pc x = b.pc x) ∧
        (b.barrierWait t).1.gen = b.gen + 1) ∧
      ((b.barrierWait t).2 = none →
        (b.barrierWait t).1.pc t = .parked ∧ (b.barrierWait t).1.arrival t = b.gen ∧
        ∀ x, x ≠ t → (b.barrierWait t).1.pc x = b.pc x) := by
  obtain ⟨h, rfl⟩ := barStep_run_ok hc hb
  refine ⟨rfl, h.tracks, h.waiting ▸ h.lt, fun x hx => h.arrival x ((h.tracks.mem_iff x).mp hx),
    fun _ => h.barrierWait_spec⟩

end Barrier

theorem sync_wait_no_lost_wakeups :
    (∀ (ops : List (CvOp T)) c, StepRun.run cvStep Condvar.init ops = some c →
      (∀ u c' w, cvStep c (.signal u) = some c' → c.pc w = .parked →
        ∃ x, c.pc x = .parked ∧ c'.pc x = .woken ∧ (x = w ∨ c.entered x < c.entered w) ∧
          ∀ y, y ≠ x → c'.pc y = c.pc y) ∧
      (∀ u c' w, cvStep c (.broadcast u) = some c' → c.pc w = .parked → c'.pc w = .woken) ∧
      (∀ t c', cvStep c (.relock t) = some c' →
        c.pc t = .woken ∧ c'.owner = some t ∧ ∀ x, c'.pc x = .locked ↔ x = t)) ∧
    (∀ (ops : List (WgOp T)) g, StepRun.run wgStep Waitgroup.init ops = some g →
      (∀ t g', wgStep g (.wait t) = some g' → (g'.pc t = .idle ↔ g.cnt = 0)) ∧
      (∀ t (ops' : List (WgOp T)) g', g.pc t = .parked → StepRun.run wgStep g ops' = some g' →
        g'.pc t ≠ .parked → ∃ ops₀ ops₁ g₀, ops' = ops₀ ++ ops₁ ∧
          StepRun.run wgStep g ops₀ = some g₀ ∧ g₀.cnt = 0 ∧ g₀.pc t = .woken) ∧
      (∀ op g', wgStep g op = some g' → g'.cnt = 0 → ∀ t, g.pc t = .parked → g'.pc t = .woken) ∧
      (∀ u cnt g' x, wgStep g (.add u cnt) = some g' → g.pc x ≠ .parked → g'.pc x = g.pc x)) ∧
    (∀ (count : Int) (ops : List (BarOp T)) b, 1 ≤ count →
      StepRun.run barStep (Barrier.init count) ops = some b →
      b.count = count ∧ WaitQueue.Tracks .parked b.waiters b.pc ∧
      (b.waiters.length : Int) < count ∧ (∀ x, b.pc x = .parked → b.arrival x = b.gen) ∧
      ∀ t, ((b.barrierWait t).2 = some true ↔ (b.waiters.length : Int) + 1 = count) ∧
        ((b.barrierWait t).2 = some true →
          (∀ x, b.pc x = .parked → (b.barrierWait t).1.pc x = .released ∧ b.arrival x = b.gen) ∧
          (∀ x, b.pc x ≠ .parked → (b.barrierWait t).1.pc x = b.pc x) ∧
          (b.barrierWait t).1.gen = b.gen + 1) ∧
        ((b.barrierWait t).2 = none →
          (b.barrierWait t).1.pc t = .parked ∧ (b.barrierWait t).1.arrival t = b.gen ∧
          ∀ x, x ≠ t → (b.barrierWait t).1.pc x = b.pc x)) :=
  ⟨fun ops _ hc => Condvar.cvStep_run_wakeups ops hc,
    fun ops _ hg => Waitgroup.wgStep_run_wakeups ops hg,
    fun _ ops _ hc hb => Barrier.barStep_run_generations ops hc hb⟩

end Caladan
