import Mathlib
import Caladan.Lib.Run

/-!
# Mutexes (`runtime/sync.c`, `inc/runtime/sync.h`)

`held` is `0` when the mutex is free and `1` when it is owned, with `WAITER_FLAG` set from the
`atomic_fetch_and_or` of a thread on the slow path of `__mutex_lock` until the mutex is free
again; `waiters` is the FIFO of parked threads, changed only under `waiter_lock`.

Each atomic operation on `held` is one step of one thread. Taking `waiter_lock` is merged into the
first step of the critical section and releasing it into the last: only a thread that takes
`waiter_lock` could tell the difference, and it waits. `pc` says where each thread is. A thread
that `__mutex_unlock` pops owns the mutex from that step on; `thread_ready` only lets it run, and
here it may take its next step at once (more runs than the code has).
-/

namespace Caladan

/-- `WAITER_FLAG` -/
def waiterFlag : UInt32 := (1 : UInt32) <<< 31

/-- Where a thread is in the mutex calls. -/
inductive MutexPc
  | idle
  /-- in `__mutex_lock`, before `spin_lock_np` -/
  | lockSlow
  /-- the `atomic_fetch_and_or` returned `0` -/
  | lockWrite
  /-- it returned the flag or an owner -/
  | lockPark
  | parked
  | owner
  /-- in `__mutex_unlock`, before `spin_lock_np` -/
  | unlockSlow
  /-- `list_pop` found no waiter -/
  | unlockZero
deriving DecidableEq, Repr

namespace MutexPc

/-- The thread owns the mutex: from a successful lock up to the step that releases it. -/
@[simp] def owns : MutexPc → Bool
  | owner | unlockSlow | unlockZero => true
  | _ => false

/-- The thread holds `waiter_lock`. -/
@[simp] def holdsLock : MutexPc → Bool
  | lockWrite | lockPark | unlockZero => true
  | _ => false

/-- The thread holds no lock, is not parked and is not between two atomic operations of one
critical section: the invariant sees it only through `owns`. -/
@[simp] def quiet : MutexPc → Bool
  | idle | lockSlow | owner | unlockSlow => true
  | _ => false

end MutexPc

/-- `struct mutex` with the holder of `waiter_lock` and where each thread is. -/
structure Mutex (T : Type) where
  held : UInt32
  waiterLock : Option T
  waiters : List T
  pc : T → MutexPc

/-- The steps of a thread `t`. -/
inductive MutexOp (T : Type)
  /-- `mutex_lock`: `atomic_cmpxchg(&m->held, 0, 1)` -/
  | lock (t : T)
  /-- `mutex_try_lock` -/
  | tryLock (t : T)
  /-- `__mutex_lock`: `spin_lock_np`, `atomic_fetch_and_or(&m->held, WAITER_FLAG)` -/
  | lockFetchOr (t : T)
  /-- `__mutex_lock`: `atomic_write(&m->held, 1)`, `spin_unlock_np` -/
  | lockWrite (t : T)
  /-- `__mutex_lock`: `list_add_tail`, `thread_park_and_unlock_np` -/
  | lockPark (t : T)
  /-- `mutex_unlock`: `atomic_cmpxchg(&m->held, 1, 0)` -/
  | unlock (t : T)
  /-- `__mutex_unlock`: `spin_lock_np`, `list_pop`, and `spin_unlock_np` if it found a waiter -/
  | unlockPop (t : T)
  /-- `__mutex_unlock`: `atomic_write(&m->held, 0)`, `spin_unlock_np` -/
  | unlockZero (t : T)

variable {T : Type} [DecidableEq T]

def Mutex.setPc (m : Mutex T) (t : T) (p : MutexPc) : Mutex T :=
  { m with pc := Function.update m.pc t p }

/-- The branches of `mutexStep`, one constructor each. -/
inductive MutexStep : Mutex T → MutexOp T → Mutex T → Prop
  | lock {m t} : m.pc t = .idle → m.held = 0 →
      MutexStep m (.lock t) ({ m with held := 1 }.setPc t .owner)
  | lockBusy {m t} : m.pc t = .idle → m.held ≠ 0 → MutexStep m (.lock t) (m.setPc t .lockSlow)
  | tryLock {m t} : m.pc t = .idle → m.held = 0 →
      MutexStep m (.tryLock t) ({ m with held := 1 }.setPc t .owner)
  | tryLockBusy {m t} : m.pc t = .idle → m.held ≠ 0 → MutexStep m (.tryLock t) m
  | lockFetchOr {m t} : m.pc t = .lockSlow → m.waiterLock = none →
      MutexStep m (.lockFetchOr t)
        ({ m with held := m.held ||| waiterFlag, waiterLock := some t }.setPc t
          (if m.held = 0 then .lockWrite else .lockPark))
  | lockWrite {m t} : m.pc t = .lockWrite →
      MutexStep m (.lockWrite t) ({ m with held := 1, waiterLock := none }.setPc t .owner)
  | lockPark {m t} : m.pc t = .lockPark →
      MutexStep m (.lockPark t)
        ({ m with waiters := m.waiters ++ [t], waiterLock := none }.setPc t .parked)
  | unlock {m t} : m.pc t = .owner → m.held = 1 →
      MutexStep m (.unlock t) ({ m with held := 0 }.setPc t .idle)
  | unlockBusy {m t} : m.pc t = .owner → m.held ≠ 1 →
      MutexStep m (.unlock t) (m.setPc t .unlockSlow)
  | unlockPopNil {m t} : m.pc t = .unlockSlow → m.waiterLock = none → m.waiters = [] →
      MutexStep m (.unlockPop t) ({ m with waiterLock := some t }.setPc t .unlockZero)
  | unlockPopCons {m t w ws} : m.pc t = .unlockSlow → m.waiterLock = none → m.waiters = w :: ws →
      MutexStep m (.unlockPop t) (({ m with waiters := ws }.setPc t .idle).setPc w .owner)
  | unlockZero {m t} : m.pc t = .unlockZero →
      MutexStep m (.unlockZero t) ({ m with held := 0, waiterLock := none }.setPc t .idle)

/-- `mutex_init`, with every thread outside the mutex calls. -/
def Mutex.init : Mutex T := ⟨0, none, [], fun _ => .idle⟩

/-- `t` owns the mutex. -/
def Mutex.Owns (m : Mutex T) (t : T) : Prop := (m.pc t).owns = true

instance (m : Mutex T) : DecidablePred m.Owns := fun t =>
  inferInstanceAs (Decidable ((m.pc t).owns = true))

namespace Mutex

variable {m : Mutex T} {t u : T} {p : MutexPc}

@[simp] theorem setPc_held : (m.setPc t p).held = m.held := rfl
@[simp] theorem setPc_waiterLock : (m.setPc t p).waiterLock = m.waiterLock := rfl
@[simp] theorem setPc_waiters : (m.setPc t p).waiters = m.waiters := rfl
@[simp] theorem setPc_pc_self : (m.setPc t p).pc t = p := Function.update_self ..

theorem setPc_pc_of_ne (hu : u ≠ t) : (m.setPc t p).pc u = m.pc u := Function.update_of_ne hu ..

theorem setPc_pc : (m.setPc t p).pc u = if u = t then p else m.pc u := Function.update_apply ..

theorem owns_setPc : (m.setPc t p).Owns u ↔ if u = t then p.owns = true else m.Owns u := by
  unfold Owns
  rw [setPc_pc]
  split_ifs <;> rfl

/-- What `held` says of the owner and the waiters. -/
inductive HeldOk (m : Mutex T) : Prop
  | free (h : m.held = 0) (hno : ∀ t, ¬ m.Owns t) (hw : m.waiters = [])
  | owned (h : m.held = 1) (ho : ∃ t, m.Owns t) (hw : m.waiters = [])
  /-- between the `atomic_fetch_and_or` that found it free and the write of `1` -/
  | flagged (h : m.held = waiterFlag) (hno : ∀ t, ¬ m.Owns t) (hw : m.waiters = [])
      (hl : ∃ t, m.pc t = .lockWrite)
  | contended (h : m.held = waiterFlag ||| 1) (ho : ∃ t, m.Owns t)

structure Inv (m : Mutex T) : Prop where
  lock_of_pc : ∀ t, (m.pc t).holdsLock = true → m.waiterLock = some t
  pc_of_lock : ∀ t, m.waiterLock = some t → (m.pc t).holdsLock = true
  mem_waiters : ∀ t, t ∈ m.waiters ↔ m.pc t = .parked
  nodup : m.waiters.Nodup
  owns_unique : ∀ t u, m.Owns t → m.Owns u → t = u
  held : m.HeldOk
  lockWrite_held : ∀ t, m.pc t = .lockWrite → m.held = waiterFlag
  lockPark_held : ∀ t, m.pc t = .lockPark → m.held = waiterFlag ||| 1
  unlockZero_waiters : ∀ t, m.pc t = .unlockZero → m.waiters = []

theorem holdsLock_setPc (hfree : ∀ u, u ≠ t → (m.pc u).holdsLock = false) (hp : p.holdsLock = false)
    (u : T) : ((m.setPc t p).pc u).holdsLock = false := by
  rw [setPc_pc]
  split_ifs with hut
  exacts [hp, hfree u hut]

theorem mem_waiters_setPc (hmem : ∀ u, u ∈ m.waiters ↔ m.pc u = .parked) (ht : m.pc t ≠ .parked)
    (hp : p ≠ .parked) (u : T) : u ∈ m.waiters ↔ (m.setPc t p).pc u = .parked := by
  rw [setPc_pc]
  split_ifs with hut
  · rw [hut, hmem]
    exact iff_of_false ht hp
  · exact hmem u

theorem owns_setPc_of_eq (hp : p.owns = (m.pc t).owns) : (m.setPc t p).Owns u ↔ m.Owns u := by
  rw [owns_setPc]
  split_ifs with hut
  · rw [hut, hp]
    rfl
  · rfl

/-- `t` takes the mutex over from no owner, or gives it up as its only owner. -/
theorem owns_unique_setPc (hown : ∀ u v, m.Owns u → m.Owns v → u = v)
    (hp : p.owns = true → ∀ u, u ≠ t → ¬ m.Owns u) : ∀ u v, (m.setPc t p).Owns u →
      (m.setPc t p).Owns v → u = v := by
  intro u v hu hv
  rw [owns_setPc] at hu hv
  split_ifs at hu hv with hut hvt hvt
  · rw [hut, hvt]
  · exact absurd hv (hp hu v hvt)
  · exact absurd hu (hp hv u hut)
  · exact hown u v hu hv

/-- `t` gives up the mutex as its only owner. -/
theorem not_owns_setPc (hown : ∀ u, m.Owns u → u = t) (hp : p.owns = false) (u : T) :
    ¬ (m.setPc t p).Owns u := by
  rw [owns_setPc]
  split_ifs with hut
  · rw [hp]
    decide
  · exact fun hu => hut (hown u hu)

omit [DecidableEq T] in
theorem HeldOk.of_eq (m' : Mutex T) (hh : m.HeldOk) (hheld : m'.held = m.held)
    (hw : m'.waiters = m.waiters) (hpc : m'.pc = m.pc) : m'.HeldOk := by
  have ho : ∀ u, m'.Owns u ↔ m.Owns u := fun u => by rw [Owns, Owns, hpc]
  cases hh with
  | free h0 hno hw₀ => exact .free (hheld ▸ h0) (fun u => (ho u).not.2 (hno u)) (hw ▸ hw₀)
  | owned h1 hown hw₀ => exact .owned (hheld ▸ h1) (hown.imp fun u => (ho u).2) (hw ▸ hw₀)
  | flagged hf hno hw₀ hl =>
    exact .flagged (hheld ▸ hf) (fun u => (ho u).not.2 (hno u)) (hw ▸ hw₀) (hpc ▸ hl)
  | contended hc hown => exact .contended (hheld ▸ hc) (hown.imp fun u => (ho u).2)

/-- A step of `t` that keeps whether it owns the mutex and is not the write of `1`. -/
theorem HeldOk.setPc (hh : m.HeldOk) (hp : p.owns = (m.pc t).owns) (ht : m.pc t ≠ .lockWrite) :
    (m.setPc t p).HeldOk := by
  have ho : ∀ u, (m.setPc t p).Owns u ↔ m.Owns u := fun u => owns_setPc_of_eq hp
  cases hh with
  | free h0 hno hw => exact .free h0 (fun u => (ho u).not.2 (hno u)) hw
  | owned h1 hown hw => exact .owned h1 (hown.imp fun u => (ho u).2) hw
  | flagged hf hno hw hl =>
    obtain ⟨u, hu⟩ := hl
    have hut : u ≠ t := fun hut => ht (hut ▸ hu)
    exact .flagged hf (fun u => (ho u).not.2 (hno u)) hw ⟨u, by rw [setPc_pc_of_ne hut, hu]⟩
  | contended hc hown => exact .contended hc (hown.imp fun u => (ho u).2)

omit [DecidableEq T] in
theorem HeldOk.waiters_eq_nil (hh : m.HeldOk) (hne : m.held ≠ waiterFlag ||| 1) :
    m.waiters = [] := by
  cases hh with
  | free _ _ hw => exact hw
  | owned _ _ hw => exact hw
  | flagged _ _ hw => exact hw
  | contended h1 => exact absurd h1 hne

omit [DecidableEq T] in
theorem HeldOk.not_owns (hh : m.HeldOk) (h0 : m.held = 0 ∨ m.held = waiterFlag) (u : T) :
    ¬ m.Owns u := by
  cases hh with
  | free _ hno => exact hno u
  | flagged _ hno => exact hno u
  | owned h1 => rcases h0 with h0 | h0 <;> exact absurd (h1.symm.trans h0) (by decide)
  | contended h1 => rcases h0 with h0 | h0 <;> exact absurd (h1.symm.trans h0) (by decide)

omit [DecidableEq T] in
theorem HeldOk.exists_owns (hh : m.HeldOk) (h1 : m.held = 1 ∨ m.held = waiterFlag ||| 1) :
    ∃ u, m.Owns u := by
  cases hh with
  | owned _ ho => exact ho
  | contended _ ho => exact ho
  | free h0 => rcases h1 with h1 | h1 <;> exact absurd (h0.symm.trans h1) (by decide)
  | flagged hf => rcases h1 with h1 | h1 <;> exact absurd (hf.symm.trans h1) (by decide)

omit [DecidableEq T] in
/-- The invariant where no thread holds `waiter_lock`: its other fields say nothing then. -/
theorem Inv.of_unlocked (hl : m.waiterLock = none) (hfree : ∀ u, (m.pc u).holdsLock = false)
    (hmem : ∀ u, u ∈ m.waiters ↔ m.pc u = .parked) (hnd : m.waiters.Nodup)
    (hown : ∀ u v, m.Owns u → m.Owns v → u = v) (hheld : m.HeldOk) : m.Inv := by
  have hnot : ∀ u q, m.pc u = q → q.holdsLock = true → False := fun u q hu hq => by
    rw [← hu, hfree] at hq
    cases hq
  refine ⟨fun u hu => ?_, fun u hu => ?_, hmem, hnd, hown, hheld, fun u hu => ?_, fun u hu => ?_,
    fun u hu => ?_⟩
  · exact (hnot u _ rfl hu).elim
  · simp [hl] at hu
  all_goals exact (hnot u _ hu rfl).elim

omit [DecidableEq T] in
/-- The invariant where `t` holds `waiter_lock`: of the fields on its holder only `t`'s are left. -/
theorem Inv.of_locked (hl : m.waiterLock = some t) (ht : (m.pc t).holdsLock = true)
    (hfree : ∀ u, u ≠ t → (m.pc u).holdsLock = false)
    (hmem : ∀ u, u ∈ m.waiters ↔ m.pc u = .parked) (hnd : m.waiters.Nodup)
    (hown : ∀ u v, m.Owns u → m.Owns v → u = v) (hheld : m.HeldOk)
    (hwr : m.pc t = .lockWrite → m.held = waiterFlag)
    (hpk : m.pc t = .lockPark → m.held = waiterFlag ||| 1)
    (hz : m.pc t = .unlockZero → m.waiters = []) : m.Inv := by
  have heq : ∀ u q, m.pc u = q → q.holdsLock = true → u = t := fun u q hu hq => by
    by_contra hut
    rw [← hu, hfree u hut] at hq
    cases hq
  refine ⟨fun u hu => ?_, fun u hu => ?_, hmem, hnd, hown, hheld, fun u hu => ?_, fun u hu => ?_,
    fun u hu => ?_⟩
  · rw [heq u _ rfl hu, hl]
  · rw [hl] at hu
    rw [← Option.some_injective _ hu]
    exact ht
  · exact hwr (heq u _ hu rfl ▸ hu)
  · exact hpk (heq u _ hu rfl ▸ hu)
  · exact hz (heq u _ hu rfl ▸ hu)

namespace Inv

variable (h : m.Inv)
include h

omit [DecidableEq T] in
theorem eq_of_holdsLock (hl : m.waiterLock = some t) (hu : (m.pc u).holdsLock = true) : u = t :=
  Option.some_injective _ ((h.lock_of_pc u hu).symm.trans hl)

omit [DecidableEq T] in
theorem not_holdsLock (hl : m.waiterLock = none) (u : T) : (m.pc u).holdsLock = false := by
  cases hu : (m.pc u).holdsLock
  · rfl
  · simp [h.lock_of_pc u hu] at hl

omit [DecidableEq T] in
/-- Only the holder `t` of `waiter_lock` is in a critical section. -/
theorem not_holdsLock_of_ne (hl : m.waiterLock = some t) (hut : u ≠ t) :
    (m.pc u).holdsLock = false := by
  cases hu : (m.pc u).holdsLock
  · rfl
  · exact absurd (h.eq_of_holdsLock hl hu) hut

omit [DecidableEq T] in
/-- While `held` is `0` or `1` only a thread about to write `0` may hold `waiter_lock`. -/
theorem unlocked_of_held (h01 : m.held = 0 ∨ m.held = 1) (hz : ∀ u, m.pc u ≠ .unlockZero) :
    m.waiterLock = none := by
  cases hl : m.waiterLock with
  | none => rfl
  | some u =>
    have hu := h.pc_of_lock u hl
    cases hpc : m.pc u <;> rw [hpc] at hu <;> try cases hu
    · rcases h01 with h01 | h01 <;>
        exact absurd (h01.symm.trans (h.lockWrite_held u hpc)) (by decide)
    · rcases h01 with h01 | h01 <;>
        exact absurd (h01.symm.trans (h.lockPark_held u hpc)) (by decide)
    · exact absurd hpc (hz u)

omit [DecidableEq T] in
theorem owns_of_owner (ht : m.pc t = .owner) (hu : m.Owns u) : u = t :=
  h.owns_unique u t hu (by simp [Owns, ht])

/-- A successful `atomic_cmpxchg(&m->held, 0, 1)` of `mutex_lock` or `mutex_try_lock`. -/
theorem lock (ht : m.pc t = .idle) (h0 : m.held = 0) :
    Inv ({ m with held := 1 }.setPc t .owner) := by
  have hno := h.held.not_owns (.inl h0)
  have hw := h.held.waiters_eq_nil (by rw [h0]; decide)
  have hl := h.unlocked_of_held (.inl h0) fun u hu => hno u (by simp [Owns, hu])
  exact .of_unlocked hl (holdsLock_setPc (fun u _ => h.not_holdsLock hl u) rfl)
    (mem_waiters_setPc h.mem_waiters (by simp [ht]) (by decide)) h.nodup
    (owns_unique_setPc h.owns_unique fun _ u _ => hno u) (.owned rfl ⟨t, by simp [Owns]⟩ hw)

/-- A step of `t` between states the invariant sees only through `owns`: a failed
`atomic_cmpxchg` of `mutex_lock` or `mutex_unlock`. -/
theorem setPc_quiet (ht : (m.pc t).quiet = true) (hp : p.quiet = true)
    (ho : p.owns = (m.pc t).owns) : Inv (m.setPc t p) := by
  have hq : ∀ q : MutexPc, q.quiet = true → q.holdsLock = false ∧ q ≠ .parked ∧ q ≠ .lockWrite ∧
      q ≠ .lockPark ∧ q ≠ .unlockZero := by
    intro q hq
    cases q <;> simp_all
  obtain ⟨hl₁, hw₁, hwr₁, -, -⟩ := hq _ ht
  obtain ⟨hl₂, hw₂, hwr₂, hpk₂, hz₂⟩ := hq _ hp
  have hmem := mem_waiters_setPc h.mem_waiters hw₁ hw₂
  have hown : ∀ u v, (m.setPc t p).Owns u → (m.setPc t p).Owns v → u = v := fun u v hu hv =>
    h.owns_unique u v ((owns_setPc_of_eq ho).1 hu) ((owns_setPc_of_eq ho).1 hv)
  -- the holder of `waiter_lock`, if any, is another thread and keeps its place
  cases hl : m.waiterLock with
  | none =>
    exact .of_unlocked hl (holdsLock_setPc (fun u _ => h.not_holdsLock hl u) hl₂) hmem h.nodup hown
      (h.held.setPc ho hwr₁)
  | some v =>
    have hvt : v ≠ t := fun hvt => by
      have := h.pc_of_lock v hl
      rw [hvt, hl₁] at this
      cases this
    have hv : (m.setPc t p).pc v = m.pc v := setPc_pc_of_ne hvt
    refine .of_locked hl (hv ▸ h.pc_of_lock v hl) (fun u huv => ?_) hmem h.nodup hown
      (h.held.setPc ho hwr₁) (fun hw => h.lockWrite_held v (hv ▸ hw))
      (fun hw => h.lockPark_held v (hv ▸ hw)) (fun hw => h.unlockZero_waiters v (hv ▸ hw))
    rw [setPc_pc]
    split_ifs with hut
    exacts [hl₂, h.not_holdsLock_of_ne hl huv]

/-- `spin_lock_np` and `atomic_fetch_and_or(&m->held, WAITER_FLAG)` in `__mutex_lock`. -/
theorem lockFetchOr (ht : m.pc t = .lockSlow) (hl : m.waiterLock = none) :
    Inv ({ m with held := m.held ||| waiterFlag, waiterLock := some t }.setPc t
      (if m.held = 0 then .lockWrite else .lockPark)) := by
  have hfree := h.not_holdsLock hl
  -- a set flag without an owner is a thread about to write `1`, which would hold `waiter_lock`
  have h10 : m.held ≠ 0 → m.held ||| waiterFlag = waiterFlag ||| 1 ∧ ∃ u, m.Owns u := by
    intro h0
    cases h.held with
    | free h0' => exact absurd h0' h0
    | owned h1 ho => exact ⟨by rw [h1]; decide, ho⟩
    | flagged _ _ _ hlw =>
      obtain ⟨u, hu⟩ := hlw
      have := hfree u
      rw [hu] at this
      cases this
    | contended hc ho => exact ⟨by rw [hc]; decide, ho⟩
  have hqo : (if m.held = 0 then MutexPc.lockWrite else .lockPark).owns = (m.pc t).owns := by
    rw [ht]
    split_ifs <;> rfl
  have hown := fun u =>
    owns_setPc_of_eq (m := { m with held := m.held ||| waiterFlag, waiterLock := some t }) (u := u)
      hqo
  refine .of_locked rfl ?_ (fun u hut => ?_) (mem_waiters_setPc h.mem_waiters (by simp [ht]) ?_)
    h.nodup (fun u v hu hv => h.owns_unique u v ((hown u).1 hu) ((hown v).1 hv)) ?_ ?_ ?_ ?_
  · rw [setPc_pc_self]
    split_ifs <;> rfl
  · rw [setPc_pc_of_ne hut]
    exact hfree u
  · split_ifs <;> decide
  · by_cases h0 : m.held = 0
    · refine .flagged (show m.held ||| waiterFlag = waiterFlag by rw [h0]; decide)
        (fun u => (hown u).not.2 (h.held.not_owns (.inl h0) u))
        (h.held.waiters_eq_nil (by rw [h0]; decide)) ⟨t, by rw [setPc_pc_self, if_pos h0]⟩
    · exact .contended (h10 h0).1 ((h10 h0).2.imp fun u => (hown u).2)
  · rw [setPc_pc_self]
    split_ifs with h0
    · exact fun _ => show m.held ||| waiterFlag = waiterFlag by rw [h0]; decide
    · exact fun h => by cases h
  · rw [setPc_pc_self]
    split_ifs with h0
    · exact fun h => by cases h
    · exact fun _ => (h10 h0).1
  · rw [setPc_pc_self]
    split_ifs <;> exact fun h => by cases h

/-- `atomic_write(&m->held, 1)` and `spin_unlock_np` in `__mutex_lock`. -/
theorem lockWrite (ht : m.pc t = .lockWrite) :
    Inv ({ m with held := 1, waiterLock := none }.setPc t .owner) := by
  have hf := h.lockWrite_held t ht
  have hno := h.held.not_owns (.inr hf)
  have hw := h.held.waiters_eq_nil (by rw [hf]; decide)
  have hl := h.lock_of_pc t (by simp [ht])
  exact .of_unlocked rfl (holdsLock_setPc (fun u hut => h.not_holdsLock_of_ne hl hut) rfl)
    (mem_waiters_setPc h.mem_waiters (by simp [ht]) (by decide)) h.nodup
    (owns_unique_setPc h.owns_unique fun _ u _ => hno u) (.owned rfl ⟨t, by simp [Owns]⟩ hw)

/-- `list_add_tail` and `thread_park_and_unlock_np` in `__mutex_lock`. -/
theorem lockPark (ht : m.pc t = .lockPark) :
    Inv ({ m with waiters := m.waiters ++ [t], waiterLock := none }.setPc t .parked) := by
  have hc := h.lockPark_held t ht
  have hl := h.lock_of_pc t (by simp [ht])
  have htw : t ∉ m.waiters := fun htw => by simp [(h.mem_waiters t).1 htw] at ht
  have hown := fun u => owns_setPc_of_eq
    (m := { m with waiters := m.waiters ++ [t], waiterLock := none }) (u := u) (p := .parked)
    (by rw [ht]; rfl)
  refine .of_unlocked rfl (holdsLock_setPc (fun u hut => h.not_holdsLock_of_ne hl hut) rfl)
    (fun u => ?_) (h.nodup.append (List.nodup_singleton t) (List.disjoint_singleton.2 htw))
    (fun u v hu hv => h.owns_unique u v ((hown u).1 hu) ((hown v).1 hv))
    (.contended hc ((h.held.exists_owns (.inr hc)).imp fun u => (hown u).2))
  rw [setPc_pc]
  split_ifs with hut
  · simp [hut]
  · simp [hut, h.mem_waiters u]

/-- A successful `atomic_cmpxchg(&m->held, 1, 0)` of `mutex_unlock`. -/
theorem unlock (ht : m.pc t = .owner) (h1 : m.held = 1) :
    Inv ({ m with held := 0 }.setPc t .idle) := by
  have hw := h.held.waiters_eq_nil (by rw [h1]; decide)
  have hl := h.unlocked_of_held (.inr h1) fun u hu => by
    have hut := h.owns_of_owner (u := u) ht (by simp [Owns, hu])
    rw [hut, ht] at hu
    cases hu
  have hno := not_owns_setPc (m := { m with held := 0 }) (p := .idle)
    (fun u => h.owns_of_owner ht) rfl
  exact .of_unlocked hl (holdsLock_setPc (fun u _ => h.not_holdsLock hl u) rfl)
    (mem_waiters_setPc h.mem_waiters (by simp [ht]) (by decide)) h.nodup
    (fun u _ hu => absurd hu (hno u)) (.free rfl hno hw)

/-- `spin_lock_np` and a `list_pop` that finds no waiter in `__mutex_unlock`. -/
theorem unlockPop_nil (ht : m.pc t = .unlockSlow) (hl : m.waiterLock = none) (hw : m.waiters = []) :
    Inv ({ m with waiterLock := some t }.setPc t .unlockZero) := by
  have ho : MutexPc.unlockZero.owns = (m.pc t).owns := by rw [ht]; rfl
  have hown := fun u => owns_setPc_of_eq (m := { m with waiterLock := some t }) (u := u) ho
  exact .of_locked rfl (by simp)
    (fun u hut => by rw [setPc_pc_of_ne hut]; exact h.not_holdsLock hl u)
    (mem_waiters_setPc h.mem_waiters (by simp [ht]) (by decide)) h.nodup
    (fun u v hu hv => h.owns_unique u v ((hown u).1 hu) ((hown v).1 hv))
    ((h.held.of_eq { m with waiterLock := some t } rfl rfl rfl).setPc ho (by simp [ht]))
    (fun h => by simp at h) (fun h => by simp at h) (fun _ => hw)

omit [DecidableEq T] in
theorem pop_ne {w : T} {ws : List T} (ht : m.pc t = .unlockSlow) (hw : m.waiters = w :: ws) :
    w ≠ t := fun hwt => by
  have hwp : m.pc w = .parked := (h.mem_waiters w).1 (by simp [hw])
  rw [hwt, ht] at hwp
  cases hwp

/-- The first waiter that `__mutex_unlock` pops is the only owner after it. -/
theorem owns_pop {w : T} {ws : List T} (ht : m.pc t = .unlockSlow) (hw : m.waiters = w :: ws)
    (u : T) : (({ m with waiters := ws }.setPc t .idle).setPc w .owner).Owns u ↔ u = w := by
  rw [owns_setPc, owns_setPc]
  split_ifs with huw hut
  · simp [huw]
  · simp [hut, (h.pop_ne ht hw).symm]
  · exact ⟨fun hu => absurd (h.owns_unique u t hu (by simp [Owns, ht])) hut,
      fun huw' => absurd huw' huw⟩

/-- `spin_lock_np`, a `list_pop` of the first waiter `w` and `spin_unlock_np` in `__mutex_unlock`:
the mutex passes to `w`. -/
theorem unlockPop_cons {w : T} {ws : List T} (ht : m.pc t = .unlockSlow) (hl : m.waiterLock = none)
    (hw : m.waiters = w :: ws) : Inv (({ m with waiters := ws }.setPc t .idle).setPc w .owner) := by
  have hnd := List.nodup_cons.1 (hw ▸ h.nodup)
  have htw : t ∉ ws := fun htw => by
    have := (h.mem_waiters t).1 (by simp [hw, htw])
    rw [ht] at this
    cases this
  have hown := h.owns_pop ht hw
  have hc : m.held = waiterFlag ||| 1 := by
    by_contra hc
    simp [h.held.waiters_eq_nil hc] at hw
  refine .of_unlocked hl
    (holdsLock_setPc (fun u _ => holdsLock_setPc (fun u _ => h.not_holdsLock hl u) rfl u) rfl)
    (fun u => ?_) hnd.2 (fun u v hu hv => ((hown u).1 hu).trans ((hown v).1 hv).symm)
    (.contended hc ⟨w, (hown w).2 rfl⟩)
  rw [setPc_pc, setPc_pc]
  split_ifs with huw hut
  · simp [huw, hnd.1]
  · simp [hut, htw]
  · rw [← h.mem_waiters u, hw, List.mem_cons]
    simp [huw]

/-- `atomic_write(&m->held, 0)` and `spin_unlock_np` in `__mutex_unlock`. -/
theorem unlockZero (ht : m.pc t = .unlockZero) :
    Inv ({ m with held := 0, waiterLock := none }.setPc t .idle) := by
  have hl := h.lock_of_pc t (by simp [ht])
  have hw := h.unlockZero_waiters t ht
  have hno := not_owns_setPc (m := { m with held := 0, waiterLock := none }) (p := .idle)
    (fun u hu => h.owns_unique u t hu (by simp [Owns, ht])) rfl
  exact .of_unlocked rfl (holdsLock_setPc (fun u hut => h.not_holdsLock_of_ne hl hut) rfl)
    (mem_waiters_setPc h.mem_waiters (by simp [ht]) (by decide)) h.nodup
    (fun u _ hu => absurd hu (hno u)) (.free rfl hno hw)

theorem step {op : MutexOp T} {m' : Mutex T} (hs : MutexStep m op m') : m'.Inv := by
  cases hs with
  | lock ht h0 => exact h.lock ht h0
  | lockBusy ht => exact h.setPc_quiet (by simp [ht]) rfl (by simp [ht])
  | tryLock ht h0 => exact h.lock ht h0
  | tryLockBusy => exact h
  | lockFetchOr ht hl => exact h.lockFetchOr ht hl
  | lockWrite ht => exact h.lockWrite ht
  | lockPark ht => exact h.lockPark ht
  | unlock ht h1 => exact h.unlock ht h1
  | unlockBusy ht => exact h.setPc_quiet (by simp [ht]) rfl (by simp [ht])
  | unlockPopNil ht hl hw => exact h.unlockPop_nil ht hl hw
  | unlockPopCons ht hl hw => exact h.unlockPop_cons ht hl hw
  | unlockZero ht => exact h.unlockZero ht

/-- The step that ends `t`'s ownership hands the mutex to the first waiter, or, with no waiter,
leaves `held` at `0`. -/
theorem release {op : MutexOp T} {m' : Mutex T} (hs : MutexStep m op m') (ht : m.Owns t)
    (ht' : ¬ m'.Owns t) :
    (∃ w ws, m.waiters = w :: ws ∧ m'.waiters = ws ∧ ∀ u, m'.Owns u ↔ u = w) ∨
      (m.waiters = [] ∧ m'.held = 0 ∧ m'.waiters = []) := by
  -- a step of another thread `v` leaves `t`'s place, and so its ownership, as it was
  have hkeep : ∀ {m₁ : Mutex T} {v : T} {p : MutexPc}, m₁.pc = m.pc →
      ¬ (m₁.setPc v p).Owns t → t = v ∧ p.owns = false := by
    intro m₁ v p hpc ht'
    rw [owns_setPc] at ht'
    split_ifs at ht' with htv
    · exact ⟨htv, by simpa using ht'⟩
    · exact absurd (show (m.pc t).owns = true from ht) (hpc ▸ ht')
  cases hs with
  | lock _ h0 | tryLock _ h0 => exact absurd ht (h.held.not_owns (.inl h0) t)
  | lockWrite hv => exact absurd ht (h.held.not_owns (.inr (h.lockWrite_held _ hv)) t)
  | tryLockBusy => exact absurd ht ht'
  | lockBusy hv | lockFetchOr hv | lockPark hv =>
    obtain ⟨rfl, -⟩ := hkeep rfl ht'
    simp [Owns, hv] at ht
  | unlockBusy hv | unlockPopNil hv =>
    obtain ⟨-, hp⟩ := hkeep rfl ht'
    cases hp
  | unlock _ h1 =>
    have hw := h.held.waiters_eq_nil (by rw [h1]; decide)
    exact .inr ⟨hw, rfl, hw⟩
  | unlockPopCons hv _ hw => exact .inl ⟨_, _, hw, rfl, h.owns_pop hv hw⟩
  | unlockZero hv => exact .inr ⟨h.unlockZero_waiters _ hv, rfl, h.unlockZero_waiters _ hv⟩

end Inv

end Mutex

end Caladan
