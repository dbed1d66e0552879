import Mathlib
import Caladan.Lib.Run

/-!
# Read-write mutexes (`runtime/sync.c`)

`count` is `-1` while a writer holds the lock and the number of readers otherwise; the waiting
readers and writers queue on `read_waiters` and `write_waiters`, and `read_waiter_count` counts the
former. Every call runs under `waiter_lock` and is one step. `rwmutex_unlock` hands the lock over
inside that critical section: to all waiting readers at once, or else to the first waiting writer;
the `thread_ready` calls after it only let them run. `pc` says where each thread is. `count` and
`read_waiter_count` are C `int`s, here `Int`: that many threads could not be allocated.
-/

namespace Caladan

/-- Where a thread is with respect to the lock. -/
inductive RwPc
  | idle
  | reader
  | writer
  | readWaiting
  | writeWaiting
deriving DecidableEq, Repr

/-- `rwmutex_t` with where each thread is. -/
structure RwMutex (T : Type) where
  readWaiters : List T
  writeWaiters : List T
  count : Int
  readWaiterCount : Int
  pc : T → RwPc

/-- The calls of a thread `t`. -/
inductive RwMutexOp (T : Type)
  | rdlock (t : T)
  | tryRdlock (t : T)
  | wrlock (t : T)
  | tryWrlock (t : T)
  | unlock (t : T)

variable {T : Type} [DecidableEq T]

def RwMutex.setPc (m : RwMutex T) (t : T) (p : RwPc) : RwMutex T :=
  { m with pc := Function.update m.pc t p }

/-- The end of `rwmutex_unlock`: once `count` is `0`, the lock goes to all waiting readers, or else
to the first waiting writer. -/
def RwMutex.handOff (m : RwMutex T) : RwMutex T :=
  if m.count = 0 ∧ m.readWaiterCount > 0 then
    { m with
      count := m.readWaiterCount, readWaiterCount := 0, readWaiters := []
      pc := fun u => if u ∈ m.readWaiters then .reader else m.pc u }
  else if m.count = 0 then
    match m.writeWaiters with
    | [] => m
    | w :: ws => { m with count := -1, writeWaiters := ws }.setPc w .writer
  else m

/-- `rwmutex_unlock` by `t`: `none` for its `assert`. -/
def rwmutexUnlock (m : RwMutex T) (t : T) : Option (RwMutex T) :=
  if m.count = 0 then none
  else some ({ m with count := if m.count < 0 then 0 else m.count - 1 }.setPc t .idle).handOff

/-- One call; `none` when the thread cannot make it (`rwmutex_unlock` only by a holder). -/
def rwmutexStep (m : RwMutex T) : RwMutexOp T → Option (RwMutex T)
  | .rdlock t =>
    if m.pc t = .idle then
      some (if m.count ≥ 0 then { m with count := m.count + 1 }.setPc t .reader
        else
          { m with
            readWaiterCount := m.readWaiterCount + 1
            readWaiters := m.readWaiters ++ [t] }.setPc t .readWaiting)
    else none
  | .tryRdlock t =>
    if m.pc t = .idle then
      some (if m.count ≥ 0 then { m with count := m.count + 1 }.setPc t .reader else m)
    else none
  | .wrlock t =>
    if m.pc t = .idle then
      some (if m.count = 0 then { m with count := -1 }.setPc t .writer
        else { m with writeWaiters := m.writeWaiters ++ [t] }.setPc t .writeWaiting)
    else none
  | .tryWrlock t =>
    if m.pc t = .idle then
      some (if m.count = 0 then { m with count := -1 }.setPc t .writer else m)
    else none
  | .unlock t => if m.pc t = .reader ∨ m.pc t = .writer then rwmutexUnlock m t else none

/-- The branches of `rwmutexStep`, one constructor each. -/
inductive RwMutexStep : RwMutex T → RwMutexOp T → RwMutex T → Prop
  | rdlock {m t} : m.pc t = .idle → 0 ≤ m.count →
      RwMutexStep m (.rdlock t) ({ m with count := m.count + 1 }.setPc t .reader)
  | rdlockWait {m t} : m.pc t = .idle → m.count < 0 →
      RwMutexStep m (.rdlock t)
        ({ m with
          readWaiterCount := m.readWaiterCount + 1
          readWaiters := m.readWaiters ++ [t] }.setPc t .readWaiting)
  | tryRdlock {m t} : m.pc t = .idle → 0 ≤ m.count →
      RwMutexStep m (.tryRdlock t) ({ m with count := m.count + 1 }.setPc t .reader)
  | tryRdlockBusy {m t} : m.pc t = .idle → m.count < 0 → RwMutexStep m (.tryRdlock t) m
  | wrlock {m t} : m.pc t = .idle → m.count = 0 →
      RwMutexStep m (.wrlock t) ({ m with count := -1 }.setPc t .writer)
  | wrlockWait {m t} : m.pc t = .idle → m.count ≠ 0 →
      RwMutexStep m (.wrlock t)
        ({ m with writeWaiters := m.writeWaiters ++ [t] }.setPc t .writeWaiting)
  | tryWrlock {m t} : m.pc t = .idle → m.count = 0 →
      RwMutexStep m (.tryWrlock t) ({ m with count := -1 }.setPc t .writer)
  | tryWrlockBusy {m t} : m.pc t = .idle → m.count ≠ 0 → RwMutexStep m (.tryWrlock t) m
  | unlock {m t} : m.pc t = .reader ∨ m.pc t = .writer → m.count ≠ 0 →
      RwMutexStep m (.unlock t)
        ({ m with count := if m.count < 0 then 0 else m.count - 1 }.setPc t .idle).handOff

theorem RwMutexStep.of_rwmutexStep {m m' : RwMutex T} {op : RwMutexOp T}
    (hs : rwmutexStep m op = some m') : RwMutexStep m op m' := by
  cases op with
  | rdlock t =>
    simp only [rwmutexStep] at hs
    split_ifs at hs with ht hc <;> cases hs
    · exact .rdlock ht hc
    · exact .rdlockWait ht (lt_of_not_ge hc)
  | tryRdlock t =>
    simp only [rwmutexStep] at hs
    split_ifs at hs with ht hc <;> cases hs
    · exact .tryRdlock ht hc
    · exact .tryRdlockBusy ht (lt_of_not_ge hc)
  | wrlock t =>
    simp only [rwmutexStep] at hs
    split_ifs at hs with ht hc <;> cases hs
    exacts [.wrlock ht hc, .wrlockWait ht hc]
  | tryWrlock t =>
    simp only [rwmutexStep] at hs
    split_ifs at hs with ht hc <;> cases hs
    exacts [.tryWrlock ht hc, .tryWrlockBusy ht hc]
  | unlock t =>
    simp only [rwmutexStep] at hs
    by_cases ht : m.pc t = .reader ∨ m.pc t = .writer
    · rw [if_pos ht, rwmutexUnlock] at hs
      by_cases hc : m.count = 0
      · rw [if_pos hc] at hs
        cases hs
      · rw [if_neg hc, Option.some.injEq] at hs
        exact hs ▸ .unlock ht hc
    · rw [if_neg ht] at hs
      cases hs

/-- `rwmutex_init`, with every thread outside the lock. -/
def RwMutex.init : RwMutex T := ⟨[], [], 0, 0, fun _ => .idle⟩

namespace RwMutex

/-- The threads that hold the lock for reading. -/
def readers (m : RwMutex T) : Set T := {t | m.pc t = .reader}

variable {m : RwMutex T} {t u : T} {p : RwPc}

@[simp] theorem setPc_readWaiters : (m.setPc t p).readWaiters = m.readWaiters := rfl
@[simp] theorem setPc_writeWaiters : (m.setPc t p).writeWaiters = m.writeWaiters := rfl
@[simp] theorem setPc_count : (m.setPc t p).count = m.count := rfl
@[simp] theorem setPc_readWaiterCount : (m.setPc t p).readWaiterCount = m.readWaiterCount := rfl
@[simp] theorem setPc_pc_self : (m.setPc t p).pc t = p := Function.update_self ..

theorem setPc_pc : (m.setPc t p).pc u = if u = t then p else m.pc u := Function.update_apply ..

theorem setPc_pc_of_ne (hu : u ≠ t) : (m.setPc t p).pc u = m.pc u := Function.update_of_ne hu ..

/-- What `count` says of the holders. -/
inductive CountOk (m : RwMutex T) : Prop
  | writer (h : m.count = -1) (w : T) (hw : m.pc w = .writer)
      (huniq : ∀ u, m.pc u = .writer → u = w) (hno : m.readers = ∅)
  | readers (h : m.count = m.readers.ncard) (hno : ∀ u, m.pc u ≠ .writer)

/-- The invariant but for the two facts on the waiters that `rwmutex_unlock` restores at its end. -/
structure Core (m : RwMutex T) : Prop where
  readWaiterCount : m.readWaiterCount = m.readWaiters.length
  mem_readWaiters : ∀ t, t ∈ m.readWaiters ↔ m.pc t = .readWaiting
  mem_writeWaiters : ∀ t, t ∈ m.writeWaiters ↔ m.pc t = .writeWaiting
  nodup_read : m.readWaiters.Nodup
  nodup_write : m.writeWaiters.Nodup
  finite : m.readers.Finite
  count : m.CountOk

structure Inv (m : RwMutex T) : Prop extends m.Core where
  readWaiters_count : m.readWaiters ≠ [] → m.count = -1
  writeWaiters_count : m.writeWaiters ≠ [] → m.count ≠ 0

theorem mem_setPc {l : List T} {a : RwPc} (hmem : ∀ u, u ∈ l ↔ m.pc u = a) (ht : m.pc t ≠ a)
    (hp : p ≠ a) (u : T) : u ∈ l ↔ (m.setPc t p).pc u = a := by
  rw [setPc_pc]
  split_ifs with hut
  · rw [hut, hmem]
    exact iff_of_false ht hp
  · exact hmem u

theorem readers_setPc_of_ne (ht : m.pc t ≠ .reader) (hp : p ≠ .reader) :
    (m.setPc t p).readers = m.readers := by
  ext u
  simp only [readers, Set.mem_ofPred_eq, setPc_pc]
  split_ifs with hut
  · rw [hut]
    exact iff_of_false hp ht
  · rfl

theorem readers_setPc_reader : (m.setPc t .reader).readers = insert t m.readers := by
  ext u
  simp only [readers, Set.mem_ofPred_eq, Set.mem_insert_iff, setPc_pc]
  split_ifs with hut <;> simp [hut]

theorem readers_setPc_leave (hp : p ≠ .reader) :
    (m.setPc t p).readers = m.readers \ {t} := by
  ext u
  simp only [readers, Set.mem_ofPred_eq, Set.mem_sdiff, Set.mem_singleton_iff, setPc_pc]
  split_ifs with hut <;> simp [hut, hp]

omit [DecidableEq T] in
theorem CountOk.eq_neg_one (hc : m.CountOk) (hneg : m.count < 0) : m.count = -1 := by
  cases hc with
  | writer h => exact h
  | readers h => omega

/-- A step of `t` between two places that neither hold the lock. -/
theorem CountOk.setPc (hc : m.CountOk) (ht : m.pc t ≠ .reader ∧ m.pc t ≠ .writer)
    (hp : p ≠ .reader ∧ p ≠ .writer) : (m.setPc t p).CountOk := by
  have hr := readers_setPc_of_ne ht.1 hp.1
  cases hc with
  | writer h w hw huniq hno =>
    have hwt : w ≠ t := fun hwt => ht.2 (hwt ▸ hw)
    refine .writer h w (by rw [setPc_pc_of_ne hwt, hw]) (fun u hu => ?_) (hr.trans hno)
    rw [setPc_pc] at hu
    split_ifs at hu with hut
    · exact absurd hu hp.2
    · exact huniq u hu
  | readers h hno =>
    refine .readers (by rw [setPc_count, h, hr]) (fun u hu => ?_)
    rw [setPc_pc] at hu
    split_ifs at hu
    exacts [hp.2 hu, hno u hu]

omit [DecidableEq T] in
theorem CountOk.of_eq {m' : RwMutex T} (hc : m.CountOk) (hcount : m'.count = m.count)
    (hpc : m'.pc = m.pc) : m'.CountOk := by
  have hr : m'.readers = m.readers := by rw [RwMutex.readers, RwMutex.readers, hpc]
  cases hc with
  | writer h w hw huniq hno => exact .writer (hcount ▸ h) w (hpc ▸ hw) (hpc ▸ huniq) (hr ▸ hno)
  | readers h hno => exact .readers (hcount ▸ hr ▸ h) (hpc ▸ hno)

omit [DecidableEq T] in
/-- With `count` at `0`, nobody holds the lock. -/
theorem Core.free (hc : m.Core) (h0 : m.count = 0) : m.readers = ∅ ∧ ∀ u, m.pc u ≠ .writer := by
  cases hc.count with
  | writer h => omega
  | readers h hno =>
    rw [h0, eq_comm, Nat.cast_eq_zero, Set.ncard_eq_zero hc.finite] at h
    exact ⟨h, hno⟩

namespace Inv

variable (h : m.Inv)
include h

/-- `rwmutex_rdlock` or `rwmutex_try_rdlock` taking the lock with `count` not negative. -/
theorem rdlock (ht : m.pc t = .idle) (hc : 0 ≤ m.count) :
    Inv ({ m with count := m.count + 1 }.setPc t .reader) := by
  obtain ⟨hcnt, hnw⟩ : m.count = m.readers.ncard ∧ ∀ u, m.pc u ≠ .writer := by
    cases h.count with
    | writer h1 => omega
    | readers hcnt hnw => exact ⟨hcnt, hnw⟩
  have htr : t ∉ m.readers := by simp [readers, ht]
  have hr : ({ m with count := m.count + 1 }.setPc t .reader).readers = insert t m.readers :=
    readers_setPc_reader
  refine ⟨⟨h.readWaiterCount, mem_setPc h.mem_readWaiters (by simp [ht]) (by decide),
    mem_setPc h.mem_writeWaiters (by simp [ht]) (by decide), h.nodup_read, h.nodup_write,
    hr ▸ h.finite.insert t, .readers ?_ fun u hu => ?_⟩, fun hrw => ?_, fun _ => ?_⟩
  · rw [hr, Set.ncard_insert_of_notMem htr h.finite, setPc_count, hcnt]
    push_cast
    rfl
  · rw [setPc_pc] at hu
    split_ifs at hu
    exact hnw u hu
  · exact absurd (h.readWaiters_count hrw) (by omega)
  · show m.count + 1 ≠ 0
    omega

/-- `rwmutex_rdlock` queueing behind a writer. -/
theorem rdlockWait (ht : m.pc t = .idle) (hc : m.count < 0) :
    Inv ({ m with
      readWaiterCount := m.readWaiterCount + 1
      readWaiters := m.readWaiters ++ [t] }.setPc t .readWaiting) := by
  have htw : t ∉ m.readWaiters := by simp [h.mem_readWaiters, ht]
  have hc1 := h.count.eq_neg_one hc
  have hr : (m.setPc t .readWaiting).readers = m.readers :=
    readers_setPc_of_ne (by simp [ht]) (by decide)
  refine ⟨⟨by simp [h.readWaiterCount], fun u => ?_,
    mem_setPc h.mem_writeWaiters (by simp [ht]) (by decide), ?_, h.nodup_write,
    show (m.setPc t .readWaiting).readers.Finite from hr ▸ h.finite,
    (h.count.setPc (by simp [ht]) (by decide)).of_eq rfl rfl⟩, fun _ => hc1,
    fun _ => by simp [hc1]⟩
  · rw [setPc_pc]
    split_ifs with hut
    · simp [hut]
    · simp [hut, h.mem_readWaiters u]
  · exact h.nodup_read.append (List.nodup_singleton t) (List.disjoint_singleton.2 htw)

/-- `rwmutex_wrlock` or `rwmutex_try_wrlock` taking the free lock. -/
theorem wrlock (ht : m.pc t = .idle) (hc : m.count = 0) :
    Inv ({ m with count := -1 }.setPc t .writer) := by
  obtain ⟨hno, hnw⟩ := h.free hc
  have hr : ({ m with count := -1 }.setPc t .writer).readers = ∅ :=
    (readers_setPc_of_ne (by simp [ht]) (by decide)).trans hno
  refine ⟨⟨h.readWaiterCount, mem_setPc h.mem_readWaiters (by simp [ht]) (by decide),
    mem_setPc h.mem_writeWaiters (by simp [ht]) (by decide), h.nodup_read, h.nodup_write,
    hr ▸ Set.finite_empty, .writer rfl t setPc_pc_self (fun u hu => ?_) hr⟩,
    fun _ => rfl, fun _ => show (-1 : Int) ≠ 0 by decide⟩
  rw [setPc_pc] at hu
  split_ifs at hu with hut
  exacts [hut, absurd hu (hnw u)]

/-- `rwmutex_wrlock` queueing behind the holders. -/
theorem wrlockWait (ht : m.pc t = .idle) (hc : m.count ≠ 0) :
    Inv ({ m with writeWaiters := m.writeWaiters ++ [t] }.setPc t .writeWaiting) := by
  have htw : t ∉ m.writeWaiters := by simp [h.mem_writeWaiters, ht]
  have hr : (m.setPc t .writeWaiting).readers = m.readers :=
    readers_setPc_of_ne (by simp [ht]) (by decide)
  refine ⟨⟨h.readWaiterCount, mem_setPc h.mem_readWaiters (by simp [ht]) (by decide), fun u => ?_,
    h.nodup_read, h.nodup_write.append (List.nodup_singleton t) (List.disjoint_singleton.2 htw),
    show (m.setPc t .writeWaiting).readers.Finite from hr ▸ h.finite,
    (h.count.setPc (by simp [ht]) (by decide)).of_eq rfl rfl⟩, h.readWaiters_count, fun _ => hc⟩
  rw [setPc_pc]
  split_ifs with hut
  · simp [hut]
  · simp [hut, h.mem_writeWaiters u]

/-- The update of `count` at the start of `rwmutex_unlock` by a holder `t`: the writer leaves
`count` at `0`, a reader takes itself off. -/
theorem release (ht : m.pc t = .reader ∨ m.pc t = .writer) :
    ({ m with count := if m.count < 0 then 0 else m.count - 1 }.setPc t .idle).Core ∧
      (m.readWaiters ≠ [] → (if m.count < 0 then 0 else m.count - 1) ≤ 0) := by
  have hnw : ∀ q, m.pc t = q → q ≠ .readWaiting ∧ q ≠ .writeWaiting := by
    rintro q rfl
    rcases ht with ht | ht <;> simp [ht]
  have hmem_r := mem_setPc (p := .idle) h.mem_readWaiters (hnw _ rfl).1 (by decide)
  have hmem_w := mem_setPc (p := .idle) h.mem_writeWaiters (hnw _ rfl).2 (by decide)
  cases h.count with
  | writer h1 w hw huniq hno =>
    -- the holder is the writer
    have htw : t = w := by
      rcases ht with ht | ht
      · exact absurd (show t ∈ m.readers from ht) (hno ▸ Set.notMem_empty t)
      · exact huniq t ht
    have hr : (m.setPc t .idle).readers = m.readers :=
      readers_setPc_of_ne (by rw [htw, hw]; decide) (by decide)
    refine ⟨⟨h.readWaiterCount, hmem_r, hmem_w, h.nodup_read, h.nodup_write,
      show (m.setPc t .idle).readers.Finite from hr ▸ h.finite, .readers ?_ fun u hu => ?_⟩,
      fun _ => by simp [h1]⟩
    · show (if m.count < 0 then 0 else m.count - 1) = ((m.setPc t .idle).readers.ncard : Int)
      simp [h1, hr, hno]
    · by_cases hut : u = t
      · rw [hut, setPc_pc_self] at hu
        cases hu
      · rw [setPc_pc_of_ne hut] at hu
        exact hut (htw.symm ▸ huniq u hu)
  | readers hcnt hnw' =>
    -- the holder is one of the readers
    have htr : t ∈ m.readers := ht.resolve_right (hnw' t)
    have hr : (m.setPc t .idle).readers = m.readers \ {t} := readers_setPc_leave (by decide)
    have hcard : m.readers.ncard = (m.readers \ {t}).ncard + 1 := by
      rw [← Set.ncard_insert_of_notMem (s := m.readers \ {t}) (a := t) (by simp) h.finite.sdiff,
        Set.insert_sdiff_singleton, Set.insert_eq_of_mem htr]
    refine ⟨⟨h.readWaiterCount, hmem_r, hmem_w, h.nodup_read, h.nodup_write,
      show (m.setPc t .idle).readers.Finite from hr ▸ h.finite.sdiff, .readers ?_ fun u hu => ?_⟩,
      fun hne => absurd (h.readWaiters_count hne) (by omega)⟩
    · show (if m.count < 0 then 0 else m.count - 1) = ((m.setPc t .idle).readers.ncard : Int)
      rw [if_neg (by omega), hr, hcnt, hcard]
      push_cast
      ring
    · by_cases hut : u = t
      · rw [hut, setPc_pc_self] at hu
        cases hu
      · rw [setPc_pc_of_ne hut] at hu
        exact hnw' u hu

end Inv

namespace Core

variable (hc : m.Core)
include hc

/-- The branch of `rwmutex_unlock` that admits every waiting reader. -/
theorem wakeReaders (h0 : m.count = 0) (hpos : m.readWaiterCount > 0) :
    Inv { m with
      count := m.readWaiterCount, readWaiterCount := 0, readWaiters := []
      pc := fun u => if u ∈ m.readWaiters then .reader else m.pc u } := by
  obtain ⟨hno, hnw⟩ := hc.free h0
  have hr : RwMutex.readers { m with
      count := m.readWaiterCount, readWaiterCount := 0, readWaiters := []
      pc := fun u => if u ∈ m.readWaiters then .reader else m.pc u } = {u | u ∈ m.readWaiters} := by
    ext u
    simp only [RwMutex.readers, Set.mem_ofPred_eq]
    split_ifs with hu
    · simp [hu]
    · simp only [hu, iff_false]
      exact fun hu' => (hno ▸ Set.notMem_empty u) hu'
  refine ⟨⟨rfl, fun u => ?_, fun u => ?_, List.nodup_nil, hc.nodup_write,
    hr ▸ m.readWaiters.finite_toSet, .readers ?_ fun u hu => ?_⟩, fun hne => absurd rfl hne,
    fun _ => by simp only; omega⟩
  · simp only [List.not_mem_nil, false_iff]
    split_ifs with hu
    · decide
    · rwa [← hc.mem_readWaiters]
  · simp only
    split_ifs with hu
    · refine iff_of_false (fun huw => ?_) (by decide)
      have := (hc.mem_readWaiters u).1 hu
      rw [(hc.mem_writeWaiters u).1 huw] at this
      cases this
    · exact hc.mem_writeWaiters u
  · rw [hr, ← List.coe_toFinset, Set.ncard_coe_finset, List.toFinset_card_of_nodup hc.nodup_read,
      hc.readWaiterCount]
  · simp only at hu
    split_ifs at hu
    exact hnw u hu

/-- The branch of `rwmutex_unlock` that hands the lock to the first waiting writer `w`. -/
theorem wakeWriter {w : T} {ws : List T} (h0 : m.count = 0) (hw : m.writeWaiters = w :: ws) :
    Inv ({ m with count := -1, writeWaiters := ws }.setPc w .writer) := by
  obtain ⟨hno, hnw⟩ := hc.free h0
  have hwp : m.pc w = .writeWaiting := (hc.mem_writeWaiters w).1 (by simp [hw])
  have hnd := List.nodup_cons.1 (hw ▸ hc.nodup_write)
  have hr : ({ m with count := -1, writeWaiters := ws }.setPc w .writer).readers = ∅ :=
    (readers_setPc_of_ne (m := m) (by rw [hwp]; decide) (by decide)).trans hno
  refine ⟨⟨hc.readWaiterCount, mem_setPc hc.mem_readWaiters (by rw [hwp]; decide) (by decide),
    fun u => ?_, hc.nodup_read, hnd.2, hr ▸ Set.finite_empty,
    .writer rfl w setPc_pc_self (fun u hu => ?_) hr⟩, fun _ => rfl,
    fun _ => show (-1 : Int) ≠ 0 by decide⟩
  · rw [setPc_pc]
    split_ifs with huw
    · rw [huw]
      exact iff_of_false hnd.1 (by decide)
    · rw [← hc.mem_writeWaiters u, hw, List.mem_cons]
      simp [huw]
  · rw [setPc_pc] at hu
    split_ifs at hu with huw
    exacts [huw, absurd hu (hnw u)]

/-- The end of `rwmutex_unlock` restores the invariant. -/
theorem handOff (hr : m.readWaiters ≠ [] → m.count ≤ 0) : m.handOff.Inv := by
  unfold RwMutex.handOff
  split_ifs with h₁ h₀
  · exact hc.wakeReaders h₁.1 h₁.2
  · split
    · -- no waiter at all: the readers' queue is empty as its count is not positive
      have hnil : m.readWaiters = [] := by
        rw [← List.length_eq_zero_iff]
        have := hc.readWaiterCount
        by_contra hne
        exact h₁ ⟨h₀, by omega⟩
      exact ⟨hc, fun hne => absurd hnil hne, fun hne => absurd ‹_› hne⟩
    · exact hc.wakeWriter h₀ ‹_›
  · exact ⟨hc, fun hne => hc.count.eq_neg_one (lt_of_le_of_ne (hr hne) h₀), fun _ => h₀⟩

end Core

theorem Inv.step {op : RwMutexOp T} {m' : RwMutex T} (h : m.Inv) (hs : RwMutexStep m op m') :
    m'.Inv := by
  cases hs with
  | rdlock ht hc | tryRdlock ht hc => exact h.rdlock ht hc
  | rdlockWait ht hc => exact h.rdlockWait ht hc
  | tryRdlockBusy | tryWrlockBusy => exact h
  | wrlock ht hc | tryWrlock ht hc => exact h.wrlock ht hc
  | wrlockWait ht hc => exact h.wrlockWait ht hc
  | unlock ht _ =>
    obtain ⟨hcore, hr⟩ := h.release ht
    exact hcore.handOff hr

theorem rwmutexStep_invariant : StepRun.Invariant (rwmutexStep (T := T)) Inv :=
  fun _ _ _ h hs => h.step (.of_rwmutexStep hs)

omit [DecidableEq T] in
theorem init_rwmutex_inv : (RwMutex.init : RwMutex T).Inv := by
  have hr : (RwMutex.init : RwMutex T).readers = ∅ := by
    ext u
    simp [RwMutex.readers, RwMutex.init]
  refine ⟨⟨rfl, fun u => ?_, fun u => ?_, List.nodup_nil, List.nodup_nil, hr ▸ Set.finite_empty,
    .readers (by rw [hr, Set.ncard_empty]; rfl) fun u => ?_⟩, fun hne => absurd rfl hne,
    fun hne => absurd rfl hne⟩ <;> simp [RwMutex.init]

omit [DecidableEq T] in
/-- `count` is `-1` exactly when one writer holds the lock and no reader does. -/
theorem CountOk.eq_neg_one_iff (hc : m.CountOk) :
    m.count = -1 ↔ (∃ w, m.pc w = .writer ∧ ∀ u, m.pc u = .writer → u = w) ∧
      ∀ u, m.pc u ≠ .reader := by
  cases hc with
  | writer h w hw huniq hno =>
    refine iff_of_true h ⟨⟨w, hw, huniq⟩, fun u hu => ?_⟩
    exact (hno ▸ Set.notMem_empty u) (show u ∈ m.readers from hu)
  | readers h hno =>
    refine iff_of_false (by omega) fun ⟨⟨w, hw, _⟩, _⟩ => hno w hw

omit [DecidableEq T] in
/-- `count` is `n ≥ 0` exactly when no writer and `n` readers hold the lock. -/
theorem CountOk.eq_natCast_iff (hc : m.CountOk) (hf : m.readers.Finite) (n : ℕ) :
    m.count = n ↔ (∀ u, m.pc u ≠ .writer) ∧ m.readers.Finite ∧ m.readers.ncard = n := by
  cases hc with
  | writer h w hw =>
    exact iff_of_false (by omega) fun ⟨hno, _⟩ => hno w hw
  | readers h hno =>
    rw [h, Nat.cast_inj]
    exact ⟨fun hn => ⟨hno, hf, hn⟩, fun ⟨_, _, hn⟩ => hn⟩

omit [DecidableEq T] in
theorem CountOk.count_cases (hc : m.CountOk) : m.count = -1 ∨ 0 ≤ m.count := by
  cases hc with
  | writer h => exact .inl h
  | readers h => exact .inr (h ▸ Int.natCast_nonneg _)

end RwMutex

/-- The rwmutex over any interleaving of the calls of any threads: `count` is `-1` exactly when
one writer and no reader holds it and `n ≥ 0` exactly when `n` readers and no writer do;
`read_waiter_count` counts the waiting readers; and no waiter is left while the lock could admit
it. -/
theorem rwmutexStep_run_ok {m : RwMutex T} (ops : List (RwMutexOp T))
    (hm : StepRun.run rwmutexStep RwMutex.init ops = some m) :
    (m.count = -1 ∨ 0 ≤ m.count) ∧
    (m.count = -1 ↔ (∃ w, m.pc w = .writer ∧ ∀ u, m.pc u = .writer → u = w) ∧
      ∀ u, m.pc u ≠ .reader) ∧
    (∀ n : ℕ, m.count = n ↔ (∀ u, m.pc u ≠ .writer) ∧ {u | m.pc u = .reader}.Finite ∧
      {u | m.pc u = .reader}.ncard = n) ∧
    m.readWaiterCount = m.readWaiters.length ∧
    (m.readWaiters ≠ [] → m.count = -1) ∧
    (m.writeWaiters ≠ [] → m.count ≠ 0) := by
  have h := RwMutex.rwmutexStep_invariant.run RwMutex.init_rwmutex_inv hm
  exact ⟨h.count.count_cases, h.count.eq_neg_one_iff, h.count.eq_natCast_iff h.finite,
    h.readWaiterCount, h.readWaiters_count, h.writeWaiters_count⟩

/-- A writer holds the lock while two readers and a writer queue; its unlock admits both readers
and leaves the writer waiting. -/
theorem rwmutexStep_run_ok_readers : ∃ m : RwMutex Nat,
    StepRun.run rwmutexStep RwMutex.init
      [.wrlock 0, .rdlock 1, .rdlock 2, .wrlock 3, .unlock 0] = some m ∧
    ((m.count = -1 ∨ 0 ≤ m.count) ∧
    (m.count = -1 ↔ (∃ w, m.pc w = .writer ∧ ∀ u, m.pc u = .writer → u = w) ∧
      ∀ u, m.pc u ≠ .reader) ∧
    (∀ n : ℕ, m.count = n ↔ (∀ u, m.pc u ≠ .writer) ∧ {u | m.pc u = .reader}.Finite ∧
      {u | m.pc u = .reader}.ncard = n) ∧
    m.readWaiterCount = m.readWaiters.length ∧
    (m.readWaiters ≠ [] → m.count = -1) ∧
    (m.writeWaiters ≠ [] → m.count ≠ 0)) :=
  ⟨_, rfl, rwmutexStep_run_ok [.wrlock 0, .rdlock 1, .rdlock 2, .wrlock 3, .unlock 0] rfl⟩

end Caladan
