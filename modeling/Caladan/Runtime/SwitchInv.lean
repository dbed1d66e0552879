import Mathlib
import Caladan.Runtime.Switch

/-!
# What the switch keeps (`SwSys.Inv`)

`SwSys.placed` is the multiset of the threads in the queues and in the kthreads' hands, and
`SwSys.held` that of the `thread_running` flags the kthreads hold. `SwSys.Inv` holds in every state
the steps of `SwSys.step` reach:

* an allocated thread is in exactly one place: a queue, a kthread's hand, or parked; a freed one is
  nowhere;
* `thread_running` of an allocated thread is set exactly when one kthread holds it;
* a kthread about to set `thread_running` saw it clear, and nothing set it since;
* a trap frame is written in part only by the save in progress, which has done the stores it
  says it has;
* in `enter_schedule` the threads of the kthread's own queue parked before the thread it leaves,
  and so did the thread its fast path took.

From it follow the three properties of the switch: two kthreads never use one thread's stack, a
restore reads a complete trap frame, and a kthread spins only on a flag another kthread holds,
with no cycle of kthreads that spin on each other (the time of the last park of the thread a
spinning kthread leaves is a rank that falls along the waits-for edges).
-/

namespace Caladan

variable {T : Type} {nk : Nat}

/-- The threads a kthread has: its queue and its hand. -/
def SwKthread.part (kt : SwKthread T) : Multiset T :=
  (kt.q.all : Multiset T) + (kt.pc.tokens : Multiset T)

theorem SwKthread.mem_part_of_queue {kt : SwKthread T} {th : T} (h : th ∈ kt.q.all) :
    th ∈ kt.part :=
  Multiset.mem_add.mpr (.inl (Multiset.mem_coe.mpr h))

theorem SwKthread.mem_part_of_tokens {kt : SwKthread T} {th : T} (h : th ∈ kt.pc.tokens) :
    th ∈ kt.part :=
  Multiset.mem_add.mpr (.inr (Multiset.mem_coe.mpr h))

namespace SwPc

/-! Which threads each place reads; every thread a place uses is one it holds or has in hand. -/

variable {p : SwPc T} {th cur : T}

theorem mem_holding_of_inUse (h : p.inUse = some th) : th ∈ p.holding := by
  cases p <;> simp_all [inUse, holding]

theorem mem_holding_of_restoring (h : p.restoring = some th) : th ∈ p.holding := by
  cases p <;> simp_all [restoring, holding]

theorem mem_holding_of_saving (h : p.saving = some th) : th ∈ p.holding := by
  cases p with
  | save cur fn i => cases i <;> simp_all [saving, holding]
  | dSave cur th' i => cases i <;> simp_all [saving, holding]
  | _ => simp [saving] at h

theorem saving_of_restoring (h : p.restoring = some th) : p.saving = none := by
  cases p <;> simp_all [restoring, saving]

theorem mem_tokens_of_spinOn (h : p.spinOn = some th) : th ∈ p.tokens := by
  cases p <;> simp_all [spinOn, tokens]

theorem mem_tokens_of_setting (h : p.setting = some th) : th ∈ p.tokens := by
  cases p <;> simp_all [setting, tokens]

theorem mem_holding_of_entering (h : p.entering = some cur) : cur ∈ p.holding := by
  cases p <;> simp_all [entering, holding]

theorem mem_of_direct (h : p.direct = some (cur, th)) : cur ∈ p.holding ∧ th ∈ p.tokens := by
  cases p <;> simp_all [direct, holding, tokens]

/-- A spinning kthread holds a flag only on the fast path, and then the one of the thread it
leaves. -/
theorem eq_dSpin_of_holding (h : p.spinOn = some th) (hc : cur ∈ p.holding) :
    p = .dSpin cur th := by
  cases p <;> simp_all [spinOn, holding]

theorem mem_holding_of_savePos (h : p.savePos = some (th, i)) : th ∈ p.holding := by
  cases p <;> simp_all [savePos, holding]

theorem savePos_of_saving (h : p.saving = some th) : ∃ i, p.savePos = some (th, i + 1) := by
  cases p with
  | save cur fn i => cases i <;> simp_all [saving, savePos]
  | dSave cur th' i => cases i <;> simp_all [saving, savePos]
  | _ => simp [saving] at h

/-- A place that may make a thread ready sets no flag, saves nothing, and is neither in
`enter_schedule` nor on the fast path. -/
theorem of_wakes (h : p.wakes = true) :
    p.setting = none ∧ p.savePos = none ∧ p.entering = none ∧ p.direct = none := by
  cases p <;> simp_all [wakes, setting, savePos, entering, direct]

end SwPc

namespace SwSys

/-- The threads in the queues and in the kthreads' hands. -/
def placed (s : SwSys T nk) : Multiset T := ∑ k, (s.ks k).part

/-- The `thread_running` flags the kthreads hold. -/
def held (s : SwSys T nk) : Multiset T := ∑ k, ((s.ks k).pc.holding : Multiset T)

section
variable (s : SwSys T nk) (k : Fin nk) (kt : SwKthread T)

@[simp] theorem setK_ks_self : (s.setK k kt).ks k = kt := Function.update_self _ _ _

@[simp] theorem setK_ks_of_ne {j : Fin nk} (h : j ≠ k) : (s.setK k kt).ks j = s.ks j :=
  Function.update_of_ne h _ _

@[simp] theorem setK_ths : (s.setK k kt).ths = s.ths := rfl

@[simp] theorem setK_clock : (s.setK k kt).clock = s.clock := rfl

/-- `P` of every kthread after one is replaced, from `P` of the new one and of the others. -/
theorem forall_setK {P : SwKthread T → Prop} {kt : SwKthread T} (hk : P kt)
    (hj : ∀ j, j ≠ k → P (s.ks j)) (j : Fin nk) : P ((s.setK k kt).ks j) := by
  by_cases h : j = k
  · subst h
    rwa [setK_ks_self]
  · rw [setK_ks_of_ne s k kt h]
    exact hj j h

/-- Replacing one kthread replaces its summand in a sum over the kthreads. -/
theorem sum_setK {M : Type*} [AddCommMonoid M] (f : SwKthread T → M) :
    ∑ j, f ((s.setK k kt).ks j) + f (s.ks k) = ∑ j, f (s.ks j) + f kt := by
  have e : ∀ j, f ((s.setK k kt).ks j) = Function.update (fun j => f (s.ks j)) k (f kt) j :=
    fun j => Function.apply_update (fun _ => f) s.ks k kt j
  simp only [e]
  rw [Finset.sum_update_of_mem (Finset.mem_univ k), ← Finset.add_sum_erase _ _ (Finset.mem_univ k),
    Finset.sdiff_singleton_eq_erase]
  abel

theorem placed_setK : (s.setK k kt).placed + (s.ks k).part = s.placed + kt.part :=
  sum_setK s k kt SwKthread.part

theorem held_setK :
    (s.setK k kt).held + ((s.ks k).pc.holding : Multiset T) = s.held + kt.pc.holding :=
  sum_setK s k kt fun kt => (kt.pc.holding : Multiset T)

theorem placed_setK_of_part (hp : kt.part = (s.ks k).part) : (s.setK k kt).placed = s.placed :=
  add_right_cancel ((placed_setK s k kt).trans (by rw [hp]))

theorem held_setK_of_holding (hh : kt.pc.holding = (s.ks k).pc.holding) :
    (s.setK k kt).held = s.held :=
  add_right_cancel ((held_setK s k kt).trans (by rw [hh]))

theorem placed_setPc {p : SwPc T} (htok : p.tokens = (s.ks k).pc.tokens) :
    (s.setPc k p).placed = s.placed :=
  placed_setK_of_part s k _ (by simp [SwKthread.part, htok])

theorem held_setPc {p : SwPc T} (hhold : p.holding = (s.ks k).pc.holding) :
    (s.setPc k p).held = s.held :=
  held_setK_of_holding s k _ hhold

/-- A kthread's summand is part of the sum; two kthreads' summands are. -/
theorem le_sum (f : Fin nk → Multiset T) : f k ≤ ∑ j, f j := by
  simpa using Finset.sum_le_sum_of_subset (f := f) (Finset.subset_univ {k})

theorem pair_le_sum (f : Fin nk → Multiset T) {j : Fin nk} (hjk : j ≠ k) :
    f j + f k ≤ ∑ x, f x :=
  calc f j + f k = ∑ x ∈ {j, k}, f x := by rw [Finset.sum_pair hjk]
    _ ≤ ∑ x, f x := Finset.sum_le_sum_of_subset (Finset.subset_univ _)

theorem mem_placed_of_part {th : T} (hm : th ∈ (s.ks k).part) : th ∈ s.placed :=
  Multiset.mem_of_le (le_sum k fun j => (s.ks j).part) hm

theorem mem_held_of_holding {th : T} (hm : th ∈ (s.ks k).pc.holding) : th ∈ s.held :=
  Multiset.mem_of_le (le_sum k fun j => ((s.ks j).pc.holding : Multiset T)) hm

@[simp] theorem placed_withClock (c : Nat) : ({ s with clock := c } : SwSys T nk).placed = s.placed :=
  rfl

@[simp] theorem held_withClock (c : Nat) : ({ s with clock := c } : SwSys T nk).held = s.held := rfl

/-- A new queue changes the threads placed by the difference of the queues. -/
theorem placed_setQ (q : SwQueue T) :
    (s.setQ k q).placed + ((s.ks k).q.all : Multiset T) = s.placed + q.all := by
  have e := placed_setK s k { s.ks k with q := q }
  simp only [SwKthread.part, ← add_assoc] at e
  exact add_right_cancel e

@[simp] theorem held_setQ (q : SwQueue T) : (s.setQ k q).held = s.held :=
  held_setK_of_holding s k _ rfl

@[simp] theorem setQ_ths (q : SwQueue T) : (s.setQ k q).ths = s.ths := rfl

@[simp] theorem setQ_clock (q : SwQueue T) : (s.setQ k q).clock = s.clock := rfl

@[simp] theorem setQ_pc (q : SwQueue T) (j : Fin nk) : ((s.setQ k q).ks j).pc = (s.ks j).pc := by
  by_cases hjk : j = k
  · subst hjk
    simp [setQ]
  · simp [setQ, hjk]

end

section
variable [DecidableEq T] (s : SwSys T nk) (k : Fin nk) (kt : SwKthread T)

@[simp] theorem modTh_ks (th : T) (f : SwThread → SwThread) : (s.modTh th f).ks = s.ks := rfl

@[simp] theorem modTh_clock (th : T) (f : SwThread → SwThread) :
    (s.modTh th f).clock = s.clock := rfl

@[simp] theorem modTh_ths_self (th : T) (f : SwThread → SwThread) :
    (s.modTh th f).ths th = f (s.ths th) :=
  Function.update_self _ _ _

@[simp] theorem modTh_ths_of_ne {th x : T} (f : SwThread → SwThread) (h : x ≠ th) :
    (s.modTh th f).ths x = s.ths x :=
  Function.update_of_ne h _ _

theorem count_placed_setK (th : T) :
    (s.setK k kt).placed.count th + (s.ks k).part.count th = s.placed.count th + kt.part.count th := by
  simpa only [Multiset.count_add] using congrArg (Multiset.count th) (placed_setK s k kt)

theorem count_held_setK (th : T) :
    (s.setK k kt).held.count th + (s.ks k).pc.holding.count th =
      s.held.count th + kt.pc.holding.count th := by
  simpa only [Multiset.count_add, Multiset.coe_count] using
    congrArg (Multiset.count th) (held_setK s k kt)

variable (x : T)

@[simp] theorem setRunning_ths (b : Bool) (y : T) :
    (s.setRunning x b).ths y = { s.ths y with running := if y = x then b else (s.ths y).running } := by
  by_cases hy : y = x
  · subst hy
    simp [setRunning]
  · simp [setRunning, hy]

@[simp] theorem setTf_ths (n : Nat) (y : T) :
    (s.setTf x n).ths y = { s.ths y with tfSaved := if y = x then n else (s.ths y).tfSaved } := by
  by_cases hy : y = x
  · subst hy
    simp [setTf]
  · simp [setTf, hy]

@[simp] theorem setRunning_ks (b : Bool) : (s.setRunning x b).ks = s.ks := rfl

@[simp] theorem setTf_ks (n : Nat) : (s.setTf x n).ks = s.ks := rfl

@[simp] theorem setRunning_clock (b : Bool) : (s.setRunning x b).clock = s.clock := rfl

@[simp] theorem setTf_clock (n : Nat) : (s.setTf x n).clock = s.clock := rfl

@[simp] theorem placed_setRunning (b : Bool) : (s.setRunning x b).placed = s.placed := rfl

@[simp] theorem placed_setTf (n : Nat) : (s.setTf x n).placed = s.placed := rfl

@[simp] theorem held_setRunning (b : Bool) : (s.setRunning x b).held = s.held := rfl

@[simp] theorem held_setTf (n : Nat) : (s.setTf x n).held = s.held := rfl

@[simp] theorem placed_modTh (th : T) (f : SwThread → SwThread) :
    (s.modTh th f).placed = s.placed := rfl

@[simp] theorem held_modTh (th : T) (f : SwThread → SwThread) : (s.modTh th f).held = s.held :=
  rfl

end

/-- What the invariant says of one kthread, in the threads `ths`. -/
structure KthreadOk (ths : T → SwThread) (kt : SwKthread T) : Prop where
  /-- the flag it is about to set is clear -/
  setting : ∀ th, kt.pc.setting = some th → (ths th).running = false
  /-- its save in progress has done the stores it says it has -/
  savePos : ∀ th i, kt.pc.savePos = some (th, i) →
    i < tfWords ∧ (ths th).tfSaved = if i = 0 then tfWords else i
  /-- in `enter_schedule`, the threads of its queue parked before the one it leaves -/
  entering : ∀ cur, kt.pc.entering = some cur →
    ∀ w ∈ kt.q.all, w ≠ cur → (ths w).parkedAt < (ths cur).parkedAt
  /-- and so did the thread its fast path took -/
  direct : ∀ cur th, kt.pc.direct = some (cur, th) → (ths th).parkedAt < (ths cur).parkedAt

namespace KthreadOk

variable {ths ths' : T → SwThread} {kt : SwKthread T}

/-- A kthread reads the flag it is about to set, the frame of a thread whose flag it holds, and
the park times of the threads it has or holds. -/
theorem congr (h : KthreadOk ths kt)
    (hrun : ∀ x, kt.pc.setting = some x → (ths x).running = false → (ths' x).running = false)
    (htf : ∀ x ∈ kt.pc.holding, (ths' x).tfSaved = (ths x).tfSaved)
    (hpark : ∀ x, x ∈ kt.part ∨ x ∈ kt.pc.holding → (ths' x).parkedAt = (ths x).parkedAt) :
    KthreadOk ths' kt where
  setting th hs := hrun th hs (h.setting th hs)
  savePos th i hs := by
    rw [htf th (SwPc.mem_holding_of_savePos hs)]
    exact h.savePos th i hs
  entering cur hc w hw hne := by
    rw [hpark w (.inl (SwKthread.mem_part_of_queue hw)),
      hpark cur (.inr (SwPc.mem_holding_of_entering hc))]
    exact h.entering cur hc w hw hne
  direct cur th hd := by
    have hm := SwPc.mem_of_direct hd
    rw [hpark th (.inl (SwKthread.mem_part_of_tokens hm.2)),
      hpark cur (.inr hm.1)]
    exact h.direct cur th hd

/-- A change of one thread keeps what a kthread says if it keeps what the kthread reads of it. -/
theorem congr_update [DecidableEq T] (h : KthreadOk ths kt) {x : T} {t : SwThread}
    (hrun : kt.pc.setting = some x → (ths x).running = false → t.running = false)
    (htf : x ∈ kt.pc.holding → t.tfSaved = (ths x).tfSaved)
    (hpark : x ∈ kt.part ∨ x ∈ kt.pc.holding → t.parkedAt = (ths x).parkedAt) :
    KthreadOk (Function.update ths x t) kt := by
  -- at `x` the hypotheses, elsewhere nothing changed
  refine h.congr (fun y hy hr => ?_) (fun y hy => ?_) (fun y hy => ?_)
  · by_cases hyx : y = x
    · subst hyx
      simpa using hrun hy hr
    · simpa [Function.update_of_ne hyx] using hr
  · by_cases hyx : y = x
    · subst hyx
      simpa using htf hy
    · simp [Function.update_of_ne hyx]
  · by_cases hyx : y = x
    · subst hyx
      simpa using hpark hy
    · simp [Function.update_of_ne hyx]

/-- A place that sets no flag, saves nothing and is neither in `enter_schedule` nor on the fast
path asks nothing of the threads. -/
theorem of_none (hset : kt.pc.setting = none) (hsave : kt.pc.savePos = none)
    (hent : kt.pc.entering = none) (hdir : kt.pc.direct = none) : KthreadOk ths kt where
  setting th hs := by simp [hset] at hs
  savePos th i hs := by simp [hsave] at hs
  entering cur hc := by simp [hent] at hc
  direct cur th hd := by simp [hdir] at hd

/-- A kthread that moves to a place that asks no more of the threads than its old one, and saves
nothing, keeps what it says. -/
theorem setPc (h : KthreadOk ths kt) {p : SwPc T}
    (hset : ∀ th, p.setting = some th → (ths th).running = false) (hsave : p.savePos = none)
    (hent : p.entering = none ∨ p.entering = kt.pc.entering)
    (hdir : p.direct = none ∨ p.direct = kt.pc.direct) : KthreadOk ths { kt with pc := p } where
  setting := hset
  savePos th i hs := by simp [hsave] at hs
  entering cur hc := by
    rcases hent with hent | hent
    · simp [hent] at hc
    · exact h.entering cur (hent ▸ hc)
  direct cur th hd := by
    rcases hdir with hdir | hdir
    · simp [hdir] at hd
    · exact h.direct cur th (hdir ▸ hd)

/-- A new queue keeps what a kthread says if it is not in `enter_schedule` or the queue only lost
threads. -/
theorem setQ (h : KthreadOk ths kt) {q : SwQueue T}
    (hq : kt.pc.entering = none ∨ ∀ w ∈ q.all, w ∈ kt.q.all) : KthreadOk ths { kt with q := q } where
  setting := h.setting
  savePos := h.savePos
  entering cur hc w hw hne := by
    rcases hq with hq | hq
    · simp [hq] at hc
    · exact h.entering cur hc w (hq w hw) hne
  direct := h.direct

/-- Clearing a flag keeps what every kthread says. -/
theorem clear_running [DecidableEq T] (h : KthreadOk ths kt) (x : T) :
    KthreadOk (Function.update ths x { ths x with running := false }) kt :=
  h.congr_update (fun _ _ => rfl) (fun _ => rfl) (fun _ => rfl)

end KthreadOk

variable [DecidableEq T]

/-- The switch invariant. -/
structure Inv (s : SwSys T nk) : Prop where
  /-- an allocated thread is queued, in a kthread's hand, or parked; a freed one is nowhere -/
  place : ∀ th, s.placed.count th + (s.ths th).waiting.toNat = (s.ths th).alive.toNat
  /-- `thread_running` of an allocated thread is set exactly when one kthread holds it -/
  held : ∀ th, s.held.count th = ((s.ths th).alive && (s.ths th).running).toNat
  kthread : ∀ k, KthreadOk s.ths (s.ks k)
  /-- a trap frame is written in part only by the save in progress -/
  saved : ∀ th, (s.ths th).tfSaved ≠ tfWords → ∃ k, (s.ks k).pc.saving = some th
  /-- the clock is ahead of every park -/
  clock : ∀ th, (s.ths th).parkedAt < s.clock

namespace Inv

variable {s : SwSys T nk} (h : s.Inv) {th : T}
include h

theorem count_placed_le (th : T) : s.placed.count th ≤ 1 := by
  have := h.place th
  have := Bool.toNat_le (s.ths th).alive
  omega

theorem alive_of_mem_placed (hm : th ∈ s.placed) :
    (s.ths th).alive = true ∧ (s.ths th).waiting = false := by
  have hc := Multiset.count_pos.mpr hm
  have hp := h.place th
  revert hp
  cases (s.ths th).alive <;> cases (s.ths th).waiting <;> simp <;> omega

theorem count_held_le (th : T) : s.held.count th ≤ 1 := by
  rw [h.held th]
  exact Bool.toNat_le _

theorem running_of_mem_held (hm : th ∈ s.held) :
    (s.ths th).alive = true ∧ (s.ths th).running = true := by
  have hc := Multiset.count_pos.mpr hm
  rw [h.held th] at hc
  revert hc
  cases (s.ths th).alive <;> cases (s.ths th).running <;> simp

/-- One place: a thread is in the part of one kthread, and once there. -/
theorem part_unique {j k : Fin nk} (hj : th ∈ (s.ks j).part) (hk : th ∈ (s.ks k).part) : j = k := by
  by_contra hjk
  have hle := Multiset.count_le_of_le th (pair_le_sum k (fun x => (s.ks x).part) hjk)
  rw [Multiset.count_add] at hle
  have := Multiset.count_pos.mpr hj
  have := Multiset.count_pos.mpr hk
  have := h.count_placed_le th
  unfold SwSys.placed at this
  omega

/-- One holder: a flag is held by one kthread, and once. -/
theorem holding_unique {j k : Fin nk} (hj : th ∈ (s.ks j).pc.holding)
    (hk : th ∈ (s.ks k).pc.holding) : j = k := by
  by_contra hjk
  have hle := Multiset.count_le_of_le th
    (pair_le_sum k (fun x => ((s.ks x).pc.holding : Multiset T)) hjk)
  rw [Multiset.count_add, Multiset.coe_count, Multiset.coe_count] at hle
  have := List.count_pos_iff.mpr hj
  have := List.count_pos_iff.mpr hk
  have := h.count_held_le th
  unfold SwSys.held at this
  omega

/-- The frame of a thread whose flag a kthread holds is complete unless that kthread saves it. -/
theorem tfSaved_of_mem_holding {k : Fin nk} (hk : th ∈ (s.ks k).pc.holding)
    (hs : (s.ks k).pc.saving = none) : (s.ths th).tfSaved = tfWords := by
  by_contra hne
  obtain ⟨j, hj⟩ := h.saved th hne
  obtain rfl := h.holding_unique (SwPc.mem_holding_of_saving hj) hk
  simp [hs] at hj

/-- A step that changes no frame, leaves the other kthreads where they are and moves a kthread
that saved nothing keeps every partly written frame with its save. -/
theorem saved_of_stay {s' : SwSys T nk} {k : Fin nk} (hsv : (s.ks k).pc.saving = none)
    (htf : ∀ x, (s'.ths x).tfSaved = (s.ths x).tfSaved)
    (hks : ∀ j, j ≠ k → (s'.ks j).pc = (s.ks j).pc) (x : T)
    (hx : (s'.ths x).tfSaved ≠ tfWords) : ∃ j, (s'.ks j).pc.saving = some x := by
  obtain ⟨j, hj⟩ := h.saved x (htf x ▸ hx)
  have hjk : j ≠ k := by
    rintro rfl
    simp [hsv] at hj
  exact ⟨j, by rw [hks j hjk]; exact hj⟩

/-! ### One step of one kthread -/

/-- A kthread replaced by one with the same threads and flags, whose place the invariant allows
and which saves what it saved, keeps the invariant. -/
theorem setK {k : Fin nk} {kt : SwKthread T} (hpart : kt.part = (s.ks k).part)
    (hhold : kt.pc.holding = (s.ks k).pc.holding) (hok : KthreadOk s.ths kt)
    (hsaving : kt.pc.saving = (s.ks k).pc.saving) : (s.setK k kt).Inv where
  place := by
    rw [placed_setK_of_part _ _ _ hpart]
    exact h.place
  held := by
    rw [held_setK_of_holding _ _ _ hhold]
    exact h.held
  kthread := forall_setK s k hok fun j _ => h.kthread j
  saved th hne := by
    obtain ⟨j, hj⟩ := h.saved th hne
    by_cases hjk : j = k
    · subst hjk
      exact ⟨j, by simp [hsaving, hj]⟩
    · exact ⟨j, by simp [hjk, hj]⟩
  clock := h.clock

/-- A kthread that moves with the same threads and flags to a place the invariant allows keeps
it. -/
theorem movePc {k : Fin nk} {p : SwPc T} (htok : p.tokens = (s.ks k).pc.tokens)
    (hhold : p.holding = (s.ks k).pc.holding) (hsaving : p.saving = (s.ks k).pc.saving)
    (hok : KthreadOk s.ths { s.ks k with pc := p }) : (s.setPc k p).Inv :=
  h.setK (by simp [SwKthread.part, htok]) hhold hok hsaving

/-- `thread_ready` is read by no part of the invariant. -/
theorem setReady (th : T) (b : Bool) : (s.setReady th b).Inv := by
  have e : ∀ x, (s.modTh th fun t => { t with ready := b }).ths x =
      { s.ths x with ready := if x = th then b else (s.ths x).ready } := by
    intro x
    by_cases hx : x = th
    · subst hx
      simp
    · simp [hx]
  obtain ⟨place, held, kthread, saved, clock⟩ := h
  refine ⟨?_, ?_, fun k => ?_, ?_, ?_⟩
  · simpa only [SwSys.setReady, e, placed_modTh] using place
  · simpa only [SwSys.setReady, e, held_modTh] using held
  · simpa only [SwSys.setReady, modTh_ks] using
      (kthread k).congr (by simp [e]) (by simp [e]) (by simp [e])
  · simpa only [SwSys.setReady, e, modTh_ks] using saved
  · simpa only [SwSys.setReady, e, modTh_clock] using clock

/-- A store of a save, in `__jmp_runtime` or `__jmp_thread_direct`: one more word of the frame,
and the kthread moves on. -/
theorem save {k : Fin nk} {cur : T} {i : Nat} {p : SwPc T}
    (hk : (s.ks k).pc.savePos = some (cur, i))
    (htok : p.tokens = (s.ks k).pc.tokens) (hhold : p.holding = (s.ks k).pc.holding)
    (hsave : p.savePos = if i + 1 < tfWords then some (cur, i + 1) else none)
    (hsaving : p.saving = if i + 1 < tfWords then some cur else none)
    (hset : p.setting = none) (hent : p.entering = none) (hdir : p.direct = none) :
    ((s.setPc k p).setTf cur (i + 1)).Inv := by
  have hi := ((h.kthread k).savePos cur i hk).1
  have hcur := SwPc.mem_holding_of_savePos hk
  refine ⟨fun x => ?_, fun x => ?_, fun j => ?_, fun x hx => ?_, fun x => ?_⟩
  · rw [placed_setTf, placed_setPc s k htok]
    simpa [SwSys.setPc] using h.place x
  · rw [held_setTf, held_setPc s k hhold]
    simpa [SwSys.setPc] using h.held x
  · by_cases hjk : j = k
    · -- the saving kthread's new place
      subst hjk
      simp only [setTf_ks, SwSys.setPc, setK_ks_self]
      refine ⟨by simp [hset], fun th i' hs => ?_, by simp [hent], by simp [hdir]⟩
      rw [hsave] at hs
      split_ifs at hs with hlt
      obtain ⟨rfl, rfl⟩ := Prod.mk.inj (Option.some.inj hs)
      simp [hlt]
    · -- `cur`'s flag is held by the saving kthread, so no other one reads its frame
      simp only [setTf_ks, SwSys.setPc, setK_ks_of_ne _ _ _ hjk]
      exact (h.kthread j).congr_update (fun _ hr => hr)
        (fun hc => absurd (h.holding_unique hc hcur) hjk) (fun _ => rfl)
  · by_cases hxc : x = cur
    · subst hxc
      have hlt : i + 1 < tfWords := by
        simp only [setTf_ths, if_true] at hx
        omega
      exact ⟨k, by simp [SwSys.setPc, hsaving, hlt]⟩
    · obtain ⟨j, hj⟩ := h.saved x (by simpa [SwSys.setPc, hxc] using hx)
      by_cases hjk : j = k
      · subst hjk
        obtain ⟨i', hi'⟩ := SwPc.savePos_of_saving hj
        rw [hk] at hi'
        exact absurd (Prod.mk.inj (Option.some.inj hi')).1.symm hxc
      · exact ⟨j, by simp [SwSys.setPc, hjk, hj]⟩
  · simpa [SwSys.setPc] using h.clock x

/-- `thread_running = true` after the spin, in `jmp_thread` or `jmp_thread_direct`: the kthread
holds the flag from now on. -/
theorem set {k : Fin nk} {th : T} {p : SwPc T} (hk : (s.ks k).pc.setting = some th)
    (hsv : (s.ks k).pc.saving = none) (htok : p.tokens = (s.ks k).pc.tokens)
    (hhold : (p.holding : Multiset T) = th ::ₘ (s.ks k).pc.holding)
    (hsave : ∀ c i, p.savePos = some (c, i) → i = 0 ∧ c ∈ (s.ks k).pc.holding)
    (hset : p.setting = none) (hent : p.entering = none) (hdir : p.direct = none) :
    ((s.setPc k p).setRunning th true).Inv := by
  have hrun := (h.kthread k).setting th hk
  have hpk := SwKthread.mem_part_of_tokens (SwPc.mem_tokens_of_setting hk)
  have halive := (h.alive_of_mem_placed (mem_placed_of_part s k hpk)).1
  refine ⟨fun x => ?_, fun x => ?_, fun j => ?_,
    h.saved_of_stay hsv (fun _ => by simp [SwSys.setPc]) fun j hjk => by simp [SwSys.setPc, hjk],
    fun x => ?_⟩
  · rw [placed_setRunning, placed_setPc s k htok]
    simpa [SwSys.setPc] using h.place x
  · -- the count of `th` goes up by one, and its flag is set
    have e := count_held_setK s k { s.ks k with pc := p } x
    have e2 := congrArg (Multiset.count x) hhold
    rw [Multiset.coe_count, Multiset.count_cons, Multiset.coe_count] at e2
    have hx0 := h.held x
    simp only [held_setRunning, setRunning_ths, SwSys.setPc, setK_ths] at e ⊢
    by_cases hx : x = th
    · subst hx
      simp only [hrun, halive, Bool.and_true, Bool.and_false, Bool.toNat_true,
        Bool.toNat_false, if_true] at hx0 e2 ⊢
      omega
    · simp only [hx, if_false, add_zero] at e2 ⊢
      omega
  · by_cases hjk : j = k
    · subst hjk
      simp only [setRunning_ks, SwSys.setPc, setK_ks_self]
      refine ⟨by simp [hset], fun c i hs => ?_, by simp [hent], by simp [hdir]⟩
      obtain ⟨rfl, hc⟩ := hsave c i hs
      simp [h.tfSaved_of_mem_holding hc hsv, tfWords]
    · -- `th` is in the setting kthread's hand, so no other one is about to set it
      simp only [setRunning_ks, SwSys.setPc, setK_ks_of_ne _ _ _ hjk]
      refine (h.kthread j).congr_update (fun hs _ => ?_) (fun _ => rfl) (fun _ => rfl)
      have hpj := SwKthread.mem_part_of_tokens (SwPc.mem_tokens_of_setting hs)
      exact absurd (h.part_unique hpj hpk) hjk
  · simpa [SwSys.setPc] using h.clock x

/-- The store that clears the flag of the thread the kthread left, in `schedule`,
`__jmp_thread_direct` or `thread_finish_cede`. -/
theorem clear {k : Fin nk} {cur : T} {p : SwPc T} (hsv : (s.ks k).pc.saving = none)
    (htok : p.tokens = (s.ks k).pc.tokens)
    (hhold : ((s.ks k).pc.holding : Multiset T) = cur ::ₘ p.holding)
    (hok : KthreadOk s.ths { s.ks k with pc := p }) :
    ((s.setPc k p).setRunning cur false).Inv := by
  have hcur : cur ∈ (s.ks k).pc.holding := by
    rw [← Multiset.mem_coe, hhold]
    exact Multiset.mem_cons_self _ _
  have hrun := h.running_of_mem_held (mem_held_of_holding s k hcur)
  refine ⟨fun x => ?_, fun x => ?_, fun j => ?_,
    h.saved_of_stay hsv (fun _ => by simp [SwSys.setPc]) fun j hjk => by simp [SwSys.setPc, hjk],
    fun x => ?_⟩
  · rw [placed_setRunning, placed_setPc s k htok]
    simpa [SwSys.setPc] using h.place x
  · -- the count of `cur` goes down by one, and its flag is clear
    have e := count_held_setK s k { s.ks k with pc := p } x
    have e2 := congrArg (Multiset.count x) hhold
    rw [Multiset.coe_count, Multiset.count_cons, Multiset.coe_count] at e2
    have hx0 := h.held x
    simp only [held_setRunning, setRunning_ths, SwSys.setPc, setK_ths] at e ⊢
    by_cases hx : x = cur
    · subst hx
      simp only [hrun.1, hrun.2, Bool.and_true, Bool.and_false, Bool.toNat_true,
        Bool.toNat_false, if_true] at hx0 e2 ⊢
      omega
    · simp only [hx, if_false, add_zero] at e2 ⊢
      omega
  · exact (forall_setK s k hok (fun j _ => h.kthread j) j).clear_running cur
  · simpa [SwSys.setPc] using h.clock x

/-- `thread_finish_exit`: the thread is freed, and leaves the kthread's hand and its flag. -/
theorem exitFree {k : Fin nk} {cur : T} (hk : (s.ks k).pc = .exitFree cur) :
    ((s.setPc k .sched).modTh cur fun t => { t with alive := false }).Inv := by
  have hpk : cur ∈ (s.ks k).part := by simp [SwKthread.part, hk, SwPc.tokens]
  have hp := h.alive_of_mem_placed (mem_placed_of_part s k hpk)
  have hh : cur ∈ (s.ks k).pc.holding := by simp [hk, SwPc.holding]
  have hr := h.running_of_mem_held (mem_held_of_holding s k hh)
  refine ⟨fun x => ?_, fun x => ?_, fun j => ?_,
    h.saved_of_stay (k := k) (by simp [hk, SwPc.saving])
      (fun x => by by_cases hxc : x = cur <;> simp [SwSys.setPc, hxc])
      (fun j hjk => by simp [SwSys.setPc, hjk]), fun x => ?_⟩
  · -- `cur` leaves the kthread's hand as it is freed
    have e := count_placed_setK s k { s.ks k with pc := .sched } x
    have hx0 := h.place x
    simp only [SwKthread.part, hk, SwPc.tokens, Multiset.count_add, Multiset.coe_count,
      List.count_singleton, List.count_nil] at e
    simp only [placed_modTh, SwSys.setPc]
    by_cases hx : x = cur
    · subst hx
      simp only [hp.1, hp.2, beq_self_eq_true, if_true, Bool.toNat_true, Bool.toNat_false,
        modTh_ths_self, setK_ths] at e hx0 ⊢
      omega
    · simp only [beq_iff_eq, Ne.symm hx, modTh_ths_of_ne _ _ hx, setK_ths, if_false] at e ⊢
      omega
  · -- and gives up its flag
    have e := count_held_setK s k { s.ks k with pc := .sched } x
    have hx0 := h.held x
    simp only [hk, SwPc.holding, List.count_singleton, List.count_nil] at e
    simp only [held_modTh, SwSys.setPc]
    by_cases hx : x = cur
    · subst hx
      simp only [hr.1, hr.2, beq_self_eq_true, if_true, Bool.and_true, Bool.toNat_true,
        Bool.toNat_false, modTh_ths_self, setK_ths] at e hx0 ⊢
      omega
    · simp only [beq_iff_eq, Ne.symm hx, modTh_ths_of_ne _ _ hx, setK_ths, if_false] at e ⊢
      omega
  · exact (forall_setK s k (KthreadOk.of_none rfl rfl rfl rfl) (fun j _ => h.kthread j) j).congr_update
      (fun _ hr => hr) (fun _ => rfl) (fun _ => rfl)
  · by_cases hxc : x = cur
    · subst hxc
      simpa [SwSys.setPc] using h.clock x
    · simpa [SwSys.setPc, hxc] using h.clock x

/-- Every statement of a kthread that depends on nothing but the state keeps the invariant. -/
theorem next {k : Fin nk} {s' : SwSys T nk} (hs : s.next k = some s') : s'.Inv := by
  have hok := h.kthread k
  -- one case per place, as `SwSys.next` has them
  cases hk : (s.ks k).pc with
  | uthread _ | test _ | sched => simp [SwSys.next, hk] at hs
  | lock cur =>
    simp only [SwSys.next, hk, Option.some.injEq] at hs
    subst hs
    exact h.movePc (hk ▸ rfl) (hk ▸ rfl) (hk ▸ rfl)
      (hok.setPc (fun _ e => nomatch e) rfl (.inr (hk ▸ rfl)) (.inl rfl))
  | save cur fn i =>
    simp only [SwSys.next, hk, Option.some.injEq] at hs
    subst hs
    split_ifs with hlt
    · exact h.save (hk ▸ rfl) (hk ▸ by cases fn <;> rfl) (hk ▸ rfl) (if_pos hlt).symm
        (if_pos hlt).symm rfl rfl rfl
    · exact h.save (hk ▸ rfl) (hk ▸ by cases fn <;> rfl) (hk ▸ rfl) (if_neg hlt).symm
        (if_neg hlt).symm rfl rfl rfl
  | toRuntime cur fn =>
    simp only [SwSys.next, hk, Option.some.injEq] at hs
    subst hs
    cases fn <;> exact h.movePc (hk ▸ rfl) (hk ▸ rfl) (hk ▸ rfl) (.of_none rfl rfl rfl rfl)
  | clear cur =>
    simp only [SwSys.next, hk, Option.some.injEq] at hs
    subst hs
    exact h.clear (hk ▸ rfl) (hk ▸ rfl) (hk ▸ rfl) (.of_none rfl rfl rfl rfl)
  | parked =>
    simp only [SwSys.next, hk, Option.some.injEq] at hs
    subst hs
    exact h.movePc (hk ▸ rfl) (hk ▸ rfl) (hk ▸ rfl) (.of_none rfl rfl rfl rfl)
  | ready th =>
    simp only [SwSys.next, hk, Option.some.injEq] at hs
    subst hs
    exact (h.movePc (hk ▸ rfl) (hk ▸ rfl) (hk ▸ rfl) (.of_none rfl rfl rfl rfl)).setReady th false
  | spin th =>
    simp only [SwSys.next, hk, Option.some.injEq] at hs
    subst hs
    split_ifs with hr
    · exact h.movePc (hk ▸ rfl) (hk ▸ rfl) (hk ▸ rfl) (.of_none rfl rfl rfl rfl)
    · -- the spin saw the flag clear
      exact h.movePc (hk ▸ rfl) (hk ▸ rfl) (hk ▸ rfl)
        (hok.setPc (fun _ e => by cases e; simpa using hr) rfl (.inl rfl) (.inl rfl))
  | set th =>
    simp only [SwSys.next, hk, Option.some.injEq] at hs
    subst hs
    exact h.set (hk ▸ rfl) (hk ▸ rfl) (hk ▸ rfl) (hk ▸ rfl) (fun _ _ e => nomatch e) rfl rfl rfl
  | restore th i =>
    simp only [SwSys.next, hk, Option.some.injEq] at hs
    subst hs
    split_ifs <;> exact h.movePc (hk ▸ rfl) (hk ▸ rfl) (hk ▸ rfl) (.of_none rfl rfl rfl rfl)
  | dReady cur th =>
    simp only [SwSys.next, hk, Option.some.injEq] at hs
    subst hs
    exact (h.movePc (p := .dSpin cur th) (hk ▸ rfl) (hk ▸ rfl) (hk ▸ rfl)
      (hok.setPc (fun _ e => nomatch e) rfl (.inl rfl) (.inr (hk ▸ rfl)))).setReady th false
  | dSpin cur th =>
    simp only [SwSys.next, hk, Option.some.injEq] at hs
    subst hs
    split_ifs with hr
    · exact h.movePc (hk ▸ rfl) (hk ▸ rfl) (hk ▸ rfl)
        (hok.setPc (fun _ e => nomatch e) rfl (.inl rfl) (.inr (hk ▸ rfl)))
    · exact h.movePc (hk ▸ rfl) (hk ▸ rfl) (hk ▸ rfl)
        (hok.setPc (fun _ e => by cases e; simpa using hr) rfl (.inl rfl) (.inr (hk ▸ rfl)))
  | dSet cur th =>
    simp only [SwSys.next, hk, Option.some.injEq] at hs
    subst hs
    refine h.set (hk ▸ rfl) (hk ▸ rfl) (hk ▸ rfl) (hk ▸ Multiset.cons_swap cur th 0)
      (fun c i e => ?_) rfl rfl rfl
    cases e
    exact ⟨rfl, hk ▸ List.mem_singleton_self cur⟩
  | dSave cur th i =>
    simp only [SwSys.next, hk, Option.some.injEq] at hs
    subst hs
    split_ifs with hlt
    · exact h.save (hk ▸ rfl) (hk ▸ rfl) (hk ▸ rfl) (if_pos hlt).symm (if_pos hlt).symm rfl rfl
        rfl
    · exact h.save (hk ▸ rfl) (hk ▸ rfl) (hk ▸ rfl) (if_neg hlt).symm (if_neg hlt).symm rfl rfl
        rfl
  | dSwitch cur th =>
    simp only [SwSys.next, hk, Option.some.injEq] at hs
    subst hs
    exact h.movePc (hk ▸ rfl) (hk ▸ rfl) (hk ▸ rfl) (.of_none rfl rfl rfl rfl)
  | dClear cur th =>
    simp only [SwSys.next, hk, Option.some.injEq] at hs
    subst hs
    exact h.clear (hk ▸ rfl) (hk ▸ rfl) (hk ▸ rfl) (.of_none rfl rfl rfl rfl)
  | dRestore th i =>
    simp only [SwSys.next, hk, Option.some.injEq] at hs
    subst hs
    split_ifs <;> exact h.movePc (hk ▸ rfl) (hk ▸ rfl) (hk ▸ rfl) (.of_none rfl rfl rfl rfl)
  | cedeClear cur =>
    simp only [SwSys.next, hk, Option.some.injEq] at hs
    subst hs
    exact h.clear (hk ▸ rfl) (hk ▸ rfl) (hk ▸ rfl) (.of_none rfl rfl rfl rfl)
  | cedeReady cur =>
    simp only [SwSys.next, hk, Option.some.injEq] at hs
    subst hs
    exact (h.movePc (hk ▸ rfl) (hk ▸ rfl) (hk ▸ rfl) (.of_none rfl rfl rfl rfl)).setReady cur true
  | cedePush cur =>
    simp only [SwSys.next, hk, Option.some.injEq] at hs
    subst hs
    -- the thread moves from the kthread's hand to the head of its queue
    exact h.setK (by simp [SwKthread.part, hk, SwPc.tokens, add_comm]) (hk ▸ rfl)
      (.of_none rfl rfl rfl rfl) (hk ▸ rfl)
  | exitSwitch cur =>
    simp only [SwSys.next, hk, Option.some.injEq] at hs
    subst hs
    exact h.movePc (hk ▸ rfl) (hk ▸ rfl) (hk ▸ rfl) (.of_none rfl rfl rfl rfl)
  | exitFree cur =>
    simp only [SwSys.next, hk, Option.some.injEq] at hs
    subst hs
    exact h.exitFree hk

/-! ### The calls of a uthread -/

/-- A save starts at a place that holds the thread's flag and saves nothing: the frame is
complete. -/
theorem startSave {k : Fin nk} {cur : T} (hc : cur ∈ (s.ks k).pc.holding)
    (hsv : (s.ks k).pc.saving = none) (fn : SwFn) (q : SwQueue T) :
    KthreadOk s.ths ⟨.save cur fn 0, q⟩ where
  setting _ e := nomatch e
  savePos c i e := by
    cases e
    simp [h.tfSaved_of_mem_holding hc hsv, tfWords]
  entering _ e := nomatch e
  direct _ _ e := nomatch e

/-- A thread stamped with the clock in `enter_schedule`, held and in hand only by kthread `k`:
what the other kthreads say is kept. -/
theorem kthread_stamp {k j : Fin nk} (hjk : j ≠ k) {cur : T} (hpk : cur ∈ (s.ks k).part)
    (hhk : cur ∈ (s.ks k).pc.holding) {t : SwThread} (hr : t.running = (s.ths cur).running)
    (htf : t.tfSaved = (s.ths cur).tfSaved) : KthreadOk (Function.update s.ths cur t) (s.ks j) :=
  (h.kthread j).congr_update (fun _ => hr ▸ id) (fun _ => htf) fun hc =>
    absurd (hc.elim (h.part_unique · hpk) (h.holding_unique · hhk)) hjk

/-- The unlock of `thread_park_and_unlock_np`: the thread is parked and stamped with the clock,
and its kthread enters `enter_schedule`. -/
theorem park {k : Fin nk} {cur : T} (hk : (s.ks k).pc = .uthread cur) :
    ({ (s.setPc k (.lock cur)).modTh cur fun t => { t with waiting := true, parkedAt := s.clock }
      with clock := s.clock + 1 } : SwSys T nk).Inv := by
  have hpk : cur ∈ (s.ks k).part := by simp [SwKthread.part, hk, SwPc.tokens]
  have hhk : cur ∈ (s.ks k).pc.holding := by simp [hk, SwPc.holding]
  have hp := h.alive_of_mem_placed (mem_placed_of_part s k hpk)
  refine ⟨fun x => ?_, fun x => ?_, fun j => ?_,
    h.saved_of_stay (k := k) (by simp [hk, SwPc.saving])
      (fun x => by by_cases hxc : x = cur <;> simp [SwSys.setPc, hxc])
      (fun j hjk => by simp [SwSys.setPc, hjk]), fun x => ?_⟩
  · -- `cur` leaves the kthread's hand and is parked
    have e := count_placed_setK s k { s.ks k with pc := .lock cur } x
    have hx0 := h.place x
    simp only [SwKthread.part, hk, SwPc.tokens, Multiset.count_add, Multiset.coe_count,
      List.count_singleton, List.count_nil] at e
    simp only [placed_withClock, placed_modTh, SwSys.setPc]
    by_cases hx : x = cur
    · subst hx
      simp only [hp.1, hp.2, beq_self_eq_true, if_true, Bool.toNat_true, Bool.toNat_false,
        modTh_ths_self, setK_ths] at e hx0 ⊢
      omega
    · simp only [beq_iff_eq, Ne.symm hx, modTh_ths_of_ne _ _ hx, setK_ths, if_false] at e ⊢
      omega
  · have hx0 := h.held x
    simp only [held_withClock, held_modTh, SwSys.setPc,
      held_setK_of_holding s k { s.ks k with pc := .lock cur } (hk ▸ rfl)]
    by_cases hx : x = cur
    · subst hx
      simpa using hx0
    · simpa [hx] using hx0
  · by_cases hjk : j = k
    · -- the threads of the queue parked before the clock that stamps `cur`
      subst hjk
      simp only [modTh_ks, SwSys.setPc, setK_ks_self]
      refine ⟨(fun _ e => nomatch e), (fun _ _ e => nomatch e), fun c e w hw hne => ?_,
        (fun _ _ e => nomatch e)⟩
      cases e
      simpa [hne] using h.clock w
    · simp only [modTh_ks, SwSys.setPc, setK_ks_of_ne _ _ _ hjk]
      exact h.kthread_stamp hjk hpk hhk rfl rfl
  · by_cases hxc : x = cur
    · subst hxc
      simp [SwSys.setPc]
    · simpa [SwSys.setPc, hxc] using Nat.lt_succ_of_lt (h.clock x)

/-- `thread_yield`: the thread goes to the tail of its kthread's queue, stamped with the clock,
and the kthread enters `enter_schedule`. -/
theorem yield {k : Fin nk} {cur : T} (hk : (s.ks k).pc = .uthread cur) :
    ({ (s.setK k ⟨.lock cur, (s.ks k).q.pushTail cur⟩).modTh cur fun t =>
      { t with ready := true, parkedAt := s.clock } with clock := s.clock + 1 } : SwSys T nk).Inv := by
  have hpk : cur ∈ (s.ks k).part := by simp [SwKthread.part, hk, SwPc.tokens]
  have hhk : cur ∈ (s.ks k).pc.holding := by simp [hk, SwPc.holding]
  have hpart : (⟨.lock cur, (s.ks k).q.pushTail cur⟩ : SwKthread T).part = (s.ks k).part := by
    simp only [SwKthread.part, hk, SwPc.tokens, SwQueue.all_pushTail, Multiset.coe_nil, add_zero]
    rw [← Multiset.singleton_add, ← Multiset.coe_singleton, add_comm]
  refine ⟨fun x => ?_, fun x => ?_, fun j => ?_,
    h.saved_of_stay (k := k) (by simp [hk, SwPc.saving])
      (fun x => by by_cases hxc : x = cur <;> simp [hxc])
      (fun j hjk => by simp [hjk]), fun x => ?_⟩
  · have hx0 := h.place x
    simp only [placed_withClock, placed_modTh, placed_setK_of_part _ _ _ hpart]
    by_cases hx : x = cur
    · subst hx
      simpa using hx0
    · simpa [hx] using hx0
  · have hx0 := h.held x
    simp only [held_withClock, held_modTh,
      held_setK_of_holding s k ⟨.lock cur, (s.ks k).q.pushTail cur⟩ (hk ▸ rfl)]
    by_cases hx : x = cur
    · subst hx
      simpa using hx0
    · simpa [hx] using hx0
  · by_cases hjk : j = k
    · -- `cur` is now the newest thread of the queue
      subst hjk
      simp only [modTh_ks, setK_ks_self]
      refine ⟨(fun _ e => nomatch e), (fun _ _ e => nomatch e), fun c e w hw hne => ?_,
        (fun _ _ e => nomatch e)⟩
      cases e
      simpa [hne] using h.clock w
    · simp only [modTh_ks, setK_ks_of_ne _ _ _ hjk]
      exact h.kthread_stamp hjk hpk hhk rfl rfl
  · by_cases hxc : x = cur
    · subst hxc
      simp
    · simpa [hxc] using Nat.lt_succ_of_lt (h.clock x)

/-- `thread_ready` or `thread_ready_head` of a parked thread, by code on kthread `k`: the thread
joins `k`'s queue. -/
theorem wake {k : Fin nk} {th : T} (hw : (s.ks k).pc.wakes = true)
    (hwt : (s.ths th).waiting = true) {q : SwQueue T}
    (hq : (q.all : Multiset T) = th ::ₘ (s.ks k).q.all) :
    ((s.setQ k q).modTh th fun t => { t with ready := true, waiting := false }).Inv := by
  have hth := h.place th
  refine ⟨fun x => ?_, fun x => ?_, fun j => ?_, fun x hx => ?_, fun x => ?_⟩
  · -- the parked thread is queued
    have e := count_placed_setK s k { s.ks k with q := q } x
    have hx0 := h.place x
    simp only [SwKthread.part, hq, Multiset.count_add, Multiset.count_cons] at e
    simp only [placed_modTh, SwSys.setQ]
    by_cases hx : x = th
    · subst hx
      have := Bool.toNat_le (s.ths x).alive
      simp only [hwt, if_true, Bool.toNat_true, Bool.toNat_false, modTh_ths_self, setK_ths] at e hx0 ⊢
      omega
    · simp only [hx, modTh_ths_of_ne _ _ hx, setK_ths, if_false] at e ⊢
      omega
  · have hx0 := h.held x
    simp only [held_modTh, held_setQ]
    by_cases hx : x = th
    · subst hx
      simpa using hx0
    · simpa [hx] using hx0
  · have hok := (h.kthread k).setQ (q := q) (.inl (SwPc.of_wakes hw).2.2.1)
    exact (forall_setK s k hok (fun j _ => h.kthread j) j).congr_update (fun _ hr => hr)
      (fun _ => rfl) (fun _ => rfl)
  · have hx' : (s.ths x).tfSaved ≠ tfWords := by
      by_cases hxc : x = th
      · subst hxc
        simpa using hx
      · simpa [hxc] using hx
    obtain ⟨j, hj⟩ := h.saved x hx'
    exact ⟨j, by simp [hj]⟩
  · by_cases hxc : x = th
    · subst hxc
      simpa using h.clock x
    · simpa [hxc] using h.clock x

/-- `thread_spawn` of a new thread: it is allocated, with a complete frame and its flag clear,
and joins the tail of the queue. -/
theorem spawn {k : Fin nk} {cur th : T} (hk : (s.ks k).pc = .uthread cur)
    (hd : (s.ths th).alive = false) :
    ((s.setQ k ((s.ks k).q.pushTail th)).modTh th fun t =>
      { t with ready := true, running := false, tfSaved := tfWords, alive := true }).Inv := by
  have hth := h.place th
  have hheld := h.held th
  simp only [hd, Bool.toNat_false, Bool.false_and] at hth hheld
  refine ⟨fun x => ?_, fun x => ?_, fun j => ?_, fun x hx => ?_, fun x => ?_⟩
  · -- the new thread is queued
    have e := count_placed_setK s k { s.ks k with q := (s.ks k).q.pushTail th } x
    have hx0 := h.place x
    simp only [SwKthread.part, SwQueue.all_pushTail, Multiset.count_add, Multiset.count_cons] at e
    simp only [placed_modTh, SwSys.setQ]
    by_cases hx : x = th
    · subst hx
      simp only [if_true, Bool.toNat_true, modTh_ths_self, setK_ths] at e ⊢
      omega
    · simp only [hx, modTh_ths_of_ne _ _ hx, setK_ths, if_false] at e ⊢
      omega
  · have hx0 := h.held x
    simp only [held_modTh, held_setQ]
    by_cases hx : x = th
    · subst hx
      simpa using hheld
    · simpa [hx] using hx0
  · -- no kthread holds the flag of a freed thread, so none reads its frame
    have hall : ∀ j, KthreadOk s.ths ((s.setQ k ((s.ks k).q.pushTail th)).ks j) :=
      forall_setK s k ((h.kthread k).setQ (.inl (hk ▸ rfl))) fun j _ => h.kthread j
    refine (hall j).congr_update (fun _ _ => rfl) (fun hj => ?_) (fun _ => rfl)
    rw [setQ_pc] at hj
    have := (h.running_of_mem_held (mem_held_of_holding s j hj)).1
    simp [hd] at this
  · by_cases hxc : x = th
    · subst hxc
      simp at hx
    · obtain ⟨j, hj⟩ := h.saved x (by simpa [hxc] using hx)
      exact ⟨j, by simp [hj]⟩
  · by_cases hxc : x = th
    · subst hxc
      simpa using h.clock x
    · simpa [hxc] using h.clock x

/-! ### `enter_schedule` and `schedule` -/

/-- The pop of the fast path: the kthread switches to the thread at the head of its queue,
directly or, if it is the thread it leaves, by returning into it. -/
theorem testFast {k : Fin nk} {cur th : T} (hk : (s.ks k).pc = .test cur) {q : SwQueue T}
    (hpop : (s.ks k).q.pop = some (th, q)) :
    (if th = cur then (s.setK k ⟨.uthread cur, q⟩).setReady cur false
      else s.setK k ⟨.dReady cur th, q⟩).Inv := by
  have hq := SwQueue.all_of_pop _ _ hpop
  split_ifs with hth
  · subst hth
    refine (h.setK ?_ (hk ▸ rfl) (.of_none rfl rfl rfl rfl) (hk ▸ rfl)).setReady th false
    simp [SwKthread.part, hk, SwPc.tokens, hq, add_comm]
  · -- the popped thread parked before the one the kthread leaves
    refine h.setK ?_ (hk ▸ rfl) ⟨(fun _ e => nomatch e), (fun _ _ e => nomatch e),
      (fun _ e => nomatch e), fun c t e => ?_⟩ (hk ▸ rfl)
    · simp [SwKthread.part, hk, SwPc.tokens, hq, add_comm]
    · cases e
      exact (h.kthread k).entering cur (hk ▸ rfl) th (SwQueue.mem_of_pop _ _ hpop) hth

/-- The pop of `schedule`, after `drain_overflow`. -/
theorem pop {k : Fin nk} {th : T} (hk : (s.ks k).pc = .sched) {q : SwQueue T}
    (hpop : (s.ks k).q.drain.pop = some (th, q)) : (s.setK k ⟨.ready th, q⟩).Inv := by
  have hq := SwQueue.all_of_pop _ _ hpop
  rw [SwQueue.all_drain] at hq
  refine h.setK ?_ (hk ▸ rfl) (.of_none rfl rfl rfl rfl) (hk ▸ rfl)
  simp [SwKthread.part, hk, SwPc.tokens, hq, add_comm]

/-- `steal_work`: threads move from the victim's queue to the thief's, whose own is empty. -/
theorem steal {k r : Fin nk} (hk : (s.ks k).pc = .sched) (hl : (s.ks k).q.rq = []) (hrk : r ≠ k)
    {l q : SwQueue T} (hst : SwQueue.steal (s.ks k).q (s.ks r).q = some (l, q)) :
    ((s.setQ k l).setQ r q).Inv := by
  have hlq := SwQueue.all_of_steal hl hst
  have hr₁ : (s.setQ k l).ks r = s.ks r := setK_ks_of_ne _ _ _ hrk
  -- the two queues keep their threads between them
  have hplaced : ((s.setQ k l).setQ r q).placed = s.placed := by
    have e₁ := placed_setQ s k l
    have e₂ := placed_setQ (s.setQ k l) r q
    rw [hr₁] at e₂
    apply add_right_cancel (b := ((s.ks k).q.all : Multiset T) + (s.ks r).q.all)
    calc ((s.setQ k l).setQ r q).placed + (((s.ks k).q.all : Multiset T) + (s.ks r).q.all)
        = (((s.setQ k l).setQ r q).placed + (s.ks r).q.all) + (s.ks k).q.all := by abel
      _ = ((s.setQ k l).placed + (s.ks k).q.all) + q.all := by rw [e₂]; abel
      _ = s.placed + (((s.ks k).q.all : Multiset T) + (s.ks r).q.all) := by
        rw [e₁, add_assoc, hlq]
  have hpc (j : Fin nk) : (((s.setQ k l).setQ r q).ks j).pc = (s.ks j).pc := by simp
  refine ⟨fun x => ?_, fun x => ?_, fun j => ?_, fun x hx => ?_, h.clock⟩
  · rw [hplaced]
    exact h.place x
  · rw [held_setQ, held_setQ]
    exact h.held x
  · -- the victim's queue only lost threads, and the thief is in `schedule`
    have hok₁ : ∀ j, KthreadOk s.ths ((s.setQ k l).ks j) :=
      forall_setK s k ((h.kthread k).setQ (.inl (hk ▸ rfl))) fun j _ => h.kthread j
    have hokr : KthreadOk s.ths { (s.setQ k l).ks r with q := q } := by
      rw [hr₁]
      exact (h.kthread r).setQ (.inr fun w hw => SwQueue.mem_of_steal_right hst hw)
    exact forall_setK (s.setQ k l) r hokr (fun j _ => hok₁ j) j
  · obtain ⟨j, hj⟩ := h.saved x hx
    exact ⟨j, by rw [hpc]; exact hj⟩

end Inv

/-- Every step keeps the invariant. -/
theorem step_inv : StepRun.Invariant (@SwSys.step T _ nk) Inv := by
  intro s op s' h hs
  cases op with
  | next k => exact h.next hs
  | park k =>
    cases hk : (s.ks k).pc with
    | uthread cur =>
      simp only [SwSys.step, SwSys.call, hk, Option.some.injEq] at hs
      exact hs ▸ h.park hk
    | _ => simp [SwSys.step, SwSys.call, hk] at hs
  | yield k =>
    cases hk : (s.ks k).pc with
    | uthread cur =>
      simp only [SwSys.step, SwSys.call, hk, Option.some.injEq] at hs
      exact hs ▸ h.yield hk
    | _ => simp [SwSys.step, SwSys.call, hk] at hs
  | cede k =>
    cases hk : (s.ks k).pc with
    | uthread cur =>
      simp only [SwSys.step, SwSys.call, hk, Option.some.injEq] at hs
      have hc : cur ∈ (s.ks k).pc.holding := by simp [hk, SwPc.holding]
      exact hs ▸ h.movePc (hk ▸ rfl) (hk ▸ rfl) (hk ▸ rfl)
        (h.startSave hc (hk ▸ rfl) .finishCede _)
    | _ => simp [SwSys.step, SwSys.call, hk] at hs
  | exit k =>
    cases hk : (s.ks k).pc with
    | uthread cur =>
      simp only [SwSys.step, SwSys.call, hk, Option.some.injEq] at hs
      exact hs ▸ h.movePc (hk ▸ rfl) (hk ▸ rfl) (hk ▸ rfl) (.of_none rfl rfl rfl rfl)
    | _ => simp [SwSys.step, SwSys.call, hk] at hs
  | wake k th head =>
    simp only [SwSys.step] at hs
    split_ifs at hs with hw hr hhead <;>
      simp only [Bool.or_eq_true, Bool.not_eq_eq_eq_not, Bool.not_true, not_or,
        Bool.not_eq_false] at hw
    -- at the head or at the tail of the queue
    · exact Option.some.inj hs ▸ h.wake hw.1 hw.2 (by simp)
    · exact Option.some.inj hs ▸ h.wake hw.1 hw.2 (SwQueue.all_pushTail _ _)
  | spawn k th =>
    cases hk : (s.ks k).pc with
    | uthread cur =>
      simp only [SwSys.step, SwSys.call, hk] at hs
      split_ifs at hs with hd
      exact Option.some.inj hs ▸ h.spawn hk (by simpa using hd)
    | _ => simp [SwSys.step, SwSys.call, hk] at hs
  | test k watchdog =>
    cases hk : (s.ks k).pc with
    | test cur =>
      simp only [SwSys.step, hk] at hs
      split_ifs at hs with hslow
      · -- the slow path saves the thread's frame for `schedule`
        have hc : cur ∈ (s.ks k).pc.holding := by simp [hk, SwPc.holding]
        exact Option.some.inj hs ▸ h.movePc (hk ▸ rfl) (hk ▸ rfl) (hk ▸ rfl)
          (h.startSave hc (hk ▸ rfl) .schedule _)
      · cases hpop : (s.ks k).q.pop with
        | none => simp [hpop] at hs
        | some p =>
          obtain ⟨th, q⟩ := p
          simp only [hpop] at hs
          have hfast := h.testFast hk hpop
          split_ifs at hs hfast <;> exact Option.some.inj hs ▸ hfast
    | _ => simp [SwSys.step, hk] at hs
  | pop k =>
    simp only [SwSys.step] at hs
    split at hs
    · next th q hpc hpop => exact Option.some.inj hs ▸ h.pop hpc hpop
    · simp at hs
  | steal k r =>
    simp only [SwSys.step] at hs
    split_ifs at hs with hc
    split at hs
    · next l q hst =>
      have hl : (s.ks k).q.rq = [] := (List.append_eq_nil_iff.mp hc.2.1).1
      exact Option.some.inj hs ▸ h.steal hc.1 hl hc.2.2.1 hst
    · simp at hs

/-- The start: the main thread in the queue of kthread `k₀`. -/
theorem init_inv (k₀ : Fin nk) (main : T) : (SwSys.init k₀ main).Inv where
  place x := by
    rw [show (SwSys.init k₀ main).placed = {main} by
      simp [SwSys.placed, SwKthread.part, SwSys.init, SwQueue.all, SwPc.tokens, apply_ite]]
    by_cases hx : x = main
    · subst hx
      simp [SwSys.init]
    · simp [SwSys.init, hx]
  held x := by simp [SwSys.held, SwSys.init, SwPc.holding]
  kthread _ := .of_none rfl rfl rfl rfl
  saved x hx := absurd rfl hx
  clock _ := Nat.zero_lt_one

/-- Every state a run of the switch reaches keeps the invariant. -/
theorem swRun_inv {k₀ : Fin nk} {main : T} {ops : List (SwOp T nk)} {s : SwSys T nk}
    (hrun : swRun k₀ main ops = some s) : s.Inv :=
  step_inv.run (init_inv k₀ main) hrun

end SwSys

namespace SwSys

variable [DecidableEq T]

/-! ## The three properties of the switch -/

/-- The rank of a kthread in the spin loops: on the fast path, the time of the last park of the
thread it leaves; in `jmp_thread`, the clock. -/
def spinRank (s : SwSys T nk) (k : Fin nk) : Nat :=
  match (s.ks k).pc with
  | .dSpin cur _ => (s.ths cur).parkedAt
  | _ => s.clock

namespace Inv

variable {s : SwSys T nk} (h : s.Inv)
include h

/-- Two kthreads never use one thread's stack or registers. -/
theorem inUse_unique {j k : Fin nk} {th : T} (hj : (s.ks j).pc.inUse = some th)
    (hk : (s.ks k).pc.inUse = some th) : j = k :=
  h.holding_unique (SwPc.mem_holding_of_inUse hj) (SwPc.mem_holding_of_inUse hk)

/-- A restore reads a complete trap frame. -/
theorem tfSaved_of_restoring {k : Fin nk} {th : T} (hk : (s.ks k).pc.restoring = some th) :
    (s.ths th).tfSaved = tfWords :=
  h.tfSaved_of_mem_holding (SwPc.mem_holding_of_restoring hk) (SwPc.saving_of_restoring hk)

/-- A kthread spins on a flag that is set only while another kthread holds it. -/
theorem exists_holder {k : Fin nk} {th : T} (hk : (s.ks k).pc.spinOn = some th)
    (hr : (s.ths th).running = true) : ∃ j, j ≠ k ∧ th ∈ (s.ks j).pc.holding := by
  have hpk := SwKthread.mem_part_of_tokens (SwPc.mem_tokens_of_spinOn hk)
  have halive := (h.alive_of_mem_placed (mem_placed_of_part s k hpk)).1
  have hc : 0 < s.held.count th := by
    rw [h.held th, halive, hr]
    exact Nat.one_pos
  obtain ⟨j, -, hj⟩ := Multiset.mem_sum.mp (Multiset.count_pos.mp hc)
  refine ⟨j, fun hjk => ?_, Multiset.mem_coe.mp hj⟩
  -- a kthread on the fast path leaves a thread other than the one it enters
  subst hjk
  have hd := (h.kthread j).direct th th (by rw [SwPc.eq_dSpin_of_holding hk hj]; rfl)
  exact Nat.lt_irrefl _ hd

/-- Along the waits-for edges between spinning kthreads the rank falls: the waited-on kthread is
on the fast path, leaving a thread parked before the one the waiting kthread enters or leaves. -/
theorem spinRank_lt {j k : Fin nk} {th th' : T} (hk : (s.ks k).pc.spinOn = some th)
    (hj : th ∈ (s.ks j).pc.holding) (hj' : (s.ks j).pc.spinOn = some th') :
    s.spinRank j < s.spinRank k := by
  have hrj : s.spinRank j = (s.ths th).parkedAt := by
    simp [spinRank, SwPc.eq_dSpin_of_holding hj' hj]
  rw [hrj]
  cases hpk : (s.ks k).pc with
  | spin x =>
    simp only [hpk, SwPc.spinOn, Option.some.injEq] at hk
    subst hk
    simpa [spinRank, hpk] using h.clock x
  | dSpin cur x =>
    simp only [hpk, SwPc.spinOn, Option.some.injEq] at hk
    subst hk
    simpa [spinRank, hpk] using (h.kthread k).direct cur x (by rw [hpk]; rfl)
  | _ => simp [hpk, SwPc.spinOn] at hk

/-- No set of kthreads spins on each other's flags: in every set of kthreads that spin on set
flags, one spins on a flag held by a kthread outside the set. -/
theorem spinners_wait_outside {S : Finset (Fin nk)} (hS : S.Nonempty)
    (hspin : ∀ k ∈ S, ∃ th, (s.ks k).pc.spinOn = some th ∧ (s.ths th).running = true) :
    ∃ k ∈ S, ∃ th j, (s.ks k).pc.spinOn = some th ∧ th ∈ (s.ks j).pc.holding ∧ j ∉ S := by
  let waits (k j : Fin nk) : Prop := ∃ th, (s.ks k).pc.spinOn = some th ∧ th ∈ (s.ks j).pc.holding
  obtain ⟨k, hk, hout⟩ := StepRun.exists_waits_outside (r := waits) s.spinRank hS
    fun k _ j hj ⟨th, hth, hhold⟩ => by
      obtain ⟨th', hth', -⟩ := hspin j hj
      exact h.spinRank_lt hth hhold hth'
  obtain ⟨th, hth, hr⟩ := hspin k hk
  obtain ⟨j, -, hj⟩ := h.exists_holder hth hr
  exact ⟨k, hk, th, j, hth, hj, fun hjS => hout j hjS ⟨th, hth, hj⟩⟩

end Inv

end SwSys

/-- The switch keeps uthreads apart in every run, whatever the interleaving of the kthreads'
statements and of the wake-ups: (a) two kthreads never use one thread's stack or registers,
(b) a restore reads a complete trap frame, and (c) in every set of kthreads spinning on set
`thread_running` flags, one waits on a kthread outside the set. -/
theorem swRun_uthreads_exclusive [DecidableEq T] {k₀ : Fin nk} {main : T}
    {ops : List (SwOp T nk)} {s : SwSys T nk} (hrun : swRun k₀ main ops = some s) :
    (∀ j k th, (s.ks j).pc.inUse = some th → (s.ks k).pc.inUse = some th → j = k) ∧
    (∀ k th, (s.ks k).pc.restoring = some th → (s.ths th).tfSaved = tfWords) ∧
    ∀ S : Finset (Fin nk), S.Nonempty →
      (∀ k ∈ S, ∃ th, (s.ks k).pc.spinOn = some th ∧ (s.ths th).running = true) →
      ∃ k ∈ S, ∃ th j, (s.ks k).pc.spinOn = some th ∧ th ∈ (s.ks j).pc.holding ∧ j ∉ S := by
  have h := SwSys.swRun_inv hrun
  exact ⟨fun _ _ _ => h.inUse_unique, fun _ _ => h.tfSaved_of_restoring,
    fun _ => h.spinners_wait_outside⟩

/-- Kthread 0 runs the main thread, spawns thread 1 and parks the main thread; kthread 1 wakes
it right after the unlock, pops it, and spins on its flag while kthread 0 is still on its
stack. -/
def swWakeRace : List (SwOp Nat 2) :=
  [.pop 0, .next 0, .next 0, .next 0] ++ List.replicate 8 (.next 0) ++
    [.spawn 0 1, .park 0, .wake 1 0 false, .pop 1, .next 1]

theorem swRun_uthreads_exclusive_race :
    ∃ s, swRun 0 0 swWakeRace = some s ∧ (s.ks 1).pc = .spin 0 ∧ (s.ks 0).pc = .lock 0 ∧
      ((∀ j k th, (s.ks j).pc.inUse = some th → (s.ks k).pc.inUse = some th → j = k) ∧
      (∀ k th, (s.ks k).pc.restoring = some th → (s.ths th).tfSaved = tfWords) ∧
      ∀ S : Finset (Fin 2), S.Nonempty →
        (∀ k ∈ S, ∃ th, (s.ks k).pc.spinOn = some th ∧ (s.ths th).running = true) →
        ∃ k ∈ S, ∃ th j, (s.ks k).pc.spinOn = some th ∧ th ∈ (s.ks j).pc.holding ∧ j ∉ S) :=
  ⟨_, rfl, rfl, rfl, @swRun_uthreads_exclusive Nat 2 _ 0 0 swWakeRace _ rfl⟩

end Caladan
