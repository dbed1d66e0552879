import Mathlib
import Caladan.Lib.Run
import Caladan.Iokernel.Sched
import Caladan.Iokernel.Ias

/-!
# Core accounting of IAS

Over every run of the policy from `ias_init`, each attached proc's `threads_active` is the number
of allowed cores that `cores[]` gives it, and a core that is not idle runs (or is starting) a
thread of its owner at the scheduler below. The proof carries one invariant (`Ias.Inv`) through
every call. Its scheduler part is `IkSched.Inv` with one more fact (`IkSched.PendWait`), and what
the policy needs of the scheduler is how `sched_get_thread_on_core` moves: a start puts the thread
there, and the fast pass of `sched_poll` changes it only on the cores it reports idle.
-/

namespace Caladan

namespace IkSched

variable {s t : IkSched} {c c' p : Nat} {f : Option (Nat × Nat)} {te : Bool}

/-- A core has a pending start only while it waits for the last one. -/
def PendWait (s : IkSched) : Prop := ∀ c, (s.state c).pending = true → (s.state c).wait = true

theorem PendWait.of_state (h : s.PendWait) (hs : t.state = s.state) : t.PendWait := by
  intro c
  rw [hs]
  exact h c

theorem getThreadOnCore_of_state (hs : t.state c = s.state c) :
    t.getThreadOnCore c = s.getThreadOnCore c := by
  simp only [getThreadOnCore, hs]

@[simp] theorem pollThread_allowed (th : Nat × Nat) : (s.pollThread th).allowed = s.allowed := by
  unfold pollThread
  split <;> rfl

@[simp] theorem unpollThread_allowed (th : Nat × Nat) :
    (s.unpollThread th).allowed = s.allowed := by
  unfold unpollThread
  split <;> rfl

@[simp] theorem release_allowed (o : Option (Nat × Nat)) :
    (s.release o te).allowed = s.allowed := by
  cases o with
  | none => rfl
  | some th =>
    simp only [release, disableKthread, setProc]
    split <;> simp [procPut]

@[simp] theorem schedRun_allowed : (s.schedRun c f te).allowed = s.allowed := by
  unfold schedRun
  dsimp only
  split_ifs <;> simp [setState]

theorem schedRun_state_ne (hc : c' ≠ c) : (s.schedRun c f te).state c' = s.state c' := by
  unfold schedRun
  dsimp only
  split_ifs <;> simp [Function.update_of_ne hc]

/-- `__sched_run` leaves its thread as the one `sched_get_thread_on_core` names. -/
theorem getThreadOnCore_schedRun (hpw : s.PendWait) : (s.schedRun c f te).getThreadOnCore c = f := by
  unfold schedRun getThreadOnCore
  dsimp only
  split_ifs with hw hp hp
  · simp
  · simp at hp
  · -- not waiting, so nothing is pending
    simp only [setState_state, Function.update_self] at hp
    exact absurd (hpw c hp) hw
  · simp

theorem PendWait.schedRun (h : s.PendWait) : (s.schedRun c f te).PendWait := by
  intro c' hp
  by_cases hc : c' = c
  · subst hc
    unfold IkSched.schedRun at hp ⊢
    dsimp only at hp ⊢
    split_ifs at hp ⊢ with hw <;> simp_all
  · rw [schedRun_state_ne hc] at hp ⊢
    exact h c' hp

/-- A successful `sched_run_on_core`: the core is allowed and now names a thread of `p`; no
other core changes. -/
theorem schedRunOnCore_spec {s' : IkSched} (hpw : s.PendWait)
    (hs : s.schedRunOnCore p c te = .ok s') :
    c < ncpu ∧ c ∈ s.allowed ∧ s'.allowed = s.allowed ∧ s'.PendWait ∧
      (∃ i, s'.getThreadOnCore c = some (p, i)) ∧
      ∀ c' ≠ c, s'.getThreadOnCore c' = s.getThreadOnCore c' := by
  unfold schedRunOnCore at hs
  split_ifs at hs with hbad
  split at hs
  · cases hs
  · next i hpick =>
    cases hs
    simp only [not_or, not_le, not_not] at hbad
    -- the start runs on a scheduler whose cores are those of `s`
    have hst : ((s.procGet p).enableKthread (p, i) c).state = s.state := by simp
    have hpw' := hpw.of_state hst
    refine ⟨hbad.2.1, hbad.2.2, ?_, hpw'.schedRun, ⟨i, getThreadOnCore_schedRun hpw'⟩,
      fun c' hc => ?_⟩
    · simp [enableKthread, setProc, procGet]
    · rw [getThreadOnCore_of_state (schedRun_state_ne hc), getThreadOnCore_of_state]
      rw [hst]

/-- A successful `sched_idle_on_core`: the core is allowed and names no thread. -/
theorem schedIdleOnCore_spec {s' : IkSched} (hpw : s.PendWait)
    (hs : s.schedIdleOnCore c te = .ok s') :
    c < ncpu ∧ c ∈ s.allowed ∧ s'.allowed = s.allowed ∧ s'.PendWait ∧
      ∀ c' ≠ c, s'.getThreadOnCore c' = s.getThreadOnCore c' := by
  unfold schedIdleOnCore at hs
  split_ifs at hs with hbad
  cases hs
  simp only [not_or, not_le, not_not] at hbad
  exact ⟨hbad.1, hbad.2, schedRun_allowed, hpw.schedRun,
    fun c' hc => getThreadOnCore_of_state (schedRun_state_ne hc)⟩

theorem PendWait.setState (h : s.PendWait) {cs : CoreState}
    (hcs : cs.pending = true → cs.wait = true) : (s.setState c cs).PendWait := by
  intro c' hp
  by_cases hc : c' = c
  · subst hc
    simp only [setState_state, Function.update_self] at hp ⊢
    exact hcs hp
  · simp only [setState_state, Function.update_of_ne hc] at hp ⊢
    exact h c' hp

theorem PendWait.release (h : s.PendWait) (o : Option (Nat × Nat)) : (s.release o te).PendWait :=
  h.of_state (release_state te)

theorem PendWait.pollRunDone (h : s.PendWait) (rd : Bool) : (s.pollRunDone c rd te).PendWait := by
  unfold IkSched.pollRunDone
  dsimp only
  split_ifs with h₁ h₂
  · exact (h.release _).setState fun hp => absurd hp Bool.false_ne_true
  · exact h.setState fun hp => absurd hp h₂
  · exact h

theorem PendWait.pollIdle (h : s.PendWait) (idle rewake : Bool) :
    (s.pollIdle c idle rewake te).PendWait := by
  unfold IkSched.pollIdle
  dsimp only
  by_cases hcond : ¬(s.state c).wait = true ∧ ¬(s.state c).idle = true ∧ idle = true
  · rw [if_pos hcond]
    split
    · split_ifs
      · exact h.setState fun _ => rfl
      · exact (h.release _).setState fun hp => by simpa using h c (by simpa using hp)
    · exact h.setState fun hp => h c hp
  · rw [if_neg hcond]
    exact h

@[simp] theorem pollCore_allowed (o : PollInput) : (s.pollCore c o).allowed = s.allowed := by
  unfold pollCore pollIdle pollRunDone
  dsimp only
  split_ifs <;> (try split) <;> simp [setState]

theorem getThreadOnCore_setState_wait (b : Bool) (c' : Nat) :
    (s.setState c { s.state c with wait := b }).getThreadOnCore c' = s.getThreadOnCore c' := by
  unfold getThreadOnCore
  by_cases hc : c' = c
  · subst hc
    simp
  · simp [Function.update_of_ne hc]

/-- The first check of the fast pass changes no core's thread: a finished start makes the
pending thread current. -/
theorem getThreadOnCore_pollRunDone (rd te : Bool) (c' : Nat) :
    (s.pollRunDone c rd te).getThreadOnCore c' = s.getThreadOnCore c' := by
  unfold pollRunDone
  dsimp only
  split_ifs with h₁ h₂
  · rw [getThreadOnCore, getThreadOnCore]
    by_cases hc : c' = c
    · subst hc
      simp [h₂]
    · simp [Function.update_of_ne hc]
  · exact getThreadOnCore_setState_wait false c'
  · rfl

/-- Only a core the fast pass reports idle changes its thread. -/
theorem getThreadOnCore_pollCore {o : PollInput} (h : c' ≠ c ∨ s.wentIdle c o = false) :
    (s.pollCore c o).getThreadOnCore c' = s.getThreadOnCore c' := by
  unfold pollCore
  rw [← getThreadOnCore_pollRunDone (s := s) (c := c) o.runDone o.txEmpty c']
  unfold wentIdle at h
  generalize s.pollRunDone c o.runDone o.txEmpty = t at h ⊢
  unfold pollIdle
  dsimp only
  by_cases hcond : ¬(t.state c).wait = true ∧ ¬(t.state c).idle = true ∧ o.idle = true
  · rw [if_pos hcond]
    split
    · next ct hct =>
      split_ifs with hrw
      · exact getThreadOnCore_setState_wait true c'
      · -- the core went idle, so it is not `c'`
        have hc : c' ≠ c := by
          rcases h with h | h
          · exact h
          · simp [hct, hrw, hcond] at h
        apply getThreadOnCore_of_state
        simp [Function.update_of_ne hc]
    · next hct =>
      have hc : c' ≠ c := by
        rcases h with h | h
        · exact h
        · simp [hct, hcond] at h
      apply getThreadOnCore_of_state
      simp [Function.update_of_ne hc]
  · rw [if_neg hcond]

/-- The fast pass with its idle report, over any list of cores: it is the fast pass, keeps
`PendWait` and the allowed cores, and changes the thread only of a core it reports. -/
theorem schedPollIdle_foldl (o : Nat → PollInput) (l : List Nat) (t : IkSched)
    (rep : Nat → Bool) (hpw : t.PendWait) :
    let r := l.foldl (fun (acc : IkSched × (Nat → Bool)) core =>
      (acc.1.pollCore core (o core),
        if acc.1.wentIdle core (o core) then Function.update acc.2 core true else acc.2)) (t, rep)
    r.1 = l.foldl (fun s core => s.pollCore core (o core)) t ∧ r.1.PendWait ∧
      r.1.allowed = t.allowed ∧ (∀ c, r.2 c = true → rep c = true ∨ c ∈ l) ∧
      ∀ c, r.2 c = false → rep c = false ∧ r.1.getThreadOnCore c = t.getThreadOnCore c := by
  induction l generalizing t rep with
  | nil => exact ⟨rfl, hpw, rfl, fun c hc => .inl hc, fun c hc => ⟨hc, rfl⟩⟩
  | cons a l ih =>
    have hpw' : (t.pollCore a (o a)).PendWait :=
      (hpw.pollRunDone (o a).runDone).pollIdle (o a).idle (o a).rewake
    obtain ⟨h₁, h₂, h₃, h₅, h₄⟩ := ih (t.pollCore a (o a))
      (if t.wentIdle a (o a) then Function.update rep a true else rep) hpw'
    simp only [List.foldl_cons]
    refine ⟨h₁, h₂, h₃.trans (pollCore_allowed (o a)), fun c hc => ?_, fun c hc => ?_⟩
    · rcases h₅ c hc with hc | hc
      · split_ifs at hc
        · by_cases hca : c = a
          · exact .inr (hca ▸ List.mem_cons_self)
          · rw [Function.update_of_ne hca] at hc
            exact .inl hc
        · exact .inl hc
      · exact .inr (List.mem_cons_of_mem _ hc)
    obtain ⟨hrep, hth⟩ := h₄ c hc
    rw [hth]
    split_ifs at hrep with hw
    · have hca : c ≠ a := fun e => by simp [e] at hrep
      rw [Function.update_of_ne hca] at hrep
      exact ⟨hrep, getThreadOnCore_pollCore (.inl hca)⟩
    · exact ⟨hrep, getThreadOnCore_pollCore (.inr (by simpa using hw))⟩

theorem schedPollIdle_spec (hpw : s.PendWait) (o : Nat → PollInput) :
    (s.schedPollIdle o).1 = s.schedPoll o ∧ (s.schedPollIdle o).1.PendWait ∧
      (s.schedPollIdle o).1.allowed = s.allowed ∧
      (∀ c, (s.schedPollIdle o).2 c = true → c ∈ s.allowed) ∧
      ∀ c, (s.schedPollIdle o).2 c = false →
        (s.schedPollIdle o).1.getThreadOnCore c = s.getThreadOnCore c := by
  obtain ⟨h₁, h₂, h₃, h₅, h₄⟩ := schedPollIdle_foldl o s.allowed s (fun _ => false) hpw
  refine ⟨h₁, h₂, h₃, fun c hc => ?_, fun c hc => (h₄ c hc).2⟩
  rcases h₅ c hc with hc | hc
  · exact absurd hc Bool.false_ne_true
  · exact hc

end IkSched

/-- Changing `f` at `a` moves a count over a list without repeats by the two values at `a`. -/
theorem countP_update {α β : Type*} [DecidableEq α] {l : List α} (hl : l.Nodup)
    (q : α → β → Bool) (f : α → β) (a : α) (v : β) :
    (l.countP fun x => q x (Function.update f a v x)) + (if a ∈ l ∧ q a (f a) = true then 1 else 0) =
      (l.countP fun x => q x (f x)) + (if a ∈ l ∧ q a v = true then 1 else 0) := by
  induction l with
  | nil => simp
  | cons b l ih =>
    obtain ⟨hb, hl⟩ := List.nodup_cons.1 hl
    simp only [List.countP_cons, List.mem_cons]
    by_cases hba : b = a
    · -- `a` is the head, so the rest does not see the change
      subst hba
      have hrest : (l.countP fun x => q x (Function.update f b v x)) =
          l.countP fun x => q x (f x) :=
        List.countP_congr fun x hx => by
          have hxb : x ≠ b := fun e => hb (e ▸ hx)
          rw [Function.update_of_ne hxb]
      rw [hrest, Function.update_self]
      split_ifs <;> simp_all
    · have hab : a ≠ b := Ne.symm hba
      have := ih hl
      rw [Function.update_of_ne hba]
      simp only [hab, false_or]
      split_ifs at this ⊢ <;> omega

namespace Ias

variable {s t : Ias} {core sd : Nat} {owner : Option Nat} {idle : Bool}

/-- The number of allowed cores that `cores[]` gives to `sd`. -/
def ownedCount (s : Ias) (sd : Nat) : Nat :=
  (List.range ncpu).countP fun c => decide (c ∈ s.sched.allowed) && s.cores c == some sd

/-- The policy's own books: procs listed once, cores owned only by attached procs and only when
allowed, and `threads_active` the count of owned cores. -/
structure Acct (s : Ias) : Prop where
  nodup : s.procs.Nodup
  allowed_lt : ∀ c ∈ s.sched.allowed, c < ncpu
  owner : ∀ c sd, s.cores c = some sd → sd ∈ s.procs ∧ c ∈ s.sched.allowed
  idle : ∀ c, s.idleCores c = true → c ∈ s.sched.allowed
  active : ∀ sd ∈ s.procs, (s.sd sd).threadsActive = s.ownedCount sd

/-- A core that is not idle names a thread of its owner at the scheduler. -/
def Runs (s : Ias) : Prop :=
  ∀ c sd, s.cores c = some sd → s.idleCores c = false →
    ∃ i, s.sched.getThreadOnCore c = some (sd, i)

/-- The invariant of the policy over the scheduler below. -/
structure Inv (s : Ias) : Prop where
  sched : s.sched.Inv none
  pendWait : s.sched.PendWait
  acct : s.Acct
  runs : s.Runs

/-- The books across a change of one core's owner. -/
theorem Acct.change (h : s.Acct) (hal : t.sched.allowed = s.sched.allowed)
    (hprocs : t.procs = s.procs) (hcores : t.cores = Function.update s.cores core owner)
    (hact : ∀ x, (t.sd x).threadsActive = (s.sd x).threadsActive -
      (if s.cores core = some x then 1 else 0) + (if owner = some x then 1 else 0))
    (hown : ∀ sd, owner = some sd → sd ∈ s.procs ∧ core ∈ s.sched.allowed)
    (hidle : ∀ c, t.idleCores c = true → s.idleCores c = true ∨ c = core ∧ core ∈ s.sched.allowed) :
    t.Acct := by
  refine ⟨hprocs ▸ h.nodup, hal ▸ h.allowed_lt, fun c sd hc => ?_, fun c hc => ?_,
    fun sd hsd => ?_⟩
  · rw [hprocs, hal]
    rw [hcores] at hc
    by_cases hcc : c = core
    · subst hcc
      rw [Function.update_self] at hc
      exact hown sd hc
    · rw [Function.update_of_ne hcc] at hc
      exact h.owner c sd hc
  · rw [hal]
    rcases hidle c hc with hc | ⟨rfl, hc⟩
    · exact h.idle c hc
    · exact hc
  · rw [hprocs] at hsd
    have hcount := countP_update (List.nodup_range (n := ncpu))
      (fun c o => decide (c ∈ s.sched.allowed) && o == some sd) s.cores core owner
    -- the two end terms count `core` for its old and its new owner
    have h₁ : (if core ∈ List.range ncpu ∧
        (decide (core ∈ s.sched.allowed) && s.cores core == some sd) = true then 1 else 0) =
        if s.cores core = some sd then 1 else 0 := by
      by_cases hx : s.cores core = some sd
      · have hal' := (h.owner core sd hx).2
        simp [hx, hal', h.allowed_lt core hal']
      · simp [hx]
    have h₂ : (if core ∈ List.range ncpu ∧
        (decide (core ∈ s.sched.allowed) && owner == some sd) = true then 1 else 0) =
        if owner = some sd then 1 else 0 := by
      by_cases hx : owner = some sd
      · have hal' := (hown sd hx).2
        simp [hx, hal', h.allowed_lt core hal']
      · simp [hx]
    rw [h₁, h₂] at hcount
    have ht : t.ownedCount sd = (List.range ncpu).countP fun c =>
        decide (c ∈ s.sched.allowed) && Function.update s.cores core owner c == some sd := by
      simp only [ownedCount, hal, hcores]
    rw [hact, h.active sd hsd, ht]
    unfold ownedCount
    split_ifs at hcount ⊢ <;> omega

/-! ### The core changes -/

section Frame

variable (s core owner idle)

@[simp] theorem modifySd_procs (f : IasData → IasData) : (s.modifySd sd f).procs = s.procs := rfl
@[simp] theorem modifySd_sched (f : IasData → IasData) : (s.modifySd sd f).sched = s.sched := rfl
@[simp] theorem modifySd_cores (f : IasData → IasData) : (s.modifySd sd f).cores = s.cores := rfl
@[simp] theorem modifySd_idleCores (f : IasData → IasData) :
    (s.modifySd sd f).idleCores = s.idleCores := rfl

@[simp] theorem cleanupCore_procs : (s.cleanupCore core).procs = s.procs := by
  unfold cleanupCore
  split <;> rfl

@[simp] theorem cleanupCore_sched : (s.cleanupCore core).sched = s.sched := by
  unfold cleanupCore
  split <;> rfl

@[simp] theorem cleanupCore_idleCores : (s.cleanupCore core).idleCores = s.idleCores := by
  unfold cleanupCore
  split <;> rfl

@[simp] theorem cleanupCore_cores :
    (s.cleanupCore core).cores = Function.update s.cores core none := by
  unfold cleanupCore
  split <;> rfl

theorem cleanupCore_active (x : Nat) : ((s.cleanupCore core).sd x).threadsActive =
    (s.sd x).threadsActive - (if s.cores core = some x then 1 else 0) := by
  unfold cleanupCore modifySd
  split
  · next sd' hsd =>
    by_cases hx : x = sd'
    · subst hx
      simp [hsd]
    · simp [Function.update_of_ne hx, hsd, Ne.symm hx]
  · next hnone =>
    simp [hnone]

@[simp] theorem assignCore_procs : (s.assignCore core owner idle).procs = s.procs := by
  unfold assignCore
  cases owner <;> simp

@[simp] theorem assignCore_sched : (s.assignCore core owner idle).sched = s.sched := by
  unfold assignCore
  cases owner <;> simp

theorem assignCore_cores :
    (s.assignCore core owner idle).cores = Function.update s.cores core owner := by
  unfold assignCore
  cases owner <;> simp

theorem assignCore_idleCores :
    (s.assignCore core owner idle).idleCores = Function.update s.idleCores core idle := by
  unfold assignCore
  cases owner <;> simp

theorem assignCore_active (x : Nat) : ((s.assignCore core owner idle).sd x).threadsActive =
    (s.sd x).threadsActive - (if s.cores core = some x then 1 else 0) +
      (if owner = some x then 1 else 0) := by
  unfold assignCore
  cases owner with
  | none => simp [cleanupCore_active]
  | some sd' =>
    simp only [modifySd]
    by_cases hx : x = sd'
    · subst hx
      simp [cleanupCore_active]
    · simp [Function.update_of_ne hx, cleanupCore_active, Ne.symm hx]

end Frame

theorem Acct.assignCore (h : s.Acct) (hown : ∀ sd, owner = some sd → sd ∈ s.procs ∧ core ∈ s.sched.allowed)
    (hidle : idle = true → core ∈ s.sched.allowed) : (s.assignCore core owner idle).Acct := by
  refine h.change (by simp) (by simp) (assignCore_cores ..) (assignCore_active s core owner idle)
    hown fun c hc => ?_
  rw [assignCore_idleCores, Function.update_apply] at hc
  split_ifs at hc with hcc
  · exact .inr ⟨hcc, hidle hc⟩
  · exact .inl hc

theorem Acct.cleanupCore (h : s.Acct) : (s.cleanupCore core).Acct :=
  h.change (by simp) (by simp) (cleanupCore_cores ..)
    (fun x => by simp [cleanupCore_active]) (fun _ hsd => absurd hsd (by simp))
    fun c hc => .inl (by simpa using hc)

theorem Acct.withSched (h : s.Acct) {sch : IkSched} (hal : sch.allowed = s.sched.allowed) :
    { s with sched := sch }.Acct where
  nodup := h.nodup
  allowed_lt := fun c hc => h.allowed_lt c (hal ▸ hc)
  owner := fun c sd hc => hal ▸ h.owner c sd hc
  idle := fun c hc => hal ▸ h.idle c hc
  active := fun sd hsd => by
    rw [h.active sd hsd]
    simp only [ownedCount, hal]

theorem Acct.modifySd (h : s.Acct) {f : IasData → IasData}
    (hf : (f (s.sd sd)).threadsActive = (s.sd sd).threadsActive) : (s.modifySd sd f).Acct where
  nodup := h.nodup
  allowed_lt := h.allowed_lt
  owner := h.owner
  idle := h.idle
  active := fun x hx => by
    have hcount : (s.modifySd sd f).ownedCount x = s.ownedCount x := rfl
    rw [hcount]
    simp only [Ias.modifySd, Function.update_apply]
    split_ifs with hxs
    · subst hxs
      rw [hf, h.active x hx]
    · exact h.active x hx

theorem Runs.assignCore (h : s.Runs) {sch : IkSched}
    (hth : ∀ c ≠ core, sch.getThreadOnCore c = s.sched.getThreadOnCore c)
    (hcore : idle = false → ∃ sd i, owner = some sd ∧ sch.getThreadOnCore core = some (sd, i)) :
    ({ s with sched := sch }.assignCore core owner idle).Runs := by
  intro c sd hc hidle
  rw [assignCore_cores, Function.update_apply] at hc
  rw [assignCore_idleCores, Function.update_apply] at hidle
  rw [assignCore_sched]
  split_ifs at hc hidle with hcc
  · -- the changed core: its new owner's thread was just started
    obtain ⟨sd', i, ho, hi⟩ := hcore hidle
    rw [hc, Option.some.injEq] at ho
    subst ho
    exact ⟨i, hcc ▸ hi⟩
  · rw [hth c hcc]
    exact h c sd hc hidle

theorem Runs.cleanupCore (h : s.Runs) : (s.cleanupCore core).Runs := by
  intro c sd hc hidle
  rw [cleanupCore_cores, Function.update_apply] at hc
  split_ifs at hc
  rw [cleanupCore_sched]
  exact h c sd hc (by simpa using hidle)

/-! ### The calls -/

theorem Inv.withPunished (h : s.Inv) (P : Nat → Bool) : { s with punishedCores := P }.Inv :=
  ⟨h.sched, h.pendWait,
    ⟨h.acct.nodup, h.acct.allowed_lt, h.acct.owner, h.acct.idle, h.acct.active⟩, h.runs⟩

theorem Inv.withReserved (h : s.Inv) (R : Nat → Bool) : { s with reservedCores := R }.Inv :=
  ⟨h.sched, h.pendWait,
    ⟨h.acct.nodup, h.acct.allowed_lt, h.acct.owner, h.acct.idle, h.acct.active⟩, h.runs⟩

theorem Inv.modifySd (h : s.Inv) {f : IasData → IasData}
    (hf : ∀ d, (f d).threadsActive = d.threadsActive) : (s.modifySd sd f).Inv :=
  ⟨h.sched, h.pendWait, h.acct.modifySd (hf _), h.runs⟩

theorem Inv.setCongested (h : s.Inv) (b : Bool) : (s.setCongested sd b).Inv :=
  h.modifySd fun _ => rfl

theorem Inv.cleanupCore (h : s.Inv) : (s.cleanupCore core).Inv := by
  refine ⟨?_, ?_, h.acct.cleanupCore, h.runs.cleanupCore⟩ <;> rw [cleanupCore_sched]
  exacts [h.sched, h.pendWait]

/-- `ias_run_kthread_on_core` for an attached proc: the scheduler starts one of its threads on
the core, and the core is counted for it. -/
theorem Inv.runKthreadOnCore (h : s.Inv) (hsd : sd ∈ s.procs) (te : Bool) :
    (s.runKthreadOnCore sd core te).1.Inv := by
  unfold Ias.runKthreadOnCore
  dsimp only
  split_ifs
  · exact h
  · split
    · exact h
    · next sch hrun =>
      dsimp only
      obtain ⟨-, hal, hal', hpw, ⟨i, hi⟩, hne⟩ := IkSched.schedRunOnCore_spec h.pendWait hrun
      refine ⟨?_, ?_, ?_, h.runs.assignCore hne fun _ => ⟨sd, i, rfl, hi⟩⟩
      · rw [assignCore_sched]
        exact h.sched.schedRunOnCore hrun
      · rw [assignCore_sched]
        exact hpw
      · refine (h.acct.withSched hal').assignCore (fun x hx => ?_) (fun hf => absurd hf (by simp))
        cases hx
        exact ⟨hsd, hal' ▸ hal⟩

theorem idleCore_procs (te : Bool) : (s.idleCore core owner te).1.procs = s.procs := by
  unfold Ias.idleCore
  dsimp only
  split <;> simp

/-- `ias_idle_placeholder_on_core` and `ias_idle_on_core`: the core is idle at the scheduler, or
made so, and counted for `owner`. -/
theorem Inv.idleCore (h : s.Inv) (ho : ∀ sd, owner = some sd → sd ∈ s.procs) (te : Bool) :
    (s.idleCore core owner te).1.Inv := by
  unfold Ias.idleCore
  dsimp only
  split_ifs with hid
  · -- already idle: the scheduler is not called
    dsimp only
    have hal := h.acct.idle core hid
    refine ⟨by simpa using h.sched, by simpa using h.pendWait, ?_,
      h.runs.assignCore (fun _ _ => rfl) (by simp)⟩
    exact (h.acct.withSched rfl).assignCore (fun x hx => ⟨ho x hx, hal⟩) fun _ => hal
  · split
    · exact h
    · next sch hrun =>
      dsimp only
      obtain ⟨-, hal, hal', hpw, hne⟩ := IkSched.schedIdleOnCore_spec h.pendWait hrun
      refine ⟨?_, ?_, ?_, h.runs.assignCore hne (by simp)⟩
      · rw [assignCore_sched]
        exact h.sched.schedIdleOnCore hrun
      · rw [assignCore_sched]
        exact hpw
      · exact (h.acct.withSched hal').assignCore (fun x hx => ⟨ho x hx, hal' ▸ hal⟩)
          fun _ => hal' ▸ hal

theorem Inv.idleOnCore (h : s.Inv) (te : Bool) : (s.idleOnCore core te).1.Inv :=
  h.idleCore (fun _ hx => absurd hx (by simp)) te

theorem Inv.idlePlaceholderOnCore (h : s.Inv) (hsd : sd ∈ s.procs) (te : Bool) :
    (s.idlePlaceholderOnCore sd core te).1.Inv :=
  h.idleCore (fun _ hx => by cases hx; exact hsd) te

theorem htRelinquishCore_procs (budget : Nat → ℚ) (te : Bool) :
    (s.htRelinquishCore sd budget te).1.procs = s.procs := by
  unfold Ias.htRelinquishCore
  dsimp only
  split_ifs
  · rfl
  · exact idleCore_procs te
  · rfl

theorem Inv.htRelinquishCore (h : s.Inv) (budget : Nat → ℚ) (te : Bool) :
    (s.htRelinquishCore sd budget te).1.Inv := by
  unfold Ias.htRelinquishCore
  dsimp only
  split_ifs
  · exact h
  · exact (h.withPunished _).idleOnCore te
  · exact h

/-- `ias_add_kthread` for an attached proc. -/
theorem Inv.addKthread (h : s.Inv) (hsd : sd ∈ s.procs) (i : IasInput) :
    (s.addKthread sd i).1.Inv := by
  have hr : (s.htRelinquishCore sd i.budget i.txEmpty).1.Inv := h.htRelinquishCore i.budget i.txEmpty
  have hsd' : sd ∈ (s.htRelinquishCore sd i.budget i.txEmpty).1.procs := by
    rwa [htRelinquishCore_procs]
  unfold Ias.addKthread
  dsimp only
  split_ifs
  · exact hr.runKthreadOnCore hsd' _
  · exact hr
  · exact hr
  · exact hr.runKthreadOnCore hsd' _
  · exact h.runKthreadOnCore hsd _

theorem Inv.notifyCongested (h : s.Inv) (hsd : sd ∈ s.procs) (congested : Bool) (i : IasInput) :
    (s.notifyCongested sd congested i).Inv := by
  unfold Ias.notifyCongested
  dsimp only
  split_ifs
  · exact h.setCongested false
  · exact h.addKthread hsd i
  · exact (h.addKthread hsd i).setCongested true

/-- `ias_choose_kthread` picks an attached proc. -/
theorem chooseKthread_mem (h : s.chooseKthread core = some sd) : sd ∈ s.procs := by
  unfold chooseKthread at h
  -- the best so far is always a proc of the list
  suffices ∀ (l : List Nat) (acc : Option Nat × Int), (∀ x, acc.1 = some x → x ∈ s.procs) →
      (∀ x ∈ l, x ∈ s.procs) → ∀ x, (l.foldl (fun (acc : Option Nat × Int) sd =>
        if !(s.sd sd).isCongested then acc
        else if (s.sd sd).threadsActive ≥ (s.sd sd).threadsLimit then acc
        else if s.kthreadScore sd core > acc.2 then (some sd, s.kthreadScore sd core) else acc)
        acc).1 = some x → x ∈ s.procs from
    this s.procs (none, -1) (by simp) (fun _ hx => hx) sd h
  intro l
  induction l with
  | nil => exact fun acc hacc _ => hacc
  | cons a l ih =>
    intro acc hacc hl
    refine ih _ ?_ (fun x hx => hl x (List.mem_cons_of_mem _ hx))
    intro x hx
    dsimp only at hx
    split_ifs at hx
    · exact hacc x hx
    · exact hacc x hx
    · cases hx
      exact hl _ List.mem_cons_self
    · exact hacc x hx

theorem Inv.addKthreadOnCore (h : s.Inv) (te : Bool) : (s.addKthreadOnCore core te).1.Inv := by
  unfold Ias.addKthreadOnCore
  split
  · exact h
  · next sd hsd => exact h.runKthreadOnCore (chooseKthread_mem hsd) te

/-- The idle-core loop of `ias_sched_poll`, one core after the other. -/
theorem Inv.pollIdleCores (h : s.Inv) (te : Bool) : (s.pollIdleCores te).Inv := by
  unfold Ias.pollIdleCores
  generalize List.range ncpu = l
  induction l generalizing s with
  | nil => exact h
  | cons c l ih =>
    refine ih ?_
    dsimp only
    split_ifs
    · -- the owner of the idle core, if any, is first marked not congested
      cases hc : s.cores c with
      | some sd => exact (h.setCongested false).cleanupCore.addKthreadOnCore te
      | none => exact h.cleanupCore.addKthreadOnCore te
    · exact h

/-- `sched_poll`: the fast pass changes the thread only of the cores it reports, which the policy
marks idle before its loop. -/
theorem Inv.schedPoll (h : s.Inv) (o : Nat → IkSched.PollInput) (te : Bool) :
    (s.schedPoll o te).Inv := by
  unfold Ias.schedPoll
  dsimp only
  obtain ⟨h₁, h₂, h₃, h₅, h₄⟩ := IkSched.schedPollIdle_spec h.pendWait o
  apply Inv.pollIdleCores
  refine ⟨h₁ ▸ h.sched.schedPoll o, h₂, ?_, ?_⟩
  · have ha := h.acct.withSched h₃
    refine ⟨ha.nodup, ha.allowed_lt, ha.owner, fun c hc => ?_, ha.active⟩
    rcases Bool.or_eq_true_iff.1 hc with hc | hc
    · exact ha.idle c hc
    · -- a reported core is an allowed one
      exact h₃ ▸ h₅ c hc
  · intro c sd hc hidle
    simp only [Bool.or_eq_false_iff] at hidle
    rw [h₄ c hidle.2]
    exact h.runs c sd hc hidle.1

theorem Inv.bwThrottleCore (h : s.Inv) (te : Bool) : (s.bwThrottleCore core te).Inv := by
  unfold Ias.bwThrottleCore
  split
  · exact h
  · dsimp only
    split_ifs
    · refine Inv.idleOnCore (Inv.addKthreadOnCore (Inv.modifySd h ?_) te) te
      exact fun _ => rfl
    · refine Inv.addKthreadOnCore (Inv.modifySd h ?_) te
      exact fun _ => rfl

theorem Inv.bwPunish (h : s.Inv) (te : Bool) : (s.bwPunish core te).Inv := by
  unfold Ias.bwPunish
  split
  · exact h
  · refine Inv.bwThrottleCore (Inv.modifySd h ?_) te
    exact fun _ => rfl

theorem Inv.bwRelax (h : s.Inv) : s.bwRelax.Inv := by
  unfold Ias.bwRelax
  dsimp only
  split
  · refine Inv.modifySd h ?_
    exact fun _ => rfl
  · exact h

theorem Inv.htRelax (h : s.Inv) (te : Bool) : (s.htRelax core te).Inv := by
  unfold Ias.htRelax
  dsimp only
  split_ifs
  · exact h
  · exact (h.withPunished _).idleOnCore te

/-- `ias_ht_punish` by an attached proc: a placeholder on the sibling lane, and a call for
another core for the LC proc that ran there. -/
theorem Inv.htPunish (h : s.Inv) (hsd : sd ∈ s.procs) (i : IasInput) :
    (s.htPunish sd core i).Inv := by
  unfold Ias.htPunish
  dsimp only
  have hp : (s.idlePlaceholderOnCore sd (s.sched.siblings core) i.txEmpty).1.Inv :=
    h.idlePlaceholderOnCore hsd i.txEmpty
  split_ifs
  · exact h
  · exact h
  · exact h
  · exact h
  · exact hp
  · have hw := hp.withPunished (Function.update
      (s.idlePlaceholderOnCore sd (s.sched.siblings core) i.txEmpty).1.punishedCores
      (s.sched.siblings core) true)
    split
    · next x hx =>
      -- the displaced owner is attached
      have hxp : x ∈ s.procs := (h.acct.owner _ x hx).1
      split_ifs
      · refine hw.addKthread ?_ i
        show x ∈ (s.idlePlaceholderOnCore sd (s.sched.siblings core) i.txEmpty).1.procs
        rw [Ias.idlePlaceholderOnCore, idleCore_procs]
        exact hxp
      · exact hw
    · exact hw

theorem Inv.htPollCore (h : s.Inv) (i : IasInput) : (s.htPollCore core i).Inv := by
  unfold Ias.htPollCore
  split
  · next sd hsd =>
    split_ifs
    · exact h.htPunish (h.acct.owner core sd hsd).1 i
    · exact h.htRelax i.txEmpty
  · exact h.htRelax i.txEmpty

/-- `ias_attach` of a proc not yet attached: it owns no core, so its count of zero is right. -/
theorem Inv.attach (h : s.Inv) (hp : p ∉ s.procs) (spec : IasSpec) : (s.attach p spec).1.Inv := by
  unfold Ias.attach
  generalize reserve s.sched.siblings (spec.guaranteedCores / 2) s.reservedCores (fun _ => false) = r
  -- a call refused at the `IAS_NPROC` limit changes nothing
  by_cases hfull : iasNproc ≤ s.procsNr
  · rw [if_pos hfull]
    exact h
  rw [if_neg hfull]
  by_cases hodd : spec.guaranteedCores % 2 ≠ 0
  · rw [if_pos hodd]
    exact h
  rw [if_neg hodd]
  by_cases hr : r.2.2 = true
  · rw [if_pos hr]
    refine ⟨h.sched, h.pendWait, ⟨List.nodup_cons.2 ⟨hp, h.acct.nodup⟩, h.acct.allowed_lt,
      fun c sd hc => ?_, h.acct.idle, fun sd hsd => ?_⟩, h.runs⟩
    · obtain ⟨hsd, hc⟩ := h.acct.owner c sd hc
      exact ⟨List.mem_cons_of_mem _ hsd, hc⟩
    · change _ = ((s.ownedCount sd : Nat) : Int)
      dsimp only at hsd ⊢
      rcases List.mem_cons.1 hsd with rfl | hsd
      · -- the new proc: no core names it
        rw [Function.update_self]
        refine (congrArg Nat.cast (List.countP_eq_zero.2 fun c _ hc => hp ?_)).symm
        simp only [Bool.and_eq_true, decide_eq_true_eq, beq_iff_eq] at hc
        exact (h.acct.owner c sd hc.2).1
      · have hne : sd ≠ p := fun e => hp (e ▸ hsd)
        rw [Function.update_of_ne hne]
        exact h.acct.active sd hsd
  · rw [if_neg hr]
    exact h.withReserved _

/-- `ias_detach`: the proc's cores lose their owner; no other count changes. -/
theorem Inv.detach (h : s.Inv) (p : Nat) : (s.detach p).Inv := by
  have hcores : ∀ c sd, (s.detach p).cores c = some sd ↔ s.cores c = some sd ∧ sd ≠ p := by
    intro c sd
    simp only [Ias.detach]
    split_ifs with hc
    · simp only [false_iff, not_and, not_not]
      intro hsd
      exact Option.some.inj (hsd.symm.trans hc.2)
    · refine ⟨fun hsd => ⟨hsd, fun e => hc ⟨?_, e ▸ hsd⟩⟩, fun h' => h'.1⟩
      exact h.acct.allowed_lt c (h.acct.owner c sd hsd).2
  have hmem : ∀ sd, sd ∈ (s.detach p).procs ↔ sd ≠ p ∧ sd ∈ s.procs :=
    fun sd => h.acct.nodup.mem_erase_iff
  refine ⟨h.sched, h.pendWait, ⟨h.acct.nodup.erase p, h.acct.allowed_lt, fun c sd hc => ?_,
    h.acct.idle, fun sd hsd => ?_⟩, fun c sd hc hidle => h.runs c sd ((hcores c sd).1 hc).1 hidle⟩
  · obtain ⟨hc, hne⟩ := (hcores c sd).1 hc
    exact ⟨(hmem sd).2 ⟨hne, (h.acct.owner c sd hc).1⟩, (h.acct.owner c sd hc).2⟩
  · obtain ⟨hne, hsd⟩ := (hmem sd).1 hsd
    have hcount : (s.detach p).ownedCount sd = s.ownedCount sd :=
      List.countP_congr fun c _ => by
        have := hcores c sd
        simp only [Bool.and_eq_true, decide_eq_true_eq, beq_iff_eq]
        exact and_congr_right fun _ => by simp only [this, hne, ne_eq, not_false_eq_true, and_true]
    rw [hcount]
    exact h.acct.active sd hsd

/-- The policy before any proc is attached. -/
theorem init_inv {sch : IkSched} (hs : sch.Inv none) (hpw : sch.PendWait)
    (hal : ∀ c ∈ sch.allowed, c < ncpu) : (Ias.init sch).Inv where
  sched := hs
  pendWait := hpw
  acct := ⟨List.nodup_nil, hal, fun _ _ hc => absurd hc (by simp [Ias.init]),
    fun _ hc => absurd hc (by simp [Ias.init]), fun _ hsd => absurd hsd (by simp [Ias.init])⟩
  runs := fun _ _ hc => absurd hc (by simp [Ias.init])

end Ias

theorem iasStep_invariant : StepRun.Invariant iasStep Ias.Inv := by
  intro s op s' h hs
  cases op with
  | attach p spec =>
    simp only [iasStep] at hs
    split_ifs at hs with hp
    cases hs
    exact h.attach hp spec
  | detach p =>
    simp only [iasStep] at hs
    split_ifs at hs
    cases hs
    exact h.detach p
  | coreNeeded p i =>
    simp only [iasStep] at hs
    split_ifs at hs with hp
    cases hs
    exact h.addKthread hp i
  | congested p c i =>
    simp only [iasStep] at hs
    split_ifs at hs with hp
    cases hs
    exact h.notifyCongested hp c i
  | poll o te =>
    simp only [iasStep, Option.some.injEq] at hs
    subst hs
    exact h.schedPoll o te
  | bwPunish core te =>
    simp only [iasStep] at hs
    split_ifs at hs
    cases hs
    exact h.bwPunish te
  | bwRelax =>
    simp only [iasStep, Option.some.injEq] at hs
    subst hs
    exact h.bwRelax
  | htPoll core i =>
    simp only [iasStep] at hs
    split_ifs at hs
    cases hs
    exact h.htPollCore i

theorem iasRun_accounting (counts : Nat → Nat) (hc : ∀ p, counts p ≤ ncpu) (allowed : List Nat)
    (hal : ∀ c ∈ allowed, c < ncpu) (siblings : Nat → Nat) (ops : List IasOp) {s : Ias}
    (hrun : StepRun.run iasStep (Ias.init (IkSched.init counts allowed siblings)) ops = some s) :
    (∀ sd ∈ s.procs, (s.sd sd).threadsActive = s.ownedCount sd ∧ 0 ≤ (s.sd sd).threadsActive) ∧
    ∀ c sd, s.cores c = some sd → s.idleCores c = false →
      ∃ i, s.sched.getThreadOnCore c = some (sd, i) := by
  have hpw : (IkSched.init counts allowed siblings).PendWait := fun _ hp => by
    simp [IkSched.init] at hp
  have hi := iasStep_invariant.run (Ias.init_inv (IkSched.init_inv hc allowed siblings) hpw hal) hrun
  refine ⟨fun sd hsd => ⟨hi.acct.active sd hsd, ?_⟩, hi.runs⟩
  rw [hi.acct.active sd hsd]
  exact Int.natCast_nonneg _

theorem iasRun_accounting_throttle : (∀ p : Nat, (fun _ => 2) p ≤ ncpu) ∧
    (∀ c ∈ [0, 1], c < ncpu) ∧
    ∃ s, StepRun.run iasStep iasStart iasBwTrace = some s ∧ (s.sd 0).threadsActive = 0 ∧
      (s.sd 0).threadsLimit = 0 ∧
    ((∀ sd ∈ s.procs, (s.sd sd).threadsActive = s.ownedCount sd ∧ 0 ≤ (s.sd sd).threadsActive) ∧
    ∀ c sd, s.cores c = some sd → s.idleCores c = false →
      ∃ i, s.sched.getThreadOnCore c = some (sd, i)) :=
  ⟨fun _ => show 2 ≤ ncpu by decide, fun c hc => by simp at hc; unfold ncpu; omega, _, rfl, rfl,
    rfl, iasRun_accounting (fun _ => 2) (fun _ => show 2 ≤ ncpu by decide) [0, 1]
      (fun c hc => by simp at hc; unfold ncpu; omega) (fun c => if c = 0 then 1 else 0)
      iasBwTrace rfl⟩

end Caladan
