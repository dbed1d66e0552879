import Mathlib
import Caladan.Iokernel.IasInv
import Caladan.Iokernel.Simple

/-!
# The books of the simple policy

Over every run of `simple.c` from `simple_init`, whatever the scheduler layer answers:
`threads_active` counts the cores `cores[]` gives a proc, an idle core has no owner, and
`is_congested` says whether a proc is on `congested_procs`, where it stands once.
-/

namespace Caladan

namespace Simple

variable {s t : Simple} {i : SimpleIn} {core sd p : Nat} {owner : Option Nat}

/-- The number of cores that `cores[]` gives to `sd`. -/
def ownedCount (s : Simple) (sd : Nat) : Nat :=
  (List.range ncpu).countP fun c => s.cores c == some sd

/-- The books of the policy: cores and history name attached procs only, `threads_active` is
the count of owned cores, an idle core has no owner, and `congested_procs` holds exactly the
congested procs, once each. -/
structure Books (s : Simple) : Prop where
  nodup : s.procs.Nodup
  owner : ∀ c sd, s.cores c = some sd → c < ncpu ∧ sd ∈ s.procs
  hist : ∀ c sd, some sd ∈ s.hist c → c < ncpu ∧ sd ∈ s.procs
  active : ∀ sd ∈ s.procs, (s.sd sd).threadsActive = s.ownedCount sd
  idle : ∀ c, s.idleCores c = true → s.cores c = none
  congested : ∀ sd, sd ∈ s.congested ↔ sd ∈ s.procs ∧ (s.sd sd).isCongested = true
  congNodup : s.congested.Nodup

/-! ### What each primitive changes -/

section Frame

variable (s core sd)

@[simp] theorem modifySd_procs (f : SimpleData → SimpleData) : (s.modifySd sd f).procs = s.procs :=
  rfl
@[simp] theorem modifySd_cores (f : SimpleData → SimpleData) : (s.modifySd sd f).cores = s.cores :=
  rfl
@[simp] theorem modifySd_hist (f : SimpleData → SimpleData) : (s.modifySd sd f).hist = s.hist :=
  rfl
@[simp] theorem modifySd_idleCores (f : SimpleData → SimpleData) :
    (s.modifySd sd f).idleCores = s.idleCores := rfl
@[simp] theorem modifySd_congested (f : SimpleData → SimpleData) :
    (s.modifySd sd f).congested = s.congested := rfl
@[simp] theorem modifySd_cfg (f : SimpleData → SimpleData) : (s.modifySd sd f).cfg = s.cfg := rfl

theorem modifySd_sd (f : SimpleData → SimpleData) (x : Nat) :
    (s.modifySd sd f).sd x = if x = sd then f (s.sd sd) else s.sd x := by
  simp only [modifySd, Function.update_apply]

@[simp] theorem cleanupCore_procs : (s.cleanupCore core).procs = s.procs := by
  unfold cleanupCore
  split <;> rfl

@[simp] theorem cleanupCore_congested : (s.cleanupCore core).congested = s.congested := by
  unfold cleanupCore
  split <;> rfl

@[simp] theorem cleanupCore_idleCores : (s.cleanupCore core).idleCores = s.idleCores := by
  unfold cleanupCore
  split <;> rfl

@[simp] theorem cleanupCore_cfg : (s.cleanupCore core).cfg = s.cfg := by
  unfold cleanupCore
  split <;> rfl

@[simp] theorem cleanupCore_cores :
    (s.cleanupCore core).cores = Function.update s.cores core none := by
  unfold cleanupCore
  split
  · next hnone =>
    funext c
    by_cases hc : c = core
    · subst hc
      simp [hnone]
    · simp [Function.update_of_ne hc]
  · rfl

theorem cleanupCore_sd (x : Nat) : (s.cleanupCore core).sd x =
    if s.cores core = some x then
      { s.sd x with threadsActive := (s.sd x).threadsActive - 1 }
    else s.sd x := by
  unfold cleanupCore
  split
  · next hnone => simp [hnone]
  · next sd' hsd =>
    simp only [modifySd, Function.update_apply, hsd, Option.some.injEq]
    by_cases hx : x = sd'
    · simp [hx]
    · simp [hx, Ne.symm hx]

/-- `simple_cleanup_core` puts the old owner in front of the core's history. -/
theorem mem_cleanupCore_hist {c x : Nat} (h : some x ∈ (s.cleanupCore core).hist c) :
    some x ∈ s.hist c ∨ c = core ∧ s.cores core = some x := by
  unfold cleanupCore at h
  split at h
  · exact Or.inl h
  · next sd' hsd =>
    simp only [Function.update_apply] at h
    split_ifs at h with hc
    · rcases List.mem_cons.mp h with h | h
      · exact Or.inr ⟨hc, hsd ▸ (Option.some.inj h) ▸ rfl⟩
      · exact Or.inl (hc ▸ List.mem_of_mem_take h)
    · exact Or.inl h


@[simp] theorem unmarkCongested_procs : (s.unmarkCongested sd).procs = s.procs := by
  unfold unmarkCongested
  split_ifs <;> rfl

@[simp] theorem unmarkCongested_cores : (s.unmarkCongested sd).cores = s.cores := by
  unfold unmarkCongested
  split_ifs <;> rfl

@[simp] theorem markCongested_procs : (s.markCongested sd).procs = s.procs := by
  unfold markCongested
  split_ifs <;> rfl

theorem unmarkCongested_isCongested : ((s.unmarkCongested sd).sd sd).isCongested = false := by
  unfold unmarkCongested
  split_ifs with hc
  · simpa using hc
  · simp [modifySd_sd]

@[simp] theorem runKthreadOnCore_procs (i : SimpleIn) :
    (s.runKthreadOnCore i sd core).1.procs = s.procs := by
  unfold runKthreadOnCore
  split_ifs <;> simp

@[simp] theorem addKthread_procs (i : SimpleIn) : (s.addKthread i sd).1.procs = s.procs := by
  simp only [addKthread]
  split_ifs <;> simp

theorem runKthreadOnCore_of_ne (i : SimpleIn) (h : (s.runKthreadOnCore i sd core).2 ≠ 0) :
    (s.runKthreadOnCore i sd core).1 = s := by
  unfold runKthreadOnCore at h ⊢
  split_ifs at h ⊢
  · rfl
  · rfl
  · exact absurd rfl h

end Frame

/-! ### The books across each primitive -/

/-- The books across a change of one core's owner. -/
theorem Books.change (h : s.Books) (hprocs : t.procs = s.procs)
    (hcong : t.congested = s.congested)
    (hisc : ∀ x, (t.sd x).isCongested = (s.sd x).isCongested)
    (hcores : t.cores = Function.update s.cores core owner) (hcore : core < ncpu)
    (hact : ∀ x, (t.sd x).threadsActive = (s.sd x).threadsActive -
      (if s.cores core = some x then 1 else 0) + (if owner = some x then 1 else 0))
    (hown : ∀ sd, owner = some sd → sd ∈ s.procs)
    (hidle : ∀ c, t.idleCores c = true → s.idleCores c = true ∧ c ≠ core ∨ c = core ∧ owner = none)
    (hhist : ∀ c x, some x ∈ t.hist c → some x ∈ s.hist c ∨ c = core ∧ s.cores core = some x) :
    t.Books := by
  refine ⟨hprocs ▸ h.nodup, fun c x hc => ?_, fun c x hc => ?_, fun x hx => ?_, fun c hc => ?_,
    fun x => ?_, hcong ▸ h.congNodup⟩
  · rw [hprocs]
    rw [hcores] at hc
    by_cases hcc : c = core
    · subst hcc
      rw [Function.update_self] at hc
      exact ⟨hcore, hown x hc⟩
    · rw [Function.update_of_ne hcc] at hc
      exact h.owner c x hc
  · rw [hprocs]
    rcases hhist c x hc with hc | ⟨rfl, hx⟩
    · exact h.hist c x hc
    · exact h.owner c x hx
  · rw [hprocs] at hx
    have hcount := countP_update (List.nodup_range (n := ncpu))
      (fun _ o => o == some x) s.cores core owner
    -- the two end terms count `core` for its old and its new owner
    simp only [List.mem_range, hcore, true_and, beq_iff_eq] at hcount
    have ht : t.ownedCount x = (List.range ncpu).countP fun c =>
        Function.update s.cores core owner c == some x := by
      simp only [ownedCount, hcores]
    rw [hact, h.active x hx, ht]
    unfold ownedCount
    split_ifs at hcount ⊢ <;> omega
  · rw [hcores]
    rcases hidle c hc with ⟨hc, hne⟩ | ⟨rfl, hnone⟩
    · rw [Function.update_of_ne hne]
      exact h.idle c hc
    · rw [Function.update_self, hnone]
  · rw [hcong, h.congested x, hprocs, hisc]

theorem Books.cleanupCore (h : s.Books) (hcore : core < ncpu) : (s.cleanupCore core).Books := by
  refine h.change (cleanupCore_procs s core) (cleanupCore_congested s core) (fun x => ?_)
    (cleanupCore_cores s core) hcore (fun x => ?_) (fun _ h => nomatch h)
    (fun c hc => ?_) (fun c x hc => mem_cleanupCore_hist s core hc)
  · rw [cleanupCore_sd]
    split_ifs <;> rfl
  · rw [cleanupCore_sd]
    by_cases hx : s.cores core = some x <;> simp [hx]
  · rw [cleanupCore_idleCores] at hc
    by_cases hcc : c = core
    · exact Or.inr ⟨hcc, rfl⟩
    · exact Or.inl ⟨hc, hcc⟩

/-- The books across a change of the flags and `congested_procs` alone. -/
theorem Books.flags (h : s.Books) (hprocs : t.procs = s.procs) (hcores : t.cores = s.cores)
    (hhist : t.hist = s.hist) (hidle : t.idleCores = s.idleCores)
    (hact : ∀ x, (t.sd x).threadsActive = (s.sd x).threadsActive)
    (hcong : ∀ x, x ∈ t.congested ↔ x ∈ t.procs ∧ (t.sd x).isCongested = true)
    (hnd : t.congested.Nodup) : t.Books := by
  have hown : t.ownedCount = s.ownedCount := by
    funext x
    simp only [ownedCount, hcores]
  refine ⟨hprocs ▸ h.nodup, hprocs ▸ hcores ▸ h.owner, hprocs ▸ hhist ▸ h.hist,
    fun x hx => ?_, hcores ▸ hidle ▸ h.idle, hcong, hnd⟩
  rw [hact, hown]
  exact h.active x (hprocs ▸ hx)

/-- A change of `simple_data` that keeps `threads_active` and `is_congested` keeps the books. -/
theorem Books.modifySd (h : s.Books) (f : SimpleData → SimpleData)
    (hact : (f (s.sd sd)).threadsActive = (s.sd sd).threadsActive)
    (hisc : (f (s.sd sd)).isCongested = (s.sd sd).isCongested) : (s.modifySd sd f).Books := by
  refine h.flags rfl rfl rfl rfl (fun x => ?_) (fun x => ?_) h.congNodup
  · rw [modifySd_sd]
    split_ifs with hx
    · rw [hx, hact]
    · rfl
  · rw [modifySd_sd, modifySd_congested, modifySd_procs, h.congested x]
    split_ifs with hx
    · rw [hx, hisc]
    · rfl

theorem Books.setIdle (h : s.Books) (hcore : s.cores core = none) :
    { s with idleCores := Function.update s.idleCores core true }.Books := by
  refine ⟨h.nodup, h.owner, h.hist, h.active, fun c hc => ?_, h.congested, h.congNodup⟩
  by_cases hcc : c = core
  · subst hcc
    exact hcore
  · have hc' : s.idleCores c = true := by simpa [Function.update_of_ne hcc] using hc
    exact h.idle c hc'

theorem Books.markCongested (h : s.Books) (hsd : sd ∈ s.procs) : (s.markCongested sd).Books := by
  unfold Simple.markCongested
  split_ifs with hc
  · exact h
  -- not congested, so not on the list: pushing it keeps the list free of repeats
  have hnot : sd ∉ s.congested := fun hm => hc ((h.congested sd).mp hm).2
  refine h.flags rfl rfl rfl rfl (fun x => ?_) (fun x => ?_)
    (List.nodup_cons.mpr ⟨hnot, h.congNodup⟩)
  · rw [modifySd_sd]
    split_ifs with hx <;> simp [hx]
  · simp only [List.mem_cons, modifySd_procs, modifySd_sd]
    by_cases hx : x = sd
    · subst hx
      simp [hsd]
    · simp [hx, h.congested x]

theorem Books.unmarkCongested (h : s.Books) : (s.unmarkCongested sd).Books := by
  unfold Simple.unmarkCongested
  split_ifs with hc
  · exact h
  refine h.flags rfl rfl rfl rfl (fun x => ?_) (fun x => ?_) (h.congNodup.erase sd)
  · rw [modifySd_sd]
    split_ifs with hx <;> simp [hx]
  · simp only [modifySd_procs, modifySd_sd, h.congNodup.mem_erase_iff]
    by_cases hx : x = sd
    · subst hx
      simp
    · simp [hx, h.congested x]

theorem Books.runKthreadOnCore (h : s.Books) (hsd : sd ∈ s.procs) (hcore : core < ncpu) :
    (s.runKthreadOnCore i sd core).1.Books := by
  unfold Simple.runKthreadOnCore
  split_ifs with havail hret
  · exact h
  · exact h
  -- the core is freed first, then given to `sd`
  have h₁ := h.cleanupCore hcore
  have hfree : (s.cleanupCore core).cores core = none := by simp
  refine h₁.change rfl rfl (fun x => ?_) rfl hcore (fun x => ?_) (fun x hx => ?_) (fun c hc => ?_)
    (fun c x hc => Or.inl hc)
  · rw [modifySd_sd]
    split_ifs with hx <;> simp [hx]
  · rw [modifySd_sd, hfree]
    by_cases hx : x = sd
    · subst hx
      simp
    · simp [hx, Ne.symm hx]
  · cases hx
    simpa using hsd
  · by_cases hcc : c = core
    · subst hcc
      simp at hc
    · exact Or.inl ⟨by simpa [Function.update_of_ne hcc] using hc, hcc⟩

theorem chooseIdleThread_lt : ∀ {l : List Nat} {c : Nat},
    s.chooseIdleThread sd l = some c → c < ncpu
  | [], _, h => nomatch h
  | core :: l, c, h => by
    simp only [chooseIdleThread] at h
    split_ifs at h with hn htake hsib
    · cases h
      omega
    · cases h
      rw [Bool.and_eq_true, decide_eq_true_eq] at hsib
      exact s.cfg.allowed_lt _ hsib.2
    · exact chooseIdleThread_lt h

/-- `simple_choose_core` answers a core of the machine, or `NCPU`. -/
theorem chooseCore_le (s : Simple) (sd : Nat) (l : List Nat) : s.chooseCore sd l ≤ ncpu := by
  unfold chooseCore
  split
  · next core hcore =>
    have hsib : _ = true := List.find?_some hcore
    rw [Bool.and_eq_true, decide_eq_true_eq] at hsib
    exact (s.cfg.allowed_lt _ hsib.2).le
  split
  · next core hcore => exact (chooseIdleThread_lt hcore).le
  split
  · next core hcore => exact (List.mem_range.mp (List.mem_of_find?_eq_some hcore)).le
  cases hp : s.cfg.allowed.find? (s.preemptsAt sd) with
  | none => simp
  | some core => exact (s.cfg.allowed_lt _ (List.mem_of_find?_eq_some hp)).le

theorem Books.addKthread (h : s.Books) (hsd : sd ∈ s.procs) : (s.addKthread i sd).1.Books := by
  simp only [Simple.addKthread]
  split_ifs with hmax hcore
  · exact h
  · exact h
  · exact h.runKthreadOnCore hsd (lt_of_le_of_ne (s.chooseCore_le sd _) hcore)

theorem Books.notifyCongested (h : s.Books) (hsd : sd ∈ s.procs) (busy : Bool) (delay : Nat)
    (pk : Bool) : (s.notifyCongested i sd busy delay pk).Books := by
  simp only [Simple.notifyCongested]
  -- the congestion test is an input to what follows
  generalize ((if (s.sd sd).qdelayUs = 0 then busy else decide ((s.sd sd).qdelayUs ≤ delay)) ||
    pk) = congested
  split_ifs with hw hc hcong hret
  · exact h.modifySd _ rfl rfl
  · exact h.unmarkCongested
  · exact h
  · exact h.addKthread hsd
  · -- the add failed: the proc goes on `congested_procs`
    exact (h.addKthread hsd).markCongested (by rwa [addKthread_procs])

theorem Books.attach (h : s.Books) (hp : p ∉ s.procs) (spec : SimpleSpec) :
    (s.attach p spec).Books := by
  have hne : ∀ x ∈ s.procs, x ≠ p := fun x hx he => hp (he ▸ hx)
  refine ⟨List.nodup_cons.mpr ⟨hp, h.nodup⟩, fun c x hc => ?_, fun c x hc => ?_,
    fun x hx => ?_, h.idle, fun x => ?_, h.congNodup⟩
  · obtain ⟨hc, hx⟩ := h.owner c x hc
    exact ⟨hc, List.mem_cons_of_mem p hx⟩
  · obtain ⟨hc, hx⟩ := h.hist c x hc
    exact ⟨hc, List.mem_cons_of_mem p hx⟩
  · change (Function.update s.sd p _ x).threadsActive = s.ownedCount x
    rcases List.mem_cons.mp hx with rfl | hx
    · -- the new proc owns no core
      rw [Function.update_self]
      refine (congrArg Nat.cast (List.countP_eq_zero.mpr fun c _ hc => hp ?_)).symm
      exact (h.owner c x (by simpa using hc)).2
    · rw [Function.update_of_ne (hne x hx)]
      exact h.active x hx
  · change x ∈ s.congested ↔ x ∈ p :: s.procs ∧ (Function.update s.sd p _ x).isCongested = true
    by_cases hx : x = p
    · subst hx
      simp only [Function.update_self, Bool.false_eq_true, and_false, iff_false]
      exact fun hm => hp ((h.congested x).mp hm).1
    · rw [Function.update_of_ne hx, List.mem_cons, h.congested x]
      simp [hx]

theorem Books.detach (h : s.Books) : (s.detach p).Books := by
  have h₁ : (s.unmarkCongested p).Books := h.unmarkCongested
  have hnot : p ∉ (s.unmarkCongested p).congested := fun hm => by
    have := ((h₁.congested p).mp hm).2
    rw [unmarkCongested_isCongested] at this
    cases this
  unfold Simple.detach
  generalize s.unmarkCongested p = s₁ at h₁ hnot ⊢
  -- what still names `p` is cleared; the rest keeps its owner
  have hother : ∀ c, ∀ x ≠ p, ((if c < ncpu ∧ s₁.cores c = some p then none else s₁.cores c) =
      some x ↔ s₁.cores c = some x) := by
    intro c x hxp
    split_ifs with hc
    · simp only [false_iff]
      exact fun hx => hxp (Option.some.inj (hx.symm.trans hc.2))
    · rfl
  refine ⟨h₁.nodup.erase p, fun c x hc => ?_, fun c x hc => ?_, fun x hx => ?_, fun c hc => ?_,
    fun x => ?_, h₁.congNodup⟩
  · dsimp only at hc ⊢
    have hxp : x ≠ p := by
      rintro rfl
      -- a core of `p` was cleared
      split_ifs at hc with hcond
      exact hcond ⟨(h₁.owner c x hc).1, hc⟩
    obtain ⟨hc', hx⟩ := h₁.owner c x ((hother c x hxp).mp hc)
    exact ⟨hc', h₁.nodup.mem_erase_iff.mpr ⟨hxp, hx⟩⟩
  · dsimp only at hc ⊢
    split_ifs at hc with hcn
    · obtain ⟨o, ho, hf⟩ := List.mem_map.mp hc
      split_ifs at hf with hop
      subst hf
      have hxp : x ≠ p := fun he => hop (he ▸ rfl)
      exact ⟨hcn, h₁.nodup.mem_erase_iff.mpr ⟨hxp, (h₁.hist c x ho).2⟩⟩
    · exact absurd (h₁.hist c x hc).1 hcn
  · dsimp only at hx ⊢
    obtain ⟨hxp, hx⟩ := h₁.nodup.mem_erase_iff.mp hx
    rw [h₁.active x hx]
    unfold ownedCount
    congr 1
    refine List.countP_congr fun c _ => ?_
    simp only [beq_iff_eq]
    exact (hother c x hxp).symm
  · dsimp only at hc ⊢
    rw [h₁.idle c hc]
    split_ifs <;> rfl
  · dsimp only
    rw [h₁.nodup.mem_erase_iff, h₁.congested x]
    constructor
    · rintro ⟨hx, hc⟩
      exact ⟨⟨fun he => hnot (he ▸ (h₁.congested x).mpr ⟨hx, hc⟩), hx⟩, hc⟩
    · rintro ⟨⟨-, hx⟩, hc⟩
      exact ⟨hx, hc⟩

/-- A slot of a history names an attached proc. -/
theorem mem_of_getD_none {l : List (Option Nat)} {j x : Nat} (h : l.getD j none = some x) :
    some x ∈ l := by
  rw [List.getD_eq_getElem?_getD, Option.getD_eq_iff] at h
  rcases h with h | ⟨-, h⟩
  · exact List.mem_of_getElem? h
  · cases h

/-- `simple_choose_kthread` picks an attached proc: it looks only at owners, histories and
`congested_procs`. -/
theorem Books.chooseKthread_mem (h : s.Books) (hch : s.chooseKthread i core = some sd) :
    sd ∈ s.procs := by
  simp only [Simple.chooseKthread] at hch
  rcases Option.or_eq_some_iff.mp hch with hc | ⟨-, hc⟩
  · obtain ⟨o, ho, hf⟩ := List.exists_of_findSome?_eq_some hc
    obtain ⟨rfl, -⟩ := Option.filter_eq_some_iff.mp hf
    rcases List.mem_cons.mp ho with ho | ho
    · exact (h.owner _ sd ho.symm).2
    · simp only [List.mem_flatMap, List.mem_cons, List.not_mem_nil, or_false] at ho
      obtain ⟨j, -, ho | ho⟩ := ho
      · exact (h.hist _ sd (mem_of_getD_none ho.symm)).2
      · exact (h.hist _ sd (mem_of_getD_none ho.symm)).2
  · exact ((h.congested sd).mp (List.mem_of_find?_eq_some hc)).1

theorem Books.pollChoose (h : s.Books) (hcore : core < ncpu) (hfree : s.cores core = none) :
    (s.pollChoose i core).Books := by
  unfold Simple.pollChoose
  split
  · exact h.setIdle hfree
  · next sd hch =>
    have hsd := h.chooseKthread_mem hch
    dsimp only
    split_ifs with hret
    · -- a failed start changes nothing; the core turns idle and the proc congested
      rw [runKthreadOnCore_of_ne s core sd i hret]
      exact (h.setIdle hfree).markCongested hsd
    · exact h.runKthreadOnCore hsd hcore

theorem Books.pollCore (h : s.Books) (hcore : core < ncpu) : (s.pollCore i core).Books := by
  unfold Simple.pollCore
  cases hc : s.cores core with
  | none => exact (h.cleanupCore hcore).pollChoose hcore (by simp)
  | some sd => exact (h.unmarkCongested.cleanupCore hcore).pollChoose hcore (by simp)

theorem Books.schedPoll (h : s.Books) (n : Nat) (idle : Nat → Bool) :
    (s.schedPoll i n idle).Books := by
  unfold Simple.schedPoll
  split_ifs
  · exact h
  -- the loop visits cores of the machine only
  have hlt : ∀ c ∈ (List.range ncpu).filter idle, c < ncpu :=
    fun c hc => List.mem_range.mp (List.mem_filter.mp hc).1
  generalize (List.range ncpu).filter idle = cs at hlt
  induction cs generalizing s with
  | nil => exact h
  | cons c cs ih =>
    exact ih (h.pollCore (hlt c List.mem_cons_self)) fun c' hc' => hlt c' (List.mem_cons_of_mem c hc')

theorem init_books (cfg : SimpleCfg) : (init cfg).Books where
  nodup := List.nodup_nil
  owner := fun _ _ hc => nomatch hc
  hist := fun _ _ hc => absurd (List.eq_of_mem_replicate hc) (Option.some_ne_none _)
  active := fun _ hp => absurd hp List.not_mem_nil
  idle := fun _ _ => rfl
  congested := fun _ => by simp [init]
  congNodup := List.nodup_nil

theorem simpleStep_books : StepRun.Invariant simpleStep Books := by
  intro s op s' h hs
  cases op with
  | attach p spec =>
    simp only [simpleStep] at hs
    split_ifs at hs with hp
    obtain rfl := Option.some.inj hs
    exact h.attach hp spec
  | detach p =>
    simp only [simpleStep] at hs
    split_ifs at hs with hp
    obtain rfl := Option.some.inj hs
    exact h.detach
  | congested p busy delay pk i =>
    simp only [simpleStep] at hs
    split_ifs at hs with hp
    obtain rfl := Option.some.inj hs
    exact h.notifyCongested hp busy delay pk
  | coreNeeded p i =>
    simp only [simpleStep] at hs
    split_ifs at hs with hp
    obtain rfl := Option.some.inj hs
    exact h.addKthread hp
  | poll n idle i =>
    obtain rfl := Option.some.inj hs
    exact h.schedPoll n idle

end Simple

/-- Over every run of the simple policy from `simple_init`, whatever the scheduler layer
answers, each attached proc's `threads_active` is the number of cores `cores[]` gives it, no
idle core has an owner, and an attached proc is congested exactly when it is on
`congested_procs`, which holds each proc once. -/
theorem simpleRun_books {cfg : SimpleCfg} {ops : List SimpleOp} {s : Simple}
    (hrun : StepRun.run simpleStep (Simple.init cfg) ops = some s) :
    (∀ sd ∈ s.procs, (s.sd sd).threadsActive =
      (List.range ncpu).countP fun c => s.cores c == some sd) ∧
    (∀ c, s.idleCores c = true → s.cores c = none) ∧
    (∀ sd ∈ s.procs, (s.sd sd).isCongested = true ↔ sd ∈ s.congested) ∧ s.congested.Nodup := by
  have h := Simple.simpleStep_books.run (Simple.init_books cfg) hrun
  refine ⟨h.active, h.idle, fun sd hsd => ?_, h.congNodup⟩
  rw [h.congested sd]
  exact ⟨fun hc => ⟨hsd, hc⟩, fun hc => hc.2⟩

theorem simpleRun_books_over :
    ∃ s, StepRun.run simpleStep (Simple.init simpleTwoCores) simpleOverTrace = some s ∧
      (∀ sd ∈ s.procs, (s.sd sd).threadsActive =
        (List.range ncpu).countP fun c => s.cores c == some sd) ∧
      (∀ c, s.idleCores c = true → s.cores c = none) ∧
      (∀ sd ∈ s.procs, (s.sd sd).isCongested = true ↔ sd ∈ s.congested) ∧ s.congested.Nodup :=
  ⟨_, rfl, @simpleRun_books simpleTwoCores simpleOverTrace _ rfl⟩

end Caladan
