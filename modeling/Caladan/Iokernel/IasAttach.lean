import Mathlib
import Caladan.Iokernel.Ias

/-!
# Attaching and detaching procs in IAS (`ias_attach`, `ias_detach`)

The index table `ias_procs` with its high-water mark `ias_procs_nr`, and the reservation bitmaps:
what a run of attaches and detaches keeps of them, and where it does not.
-/

namespace Caladan

/-- The calls that `ias_attach` and `ias_detach` serve. -/
def IasOp.attachOrDetach : IasOp → Bool
  | .attach _ _ | .detach _ => true
  | _ => false

namespace Ias

variable {s : Ias} {p q : Nat}

/-! ## The index table -/

/-- The slot `reserveIdx` hands out is free and below the mark, which stays; or it is the mark,
which goes up by one. -/
theorem reserveIdx_cases (tbl : Nat → Option Nat) (nr : Nat) :
    ((reserveIdx tbl nr).1 < nr ∧ tbl (reserveIdx tbl nr).1 = none ∧ (reserveIdx tbl nr).2 = nr) ∨
      ((reserveIdx tbl nr).1 = nr ∧ (reserveIdx tbl nr).2 = nr + 1) := by
  unfold reserveIdx
  split
  · rename_i i hi
    left
    have hfree : tbl i = none := by simpa using List.find?_some hi
    exact ⟨List.mem_range.mp (List.mem_of_find?_eq_some hi), hfree, rfl⟩
  · right
    exact ⟨rfl, rfl⟩

/-- What `ias_procs` and `ias_procs_nr` keep of the attached procs: each holds a slot below the
mark that points back to it, a taken slot belongs to an attached proc, and the mark stays within
`IAS_NPROC`. -/
structure IdxOk (s : Ias) : Prop where
  nodup : s.procs.Nodup
  nr_le : s.procsNr ≤ iasNproc
  idx_lt : ∀ p ∈ s.procs, (s.sd p).idx < s.procsNr
  slot : ∀ p ∈ s.procs, s.procTbl (s.sd p).idx = some p
  back : ∀ i q, s.procTbl i = some q → q ∈ s.procs ∧ (s.sd q).idx = i

namespace IdxOk

theorem idx_inj (h : s.IdxOk) (hp : p ∈ s.procs) (hq : q ∈ s.procs)
    (he : (s.sd p).idx = (s.sd q).idx) : p = q := by
  have hslot := h.slot p hp
  rw [he, h.slot q hq] at hslot
  exact (Option.some.inj hslot).symm

theorem attach (h : s.IdxOk) (hp : p ∉ s.procs) (spec : IasSpec) : (s.attach p spec).1.IdxOk := by
  unfold Ias.attach
  generalize reserve s.sched.siblings (spec.guaranteedCores / 2) s.reservedCores (fun _ => false) = r
  by_cases hfull : iasNproc ≤ s.procsNr
  · rw [if_pos hfull]
    exact h
  rw [if_neg hfull]
  by_cases hodd : spec.guaranteedCores % 2 ≠ 0
  · rw [if_pos hodd]
    exact h
  rw [if_neg hodd]
  by_cases hr : r.2.2 = true
  swap
  · rw [if_neg hr]
    exact ⟨h.nodup, h.nr_le, h.idx_lt, h.slot, h.back⟩
  rw [if_pos hr]
  -- the slot handed out is free, so no attached proc holds it
  rcases hidx : reserveIdx s.procTbl s.procsNr with ⟨idx, nr⟩
  dsimp only
  have hcases := reserveIdx_cases s.procTbl s.procsNr
  simp only [hidx] at hcases
  have hfresh : ∀ q ∈ s.procs, (s.sd q).idx ≠ idx ∧ (s.sd q).idx < nr := by
    intro q hq
    have hlt := h.idx_lt q hq
    rcases hcases with ⟨-, hnone, rfl⟩ | ⟨rfl, rfl⟩
    · refine ⟨fun he => ?_, hlt⟩
      rw [← he, h.slot q hq] at hnone
      exact Option.some_ne_none _ hnone
    · omega
  have hnr : idx < nr ∧ nr ≤ iasNproc := by
    rcases hcases with ⟨hlt, -, rfl⟩ | ⟨rfl, rfl⟩ <;> omega
  have hne : ∀ q ∈ s.procs, q ≠ p := fun q hq he => hp (he ▸ hq)
  refine ⟨List.nodup_cons.mpr ⟨hp, h.nodup⟩, hnr.2, ?_, ?_, ?_⟩
  · intro q hq
    rcases List.mem_cons.mp hq with rfl | hq
    · simpa using hnr.1
    · simpa [Function.update_of_ne (hne q hq)] using (hfresh q hq).2
  · intro q hq
    rcases List.mem_cons.mp hq with rfl | hq
    · simp
    · simp [Function.update_of_ne (hne q hq), Function.update_of_ne (hfresh q hq).1, h.slot q hq]
  · intro i q hi
    dsimp only at hi ⊢
    by_cases hii : i = idx
    · subst hii
      simp only [Function.update_self, Option.some.injEq] at hi
      subst hi
      simp
    · rw [Function.update_of_ne hii] at hi
      obtain ⟨hq, hqi⟩ := h.back i q hi
      exact ⟨List.mem_cons_of_mem p hq, by simpa [Function.update_of_ne (hne q hq)] using hqi⟩

/-- `ias_detach` of an attached proc leaves the mark where it is: its slot lies below it. -/
theorem detach_procsNr (h : s.IdxOk) (hp : p ∈ s.procs) : (s.detach p).procsNr = s.procsNr := by
  have := h.idx_lt p hp
  simp only [Ias.detach]
  rw [if_neg (by omega)]

theorem detach (h : s.IdxOk) (hp : p ∈ s.procs) : (s.detach p).IdxOk := by
  have hnr := h.detach_procsNr hp
  -- the other procs keep their slots, which differ from the freed one
  have hother : ∀ q ∈ s.procs, q ≠ p → (s.sd q).idx ≠ (s.sd p).idx :=
    fun q hq hqp he => hqp (h.idx_inj hq hp he)
  refine ⟨h.nodup.erase p, hnr ▸ h.nr_le, ?_, ?_, ?_⟩
  · intro q hq
    exact hnr ▸ h.idx_lt q (List.mem_of_mem_erase hq)
  · intro q hq
    have hqp : q ≠ p := fun he => (h.nodup.mem_erase_iff.mp (he ▸ hq)).1 rfl
    simp only [Ias.detach]
    rw [Function.update_of_ne (hother q (List.mem_of_mem_erase hq) hqp)]
    exact h.slot q (List.mem_of_mem_erase hq)
  · intro i q hi
    simp only [Ias.detach] at hi
    by_cases hii : i = (s.sd p).idx
    · subst hii
      simp at hi
    rw [Function.update_of_ne hii] at hi
    obtain ⟨hq, hqi⟩ := h.back i q hi
    have hqp : q ≠ p := fun he => hii (he ▸ hqi).symm
    exact ⟨(h.nodup.mem_erase_iff).mpr ⟨hqp, hq⟩, hqi⟩

end IdxOk

theorem init_idxOk (sched : IkSched) : (init sched).IdxOk where
  nodup := List.nodup_nil
  nr_le := Nat.zero_le _
  idx_lt := fun _ hp => absurd hp List.not_mem_nil
  slot := fun _ hp => absurd hp List.not_mem_nil
  back := fun _ _ hi => absurd hi (by simp [init])

theorem iasStep_idxOk :
    StepRun.InvariantOn iasStep (fun op => op.attachOrDetach = true) IdxOk := by
  intro s op s' hop h hs
  cases op with
  | attach p spec =>
    simp only [iasStep] at hs
    split_ifs at hs with hp
    obtain rfl := Option.some.inj hs
    exact h.attach hp spec
  | detach p =>
    simp only [iasStep] at hs
    split_ifs at hs with hp
    obtain rfl := Option.some.inj hs
    exact h.detach hp
  | _ => simp [IasOp.attachOrDetach] at hop

/-- At the `IAS_NPROC` mark `ias_attach` refuses, whatever the spec. -/
theorem attach_of_full (h : iasNproc ≤ s.procsNr) (spec : IasSpec) :
    s.attach p spec = (s, -enoent) := by
  unfold Ias.attach
  rw [if_pos h]

/-- Once the mark stands at `IAS_NPROC`, attaches and detaches leave it there: every attach is
refused and a detach only frees a slot below it. -/
theorem iasStep_full : StepRun.InvariantOn iasStep (fun op => op.attachOrDetach = true)
    fun s => s.IdxOk ∧ s.procsNr = iasNproc ∧ s.procs.length < iasNproc := by
  intro s op s' hop ⟨h, hnr, hlen⟩ hs
  cases op with
  | attach p spec =>
    simp only [iasStep, attach_of_full hnr.ge] at hs
    split_ifs at hs
    obtain rfl := Option.some.inj hs
    exact ⟨h, hnr, hlen⟩
  | detach p =>
    simp only [iasStep] at hs
    split_ifs at hs with hp
    obtain rfl := Option.some.inj hs
    refine ⟨h.detach hp, (h.detach_procsNr hp).trans hnr, ?_⟩
    simp only [Ias.detach, List.length_erase_of_mem hp]
    omega
  | _ => simp [IasOp.attachOrDetach] at hop

end Ias

/-- Over every run of attaches and detaches from `ias_init`, the attached procs hold distinct
slots below `IAS_NPROC`, and each slot of `ias_procs` points back to its proc. -/
theorem iasRun_idx_distinct {sched : IkSched} {ops : List IasOp} {s : Ias}
    (hops : ∀ op ∈ ops, op.attachOrDetach = true)
    (hrun : StepRun.run iasStep (Ias.init sched) ops = some s) :
    ∀ p ∈ s.procs, (s.sd p).idx < iasNproc ∧ s.procTbl (s.sd p).idx = some p ∧
      ∀ q ∈ s.procs, (s.sd q).idx = (s.sd p).idx → q = p := by
  have h := Ias.iasStep_idxOk.run hops (Ias.init_idxOk sched) hrun
  intro p hp
  exact ⟨(h.idx_lt p hp).trans_le h.nr_le, h.slot p hp, fun q hq he => h.idx_inj hq hp he⟩

theorem iasRun_idx_distinct_two :
    ∃ s, StepRun.run iasStep iasStart [.attach 0 ⟨0, 1, false, 0⟩, .attach 1 ⟨0, 1, false, 0⟩] =
      some s ∧ ∀ p ∈ s.procs, (s.sd p).idx < iasNproc ∧ s.procTbl (s.sd p).idx = some p ∧
        ∀ q ∈ s.procs, (s.sd q).idx = (s.sd p).idx → q = p :=
  ⟨_, rfl, @iasRun_idx_distinct _ [.attach 0 ⟨0, 1, false, 0⟩, .attach 1 ⟨0, 1, false, 0⟩] _
    (by decide) rfl⟩

/-- Thirty-two procs attached in turn, then the first one detached. -/
def iasChurnTrace : List IasOp :=
  (List.range 32).map (fun p => .attach p ⟨0, 1, false, 0⟩) ++ [.detach 0]

/-- The mark `ias_procs_nr` never comes down: `ias_detach` lowers it only when `idx` equals
it, and every slot lies below it. After thirty-two attaches and one detach, 31 procs are
attached, and from there on, whatever attaches and detaches follow, `ias_attach` refuses every
proc with `-ENOENT` at the `IAS_NPROC` check, with fewer than `IAS_NPROC` procs attached. -/
theorem iasAttach_refused_below_limit :
    ∃ s, StepRun.run iasStep iasStart iasChurnTrace = some s ∧ s.procs.length = 31 ∧
      ∀ ops s', (∀ op ∈ ops, op.attachOrDetach = true) → StepRun.run iasStep s ops = some s' →
        s'.procs.length < iasNproc ∧ ∀ p spec, s'.attach p spec = (s', -enoent) := by
  have hsum : (StepRun.run iasStep iasStart iasChurnTrace).map
      (fun s => (s.procs.length, s.procsNr)) = some (31, 32) := by decide +kernel
  obtain ⟨s, hrun, hs⟩ := Option.map_eq_some_iff.mp hsum
  obtain ⟨hlen, hnr⟩ := Prod.mk.inj hs
  have hchurn : ∀ op ∈ iasChurnTrace, op.attachOrDetach = true := by decide
  have hok : s.IdxOk := Ias.iasStep_idxOk.run hchurn (Ias.init_idxOk _) hrun
  refine ⟨s, hrun, hlen, fun ops s' hops hrun' => ?_⟩
  obtain ⟨-, hnr', hlen'⟩ := Ias.iasStep_full.run hops ⟨hok, hnr, by rw [hlen]; decide⟩ hrun'
  exact ⟨hlen', fun p spec => Ias.attach_of_full hnr'.ge spec⟩

/-! ## The reservation bitmaps -/

namespace Ias

variable {s : Ias} {p q : Nat}

section Reserve

variable {sib : Nat → Nat}

/-- One pass of the loop of `reserve`, by its own recursion: the step sets `core` and its
sibling in both maps, where `core` was free. -/
theorem reserve_succ_of_find (n : Nat) (all mine : Nat → Bool) {x : Nat}
    (hx : (List.range ncpu).find? (fun c => !all c) = some x) :
    reserve sib (n + 1) all mine = reserve sib n
      (Function.update (Function.update all x true) (sib x) true)
      (Function.update (Function.update mine x true) (sib x) true) := by
  simp only [reserve, hx]

theorem reserve_succ_of_none (n : Nat) (all mine : Nat → Bool)
    (hx : (List.range ncpu).find? (fun c => !all c) = none) :
    reserve sib (n + 1) all mine = (all, mine, false) := by
  simp only [reserve, hx]

theorem free_of_find {all : Nat → Bool} {x : Nat}
    (hx : (List.range ncpu).find? (fun c => !all c) = some x) : all x = false := by
  simpa using List.find?_some hx

/-- A bit the loop sets in the global map stays set. -/
theorem reserve_all_mono : ∀ (n : Nat) (all mine : Nat → Bool) (c : Nat),
    all c = true → (reserve sib n all mine).1 c = true
  | 0, _, _, _, h => h
  | n + 1, all, mine, c, h => by
    rcases hx : (List.range ncpu).find? (fun c => !all c) with _ | x
    · rwa [reserve_succ_of_none n all mine hx]
    · rw [reserve_succ_of_find n all mine hx]
      exact reserve_all_mono n _ _ c (by simp [Function.update_apply, h])

/-- The proc's bits are set in the global map too. -/
theorem reserve_mine_all : ∀ (n : Nat) (all mine : Nat → Bool),
    (∀ c, mine c = true → all c = true) →
      ∀ c, (reserve sib n all mine).2.1 c = true → (reserve sib n all mine).1 c = true
  | 0, _, _, h => h
  | n + 1, all, mine, h => by
    rcases hx : (List.range ncpu).find? (fun c => !all c) with _ | x
    · rw [reserve_succ_of_none n all mine hx]
      exact h
    · rw [reserve_succ_of_find n all mine hx]
      refine reserve_mine_all n _ _ fun c hc => ?_
      simp only [Function.update_apply] at hc ⊢
      split_ifs at hc ⊢ <;> simp_all

/-- A bit of the proc's map was already set, or belongs to a pair whose first core was free. -/
theorem reserve_mine_free : ∀ (n : Nat) (all mine : Nat → Bool) (c : Nat),
    (reserve sib n all mine).2.1 c = true →
      mine c = true ∨ ∃ x, all x = false ∧ (c = x ∨ c = sib x)
  | 0, _, _, _, h => Or.inl h
  | n + 1, all, mine, c, h => by
    rcases hx : (List.range ncpu).find? (fun c => !all c) with _ | x
    · rw [reserve_succ_of_none n all mine hx] at h
      exact Or.inl h
    · rw [reserve_succ_of_find n all mine hx] at h
      have hfree := free_of_find hx
      rcases reserve_mine_free n _ _ c h with hm | ⟨y, hy, hc⟩
      · -- set in this pass: the pair of the free core `x`
        simp only [Function.update_apply] at hm
        split_ifs at hm with h₁ h₂
        · exact Or.inr ⟨x, hfree, Or.inr h₁⟩
        · exact Or.inr ⟨x, hfree, Or.inl h₂⟩
        · exact Or.inl hm
      · -- free after this pass, so free before it
        simp only [Function.update_apply] at hy
        split_ifs at hy
        exact Or.inr ⟨y, hy, hc⟩

/-- With siblings an involution, the proc's map stays closed under siblings. -/
theorem reserve_mine_pair (hsib : ∀ c, sib (sib c) = c) : ∀ (n : Nat) (all mine : Nat → Bool),
    (∀ c, mine c = true → mine (sib c) = true) →
      ∀ c, (reserve sib n all mine).2.1 c = true → (reserve sib n all mine).2.1 (sib c) = true
  | 0, _, _, h => h
  | n + 1, all, mine, h => by
    rcases hx : (List.range ncpu).find? (fun c => !all c) with _ | x
    · rw [reserve_succ_of_none n all mine hx]
      exact h
    · rw [reserve_succ_of_find n all mine hx]
      refine reserve_mine_pair hsib n _ _ fun c hc => ?_
      simp only [Function.update_apply] at hc ⊢
      by_cases h₁ : c = sib x
      · -- the sibling of the sibling is the free core itself
        have hx' : sib c = x := by rw [h₁, hsib]
        simp [hx']
      by_cases h₂ : c = x
      · simp [h₂]
      rw [if_neg h₁, if_neg h₂] at hc
      simp [h c hc]

end Reserve

/-- `ias_attach` and `ias_detach` leave the scheduler's state, its siblings included, alone. -/
theorem attach_sched (s : Ias) (p : Nat) (spec : IasSpec) : (s.attach p spec).1.sched = s.sched := by
  unfold Ias.attach
  dsimp only
  split_ifs <;> rfl

/-- What the reservation bitmaps keep of the attached procs while hyperthread siblings pair up:
each proc's reserved cores come in sibling pairs and are set in `ias_reserved_cores`, and no core
is reserved by two procs. -/
structure ResOk (s : Ias) : Prop where
  held : ∀ p ∈ s.procs, ∀ c, (s.sd p).reservedCores c = true → s.reservedCores c = true
  pair : ∀ p ∈ s.procs, ∀ c, (s.sd p).reservedCores c = true →
    (s.sd p).reservedCores (s.sched.siblings c) = true
  disj : ∀ p ∈ s.procs, ∀ q ∈ s.procs, p ≠ q → ∀ c,
    (s.sd p).reservedCores c = true → (s.sd q).reservedCores c = false

namespace ResOk

variable (hsib : Function.Involutive s.sched.siblings)
include hsib

/-- The loop of `ias_attach` never takes a core an attached proc holds: the pair's first core
would have to be free, and the proc holds both cores of the pair. -/
theorem reserve_not_held (h : s.ResOk) (hq : q ∈ s.procs) {c : Nat}
    (hc : (s.sd q).reservedCores c = true) (n : Nat) :
    (reserve s.sched.siblings n s.reservedCores fun _ => false).2.1 c = false := by
  cases hm : (reserve s.sched.siblings n s.reservedCores fun _ => false).2.1 c
  · rfl
  rcases reserve_mine_free n _ _ c hm with hm | ⟨x, hx, rfl | rfl⟩
  · exact absurd hm Bool.false_ne_true
  · rw [h.held q hq _ hc] at hx
    cases hx
  · have hxq := h.pair q hq _ hc
    rw [hsib x] at hxq
    rw [h.held q hq _ hxq] at hx
    cases hx

theorem attach (h : s.ResOk) (hp : p ∉ s.procs) (spec : IasSpec) : (s.attach p spec).1.ResOk := by
  unfold Ias.attach
  generalize hr : reserve s.sched.siblings (spec.guaranteedCores / 2) s.reservedCores
    (fun _ => false) = r
  by_cases hfull : iasNproc ≤ s.procsNr
  · rw [if_pos hfull]
    exact h
  rw [if_neg hfull]
  by_cases hodd : spec.guaranteedCores % 2 ≠ 0
  · rw [if_pos hodd]
    exact h
  rw [if_neg hodd]
  by_cases hok : r.2.2 = true
  swap
  · -- the failed reservation is handed back, which leaves every held core set
    rw [if_neg hok]
    refine ⟨fun q hq c hc => ?_, h.pair, h.disj⟩
    have hall : r.1 c = true := hr ▸ reserve_all_mono _ _ _ c (h.held q hq c hc)
    have hmine : r.2.1 c = false := hr ▸ h.reserve_not_held hsib hq hc _
    simp [hall, hmine]
  rw [if_pos hok]
  obtain ⟨idx, nr⟩ := reserveIdx s.procTbl s.procsNr
  have hne : ∀ q ∈ s.procs, q ≠ p := fun q hq he => hp (he ▸ hq)
  refine ⟨fun q hq c hc => ?_, fun q hq c hc => ?_, fun q hq q' hq' hqq' c hc => ?_⟩
  all_goals dsimp only at hq hc ⊢
  · rcases List.mem_cons.mp hq with rfl | hq
    · simp only [Function.update_self] at hc
      exact hr ▸ reserve_mine_all _ _ _ (fun _ h => absurd h Bool.false_ne_true) c (hr ▸ hc)
    · rw [Function.update_of_ne (hne q hq)] at hc
      exact hr ▸ reserve_all_mono _ _ _ c (h.held q hq c hc)
  · rcases List.mem_cons.mp hq with rfl | hq
    · simp only [Function.update_self] at hc ⊢
      exact hr ▸ reserve_mine_pair hsib _ _ _ (fun _ h => absurd h Bool.false_ne_true) c (hr ▸ hc)
    · rw [Function.update_of_ne (hne q hq)] at hc ⊢
      exact h.pair q hq c hc
  · -- the new proc's cores were free, so no attached proc holds one
    rcases List.mem_cons.mp hq with rfl | hq₁ <;> rcases List.mem_cons.mp hq' with rfl | hq₁'
    · exact absurd rfl hqq'
    · simp only [Function.update_self] at hc
      rw [Function.update_of_ne (hne q' hq₁')]
      cases hq'c : (s.sd q').reservedCores c
      · rfl
      · have hfree := h.reserve_not_held hsib hq₁' hq'c (spec.guaranteedCores / 2)
        rw [hr] at hfree
        rw [hfree] at hc
        cases hc
    · rw [Function.update_of_ne (hne q hq₁)] at hc
      simp only [Function.update_self]
      rw [← hr]
      exact h.reserve_not_held hsib hq₁ hc _
    · rw [Function.update_of_ne (hne q hq₁)] at hc
      rw [Function.update_of_ne (hne q' hq₁')]
      exact h.disj q hq₁ q' hq₁' hqq' c hc

end ResOk

/-- `ias_detach` of an attached proc hands back its cores and no other proc's. -/
theorem ResOk.detach (h : s.ResOk) (hnd : s.procs.Nodup) (hp : p ∈ s.procs) :
    (s.detach p).ResOk := by
  have hmem : ∀ q ∈ s.procs.erase p, q ∈ s.procs ∧ q ≠ p := fun q hq =>
    ⟨List.mem_of_mem_erase hq, fun he => (hnd.mem_erase_iff.mp (he ▸ hq)).1 rfl⟩
  refine ⟨fun q hq c hc => ?_, fun q hq => h.pair q (hmem q hq).1,
    fun q hq q' hq' => h.disj q (hmem q hq).1 q' (hmem q' hq').1⟩
  obtain ⟨hq, hqp⟩ := hmem q hq
  have hpc : (s.sd p).reservedCores c = false := h.disj q hq p hp hqp c hc
  simp [Ias.detach, h.held q hq c hc, hpc]

theorem init_resOk (sched : IkSched) : (init sched).ResOk where
  held := fun _ hp => absurd hp List.not_mem_nil
  pair := fun _ hp => absurd hp List.not_mem_nil
  disj := fun _ hp => absurd hp List.not_mem_nil

theorem iasStep_resOk {sched : IkSched} (hsib : Function.Involutive sched.siblings) :
    StepRun.InvariantOn iasStep (fun op => op.attachOrDetach = true)
      fun s => s.IdxOk ∧ s.ResOk ∧ s.sched = sched := by
  intro s op s' hop ⟨hidx, hres, hsched⟩ hs
  subst hsched
  cases op with
  | attach p spec =>
    simp only [iasStep] at hs
    split_ifs at hs with hp
    obtain rfl := Option.some.inj hs
    exact ⟨hidx.attach hp spec, hres.attach hsib hp spec, attach_sched s p spec⟩
  | detach p =>
    simp only [iasStep] at hs
    split_ifs at hs with hp
    obtain rfl := Option.some.inj hs
    exact ⟨hidx.detach hp, hres.detach hidx.nodup hp, rfl⟩
  | _ => simp [IasOp.attachOrDetach] at hop

end Ias

/-- `ias_init` leaves the bit of every core from 64 on as `sched_allowed_cores` has it: the
swapped `bitmap_init` set only the first word, and the `bitmap_xor` copies the rest. -/
theorem Ias.init_reservedCores_of_le (sched : IkSched) {c : Nat} (hc : 64 ≤ c) :
    (Ias.init sched).reservedCores c = decide (c ∈ sched.allowed) := by
  have hlt : ¬c < 64 := by omega
  simp [Ias.init, bitmapInit, hlt]

/-- A machine whose allowed cores are 0, 1 and those from 64 on, with the hyperthread pairs 0–3
and 1–2 and every other core its own sibling: the sibling of each low allowed core lies outside
the allowed set. -/
def iasUnpaired : Ias :=
  Ias.init (IkSched.init (fun _ => 2) ([0, 1] ++ List.range' 64 192)
    fun c => if c < 4 then 3 - c else c)

theorem iasUnpaired_siblings_involutive : Function.Involutive iasUnpaired.sched.siblings := by
  intro c
  simp only [iasUnpaired, Ias.init, IkSched.init]
  split_ifs <;> omega

/-- While hyperthread siblings pair up, over every run of attaches and detaches from `ias_init`
each attached proc's reserved cores come in sibling pairs and are set in `ias_reserved_cores`,
and no core is reserved by two attached procs. -/
theorem iasRun_reservations_disjoint {sched : IkSched} (hsib : Function.Involutive sched.siblings)
    {ops : List IasOp} {s : Ias} (hops : ∀ op ∈ ops, op.attachOrDetach = true)
    (hrun : StepRun.run iasStep (Ias.init sched) ops = some s) :
    ∀ p ∈ s.procs, ∀ c, (s.sd p).reservedCores c = true →
      s.reservedCores c = true ∧ (s.sd p).reservedCores (sched.siblings c) = true ∧
        ∀ q ∈ s.procs, q ≠ p → (s.sd q).reservedCores c = false := by
  obtain ⟨-, hres, rfl⟩ := (Ias.iasStep_resOk hsib).run hops
    ⟨Ias.init_idxOk sched, Ias.init_resOk sched, rfl⟩ hrun
  intro p hp c hc
  exact ⟨hres.held p hp c hc, hres.pair p hp c hc,
    fun q hq hqp => hres.disj p hp q hq (Ne.symm hqp) c hc⟩

theorem iasRun_reservations_disjoint_unpaired :
    ∃ s, StepRun.run iasStep iasUnpaired [.attach 0 ⟨2, 2, false, 0⟩, .attach 1 ⟨2, 2, false, 0⟩] =
      some s ∧ ∀ p ∈ s.procs, ∀ c, (s.sd p).reservedCores c = true →
        s.reservedCores c = true ∧
          (s.sd p).reservedCores (iasUnpaired.sched.siblings c) = true ∧
          ∀ q ∈ s.procs, q ≠ p → (s.sd q).reservedCores c = false :=
  ⟨_, rfl, @iasRun_reservations_disjoint _ iasUnpaired_siblings_involutive
    [.attach 0 ⟨2, 2, false, 0⟩, .attach 1 ⟨2, 2, false, 0⟩] _ (by decide) rfl⟩

/-- The reservations are not a partition of the allowed cores. On every machine `ias_init`
leaves each core from 64 on reserved exactly when it is allowed, the opposite of what the
complement of `sched_allowed_cores` asks. On `iasUnpaired`, whose siblings are an involution,
`ias_attach` reserves for a proc the sibling 3 of core 0, which is not allowed; and an attach
that fails hands back, by `bitmap_xor`, the reserved bit of core 2 it set a second time. -/
theorem ias_reserved_not_partitioned :
    (∀ sched c, 64 ≤ c → c < ncpu →
      (Ias.init sched).reservedCores c ≠ !decide (c ∈ sched.allowed)) ∧
    (∀ c, iasUnpaired.sched.siblings (iasUnpaired.sched.siblings c) = c) ∧
    (∃ s, iasStep iasUnpaired (.attach 0 ⟨2, 2, false, 0⟩) = some s ∧
      (s.sd 0).reservedCores 3 = true ∧ 3 ∉ s.sched.allowed) ∧
    (iasUnpaired.attach 0 ⟨6, 6, false, 0⟩).2 = -enoent ∧
      (iasUnpaired.attach 0 ⟨6, 6, false, 0⟩).1.procs = iasUnpaired.procs ∧
      (iasUnpaired.attach 0 ⟨6, 6, false, 0⟩).1.reservedCores 2 ≠ iasUnpaired.reservedCores 2 := by
  refine ⟨fun sched c hc _ => ?_, fun c => ?_, ⟨_, rfl, by decide +kernel⟩, by decide +kernel⟩
  · rw [Ias.init_reservedCores_of_le sched hc]
    cases decide (c ∈ sched.allowed) <;> decide
  · exact iasUnpaired_siblings_involutive c

end Caladan
