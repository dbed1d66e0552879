import Mathlib
import Caladan.Lib.Run
import Caladan.Iokernel.Sched

/-!
# The Interference-Aware Scheduler policy (`iokernel/ias.c`, `ias_ht.c`, `ias_bw.c`)

IAS decides which proc owns each core (`cores[core]`, a proc's `ias_data`, here the proc's
number) and counts each proc's cores in `threads_active`; it acts through the core assignment of
`sched.c` (`IkSched`), which it holds as a part of its state. An idle core may still count for a
proc: `ias_idle_placeholder_on_core` idles it on the proc's behalf, which the hyperthread
subcontroller uses to keep a lane free (`ias_ht_punished_cores`).

The float-valued readings of the subcontrollers (`ias_core_score`, the hyperthread budgets) are
inputs, as are the answers of the bandwidth controller's victim choice and the kernel. The
hyperthread controller is taken as running (`cfg.noht` false), so reservations come in sibling
pairs. The bitmaps are maps from cores to bits, as wide as a machine of `NCPU` cores needs; the
index table `ias_procs` maps slots to procs. Not modelled: `ias_gen`, `loc_last_us` and the
statistics.
-/

namespace Caladan

/-- `EBUSY` -/
def ebusy : Int := 16

/-- `IAS_NPROC` -/
def iasNproc : Nat := 32

/-- `bitmap_init(bits, nbits, state)`: `memset` of the `BITMAP_LONG_SIZE(nbits)` words of 64 bits;
the bits past them keep their value, zero for a static bitmap. -/
def bitmapInit (nbits : Nat) (state : Bool) : Nat → Bool :=
  fun c => state && decide (c < 64 * ((nbits + 63) / 64))

/-- The fields of a `struct sched_spec` that `ias_attach` reads. -/
structure IasSpec where
  guaranteedCores : Nat
  maxCores : Nat
  /-- `priority == SCHED_PRIO_LC` -/
  isLc : Bool
  htPunishUs : Nat
deriving DecidableEq, Repr

/-- A proc's `struct ias_data`. -/
structure IasData where
  isCongested : Bool
  isBwlimited : Bool
  isLc : Bool
  reservedCores : Nat → Bool
  threadsGuaranteed : Int
  threadsMax : Int
  threadsLimit : Int
  threadsActive : Int
  htPunishUs : Nat
  /-- the slot of `ias_procs` the proc holds -/
  idx : Nat

/-- The readings of the other subcontrollers that one call of the policy uses. -/
structure IasInput where
  /-- `ias_core_score(sd, core)` -/
  score : Nat → ℚ
  /-- `ias_ht_percore[core].budget_used` -/
  budget : Nat → ℚ
  /-- `lrpc_empty(&th->txpktq)` for a thread that leaves its core -/
  txEmpty : Bool

/-- The policy's state: `all_procs`, each proc's `ias_data`, `cores[]`, the bitmaps
`ias_idle_cores`, `ias_reserved_cores` and `ias_ht_punished_cores`, the index table `ias_procs`
with its high-water mark `ias_procs_nr`, and the scheduler below. -/
structure Ias where
  sched : IkSched
  procs : List Nat
  sd : Nat → IasData
  cores : Nat → Option Nat
  idleCores : Nat → Bool
  reservedCores : Nat → Bool
  punishedCores : Nat → Bool
  procTbl : Nat → Option Nat
  procsNr : Nat

namespace Ias

/-- Changes proc `sd`'s `ias_data`. -/
def modifySd (s : Ias) (sd : Nat) (f : IasData → IasData) : Ias :=
  { s with sd := Function.update s.sd sd (f (s.sd sd)) }

/-- `sd->is_congested = b` -/
def setCongested (s : Ias) (sd : Nat) (b : Bool) : Ias :=
  s.modifySd sd fun d => { d with isCongested := b }

/-- `ias_cleanup_core`: the owner of `core` loses it. -/
def cleanupCore (s : Ias) (core : Nat) : Ias :=
  let s := match s.cores core with
    | some sd => s.modifySd sd fun d => { d with threadsActive := d.threadsActive - 1 }
    | none => s
  { s with cores := Function.update s.cores core none }

/-- The tail of `ias_run_kthread_on_core`, `ias_idle_placeholder_on_core` and `ias_idle_on_core`:
`ias_cleanup_core(core)`, then `cores[core] = owner`, the idle bit as given, and the new owner's
`threads_active` raised. -/
def assignCore (s : Ias) (core : Nat) (owner : Option Nat) (idle : Bool) : Ias :=
  let s := s.cleanupCore core
  let s := { s with
    cores := Function.update s.cores core owner
    idleCores := Function.update s.idleCores core idle }
  match owner with
  | some sd => s.modifySd sd fun d => { d with threadsActive := d.threadsActive + 1 }
  | none => s

/-- `ias_run_kthread_on_core`; the scheduler's answer decides. -/
def runKthreadOnCore (s : Ias) (sd core : Nat) (txEmpty : Bool) : Ias × Int :=
  let p := s.sched.procs sd
  if (p.threadCount : Int) - p.activeThreadCount = 0 then (s, -ebusy)
  else
    match s.sched.schedRunOnCore sd core txEmpty with
    | .error e => (s, e)
    | .ok sch => ({ s with sched := sch }.assignCore core (some sd) false, 0)

/-- `ias_idle_placeholder_on_core` and `ias_idle_on_core`, which differ in the owner they leave:
the core is idled unless it already is, and the idle core is given to `owner`. -/
def idleCore (s : Ias) (core : Nat) (owner : Option Nat) (txEmpty : Bool) : Ias × Int :=
  let r := if s.idleCores core then .ok s.sched else s.sched.schedIdleOnCore core txEmpty
  match r with
  | .error _ => (s, -ebusy)
  | .ok sch => ({ s with sched := sch }.assignCore core owner true, 0)

/-- `ias_idle_placeholder_on_core`: idle the core but count it as active for `sd`. -/
def idlePlaceholderOnCore (s : Ias) (sd core : Nat) (txEmpty : Bool) : Ias × Int :=
  s.idleCore core (some sd) txEmpty

/-- `ias_idle_on_core`: evict the owner and idle the core. -/
def idleOnCore (s : Ias) (core : Nat) (txEmpty : Bool) : Ias × Int :=
  s.idleCore core none txEmpty

/-- `ias_can_preempt_core` -/
def canPreemptCore (s : Ias) (sd core : Nat) : Bool :=
  match s.cores core with
  | none => true
  | some cur =>
    let c := s.sd cur
    let d := s.sd sd
    if sd = cur then false
    else if c.reservedCores core then false
    else if c.isLc && !d.isLc then false
    else if c.isLc == d.isLc &&
        decide (c.threadsActive - c.threadsGuaranteed ≤ d.threadsActive - d.threadsGuaranteed + 1)
      then false
    else true

/-- `ias_choose_core`: the first allowed core of highest score that `sd` may preempt, or
`NCPU`. -/
def chooseCore (s : Ias) (sd : Nat) (score : Nat → ℚ) : Nat :=
  (s.sched.allowed.foldl (fun (acc : Nat × ℚ) core =>
    if !s.canPreemptCore sd core then acc
    else if score core > acc.2 then (core, score core) else acc) (ncpu, -1)).1

/-- `ias_can_add_kthread`, with `ias_ht_budget_used(core) >= 1.0f` read from the budgets. -/
def canAddKthread (s : Ias) (sd : Nat) (ignoreHtPunishCores : Bool) (budget : Nat → ℚ) : Bool :=
  s.sched.allowed.any fun core => s.canPreemptCore sd core &&
    !(ignoreHtPunishCores && decide (1 ≤ budget (s.sched.siblings core)))

/-- `ias_ht_relinquish_core`: the punished core of `sd` whose sibling used the least of its
budget is relaxed and idled; `NCPU` if there is none. -/
def htRelinquishCore (s : Ias) (sd : Nat) (budget : Nat → ℚ) (txEmpty : Bool) : Ias × Nat :=
  if (s.sd sd).htPunishUs = 0 then (s, ncpu)
  else
    let best := s.sched.allowed.foldl (fun (acc : Nat × Option ℚ) core =>
      if s.cores core ≠ some sd then acc
      else if !s.punishedCores core then acc
      else
        let b := budget (s.sched.siblings core)
        if acc.2.all (b < ·) then (core, some b) else acc) (ncpu, none)
    if best.1 ≠ ncpu then
      let s := { s with punishedCores := Function.update s.punishedCores best.1 false }
      ((s.idleOnCore best.1 txEmpty).1, best.1)
    else (s, ncpu)

/-- `ias_add_kthread` -/
def addKthread (s : Ias) (sd : Nat) (i : IasInput) : Ias × Int :=
  -- constrained by the thread limit: only a relinquished core will do
  if (s.sd sd).threadsActive ≥ (s.sd sd).threadsLimit then
    let r := s.htRelinquishCore sd i.budget i.txEmpty
    if r.2 ≠ ncpu then r.1.runKthreadOnCore sd r.2 i.txEmpty else (r.1, -enoent)
  else
    let core := s.chooseCore sd i.score
    if core = ncpu then
      let r := s.htRelinquishCore sd i.budget i.txEmpty
      if r.2 = ncpu then (r.1, -enoent) else r.1.runKthreadOnCore sd r.2 i.txEmpty
    else s.runKthreadOnCore sd core i.txEmpty

/-- `ias_notify_congested`, with the congestion test's outcome an input. -/
def notifyCongested (s : Ias) (sd : Nat) (congested : Bool) (i : IasInput) : Ias :=
  if !congested then s.setCongested sd false
  else
    let r := s.addKthread sd i
    if r.2 = 0 then r.1 else r.1.setCongested sd true

/-- `ias_kthread_score` -/
def kthreadScore (s : Ias) (sd core : Nat) : Int :=
  let d := s.sd sd
  let burstScore := (ncpu : Int) - max (d.threadsActive - d.threadsGuaranteed) 0
  (if d.reservedCores core then 1 else 0) * ncpu * 4 + (if d.isLc then 1 else 0) * ncpu * 2 +
    burstScore

/-- `ias_choose_kthread`: the first congested proc under its limit with the highest score. -/
def chooseKthread (s : Ias) (core : Nat) : Option Nat :=
  (s.procs.foldl (fun (acc : Option Nat × Int) sd =>
    if !(s.sd sd).isCongested then acc
    else if (s.sd sd).threadsActive ≥ (s.sd sd).threadsLimit then acc
    else if s.kthreadScore sd core > acc.2 then (some sd, s.kthreadScore sd core) else acc)
    (none, -1)).1

/-- `ias_add_kthread_on_core` -/
def addKthreadOnCore (s : Ias) (core : Nat) (txEmpty : Bool) : Ias × Int :=
  match s.chooseKthread core with
  | none => (s, -enoent)
  | some sd => s.runKthreadOnCore sd core txEmpty

/-- The idle-core loop of `ias_sched_poll`: every idle core that is not punished is taken from
its owner and offered to a congested proc. -/
def pollIdleCores (s : Ias) (txEmpty : Bool) : Ias :=
  (List.range ncpu).foldl (fun s core =>
    if s.idleCores core && !s.punishedCores core then
      let s := match s.cores core with
        | some sd => s.setCongested sd false
        | none => s
      ((s.cleanupCore core).addKthreadOnCore core txEmpty).1
    else s) s

/-- `sched_poll`: its fast pass, then `ias_sched_poll` marks the cores found idle and runs the
idle-core loop. -/
def schedPoll (s : Ias) (o : Nat → IkSched.PollInput) (txEmpty : Bool) : Ias :=
  let r := s.sched.schedPollIdle o
  let s := { s with sched := r.1, idleCores := fun c => s.idleCores c || r.2 c }
  s.pollIdleCores txEmpty

/-- `ias_bw_throttle_core`: the owner's limit drops below its cores, and the core goes to a
congested proc, or idle. -/
def bwThrottleCore (s : Ias) (core : Nat) (txEmpty : Bool) : Ias :=
  match s.cores core with
  | none => s
  | some sd =>
    let s := s.modifySd sd fun d =>
      { d with threadsLimit := max 0 (min (d.threadsLimit - 1) (d.threadsActive - 1)) }
    let r := s.addKthreadOnCore core txEmpty
    if r.2 ≠ 0 then (r.1.idleOnCore core txEmpty).1 else r.1

/-- `ias_bw_punish` of the core that `ias_bw_choose_victim` chose: a core of an eligible victim
(`threads_limit` nonzero and above `threads_guaranteed`); which one the miss counters decide. -/
def bwPunish (s : Ias) (core : Nat) (txEmpty : Bool) : Ias :=
  match s.cores core with
  | none => s
  | some sd => (s.modifySd sd fun d => { d with isBwlimited := true }).bwThrottleCore core txEmpty

/-- Whether `ias_bw_choose_victim` can return `core`'s owner as the victim with `core` its worst
core. `ias_bw_request_pmc` marks stale the samples of a core that is free, owned by an LC proc or
in `ias_ht_punished_cores`, so only a proc with a fresh sample on some core has a miss rate above
zero and can pass the threshold; the worst-core loop has no generation test and may pick any
allowed core of the victim. -/
def bwVictim (s : Ias) (core : Nat) : Bool :=
  match s.cores core with
  | none => false
  | some sd => decide (core ∈ s.sched.allowed) && !(s.sd sd).isLc &&
      (s.sd sd).threadsLimit != 0 &&
      decide ((s.sd sd).threadsLimit > (s.sd sd).threadsGuaranteed) &&
      s.sched.allowed.any fun c => s.cores c == some sd && !s.punishedCores c

/-- `ias_bw_relax`: the bandwidth-limited congested proc with the highest limit gets one more. -/
def bwRelax (s : Ias) : Ias :=
  let best := s.procs.foldl (fun (best : Option Nat) sd =>
    if !(s.sd sd).isBwlimited || !(s.sd sd).isCongested then best
    else match best with
      | some b => if (s.sd sd).threadsLimit ≤ (s.sd b).threadsLimit then best else some sd
      | none => some sd) none
  match best with
  | some b => s.modifySd b fun d =>
      { d with
        threadsLimit := d.threadsLimit + 1
        isBwlimited := if d.threadsLimit + 1 ≥ d.threadsMax then false else d.isBwlimited }
  | none => s

/-- `ias_ht_punish_selfpair` -/
def htPunishSelfpair (s : Ias) (sd sib : Nat) (budget : Nat → ℚ) : Bool :=
  !decide (1 ≤ budget sib) && s.canAddKthread sd true budget

/-- `ias_ht_punish`: the sibling lane of a reserved core of `sd` is idled on `sd`'s behalf and
marked punished; an LC proc that ran there asks for another core. -/
def htPunish (s : Ias) (sd core : Nat) (i : IasInput) : Ias :=
  let sib := s.sched.siblings core
  if !(s.sd sd).reservedCores core then s
  else if s.punishedCores core || s.punishedCores sib then s
  else
    let sibSd := s.cores sib
    if sibSd = some sd ∧ !s.htPunishSelfpair sd sib i.budget then s
    else if (match sibSd with
        | some x => (s.sd x).isLc && !s.canAddKthread sd false i.budget
        | none => false) then s
    else
      let r := s.idlePlaceholderOnCore sd sib i.txEmpty
      if r.2 ≠ 0 then r.1
      else
        let s := { r.1 with punishedCores := Function.update r.1.punishedCores sib true }
        match sibSd with
        | some x => if (s.sd x).isLc then (s.addKthread x i).1 else s
        | none => s

/-- `ias_ht_relax`: the sibling lane, if punished, is released and idled. -/
def htRelax (s : Ias) (core : Nat) (txEmpty : Bool) : Ias :=
  let sib := s.sched.siblings core
  if !s.punishedCores sib then s
  else ({ s with punishedCores := Function.update s.punishedCores sib false }.idleOnCore sib
    txEmpty).1

/-- One turn of the loop of `ias_ht_poll`: the owner of a core over its budget punishes the
sibling lane, any other core relaxes it. -/
def htPollCore (s : Ias) (core : Nat) (i : IasInput) : Ias :=
  match s.cores core with
  | some sd =>
    if decide (0 < (s.sd sd).htPunishUs) && decide (1 ≤ i.budget core) then s.htPunish sd core i
    else s.htRelax core i.txEmpty
  | none => s.htRelax core i.txEmpty

/-- The reservation loop of `ias_attach`: `n` times, the first core not yet reserved and its
sibling; the flag says whether every pair was found. -/
def reserve (siblings : Nat → Nat) : Nat → (Nat → Bool) → (Nat → Bool) →
    (Nat → Bool) × (Nat → Bool) × Bool
  | 0, all, mine => (all, mine, true)
  | n + 1, all, mine =>
    match (List.range ncpu).find? (fun c => !all c) with
    | none => (all, mine, false)
    | some core =>
      let sib := siblings core
      reserve siblings n (Function.update (Function.update all core true) sib true)
        (Function.update (Function.update mine core true) sib true)

/-- The index loop of `ias_attach`: the first free slot below `ias_procs_nr`, or the slot
`ias_procs_nr`, which raises it; the slot and the new high-water mark. -/
def reserveIdx (tbl : Nat → Option Nat) (nr : Nat) : Nat × Nat :=
  match (List.range nr).find? fun i => tbl i = none with
  | some i => (i, nr)
  | none => (nr, nr + 1)

/-- `ias_attach`: a new proc with no core; a failed reservation is undone by `bitmap_xor`. -/
def attach (s : Ias) (p : Nat) (spec : IasSpec) : Ias × Int :=
  if iasNproc ≤ s.procsNr then (s, -enoent)
  else if spec.guaranteedCores % 2 ≠ 0 then (s, -IkSched.einval)
  else
    let r := reserve s.sched.siblings (spec.guaranteedCores / 2) s.reservedCores fun _ => false
    if r.2.2 then
      let (idx, nr) := reserveIdx s.procTbl s.procsNr
      ({ s with
        procs := p :: s.procs
        sd := Function.update s.sd p
          { isCongested := false, isBwlimited := false, isLc := spec.isLc,
            reservedCores := r.2.1, threadsGuaranteed := spec.guaranteedCores,
            threadsMax := spec.maxCores, threadsLimit := spec.maxCores, threadsActive := 0,
            htPunishUs := if spec.isLc then spec.htPunishUs else 0, idx := idx }
        reservedCores := r.1
        procTbl := Function.update s.procTbl idx (some p)
        procsNr := nr }, 0)
    else ({ s with reservedCores := fun c => r.1 c != r.2.1 c }, -enoent)

/-- `ias_detach`: the slot is emptied, the proc leaves the list, its reservations are given back
by `bitmap_xor`, and its cores lose their owner. The high-water mark is lowered only when
`idx == ias_procs_nr`. -/
def detach (s : Ias) (p : Nat) : Ias :=
  let d := s.sd p
  { s with
    procTbl := Function.update s.procTbl d.idx none
    procsNr := if d.idx = s.procsNr then s.procsNr - 1 else s.procsNr
    procs := s.procs.erase p
    reservedCores := fun c => s.reservedCores c != d.reservedCores c
    cores := fun c => if c < ncpu ∧ s.cores c = some p then none else s.cores c }

/-- The policy after `ias_init`: no proc and no owner. `bitmap_init(ias_reserved_cores, true,
NCPU)` passes `nbits` and `state` in swapped order, so it sets one word, the bits of cores below
64; the `bitmap_xor` with `sched_allowed_cores` then flips the allowed ones. -/
def init (sched : IkSched) : Ias where
  sched := sched
  procs := []
  sd := fun _ =>
    { isCongested := false, isBwlimited := false, isLc := false, reservedCores := fun _ => false,
      threadsGuaranteed := 0, threadsMax := 0, threadsLimit := 0, threadsActive := 0,
      htPunishUs := 0, idx := 0 }
  cores := fun _ => none
  idleCores := fun _ => false
  reservedCores := fun c => bitmapInit 1 true c != decide (c ∈ sched.allowed)
  punishedCores := fun _ => false
  procTbl := fun _ => none
  procsNr := 0

end Ias

/-- The calls into the policy; a call on a proc is for an attached one. -/
inductive IasOp
  /-- `ias_attach` of a new proc -/
  | attach (p : Nat) (spec : IasSpec)
  /-- `ias_detach` -/
  | detach (p : Nat)
  /-- `ias_notify_core_needed` -/
  | coreNeeded (p : Nat) (i : IasInput)
  /-- `ias_notify_congested` -/
  | congested (p : Nat) (congested : Bool) (i : IasInput)
  /-- `sched_poll` with `ias_sched_poll` -/
  | poll (o : Nat → IkSched.PollInput) (txEmpty : Bool)
  /-- `ias_bw_punish` of the worst core of the victim -/
  | bwPunish (core : Nat) (txEmpty : Bool)
  /-- `ias_bw_relax` -/
  | bwRelax
  /-- one turn of `ias_ht_poll` on an allowed core -/
  | htPoll (core : Nat) (i : IasInput)

/-- One call of the policy; `none` where the call cannot be made. -/
def iasStep (s : Ias) : IasOp → Option Ias
  | .attach p spec => if p ∈ s.procs then none else some (s.attach p spec).1
  | .detach p => if p ∈ s.procs then some (s.detach p) else none
  | .coreNeeded p i => if p ∈ s.procs then some (s.addKthread p i).1 else none
  | .congested p c i => if p ∈ s.procs then some (s.notifyCongested p c i) else none
  | .poll o te => some (s.schedPoll o te)
  | .bwPunish core te => if s.bwVictim core then some (s.bwPunish core te) else none
  | .bwRelax => some s.bwRelax
  | .htPoll core i => if core ∈ s.sched.allowed then some (s.htPollCore core i) else none

/-- Two cores, siblings of each other, and procs of two threads. -/
def iasStart : Ias :=
  Ias.init (IkSched.init (fun _ => 2) [0, 1] fun c => if c = 0 then 1 else 0)

/-- Readings that favour core 0, with core 0 at hyperthread budget `b0`. -/
def iasIn (b0 : ℚ) : IasInput where
  score := fun c => if c = 0 then 1 else 0
  budget := fun c => if c = 0 then b0 else 0
  txEmpty := true

/-- A best-effort proc runs on core 0 and is the bandwidth controller's victim there; no
congested proc takes the throttled core. -/
def iasBwTrace : List IasOp :=
  [.attach 0 { guaranteedCores := 0, maxCores := 2, isLc := false, htPunishUs := 0 },
    .coreNeeded 0 (iasIn 0), .bwPunish 0 true]

/-- An LC proc reserving both cores runs on core 0 and, over its budget there, punishes the lane
of core 1, which becomes its placeholder; then the proc is detached. -/
def iasDetachTrace : List IasOp :=
  [.attach 0 { guaranteedCores := 2, maxCores := 4, isLc := true, htPunishUs := 10 },
    .coreNeeded 0 (iasIn 0), .htPoll 0 (iasIn 1), .detach 0]

theorem iasRun_detach_unowns_punished :
    (∃ s, StepRun.run iasStep iasStart (iasDetachTrace.take 3) = some s ∧
      s.punishedCores 1 = true ∧ s.idleCores 1 = true ∧ s.cores 1 = some 0) ∧
    ∃ s, StepRun.run iasStep iasStart iasDetachTrace = some s ∧
      s.punishedCores 1 = true ∧ s.cores 1 = none :=
  ⟨⟨_, rfl, rfl, rfl, rfl⟩, _, rfl, rfl, rfl⟩

end Caladan
