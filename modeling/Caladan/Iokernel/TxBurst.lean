import Mathlib
import Caladan.Iokernel.Tx
import Caladan.Lib.Run

/-!
# Batching across calls of `tx_burst` (`iokernel/tx.c`)

`tx_burst` keeps `n_pkts`, `n_bufs` and `bufs[]` in static variables, so that packets the NIC
did not take are offered again by the next call, while the header pointers `hdrs[]` and the
threads `threads[]` it pulls into are locals on the stack. On entry these hold whatever the stack
held, which the model leaves to the environment (`TxBurstEnv.stale`), with the outcome of
`rte_mempool_get_bulk` and the number of buffers `rte_eth_tx_burst` takes.

A buffer is described by what `tx_prepare_tx_mbuf` fills it from: a header address and the thread
it was pulled from. The state also logs the headers the drains dequeue and the buffers the NIC
takes. While every allocation succeeds, every header dequeued is taken by the NIC once, in the
order it was dequeued, or is still offered in `bufs[0, n_pkts)` (`txBurstRun_no_loss`). After a
failed allocation, `n_pkts` counts the headers the call pulled but `hdrs[]` is gone with its stack
frame, and the next call prepares those slots from the stale stack (`txBurst_offers`).
-/

namespace Caladan

/-- `IOKERNEL_TX_BURST_SIZE` -/
def iokernelTxBurstSize : Nat := 64

/-- A buffer as `tx_prepare_tx_mbuf` fills it: from a header address and the id of the polled
thread the header came from. -/
structure TxBuf where
  hdr : UInt64
  th : Nat
deriving DecidableEq, Repr

/-- `unpoll_thread` on the thread at `idx` of the polled array: `ts[idx] = ts[--nrts]`. -/
def tsUnpoll {α : Type} (ts : List α) (idx : Nat) : List α :=
  match ts.getLast? with
  | none => ts
  | some last => (ts.set idx last).dropLast

/-- Slots `[n, n + new.length)` of `hdrs[]` and `threads[]` overwritten with `new`. -/
def txFill (slots : Nat → TxBuf) (n : Nat) (new : List TxBuf) (j : Nat) : TxBuf :=
  if n ≤ j then new[j - n]?.getD (slots j) else slots j

/-- The locals of the polling loop: the polled threads `ts[0, nrts)` with their ids, `hdrs[]`
with `threads[]` (one slot holds both), `n_pkts`, and the headers dequeued so far. -/
structure TxPoll where
  ts : List (Nat × TxThread)
  slots : Nat → TxBuf
  nPkts : Nat
  pulled : List TxBuf

/-- The polling loop of `tx_burst` from loop counter `i`: `true` when it left by `goto full`,
`none` when a drain halts. `unpoll_thread` only shrinks `nrts`, so `nrts` passes of fuel end the
loop by its own test. -/
def txBurstPoll (pos : Nat) : Nat → Nat → TxPoll → Option (Bool × TxPoll)
  | 0, _, l => some (false, l)
  | fuel + 1, i, l =>
    if h : i < l.ts.length then
      let idx := (pos + i) % l.ts.length
      have hidx : idx < l.ts.length := Nat.mod_lt _ (by omega)
      let t := l.ts[idx]
      match txDrainQueue t.2.region t.2.active (iokernelTxBurstSize - l.nPkts) t.2.txpktq t.2.shm with
      | none => none
      | some (hs, unpoll, c, shm) =>
        let ts := l.ts.set idx (t.1, { t.2 with txpktq := c, shm := shm })
        let new := hs.map fun hdr => TxBuf.mk hdr t.1
        let l : TxPoll := ⟨if unpoll then tsUnpoll ts idx else ts, txFill l.slots l.nPkts new,
          l.nPkts + new.length, l.pulled ++ new⟩
        if iokernelTxBurstSize ≤ l.nPkts then some (true, l) else txBurstPoll pos fuel (i + 1) l
    else some (false, l)

/-- What `tx_burst` keeps between calls: the polled threads, the statics `pos`, `n_pkts`,
`n_bufs` and `bufs[]`, and two logs the code does not keep: the headers dequeued so far and the
buffers the NIC took, in order. -/
structure TxBurstState where
  ts : List (Nat × TxThread)
  pos : Nat
  nPkts : Nat
  nBufs : Nat
  bufs : Nat → TxBuf
  pulled : List TxBuf
  sent : List TxBuf

/-- What one call leaves to its environment: what the stack holds where `hdrs[]` and
`threads[]` live, whether `rte_mempool_get_bulk` succeeds, and how many of the offered buffers
`rte_eth_tx_burst` takes. -/
structure TxBurstEnv where
  stale : Nat → TxBuf
  getOk : Bool
  txCount : Nat

/-- `tx_burst`: whether it found work, and the state after; `none` when a drain halts. -/
def txBurst (s : TxBurstState) (env : TxBurstEnv) : Option (Bool × TxBurstState) := do
  let (full, l) ← txBurstPoll s.pos s.ts.length 0 ⟨s.ts, env.stale, s.nPkts, s.pulled⟩
  if !full && l.nPkts = 0 then
    return (false, { s with ts := l.ts, pulled := l.pulled })
  let s : TxBurstState :=
    { s with ts := l.ts, pos := if full then s.pos else s.pos + 1
             nPkts := l.nPkts, pulled := l.pulled }
  -- `n_pkts - n_bufs > 0` is an unsigned difference
  if s.nPkts ≠ s.nBufs ∧ env.getOk = false then
    return (true, s)
  let bufs := fun i => if s.nBufs ≤ i ∧ i < s.nPkts then l.slots i else s.bufs i
  let ret := min env.txCount s.nPkts
  let sent := s.sent ++ (List.range ret).map bufs
  if ret < s.nPkts then
    -- back pressure: the buffers not taken move to the front of `bufs[]`
    let n := s.nPkts - ret
    return (true, { s with bufs := fun i => if i < n then bufs (ret + i) else bufs i
                           nPkts := n, nBufs := n, sent := sent })
  else
    return (true, { s with bufs := bufs, nPkts := 0, nBufs := 0, sent := sent })

/-- `tx_burst` as a step of the IOKernel's loop. -/
def txBurstStep (s : TxBurstState) (env : TxBurstEnv) : Option TxBurstState :=
  (txBurst s env).map Prod.snd

/-- The state before the first call, over the polled threads `ts`. -/
def TxBurstState.init (ts : List (Nat × TxThread)) : TxBurstState :=
  ⟨ts, 0, 0, 0, fun _ => ⟨0, 0⟩, [], []⟩

/-- The buffers offered again by the next call, `bufs[0, n_pkts)`. -/
def TxBurstState.pending (s : TxBurstState) : List TxBuf :=
  (List.range s.nPkts).map s.bufs

/-! ## The stack slots -/

section
variable {slots : Nat → TxBuf} {n : Nat} {new : List TxBuf}

theorem txFill_of_lt {j : Nat} (h : j < n) : txFill slots n new j = slots j := by
  simp [txFill, Nat.not_le.mpr h]

theorem txFill_add {i : Nat} (h : i < new.length) : txFill slots n new (n + i) = new[i] := by
  simp [txFill, h]

theorem txFill_append (a b : List TxBuf) :
    txFill (txFill slots n a) (n + a.length) b = txFill slots n (a ++ b) := by
  funext j
  unfold txFill
  by_cases hj : n + a.length ≤ j
  · -- past the slots `a` filled: both read `b`
    have hn : n ≤ j := by omega
    rw [if_pos hj, if_pos hn, List.getElem?_append_right (by omega), if_pos hn,
      List.getElem?_eq_none (by omega : a.length ≤ j - n), Option.getD_none]
    congr 2
    omega
  · by_cases hn : n ≤ j
    · simp only [if_neg hj, if_pos hn, List.getElem?_append_left (by omega : j - n < a.length)]
    · simp only [if_neg hj, if_neg hn]

end

theorem map_txFill_range (slots : Nat → TxBuf) (n : Nat) (new : List TxBuf) :
    (List.range new.length).map (fun i => txFill slots n new (n + i)) = new := by
  apply List.ext_getElem (by simp)
  intro i h₁ h₂
  simp only [List.getElem_map, List.getElem_range]
  exact txFill_add h₂

/-! ## The polling loop -/

theorem txDrainQueue_length_le {r : ShmRegion} {active : Bool} {n : Nat} {c c' : LrpcChanIn}
    {shm shm' : LrpcShm} {hs : List UInt64} {u : Bool}
    (h : txDrainQueue r active n c shm = some (hs, u, c', shm')) : hs.length ≤ n := by
  rw [txDrainQueue_eq] at h
  split_ifs at h
  simp only [Option.some.injEq, Prod.mk.injEq] at h
  rw [← h.1, List.length_map]
  exact lrpcRecvN_length_le n c shm

/-- The polling loop writes the headers it dequeues into the slots from `n_pkts` on, in the order
it dequeues them, and never past the burst. -/
theorem txBurstPoll_spec (pos : Nat) :
    ∀ (fuel i : Nat) (l : TxPoll) {full : Bool} {l' : TxPoll},
      txBurstPoll pos fuel i l = some (full, l') →
      ∃ new, l'.pulled = l.pulled ++ new ∧ l'.nPkts = l.nPkts + new.length ∧
        l'.slots = txFill l.slots l.nPkts new ∧
        (l.nPkts ≤ iokernelTxBurstSize → l'.nPkts ≤ iokernelTxBurstSize)
  | 0, _, l, _, _, h => by
    obtain ⟨-, rfl⟩ := Prod.mk.inj (Option.some.inj h)
    refine ⟨[], by simp, by simp, ?_, id⟩
    funext j
    simp [txFill]
  | fuel + 1, i, l, full, l', h => by
    unfold txBurstPoll at h
    split_ifs at h with hi
    · dsimp only at h
      split at h
      · exact absurd h (by simp)
      · rename_i hs unpoll c shm hdrain
        have hlen := txDrainQueue_length_le hdrain
        by_cases hfull : iokernelTxBurstSize ≤ l.nPkts + hs.length
        · -- `goto full`: the slots of this drain are the last
          rw [if_pos (by rwa [List.length_map])] at h
          obtain ⟨-, rfl⟩ := Prod.mk.inj (Option.some.inj h)
          refine ⟨_, rfl, rfl, rfl, fun _ => ?_⟩
          simp only [List.length_map]
          omega
        · rw [if_neg (by rwa [List.length_map])] at h
          obtain ⟨new, hp, hn, hs', hle⟩ := txBurstPoll_spec pos fuel (i + 1) _ h
          have hidx : (pos + i) % l.ts.length < l.ts.length := Nat.mod_lt _ (by omega)
          refine ⟨hs.map (fun hdr => TxBuf.mk hdr (l.ts[(pos + i) % l.ts.length]).1) ++ new,
            ?_, ?_, ?_, fun _ => hle ?_⟩
          · rw [hp, List.append_assoc]
          · simp only [hn, List.length_append]
            omega
          · rw [hs', ← txFill_append]
          · simp only [List.length_map]
            omega
    · obtain ⟨-, rfl⟩ := Prod.mk.inj (Option.some.inj h)
      refine ⟨[], by simp, by simp, ?_, id⟩
      funext j
      simp [txFill]

/-! ## One call -/

/-- What every run keeps: `n_bufs ≤ n_pkts ≤ IOKERNEL_TX_BURST_SIZE`, so that the prepare loop
and `bufs[]` stay within the burst. -/
structure TxBurstState.Ok (s : TxBurstState) : Prop where
  bufs_le : s.nBufs ≤ s.nPkts
  le_burst : s.nPkts ≤ iokernelTxBurstSize

theorem map_range_add {α : Type} (f : Nat → α) (a b : Nat) :
    (List.range (a + b)).map f = (List.range a).map f ++ (List.range b).map fun j => f (a + j) := by
  rw [List.range_add, List.map_append, List.map_map]
  rfl

/-- The buffers that stay offered after the NIC took the first `k`, moved to the front. -/
theorem map_range_shift {α : Type} (f : Nat → α) {k n : Nat} (h : k ≤ n) :
    (List.range k).map f ++ (List.range (n - k)).map (fun i => if i < n - k then f (k + i) else f i) =
      (List.range n).map f := by
  conv_rhs => rw [show n = k + (n - k) by omega]
  rw [map_range_add]
  congr 1
  refine List.map_congr_left fun i hi => ?_
  rw [if_pos (List.mem_range.mp hi)]

/-- The buffers a call offers when it prepares `[n_bufs, n_pkts)`: those prepared before, the
slots the previous calls counted (as the stack now holds them), and the headers just pulled. -/
theorem map_range_offered {nb np : Nat} (hle : nb ≤ np) (f stale : Nat → TxBuf) (new : List TxBuf) :
    (List.range (np + new.length)).map
        (fun i => if nb ≤ i ∧ i < np + new.length then txFill stale np new i else f i) =
      (List.range nb).map f ++ (List.range (np - nb)).map (fun j => stale (nb + j)) ++ new := by
  have hsplit : np + new.length = nb + (np - nb) + new.length := by omega
  rw [hsplit, map_range_add, map_range_add]
  congr 2
  · -- below `n_bufs`: the buffers prepared by earlier calls
    refine List.map_congr_left fun i hi => ?_
    rw [if_neg (by simp at hi; omega)]
  · -- `[n_bufs, n_pkts)`: the stack slots, not written by this call
    refine List.map_congr_left fun j hj => ?_
    simp only [List.mem_range] at hj
    rw [if_pos (by omega), txFill_of_lt (by omega)]
  · -- from the old `n_pkts` on: the headers this call pulled
    refine (List.map_congr_left fun j hj => ?_).trans (map_txFill_range stale np new)
    simp only [List.mem_range] at hj
    rw [if_pos (by omega), show nb + (np - nb) + j = np + j by omega]

/-- One call either found its allocation refused, and only counted the headers it pulled, or
prepared every slot of `[0, n_pkts)` and offered them: the buffers prepared before, then the
stack slots `[n_bufs, n_pkts)` as the stack now holds them, then the headers pulled. What the NIC
took joins `sent`, the rest stays offered. -/
theorem txBurst_offers {s s' : TxBurstState} {env : TxBurstEnv} {r : Bool} (hs : s.Ok)
    (h : txBurst s env = some (r, s')) :
    ∃ new, s'.pulled = s.pulled ++ new ∧ s'.Ok ∧
      ((env.getOk = false ∧ s'.nPkts = s.nPkts + new.length ∧ s'.nPkts ≠ s.nBufs ∧
          s'.nBufs = s.nBufs ∧ s'.bufs = s.bufs ∧ s'.sent = s.sent) ∨
        (s'.nBufs = s'.nPkts ∧ s'.sent ++ s'.pending = s.sent ++ (List.range s.nBufs).map s.bufs ++
          (List.range (s.nPkts - s.nBufs)).map (fun j => env.stale (s.nBufs + j)) ++ new)) := by
  obtain ⟨⟨full, l⟩, hpoll, h⟩ := Option.bind_eq_some_iff.mp h
  obtain ⟨new, hp, hn, hsl, hle⟩ := txBurstPoll_spec _ _ _ _ hpoll
  have hle' : l.nPkts ≤ iokernelTxBurstSize := hle hs.le_burst
  refine ⟨new, ?_⟩
  dsimp only at h hp hn hsl
  -- the buffers offered when the call prepares, whatever the NIC then takes
  have hoffer : (List.range l.nPkts).map
      (fun i => if s.nBufs ≤ i ∧ i < l.nPkts then l.slots i else s.bufs i) =
      (List.range s.nBufs).map s.bufs ++
        (List.range (s.nPkts - s.nBufs)).map (fun j => env.stale (s.nBufs + j)) ++ new := by
    rw [hsl, hn]
    exact map_range_offered hs.bufs_le s.bufs env.stale new
  by_cases hidle : (!full && decide (l.nPkts = 0)) = true
  · -- nothing pulled and nothing pending: `return false`
    rw [if_pos hidle] at h
    obtain ⟨-, rfl⟩ := Prod.mk.inj (Option.some.inj h)
    have h0 : l.nPkts = 0 := by
      simp only [Bool.and_eq_true, decide_eq_true_eq] at hidle
      exact hidle.2
    have hb0 : s.nBufs = 0 := by
      have := hs.bufs_le
      omega
    have hnew : new = [] := List.eq_nil_of_length_eq_zero (by omega)
    subst hnew
    refine ⟨hp, ⟨hs.bufs_le, hs.le_burst⟩, .inr ⟨by show s.nBufs = s.nPkts; omega, ?_⟩⟩
    simp [TxBurstState.pending, hb0, show s.nPkts = 0 by omega]
  rw [if_neg hidle] at h
  by_cases hfail : l.nPkts ≠ s.nBufs ∧ env.getOk = false
  · -- the allocation failed: the pulled headers are counted, not prepared
    rw [if_pos hfail] at h
    obtain ⟨-, rfl⟩ := Prod.mk.inj (Option.some.inj h)
    have := hs.bufs_le
    exact ⟨hp, ⟨by show s.nBufs ≤ l.nPkts; omega, hle'⟩, .inl ⟨hfail.2, hn, hfail.1, rfl, rfl, rfl⟩⟩
  rw [if_neg hfail] at h
  by_cases hbp : min env.txCount l.nPkts < l.nPkts
  · -- back pressure: the NIC took a prefix, the rest moves to the front
    rw [if_pos hbp] at h
    obtain ⟨-, rfl⟩ := Prod.mk.inj (Option.some.inj h)
    refine ⟨hp, ⟨le_refl _, by show l.nPkts - _ ≤ _; omega⟩, .inr ⟨rfl, ?_⟩⟩
    simp only [TxBurstState.pending]
    rw [List.append_assoc, map_range_shift _ hbp.le, hoffer]
    simp only [List.append_assoc]
  · rw [if_neg hbp] at h
    obtain ⟨-, rfl⟩ := Prod.mk.inj (Option.some.inj h)
    refine ⟨hp, ⟨le_refl _, Nat.zero_le _⟩, .inr ⟨rfl, ?_⟩⟩
    have hret : min env.txCount l.nPkts = l.nPkts := by omega
    simp only [TxBurstState.pending, List.range_zero, List.map_nil, List.append_nil]
    rw [hret, hoffer]
    simp only [List.append_assoc]

/-- No header lost: every header dequeued so far was taken by the NIC, in the order dequeued, or
is offered again in `bufs[0, n_pkts)`, all of them prepared. -/
def TxBurstState.NoLoss (s : TxBurstState) : Prop :=
  s.Ok ∧ s.nBufs = s.nPkts ∧ s.pulled = s.sent ++ s.pending

/-- A call whose allocation succeeds keeps `NoLoss`: with `n_bufs = n_pkts` there is no
stack slot between the prepared buffers and the headers just pulled. -/
theorem txBurstStep_noLoss :
    StepRun.InvariantOn txBurstStep (fun env => env.getOk = true) TxBurstState.NoLoss := by
  intro s env s' hget ⟨hs, heq, hlog⟩ h
  rw [txBurstStep, Option.map_eq_some_iff] at h
  obtain ⟨⟨r, s''⟩, h, rfl⟩ := h
  obtain ⟨new, hp, hok, hcase⟩ := txBurst_offers hs h
  rcases hcase with ⟨hfail, -⟩ | ⟨heq', hsent⟩
  · rw [hget] at hfail
    exact absurd hfail Bool.noConfusion
  refine ⟨hok, heq', ?_⟩
  rw [hsent, hp, hlog, heq, Nat.sub_self, List.range_zero, List.map_nil, List.append_nil]
  rfl

theorem TxBurstState.init_noLoss (ts : List (Nat × TxThread)) : (TxBurstState.init ts).NoLoss :=
  ⟨⟨le_refl _, Nat.zero_le _⟩, rfl, rfl⟩

/-- While `rte_mempool_get_bulk` never fails, whatever the NIC takes and whatever the runtimes
queue: every header `tx_burst` dequeued was handed to the NIC in a buffer prepared from it,
once and in the order dequeued, or is still offered in `bufs[0, n_pkts)`, every one of them
prepared, and `n_pkts` stays within the burst. -/
theorem txBurstRun_no_loss (ts : List (Nat × TxThread)) {envs : List TxBurstEnv} {s : TxBurstState}
    (hget : ∀ env ∈ envs, env.getOk = true)
    (hrun : StepRun.run txBurstStep (TxBurstState.init ts) envs = some s) :
    s.pulled = s.sent ++ s.pending ∧ s.nBufs = s.nPkts ∧ s.nPkts ≤ iokernelTxBurstSize := by
  obtain ⟨hok, heq, hlog⟩ := txBurstStep_noLoss.run hget (TxBurstState.init_noLoss ts) hrun
  exact ⟨hlog, heq, hok.le_burst⟩

/-- The thread of the example runs: its ring holds one packet message, whose header is at the
start of a region at `0x1000`. -/
def txBurstOneThread : Nat × TxThread :=
  (0, ⟨⟨0x1000, 0x10000⟩, true, ⟨0, 4⟩, ⟨fun i => if i = 0 then ⟨lrpcDoneParity, 0⟩ else ⟨0, 0⟩, 0⟩⟩)

theorem txBurstRun_no_loss_one :
    (∀ env ∈ [(⟨fun _ => ⟨0, 0⟩, true, 0⟩ : TxBurstEnv), ⟨fun _ => ⟨0, 0⟩, true, 64⟩],
      env.getOk = true) ∧
    ∃ s, StepRun.run txBurstStep (TxBurstState.init [txBurstOneThread])
        [⟨fun _ => ⟨0, 0⟩, true, 0⟩, ⟨fun _ => ⟨0, 0⟩, true, 64⟩] = some s ∧
      s.pulled = s.sent ++ s.pending ∧ s.nBufs = s.nPkts ∧ s.nPkts ≤ iokernelTxBurstSize := by
  have hget : ∀ env ∈ [(⟨fun _ => ⟨0, 0⟩, true, 0⟩ : TxBurstEnv), ⟨fun _ => ⟨0, 0⟩, true, 64⟩],
      env.getOk = true := by
    simp
  have hsome : (StepRun.run txBurstStep (TxBurstState.init [txBurstOneThread])
      [⟨fun _ => ⟨0, 0⟩, true, 0⟩, ⟨fun _ => ⟨0, 0⟩, true, 64⟩]).isSome = true := by
    decide
  obtain ⟨s, h⟩ := Option.isSome_iff_exists.mp hsome
  exact ⟨hget, s, h, txBurstRun_no_loss [txBurstOneThread] hget h⟩

/-- The thread's one header is dequeued by a call whose allocation fails; the next call, whose
allocation succeeds, prepares slot 0 from what the stack holds there, and the NIC takes that
buffer. The header dequeued is never sent and nothing is left pending. -/
theorem txBurst_prepares_stale_slot :
    (StepRun.run txBurstStep (TxBurstState.init [txBurstOneThread])
        [⟨fun _ => ⟨0, 0⟩, false, 64⟩, ⟨fun _ => ⟨0xdead, 7⟩, true, 64⟩]).map
      (fun s => (s.pulled, s.sent, s.nPkts)) = some ([⟨0x1000, 0⟩], [⟨0xdead, 7⟩], 0) := by
  decide

end Caladan
