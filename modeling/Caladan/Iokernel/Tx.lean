import Mathlib
import Caladan.Iokernel.Shm

/-!
# The IOKernel's drains of runtime queues (`iokernel/tx.c`, `iokernel/commands.c`)

Each runtime thread owns two rings the IOKernel polls: `txpktq`, whose messages point to packet
headers in the runtime's region, and `txcmdq`, whose messages return ingress buffers. The
runtime writes the rings and the headers, so everything the drains read is the runtime's choice.

`tx_drain_queue` and `commands_drain_queue` are loops of up to `n` receives, and `tx_burst` and
`commands_rx` run them over the polled threads with a shared budget. The drains check what they
dequeue with fatal checks: a command of the wrong kind, or a header offset that `shmptr_to_ptr`
refuses, halts the IOKernel (`BUG_ON`, `BUG`), which the model renders as `none`. What they
compute is stated in terms of the messages `n` receives return (`lrpcRecvN`): they halt exactly
when one of those messages is bad, and otherwise hand on every header address or buffer pointer
in order (`txDrainQueue_eq`, `commandsDrainQueue_eq`).

`tx_prepare_tx_mbuf` then describes the packet to the NIC from the header: the buffer starts at
the header's payload, its length is the runtime-written `len`, and its physical address comes
from the 2 MB page the buffer starts in.
-/

namespace Caladan

/-- `TXPKT_NET_XMIT` -/
def txpktNetXmit : UInt64 := 0

/-- `TXCMD_NET_COMPLETE` -/
def txcmdNetComplete : UInt64 := 0

/-- `sizeof(struct tx_net_hdr)` (packed: `completion_data`, `len`, `olflags`, `pad`). -/
def txNetHdrSize : UInt64 := 18

/-- `tx_drain_queue`: the header addresses of the packets dequeued and whether the thread was
unpolled (`unpoll_thread` when the ring is empty and the thread inactive), or `none` when a
`BUG_ON` halts the IOKernel. -/
def txDrainQueue (r : ShmRegion) (active : Bool) :
    Nat → LrpcChanIn → LrpcShm → Option (List UInt64 × Bool × LrpcChanIn × LrpcShm)
  | 0, c, shm => some ([], false, c, shm)
  | n + 1, c, shm =>
    match lrpcRecv c shm with
    | (none, c, shm) => some ([], !active, c, shm)
    | (some (cmd, payload), c, shm) =>
      if cmd ≠ txpktNetXmit then none
      else do
        let hdr ← shmptrToPtr r payload txNetHdrSize
        let (hs, u, c, shm) ← txDrainQueue r active n c shm
        pure (hdr :: hs, u, c, shm)

/-- `commands_drain_queue`: the buffer pointers of the `TXCMD_NET_COMPLETE` commands dequeued,
or `none` when `BUG()` halts the IOKernel on any other command. -/
def commandsDrainQueue : Nat → LrpcChanIn → LrpcShm → Option (List UInt64 × LrpcChanIn × LrpcShm)
  | 0, c, shm => some ([], c, shm)
  | n + 1, c, shm =>
    match lrpcRecv c shm with
    | (none, c, shm) => some ([], c, shm)
    | (some (cmd, payload), c, shm) =>
      if cmd = txcmdNetComplete then
        (commandsDrainQueue n c shm).map fun (bs, c, shm) => (payload :: bs, c, shm)
      else none

/-- A runtime thread as `tx_burst` polls it: its proc's region, whether it is active, and its
`txpktq` with the shared memory behind it. -/
structure TxThread where
  region : ShmRegion
  active : Bool
  txpktq : LrpcChanIn
  shm : LrpcShm

/-- The polling loop of `tx_burst` over the polled threads, in polling order, with `budget` free
slots: the header addresses pulled, each with the region of the thread it came from (the source
records the thread in `threads[]`), or `none` if a drain halts. The loop stops once the burst is
full. -/
def txBurstPull (budget : Nat) : List TxThread → Option (List (UInt64 × ShmRegion) × List TxThread)
  | [] => some ([], [])
  | t :: ts =>
    match txDrainQueue t.region t.active budget t.txpktq t.shm with
    | none => none
    | some (hs, _, c, shm) =>
      let t' := { t with txpktq := c, shm := shm }
      let hs := hs.map fun h => (h, t.region)
      if budget ≤ hs.length then some (hs, t' :: ts)
      else (txBurstPull (budget - hs.length) ts).map fun (hs', ts) => (hs ++ hs', t' :: ts)

/-- The polling loop of `commands_rx` over each polled thread's `txcmdq`: the buffers it then
passes to `rte_pktmbuf_free`, in order, or `none` if a drain halts. -/
def commandsRx (budget : Nat) :
    List (LrpcChanIn × LrpcShm) → Option (List UInt64 × List (LrpcChanIn × LrpcShm))
  | [] => some ([], [])
  | (c, shm) :: ts =>
    if budget = 0 then some ([], (c, shm) :: ts)
    else match commandsDrainQueue budget c shm with
      | none => none
      | some (bs, c, shm) =>
        (commandsRx (budget - bs.length) ts).map fun (bs', ts) => (bs ++ bs', (c, shm) :: ts)

/-- `struct tx_net_hdr` (the packed header the runtime writes before the payload). -/
structure TxNetHdr where
  completionData : UInt64
  len : UInt32
  olflags : UInt32
deriving DecidableEq, Repr

/-- `PGSHIFT_2MB` -/
def pgshift2mb : UInt64 := 21

/-- The buffer fields `tx_prepare_tx_mbuf` sets from a header at address `hdr` of a proc with
region `r` and physical page table `pagePaddrs`: start, physical address and length. The page
number is a `uint32_t`. -/
def txPrepareTxMbuf (r : ShmRegion) (pagePaddrs : UInt32 → UInt64) (hdr : UInt64) (nh : TxNetHdr) :
    UInt64 × UInt64 × UInt32 :=
  let bufAddr := hdr + txNetHdrSize
  let pageNumber := ((bufAddr - r.base) >>> pgshift2mb).toUInt32
  (bufAddr, pagePaddrs pageNumber + (bufAddr &&& ((1 <<< pgshift2mb) - 1)), nh.len)

/-! ## What the drains dequeue -/

/-- The messages `n` calls of `lrpc_recv` return, stopping at the first empty one. -/
def lrpcRecvN : Nat → LrpcChanIn → LrpcShm → List (UInt64 × UInt64) × LrpcChanIn × LrpcShm
  | 0, c, shm => ([], c, shm)
  | n + 1, c, shm =>
    match lrpcRecv c shm with
    | (none, c, shm) => ([], c, shm)
    | (some m, c, shm) =>
      let r := lrpcRecvN n c shm
      (m :: r.1, r.2)

/-- Whether the last receive of `n` found the ring empty. -/
def lrpcRecvNStopped : Nat → LrpcChanIn → LrpcShm → Bool
  | 0, _, _ => false
  | n + 1, c, shm =>
    match lrpcRecv c shm with
    | (none, _, _) => true
    | (some _, c, shm) => lrpcRecvNStopped n c shm

/-- A packet message the checks of `tx_drain_queue` refuse. -/
def txBad (r : ShmRegion) (m : UInt64 × UInt64) : Bool :=
  m.1 != txpktNetXmit || (shmptrToPtr r m.2 txNetHdrSize).isNone

/-- The header address of a packet message the checks accept. -/
def txHdrAddr (r : ShmRegion) (m : UInt64 × UInt64) : UInt64 := m.2 + r.base

section
variable {c c' : LrpcChanIn} {shm shm' : LrpcShm} {n : Nat}

@[simp] theorem lrpcRecvN_zero : lrpcRecvN 0 c shm = ([], c, shm) := rfl

theorem lrpcRecvN_succ_none (h : lrpcRecv c shm = (none, c', shm')) :
    lrpcRecvN (n + 1) c shm = ([], c', shm') := by
  simp [lrpcRecvN, h]

theorem lrpcRecvN_succ_some {m : UInt64 × UInt64} (h : lrpcRecv c shm = (some m, c', shm')) :
    lrpcRecvN (n + 1) c shm = (m :: (lrpcRecvN n c' shm').1, (lrpcRecvN n c' shm').2) := by
  simp [lrpcRecvN, h]

theorem lrpcRecvN_length_le (n : Nat) (c : LrpcChanIn) (shm : LrpcShm) :
    (lrpcRecvN n c shm).1.length ≤ n := by
  induction n generalizing c shm with
  | zero => simp
  | succ n ih =>
    rcases h : lrpcRecv c shm with ⟨_ | m, c', shm'⟩
    · simp [lrpcRecvN_succ_none h]
    · simpa [lrpcRecvN_succ_some h] using ih c' shm'

end

/-! ## What the drains compute -/

section
variable {r : ShmRegion} {active : Bool}

theorem txBad_eq_false {cmd payload hdr : UInt64} (hcmd : cmd = txpktNetXmit)
    (hptr : shmptrToPtr r payload txNetHdrSize = some hdr) : txBad r (cmd, payload) = false := by
  simp [txBad, hcmd, hptr]

/-- `tx_drain_queue` halts exactly when a message it dequeues is bad, and otherwise returns the
header address of every message, in order. -/
theorem txDrainQueue_eq (n : Nat) (c : LrpcChanIn) (shm : LrpcShm) :
    txDrainQueue r active n c shm =
      if (lrpcRecvN n c shm).1.any (txBad r) then none
      else some ((lrpcRecvN n c shm).1.map (txHdrAddr r), lrpcRecvNStopped n c shm && !active,
        (lrpcRecvN n c shm).2) := by
  induction n generalizing c shm with
  | zero => simp [txDrainQueue, lrpcRecvNStopped]
  | succ n ih =>
    rcases hrecv : lrpcRecv c shm with ⟨_ | ⟨cmd, payload⟩, c', shm'⟩
    · simp [txDrainQueue, lrpcRecvN_succ_none hrecv, lrpcRecvNStopped, hrecv]
    rw [lrpcRecvN_succ_some hrecv]
    by_cases hcmd : cmd = txpktNetXmit
    · rcases hptr : shmptrToPtr r payload txNetHdrSize with _ | hdr
      · simp [txDrainQueue, hrecv, hcmd, hptr, txBad]
      -- an accepted message: the drain goes on with the rest of the ring
      have hhdr : hdr = payload + r.base := (shmptrToPtr_eq_some hptr).1
      simp only [txDrainQueue, lrpcRecvNStopped, hrecv, ne_eq, hcmd, not_true_eq_false, if_false,
        hptr, ih, List.any_cons, txBad_eq_false rfl hptr, Bool.false_or]
      cases (lrpcRecvN n c' shm').1.any (txBad r) <;> simp [txHdrAddr, hhdr]
    · simp [txDrainQueue, hrecv, hcmd, txBad]

/-- `commands_drain_queue` halts exactly when a message it dequeues is not a
`TXCMD_NET_COMPLETE`, and otherwise returns every message's payload, in order. -/
theorem commandsDrainQueue_eq (n : Nat) (c : LrpcChanIn) (shm : LrpcShm) :
    commandsDrainQueue n c shm =
      if (lrpcRecvN n c shm).1.all (·.1 == txcmdNetComplete) then
        some ((lrpcRecvN n c shm).1.map Prod.snd, (lrpcRecvN n c shm).2)
      else none := by
  induction n generalizing c shm with
  | zero => simp [commandsDrainQueue]
  | succ n ih =>
    rcases hrecv : lrpcRecv c shm with ⟨_ | ⟨cmd, payload⟩, c', shm'⟩
    · simp [commandsDrainQueue, lrpcRecvN_succ_none hrecv, hrecv]
    rw [lrpcRecvN_succ_some hrecv]
    by_cases hcmd : cmd = txcmdNetComplete
    · simp only [commandsDrainQueue, hrecv, hcmd, if_true, ih, List.all_cons, beq_self_eq_true,
        Bool.true_and]
      cases (lrpcRecvN n c' shm').1.all (·.1 == txcmdNetComplete) <;> simp
    · simp [commandsDrainQueue, hrecv, hcmd]

/-- An accepted header lies inside the region, over the integers, when the region can hold one. -/
theorem txHdrAddr_mem {m : UInt64 × UInt64} (hbad : txBad r m = false)
    (hr : txNetHdrSize ≤ r.len) :
    ∃ off : UInt64, txHdrAddr r m = off + r.base ∧ off.toNat + txNetHdrSize.toNat ≤ r.len.toNat := by
  cases hp : shmptrToPtr r m.2 txNetHdrSize with
  | none => simp [txBad, hp] at hbad
  | some p => exact ⟨m.2, rfl, shmptrToPtr_sound hp hr⟩

end

/-! ## The polling loops -/

/-- `tx_drain_queue` halts exactly on a message with another command or a header offset outside
the region; otherwise it returns one header address per message it received, in order, each in
the region, and leaves the ring after them. `commands_drain_queue` halts exactly on a command other
than `TXCMD_NET_COMPLETE`; otherwise it returns for freeing the payload of every message it
received, unchecked and in order. -/
theorem drainQueues_halt_iff_bad (r : ShmRegion) (hr : txNetHdrSize ≤ r.len) (active : Bool)
    (n : Nat) (c : LrpcChanIn) (shm : LrpcShm) (c₂ : LrpcChanIn) (shm₂ : LrpcShm) :
    (txDrainQueue r active n c shm = none ↔ ∃ m ∈ (lrpcRecvN n c shm).1, txBad r m = true) ∧
    (∀ hs u c' shm', txDrainQueue r active n c shm = some (hs, u, c', shm') →
      hs = (lrpcRecvN n c shm).1.map (txHdrAddr r) ∧ (c', shm') = (lrpcRecvN n c shm).2 ∧
      ∀ h ∈ hs, ∃ off : UInt64, h = off + r.base ∧ off.toNat + txNetHdrSize.toNat ≤ r.len.toNat) ∧
    (commandsDrainQueue n c₂ shm₂ = none ↔
      ∃ m ∈ (lrpcRecvN n c₂ shm₂).1, m.1 ≠ txcmdNetComplete) ∧
    (∀ bs c' shm', commandsDrainQueue n c₂ shm₂ = some (bs, c', shm') →
      bs = (lrpcRecvN n c₂ shm₂).1.map Prod.snd ∧ (c', shm') = (lrpcRecvN n c₂ shm₂).2) := by
  refine ⟨?_, ?_, ?_, ?_⟩
  · rw [txDrainQueue_eq]
    split_ifs with h <;> simpa using h
  · intro hs u c' shm' h
    rw [txDrainQueue_eq] at h
    split_ifs at h with hbad
    simp only [Option.some.injEq, Prod.mk.injEq] at h
    obtain ⟨rfl, -, hrest⟩ := h
    refine ⟨rfl, hrest.symm, ?_⟩
    simp only [List.mem_map]
    rintro _ ⟨m, hm, rfl⟩
    exact txHdrAddr_mem (by simpa using (List.any_eq_false.mp (by simpa using hbad)) m hm) hr
  · rw [commandsDrainQueue_eq]
    split_ifs with h
    · simp only [List.all_eq_true, beq_iff_eq] at h
      simp only [false_iff, not_exists, not_and, not_not]
      exact h
    · simp only [List.all_eq_true, beq_iff_eq, not_forall] at h
      simpa using h
  · intro bs c' shm' h
    rw [commandsDrainQueue_eq] at h
    split_ifs at h
    simp only [Option.some.injEq, Prod.mk.injEq] at h
    exact ⟨h.1.symm, h.2.symm⟩

/-- A ring holding two packet messages, drained with a budget of two: both headers are
accepted, in order. -/
theorem drainQueues_halt_iff_bad_two :
    let r : ShmRegion := ⟨0x7f0000000000, 0x1000⟩
    let shm : LrpcShm := ⟨fun i => if i = 0 then ⟨lrpcDoneParity, 0x100⟩
      else if i = 1 then ⟨lrpcDoneParity, 0x200⟩ else ⟨0, 0⟩, 0⟩
    txNetHdrSize ≤ r.len ∧ (lrpcRecvN 2 ⟨0, 4⟩ shm).1 = [(0, 0x100), (0, 0x200)] ∧
    (txDrainQueue r true 2 ⟨0, 4⟩ shm = none ↔ ∃ m ∈ (lrpcRecvN 2 ⟨0, 4⟩ shm).1, txBad r m = true) ∧
    (∀ hs u c' shm', txDrainQueue r true 2 ⟨0, 4⟩ shm = some (hs, u, c', shm') →
      hs = (lrpcRecvN 2 ⟨0, 4⟩ shm).1.map (txHdrAddr r) ∧ (c', shm') = (lrpcRecvN 2 ⟨0, 4⟩ shm).2 ∧
      ∀ h ∈ hs, ∃ off : UInt64, h = off + r.base ∧ off.toNat + txNetHdrSize.toNat ≤ r.len.toNat) ∧
    (commandsDrainQueue 2 ⟨0, 4⟩ shm = none ↔
      ∃ m ∈ (lrpcRecvN 2 ⟨0, 4⟩ shm).1, m.1 ≠ txcmdNetComplete) ∧
    (∀ bs c' shm', commandsDrainQueue 2 ⟨0, 4⟩ shm = some (bs, c', shm') →
      bs = (lrpcRecvN 2 ⟨0, 4⟩ shm).1.map Prod.snd ∧ (c', shm') = (lrpcRecvN 2 ⟨0, 4⟩ shm).2) :=
  ⟨by decide, rfl, drainQueues_halt_iff_bad _ (by decide) true 2 ⟨0, 4⟩ _ ⟨0, 4⟩ _⟩

/-- A ring whose first message carries command 1 halts both drains; a `TXCMD_NET_COMPLETE`
carrying an arbitrary pointer hands it to the free; and a header in the last bytes of a 1 GiB
region is accepted while the `len` the runtime wrote makes the NIC buffer run past the region's
end (and across a 2 MB page). -/
theorem drainQueues_trust_runtime :
    let r : ShmRegion := ⟨0x7f0000000000, 0x40000000⟩
    txDrainQueue r true 1 ⟨0, 4⟩ ⟨fun _ => ⟨1 ||| lrpcDoneParity, 0⟩, 0⟩ = none ∧
    commandsDrainQueue 1 ⟨0, 4⟩ ⟨fun _ => ⟨1 ||| lrpcDoneParity, 0⟩, 0⟩ = none ∧
    (commandsDrainQueue 1 ⟨0, 4⟩ ⟨fun _ => ⟨lrpcDoneParity, 0xdeadbeef⟩, 0⟩).map Prod.fst =
      some [0xdeadbeef] ∧
    (txDrainQueue r true 1 ⟨0, 4⟩ ⟨fun _ => ⟨lrpcDoneParity, 0x3fffffe0⟩, 0⟩).map Prod.fst =
      some [0x7f003fffffe0] ∧
    r.base.toNat + r.len.toNat <
      (txPrepareTxMbuf r (fun _ => 0) 0x7f003fffffe0 ⟨0, 0x10000, 0⟩).1.toNat +
        (txPrepareTxMbuf r (fun _ => 0) 0x7f003fffffe0 ⟨0, 0x10000, 0⟩).2.2.toNat := by
  decide +kernel

end Caladan
