import Mathlib
import Caladan.Base.LrpcChannel
import Caladan.Iokernel.Tx

/-!
# Returning shared buffers (`iokernel/tx.c`, `runtime/net/core.c`)

Buffers cross between the IOKernel and a runtime in both directions, and each crossing is
answered by a completion on a bounded ring. For an egress buffer, the IOKernel's completion
mempool calls `tx_send_completion` when the NIC is done with it: the proc's reference taken by
`tx_prepare_tx_mbuf` is dropped, and `RX_NET_COMPLETE` goes to one of the proc's `rxq` rings or,
when that ring is full, onto the proc's overflow stack, which `drain_overflow_queue` retries. For
an ingress buffer, the runtime copies the payload in `net_rx_alloc_mbuf` and answers with
`TXCMD_NET_COMPLETE` on its kthread's `txcmdq`, which `commands_rx` drains to free the buffer.

The runtime's `txcmdq` is the `LrpcSys` of `Caladan.Base.LrpcChannel`, with the ghost log of what
was sent on it. On the IOKernel side the choice of the `rxq` ring and whether `lrpc_send` on it
succeeds are inputs of the step.
-/

namespace Caladan

/-! ## The runtime: ingress completions -/

/-- `struct rx_net_hdr`, with the payload. -/
structure RxNetHdr where
  completionData : UInt64
  payload : List UInt8
deriving DecidableEq, Repr

/-- `net_rx_send_completion` on the kthread's `txcmdq`: when `lrpc_send` fails the code only
`WARN`s. -/
def netRxSendCompletion (q : LrpcSys) (completionData : UInt64) : LrpcSys :=
  q.step (.send txcmdNetComplete completionData)

/-- `net_rx_alloc_mbuf`: the copy of the payload (`none` when `smalloc` fails, which `mem` says),
and the kthread's `txcmdq` after the completion. -/
def netRxAllocMbuf (q : LrpcSys) (hdr : RxNetHdr) (mem : Bool) : Option (List UInt8) × LrpcSys :=
  (if mem then some hdr.payload else none, netRxSendCompletion q hdr.completionData)

section Ingress

variable {k : Nat} {q : LrpcSys}

/-- With `txcmdq` full, the completion is dropped: nothing is added to what was ever sent on the
ring, so `commands_rx` never frees the ingress buffer. -/
theorem netRxAllocMbuf_full_loses_completion (h : LrpcInv k q)
    (hfull : q.sent.length = q.rcvd.length + 2 ^ k) (hdr : RxNetHdr) (mem : Bool) :
    (netRxAllocMbuf q hdr mem).2.sent = q.sent := by
  rcases h.send_cases txcmdNetComplete hdr.completionData with ⟨-, hres⟩ | ⟨t, ht, hNt, -⟩
  · simp [netRxAllocMbuf, netRxSendCompletion, LrpcSys.step, hres]
  · omega

/-- A `txcmdq` of two slots holding two completions the IOKernel has not drained: the third
ingress buffer's completion is lost. -/
theorem netRxAllocMbuf_full_loses_completion_two :
    ((LrpcSys.init ⟨0, 0, 2⟩ ⟨0, 2⟩).run [.send 0 1, .send 0 2]).sent.length =
      ((LrpcSys.init ⟨0, 0, 2⟩ ⟨0, 2⟩).run [.send 0 1, .send 0 2]).rcvd.length + 2 ^ 1 ∧
    (netRxAllocMbuf ((LrpcSys.init ⟨0, 0, 2⟩ ⟨0, 2⟩).run [.send 0 1, .send 0 2]) ⟨3, [0x41]⟩
      true).2.sent = ((LrpcSys.init ⟨0, 0, 2⟩ ⟨0, 2⟩).run [.send 0 1, .send 0 2]).sent := by
  obtain ⟨k, hk⟩ := @LrpcInv.init 2 ⟨0, 0, 2⟩ ⟨0, 2⟩ (by decide) (by decide)
  have hk1 : k = 1 := by
    have hs := hk.size_out
    have h2 : (2 : Nat) ^ k = 2 ^ 1 := by simpa [LrpcSys.init] using hs.symm
    exact Nat.pow_right_injective le_rfl h2
  subst hk1
  exact ⟨by decide,
    netRxAllocMbuf_full_loses_completion (hk.run (by decide)) (by decide) ⟨3, [0x41]⟩ true⟩

end Ingress

end Caladan
