import Mathlib
import Caladan.Lib.PowRing

/-!
# Shared-memory LRPC channels (`base/lrpc.h`, `base/lrpc.c`)

A channel is a table of `size` message slots in shared memory, written by one sender and read by
one receiver. Both ends keep a free-running 32-bit position; the receiver publishes its position
in the write-back word `recv_head_wb`, which the sender reads to learn how far it may run ahead.
A slot is valid for the reader when the top bit of its `cmd` word (`LRPC_DONE_PARITY`) matches
the parity of the reader's lap over the table, so a zeroed table reads as empty and a slot left
over from the previous lap reads as stale.

The two halves point into one shared region: here `LrpcShm` holds the table and the write-back
word, and each call takes and returns it with the half it acts on. Each call is one atomic step;
the `assert`s of the C code compile out in release builds and are not modelled.
-/

namespace Caladan

/-- `struct lrpc_msg` -/
structure LrpcMsg where
  cmd : UInt64
  payload : UInt64
deriving DecidableEq, Repr

/-- `LRPC_DONE_PARITY` -/
def lrpcDoneParity : UInt64 := (1 : UInt64) <<< 63

/-- `LRPC_CMD_MASK` -/
def lrpcCmdMask : UInt64 := ~~~lrpcDoneParity

/-- The shared memory of a channel: the message table and the receiver's written-back head. -/
structure LrpcShm where
  tbl : Nat → LrpcMsg
  recvHeadWb : UInt32

/-- `struct lrpc_chan_out` (its pointers lead into `LrpcShm`). -/
structure LrpcChanOut where
  sendHead : UInt32
  sendTail : UInt32
  size : UInt32
deriving DecidableEq, Repr

/-- `struct lrpc_chan_in` (its pointers lead into `LrpcShm`). -/
structure LrpcChanIn where
  recvHead : UInt32
  size : UInt32
deriving DecidableEq, Repr

/-- `is_power_of_two(x)` from `base/stddef.h`, at the `unsigned int` width it is used at. -/
def isPowerOfTwo (x : UInt32) : Bool := x != 0 && (x &&& (x - 1)) == 0

/-- The parity bit a message at position `head` carries: set on even laps, clear on odd ones. -/
def lrpcParity (head size : UInt32) : UInt64 :=
  if head &&& size != 0 then 0 else lrpcDoneParity

/-- The slot write shared by `lrpc_send` and `__lrpc_send`: store the message with the parity of
the send position in slot `send_head & (size - 1)` and advance `send_head`. -/
def lrpcPut (chan : LrpcChanOut) (shm : LrpcShm) (cmd payload : UInt64) : LrpcChanOut × LrpcShm :=
  let idx := (chan.sendHead &&& (chan.size - 1)).toNat
  ({ chan with sendHead := chan.sendHead + 1 },
   { shm with tbl := Function.update shm.tbl idx ⟨cmd ||| lrpcParity chan.sendHead chan.size, payload⟩ })

/-- `__lrpc_send`: the slow path, taken when the cached tail says the channel is full. It reloads
the tail from the receiver's write-back word. -/
def lrpcSendSlow (chan : LrpcChanOut) (shm : LrpcShm) (cmd payload : UInt64) :
    Bool × LrpcChanOut × LrpcShm :=
  let chan := { chan with sendTail := shm.recvHeadWb }
  if chan.sendHead - chan.sendTail = chan.size then (false, chan, shm)
  else
    let r := lrpcPut chan shm cmd payload
    (true, r.1, r.2)

/-- `lrpc_send`: returns `true` if the message was queued, `false` if the channel is full. -/
def lrpcSend (chan : LrpcChanOut) (shm : LrpcShm) (cmd payload : UInt64) :
    Bool × LrpcChanOut × LrpcShm :=
  if chan.sendHead - chan.sendTail ≥ chan.size then lrpcSendSlow chan shm cmd payload
  else
    let r := lrpcPut chan shm cmd payload
    (true, r.1, r.2)

/-- `lrpc_poll_send_tail`: refresh the cached tail from the write-back word. -/
def lrpcPollSendTail (chan : LrpcChanOut) (shm : LrpcShm) : UInt32 × LrpcChanOut :=
  (shm.recvHeadWb, { chan with sendTail := shm.recvHeadWb })

/-- `lrpc_recv`: the received `(cmd, payload)`, or `none` when the channel is empty. -/
def lrpcRecv (chan : LrpcChanIn) (shm : LrpcShm) :
    Option (UInt64 × UInt64) × LrpcChanIn × LrpcShm :=
  let m := shm.tbl (chan.recvHead &&& (chan.size - 1)).toNat
  if m.cmd &&& lrpcDoneParity != lrpcParity chan.recvHead chan.size then (none, chan, shm)
  else
    let chan := { chan with recvHead := chan.recvHead + 1 }
    (some (m.cmd &&& lrpcCmdMask, m.payload), chan, { shm with recvHeadWb := chan.recvHead })

/-- `lrpc_empty` -/
def lrpcEmpty (chan : LrpcChanIn) (shm : LrpcShm) : Bool :=
  let m := shm.tbl (chan.recvHead &&& (chan.size - 1)).toNat
  m.cmd &&& lrpcDoneParity != lrpcParity chan.recvHead chan.size

/-- `lrpc_init_out` (the table and write-back pointers are the shared region); `none` is
`-EINVAL`. -/
def lrpcInitOut (size : UInt32) : Option LrpcChanOut :=
  if isPowerOfTwo size then some ⟨0, 0, size⟩ else none

/-- `lrpc_init_in`; `none` is `-EINVAL`. -/
def lrpcInitIn (size : UInt32) : Option LrpcChanIn :=
  if isPowerOfTwo size then some ⟨0, size⟩ else none

/-! ## The message encoding -/

theorem lrpcDoneParity_toBitVec : lrpcDoneParity.toBitVec = BitVec.twoPow 64 63 := by decide

theorem bit63_of_and_done {cmd : UInt64} (hcmd : cmd &&& lrpcDoneParity = 0) :
    cmd.toBitVec[63] = false := by
  have := congrArg (fun x : UInt64 => x.toBitVec[63]) hcmd
  simpa [lrpcDoneParity_toBitVec] using this

/-- A command with the parity bit clear, or-ed with a parity value: the parity test reads the
parity back and the mask reads the command back. -/
theorem encode_parity {cmd p : UInt64} (hcmd : cmd &&& lrpcDoneParity = 0)
    (hp : p = 0 ∨ p = lrpcDoneParity) :
    (cmd ||| p) &&& lrpcDoneParity = p ∧ (cmd ||| p) &&& lrpcCmdMask = cmd := by
  have h63 := bit63_of_and_done hcmd
  rcases hp with rfl | rfl <;> refine ⟨?_, ?_⟩ <;> rw [← UInt64.toBitVec_inj] <;>
    ext i hi <;> by_cases h : i = 63 <;>
    simp_all [lrpcCmdMask, lrpcDoneParity_toBitVec]

theorem lrpcDoneParity_ne_zero : lrpcDoneParity ≠ 0 := by decide

end Caladan
