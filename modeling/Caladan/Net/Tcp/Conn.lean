import Mathlib
import Caladan.Base.Wraps

/-!
# TCP connections (`runtime/net/tcp.h`, the connection helpers of `runtime/net/tcp.c`)

A connection is its protocol control block and the queues and flags of `struct tcpconn`. The
segments a connection keeps are `struct mbuf`s with the payload bytes they still hold and the
sequence range `[seg_seq, seg_end)` they cover; header bytes are never kept in `data`.

The model leaves out what only affects timing and wakeups: the timestamps behind `next_timeout`
(each timeout is an input of the event that fires it), the wait queues, and the transport-table
entry. The `kref` is the signed count of its `atomic_t`; what happens when a put brings it to
zero is the system's business (`Api.lean`). Each function is one atomic step under `c->lock`.
-/

namespace Caladan

/-- The TCP connection states, in the order of their `enum` values (RFC 793 Section 3.2). -/
inductive TcpState
  | synSent
  | synReceived
  | established
  | finWait1
  | finWait2
  | closeWait
  | closing
  | lastAck
  | timeWait
  | closed
deriving DecidableEq, Repr

/-- The `enum` value of a state. -/
def TcpState.val : TcpState → Nat
  | .synSent => 0
  | .synReceived => 1
  | .established => 2
  | .finWait1 => 3
  | .finWait2 => 4
  | .closeWait => 5
  | .closing => 6
  | .lastAck => 7
  | .timeWait => 8
  | .closed => 9

instance : LT TcpState := ⟨fun a b => a.val < b.val⟩

instance (a b : TcpState) : Decidable (a < b) := inferInstanceAs (Decidable (a.val < b.val))

/-! ## Flags and errors -/

/-- `TCP_FIN` -/
def tcpFin : UInt8 := 0x01
/-- `TCP_SYN` -/
def tcpSyn : UInt8 := 0x02
/-- `TCP_RST` -/
def tcpRst : UInt8 := 0x04
/-- `TCP_PUSH` -/
def tcpPush : UInt8 := 0x08
/-- `TCP_ACK` -/
def tcpAck : UInt8 := 0x10
/-- `TCP_URG` -/
def tcpUrg : UInt8 := 0x20

theorem and_or_eq_zero (f a b : UInt8) : f &&& (a ||| b) = 0 ↔ f &&& a = 0 ∧ f &&& b = 0 := by
  have : f &&& (a ||| b) = (f &&& a) ||| (f &&& b) := by
    rw [← UInt8.toBitVec_inj]
    simp [BitVec.and_or_distrib_left]
  rw [this, UInt8.or_eq_zero_iff]

def enomem : Int := 12
def epipe : Int := 32
def econnaborted : Int := 103
def econnreset : Int := 104
def enobufs : Int := 105
def etimedout : Int := 110

/-- `TCP_WIN` -/
def tcpWin : UInt32 := 0x1FFFF

/-- `TCP_OOO_MAX_SIZE` -/
def tcpOooMaxSize : Nat := 2048

/-- `TCP_FAST_RETRANSMIT_THRESH` -/
def tcpFastRetransmitThresh : Int := 3

/-! ## Buffers, control blocks and connections -/

/-- The fields of `struct mbuf` the TCP code reads: the bytes between `data` and `data + len`,
the sequence range and the header flags. -/
structure Mbuf where
  data : List UInt8
  segSeq : UInt32
  segEnd : UInt32
  flags : UInt8
deriving DecidableEq, Repr

/-- `mbuf_length` -/
def mbufLength (m : Mbuf) : Nat := m.data.length

/-- `mbuf_pull`: strip `len` bytes from the front; `none` is the `BUG_ON` for a buffer shorter
than `len`. -/
def mbufPull (m : Mbuf) (len : Nat) : Option Mbuf :=
  if len > m.data.length then none else some { m with data := m.data.drop len }

/-- `mbuf_trim`: strip `len` bytes from the end; `none` is the `BUG_ON`. -/
def mbufTrim (m : Mbuf) (len : Nat) : Option Mbuf :=
  if len > m.data.length then none else some { m with data := m.data.take (m.data.length - len) }

/-- `struct tcp_pcb`, without the urgent pointers nothing reads. -/
structure TcpPcb where
  state : TcpState
  sndUna : UInt32
  sndNxt : UInt32
  sndWnd : UInt32
  sndWl1 : UInt32
  sndWl2 : UInt32
  iss : UInt32
  sndWscale : UInt32
  sndMss : UInt32
  rcvNxt : UInt32
  rcvWnd : UInt32
  irs : UInt32
  rcvWscale : UInt32
  rcvMss : UInt32
deriving DecidableEq, Repr

/-- `struct tcpconn` without its lock, wait queues, links and timestamps. -/
structure TcpConn where
  pcb : TcpPcb
  ref : Int
  err : Int
  winmax : UInt32
  rxClosed : Bool
  rxExclusive : Bool
  rxqOooLen : Nat
  rxqOoo : List Mbuf
  rxq : List Mbuf
  txClosed : Bool
  txExclusive : Bool
  txLastAck : UInt32
  txLastWin : UInt32
  txPending : Option Mbuf
  txq : List Mbuf
  doFastRetransmit : Bool
  fastRetransmitLastAck : UInt32
  ackDelayed : Bool
  repAcks : Int
  acksDelayedCnt : Int
deriving DecidableEq, Repr

/-- `tcp_scale_window` -/
def tcpScaleWindow (maxwin : UInt32) : UInt32 :=
  go 14 maxwin 0
where
  go : Nat → UInt32 → UInt32 → UInt32
    | 0, _, wscale => wscale
    | n + 1, maxwin, wscale =>
      if maxwin > 0xFFFF && wscale < 14 then go n (maxwin >>> 1) (wscale + 1) else wscale

/-- `tcp_conn_alloc` with the initial sequence number `iss` (from `rand_crc32c`) and the receive
MSS `rcvMss` (from the MTU). -/
def tcpConnAlloc (iss rcvMss : UInt32) : TcpConn where
  pcb := { state := .closed, sndUna := iss, sndNxt := iss, sndWnd := 0, sndWl1 := 0, sndWl2 := 0,
           iss := iss, sndWscale := 0, sndMss := 0, rcvNxt := 0, rcvWnd := tcpWin, irs := 0,
           rcvWscale := tcpScaleWindow tcpWin, rcvMss := rcvMss }
  ref := 1
  err := 0
  winmax := tcpWin
  rxClosed := false
  rxExclusive := false
  rxqOooLen := 0
  rxqOoo := []
  rxq := []
  txClosed := false
  txExclusive := false
  txLastAck := 0
  txLastWin := 0
  txPending := none
  txq := []
  doFastRetransmit := false
  fastRetransmitLastAck := 0
  ackDelayed := false
  repAcks := 0
  acksDelayedCnt := 0

/-! ## The helpers of `tcp.c` -/

/-- `tcp_conn_ack`: drop the fully acknowledged segments from the head of `txq` (they go to
the caller's free list). -/
def tcpConnAck (c : TcpConn) : TcpConn :=
  if c.txExclusive then c
  else { c with txq := c.txq.dropWhile fun m => !wrapsGt m.segEnd c.pcb.sndUna }

/-- `tcp_conn_set_state` -/
def tcpConnSetState (c : TcpConn) (s : TcpState) : TcpConn :=
  { c with pcb := { c.pcb with state := s } }

/-- `tcp_conn_shutdown_rx` -/
def tcpConnShutdownRx (c : TcpConn) : TcpConn :=
  if c.rxClosed then c else { c with rxClosed := true }

/-- `tcp_conn_get` -/
def tcpConnGet (c : TcpConn) : TcpConn := { c with ref := c.ref + 1 }

/-- `tcp_conn_put`, up to the release when the count reaches zero. -/
def tcpConnPut (c : TcpConn) : TcpConn := { c with ref := c.ref - 1 }

/-- `tcp_conn_fail`: close both directions with error `err` and drop the state machine's
reference. The out-of-order queue is freed but `rxq_ooo_len` is left as it was. -/
def tcpConnFail (c : TcpConn) (err : Int) : TcpConn :=
  let c := tcpConnShutdownRx (tcpConnSetState { c with err := err } .closed)
  let c := if !c.txClosed then { c with txClosed := true } else c
  -- a busy writer frees the transmit queue itself
  let c := if !c.txExclusive then { c with txq := [], txPending := none } else c
  let c := if !c.rxExclusive then { c with rxq := [] } else c
  tcpConnPut { c with rxqOoo := [] }

section
variable (c : TcpConn)

@[simp] theorem tcpConnSetState_state (s : TcpState) : (tcpConnSetState c s).pcb.state = s := rfl

/-- `tcp_conn_ack` changes nothing but `txq`. -/
theorem tcpConnAck_frame : ∃ q, tcpConnAck c = { c with txq := q } := by
  unfold tcpConnAck; split
  · exact ⟨_, rfl⟩
  · exact ⟨_, rfl⟩

theorem tcpConnShutdownRx_pcb : (tcpConnShutdownRx c).pcb = c.pcb := by
  unfold tcpConnShutdownRx; split <;> rfl

@[simp] theorem tcpConnFail_state (err : Int) : (tcpConnFail c err).pcb.state = .closed := by
  simp only [tcpConnFail, tcpConnPut, apply_ite TcpConn.pcb, tcpConnShutdownRx_pcb, ite_self]
  rfl

end

end Caladan
