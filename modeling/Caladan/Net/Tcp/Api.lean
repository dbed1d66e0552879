import Mathlib
import Caladan.Net.Tcp.In
import Caladan.Net.Transport
import Caladan.Lib.Chain

/-!
# The socket calls and the life of a connection (`runtime/net/tcp.c`)

The calls an application makes on a connection (`tcp_read`, `tcp_write`, `tcp_writev`,
`tcp_shutdown`, `tcp_abort`, `tcp_close`), the worker's `tcp_handle_timeouts` with the
`tcp_retransmit` threads it spawns, and `tcp_conn_err`, through which the transport layer reports
an error for a packet the connection sent (`EHOSTUNREACH` when ARP gives up on its destination).
`trans_error` finds the connection with `trans_lookup`, which on an egress mbuf reads no header of
the packet, so ARP never reaches the method (`tcpSysStep_netError_txMbuf`).

Each call is one atomic step. A writer drops the lock while it sends, with `tx_exclusive` keeping
other writers out; here its whole call is one step, so the runs of the model are the runs of the
code in which no segment arrives while a write is in progress. A call that would wait on a wait
queue returns `none`: it takes effect in the step where its condition lets it through.

`TcpSys` is a connection together with the holders of its references: the application's handle,
the state machine (while the connection is not `CLOSED`), and the `tcp_retransmit` threads
spawned and not yet run. A put that brings the count to zero releases the connection
(`tcp_conn_release_ref`), which `BUG_ON`s a state other than `CLOSED`.
-/

namespace Caladan

/-- `SHUT_RD` -/
def shutRd : Int := 0
/-- `SHUT_WR` -/
def shutWr : Int := 1
/-- `SHUT_RDWR` -/
def shutRdwr : Int := 2

def ehostunreach : Int := 113

/-! ## Reading -/

/-- The pop loop of `tcp_read_wait` over `rxq`, with `readlen` of the `len` bytes taken: the
buffers taken whole, the bytes read, whether the head of what is left is read in part (`mout`),
and the connection holding what is left. A FIN closes the receive side as soon as the loop reaches
its buffer, before the buffer's bytes are read. -/
def tcpReadWaitLoop (len : Nat) : TcpConn → Nat → List Mbuf → List Mbuf × Nat × Bool × TcpConn
  | c, readlen, [] => ([], readlen, false, { c with rxq := [] })
  | c, readlen, m :: rest =>
    if len ≤ readlen then ([], readlen, false, { c with rxq := m :: rest })
    else
      let fin := m.flags &&& tcpFin > 0
      let c := if fin then tcpConnShutdownRx c else c
      if fin && mbufLength m = 0 then ([], readlen, false, { c with rxq := m :: rest })
      else if len - readlen < mbufLength m then
        ([], len, true, { c with rxExclusive := true, rxq := m :: rest })
      else
        let (q, readlen, part, c) := tcpReadWaitLoop len c (readlen + mbufLength m) rest
        (m :: q, readlen, part, c)

/-- `tcp_read_wait` for a buffer of `len` bytes: `none` while it waits; otherwise the error of a
closed receive side, or what the pop loop took, with the receive window reopened by the bytes
read and a window update sent when it grew by a quarter of `winmax`. -/
def tcpReadWait (c : TcpConn) (len : Nat) (tx : NetTx) :
    Option (Except Int (List Mbuf × Nat × Bool × TcpConn)) :=
  if !c.rxClosed && (c.rxExclusive || c.rxq.isEmpty) then none
  else if c.rxClosed then some (.error (-c.err))
  else
    let (q, readlen, part, c) := tcpReadWaitLoop len c 0 c.rxq
    let c := { c with pcb := { c.pcb with rcvWnd := c.pcb.rcvWnd + UInt32.ofNat readlen } }
    let doAck := c.pcb.rcvWnd ≥ c.txLastWin + c.winmax / 4
    some (.ok (q, readlen, part, if doAck then (tcpTxAck c tx).2 else c))

/-- `tcp_read` into a buffer of `len` bytes: `none` while it waits; otherwise its result, the bytes
it copies out and the connection. A head buffer read in part keeps its unread bytes, its
`seg_seq` moved past the bytes read (`tcp_read_finish` then ends the reader's hold). -/
def tcpRead (c : TcpConn) (len : Nat) (tx : NetTx) : Option (Int × List UInt8 × TcpConn) :=
  (tcpReadWait c len tx).map fun
    | .error e => (e, [], c)
    | .ok (q, readlen, part, c) =>
      if readlen = 0 then (0, [], c)
      else
        let copied := (q.map Mbuf.data).flatten
        match part, c.rxq with
        | true, m :: rest =>
          let cpylen := len - copied.length
          let m' := { m with data := m.data.drop cpylen, segSeq := m.segSeq + UInt32.ofNat cpylen }
          (readlen, copied ++ m.data.take cpylen, { c with rxExclusive := false, rxq := m' :: rest })
        | _, _ => (readlen, copied, c)

/-! ### What a read takes -/

/-- The pop loop moves a prefix of the queue to the reader: buffers whole while they fit, and the
rest of the queue from the first that does not; that one, if the loop stops at it, is read in part
and fills the reader's buffer. -/
theorem tcpReadWaitLoop_split {len : Nat} :
    ∀ (c : TcpConn) (readlen : Nat) (l : List Mbuf) {q : List Mbuf} {rl : Nat} {part : Bool}
      {c' : TcpConn}, tcpReadWaitLoop len c readlen l = (q, rl, part, c') →
      q ++ c'.rxq = l ∧
        if part then rl = len ∧ ∃ m rest, c'.rxq = m :: rest ∧
          readlen + (q.map Mbuf.data).flatten.length < len ∧
          len < readlen + (q.map Mbuf.data).flatten.length + m.data.length
        else rl = readlen + (q.map Mbuf.data).flatten.length ∧ (readlen ≤ len → rl ≤ len)
  | c, readlen, [], q, rl, part, c', h => by
    simp only [tcpReadWaitLoop, Prod.mk.injEq] at h
    obtain ⟨rfl, rfl, rfl, rfl⟩ := h
    simp
  | c, readlen, m :: rest, q, rl, part, c', h => by
    dsimp only [tcpReadWaitLoop] at h
    split at h
    -- the reader's buffer is full: nothing more is taken
    · simp only [Prod.mk.injEq] at h
      obtain ⟨rfl, rfl, rfl, rfl⟩ := h
      simp
    rename_i hlen
    split at h
    -- a FIN without data stays queued
    · simp only [Prod.mk.injEq] at h
      obtain ⟨rfl, rfl, rfl, rfl⟩ := h
      simp
    split at h
    -- the head is longer than the room left: it is read in part
    · rename_i hpart
      simp only [Prod.mk.injEq] at h
      obtain ⟨rfl, rfl, rfl, rfl⟩ := h
      simp only [mbufLength] at hpart
      refine ⟨rfl, ?_⟩
      rw [if_pos rfl]
      exact ⟨rfl, m, rest, rfl, by simp; omega, by simp; omega⟩
    -- the head is taken whole, and the loop goes on with the rest
    · rename_i hpart
      generalize hr : tcpReadWaitLoop len _ (readlen + mbufLength m) rest = r at h
      obtain ⟨q₁, rl₁, part₁, c₁⟩ := r
      simp only [Prod.mk.injEq] at h
      obtain ⟨rfl, rfl, rfl, rfl⟩ := h
      obtain ⟨hq, hrl⟩ := tcpReadWaitLoop_split _ _ rest hr
      simp only [mbufLength] at hpart hrl
      refine ⟨by rw [List.cons_append, hq], ?_⟩
      simp only [List.map_cons, List.flatten_cons, List.length_append]
      cases part₁
      · simp only [Bool.false_eq_true, if_false] at hrl ⊢
        exact ⟨by omega, fun _ => hrl.2 (by omega)⟩
      · simp only [if_true] at hrl ⊢
        obtain ⟨rfl, m', rest', hm', h1, h2⟩ := hrl
        exact ⟨rfl, m', rest', hm', by omega, by omega⟩

section
variable {c c' : TcpConn} {len rl : Nat} {tx : NetTx} {q : List Mbuf} {part : Bool} {e : Int}

/-- A read that fails returns the error of the closed receive side. -/
theorem tcpReadWait_error (h : tcpReadWait c len tx = some (.error e)) : e = -c.err := by
  unfold tcpReadWait at h
  split_ifs at h
  · cases h
    rfl
  · generalize tcpReadWaitLoop len c 0 c.rxq = r at h
    obtain ⟨q, rl, part, c₁⟩ := r
    simp at h

/-- A read that succeeds is the pop loop over the whole receive queue, which then stays as the
loop left it. -/
theorem tcpReadWait_ok (h : tcpReadWait c len tx = some (.ok (q, rl, part, c'))) :
    ∃ c₁, tcpReadWaitLoop len c 0 c.rxq = (q, rl, part, c₁) ∧ c'.rxq = c₁.rxq := by
  unfold tcpReadWait at h
  split_ifs at h
  · cases h
  generalize hr : tcpReadWaitLoop len c 0 c.rxq = r at h
  obtain ⟨q₁, rl₁, part₁, c₁⟩ := r
  simp only [Option.some.injEq, Except.ok.injEq, Prod.mk.injEq] at h
  obtain ⟨rfl, rfl, rfl, rfl⟩ := h
  refine ⟨c₁, rfl, ?_⟩
  split <;> simp

/-- A read copies out the first bytes of the receive queue, no more than the reader's buffer
holds, and leaves the others queued in order: no byte is lost, repeated or reordered. It returns
the count of bytes copied, or the error of a closed receive side with nothing copied. -/
theorem tcpRead_takes_prefix {r : Int} {bytes : List UInt8}
    (h : tcpRead c len tx = some (r, bytes, c')) :
    bytes ++ (c'.rxq.map Mbuf.data).flatten = (c.rxq.map Mbuf.data).flatten ∧ bytes.length ≤ len ∧
      (r = bytes.length ∨ r = -c.err ∧ bytes = []) := by
  unfold tcpRead at h
  obtain ⟨w, hw, h⟩ := Option.map_eq_some_iff.1 h
  cases w with
  | error e =>
    -- the receive side is closed: nothing is read
    cases h
    exact ⟨rfl, Nat.zero_le _, .inr ⟨tcpReadWait_error hw, rfl⟩⟩
  | ok w =>
    obtain ⟨q, rl, part, c₂⟩ := w
    obtain ⟨c₁, hl, hrxq⟩ := tcpReadWait_ok hw
    obtain ⟨hq, hrl⟩ := tcpReadWaitLoop_split _ _ _ hl
    have hsplit : (q.map Mbuf.data).flatten ++ (c₂.rxq.map Mbuf.data).flatten =
        (c.rxq.map Mbuf.data).flatten := by
      rw [hrxq, ← List.flatten_append, ← List.map_append, hq]
    dsimp only at h
    split_ifs at h with h0
    · -- nothing was read: the buffers taken, if any, were empty
      simp only [Prod.mk.injEq] at h
      obtain ⟨rfl, rfl, rfl⟩ := h
      have hnil : (q.map Mbuf.data).flatten = [] := by
        cases part
        · simp only [Bool.false_eq_true, if_false] at hrl
          exact List.eq_nil_of_length_eq_zero (by omega)
        · rw [if_pos rfl] at hrl
          obtain ⟨h1, -, -, -, h2, -⟩ := hrl
          omega
      exact ⟨by rw [← hsplit, hnil], Nat.zero_le _, .inl rfl⟩
    · split at h
      · -- the head was read in part, up to the end of the reader's buffer
        rename_i _ _ m rest hm
        simp only [Prod.mk.injEq] at h
        obtain ⟨rfl, rfl, rfl⟩ := h
        rw [if_pos rfl] at hrl
        obtain ⟨rfl, m₀, rest₀, hm₀, hlt, hgt⟩ := hrl
        rw [← hrxq, hm, List.cons.injEq] at hm₀
        obtain ⟨rfl, rfl⟩ := hm₀
        have hlen : ((q.map Mbuf.data).flatten ++
            m.data.take (rl - (q.map Mbuf.data).flatten.length)).length = rl := by
          simp only [List.length_append, List.length_take]
          omega
        refine ⟨?_, hlen.le, .inl (by rw [hlen])⟩
        rw [← hsplit, hm]
        simp only [List.map_cons, List.flatten_cons, List.append_assoc]
        rw [← List.append_assoc (List.take _ _), List.take_append_drop]
      · -- whole buffers only
        rename_i part _ _ hne
        simp only [Prod.mk.injEq] at h
        obtain ⟨rfl, rfl, rfl⟩ := h
        cases part
        · simp only [Bool.false_eq_true, if_false] at hrl
          exact ⟨hsplit, by omega, .inl (by rw [hrl.1]; simp)⟩
        · rw [if_pos rfl] at hrl
          obtain ⟨-, m₀, rest₀, hm₀, -⟩ := hrl
          exact (hne m₀ rest₀ rfl (hrxq.trans hm₀)).elim

/-- A read into a buffer of 4 bytes from a queue of 3 and 2 bytes takes the first buffer whole and
the second in part. -/
theorem tcpRead_takes_prefix_partial :
    let c : TcpConn := { tcpConnAlloc 1000 1460 with
      rxq := [⟨[1, 2, 3], 5001, 5004, tcpAck⟩, ⟨[4, 5], 5004, 5006, tcpAck⟩] }
    ∃ r bytes c', tcpRead c 4 ⟨true, 0⟩ = some (r, bytes, c') ∧
      bytes ++ (c'.rxq.map Mbuf.data).flatten = (c.rxq.map Mbuf.data).flatten ∧ bytes.length ≤ 4 ∧
        (r = bytes.length ∨ r = -c.err ∧ bytes = []) := by
  intro c
  exact ⟨_, _, _, rfl, tcpRead_takes_prefix rfl⟩

end

/-! ## Writing -/

/-- `tcp_write_wait`: `none` while it waits; otherwise the error of a closed send side, or the
bytes the writer may send (the window and one byte more, to probe it) and the connection, now held
by the writer. -/
def tcpWriteWait (c : TcpConn) : Option (Except Int (Nat × TcpConn)) :=
  if !c.txClosed && (c.pcb.state < .established || c.txExclusive ||
      wrapsLte (c.pcb.sndUna + c.pcb.sndWnd + 1) c.pcb.sndNxt) then none
  else if c.txClosed then some (.error (if c.err ≠ 0 then -c.err else -epipe))
  else
    let winlen := (c.pcb.sndUna + c.pcb.sndWnd - c.pcb.sndNxt + 1).toNat
    some (.ok (winlen, { c with txExclusive := true, acksDelayedCnt := 0, ackDelayed := false }))

/-- `tcp_write_finish`: end the writer's hold, drop what was acknowledged meanwhile, and start a
fast retransmission the receive path left to the writer. -/
def tcpWriteFinish (c : TcpConn) (tx : NetTx) : TcpConn :=
  let c := tcpConnAck { c with txExclusive := false }
  let c := if c.pcb.rcvNxt = c.txLastAck then { c with ackDelayed := false } else c
  -- a connection that failed while the writer held it frees its queues here
  let (c, retransmit) :=
    if c.pcb.state = .closed then ({ c with txq := [], txPending := none }, none)
    else if c.doFastRetransmit then
      let c := { c with doFastRetransmit := false }
      (c, if c.fastRetransmitLastAck = c.pcb.sndUna then tcpTxFastRetransmitStart c else none)
    else (c, none)
  tcpTxFastRetransmitFinish c retransmit tx

/-- `tcp_write` of the bytes `buf`: `none` while it waits, or when the segmenter does not end. -/
def tcpWrite (c : TcpConn) (buf : List UInt8) (tx : NetTx) : Option (Int × TcpConn) := do
  match ← tcpWriteWait c with
  | .error e => pure (e, c)
  | .ok (winlen, c) =>
    let (ret, c) ← tcpTxSend c (buf.take winlen) true tx
    pure (ret, tcpWriteFinish c tx)

/-- The loop of `tcp_writev` over the vectors left, with `winlen` bytes of window left, `sent`
bytes sent and `ret` the last result: only the last vector is pushed, and only when it fits. -/
def tcpWritevLoop (tx : NetTx) :
    TcpConn → List (List UInt8) → Nat → Int → Int → Option (Int × Int × TcpConn)
  | c, [], _, sent, ret => some (sent, ret, c)
  | c, iov :: rest, winlen, sent, ret =>
    if winlen = 0 then some (sent, ret, c)
    else do
      let (ret, c) ← tcpTxSend c (iov.take winlen) (rest.isEmpty && iov.length ≤ winlen) tx
      if ret ≤ 0 then pure (sent, ret, c)
      else tcpWritevLoop tx c rest (winlen - ret.toNat) (sent + ret) ret

/-- `tcp_writev` of the vectors `iov`. -/
def tcpWritev (c : TcpConn) (iov : List (List UInt8)) (tx : NetTx) : Option (Int × TcpConn) := do
  match ← tcpWriteWait c with
  | .error e => pure (e, c)
  | .ok (winlen, c) =>
    let (sent, ret, c) ← tcpWritevLoop tx c iov winlen 0 0
    pure (if sent > 0 then sent else ret, tcpWriteFinish c tx)

/-! ## Closing -/

/-- `tcp_conn_shutdown_tx`: queue a FIN after what was sent and move to `FIN_WAIT1` or `LAST_ACK`;
`none` while a writer holds the connection. -/
def tcpConnShutdownTx (c : TcpConn) (tx : NetTx) : Option (Int × TcpConn) :=
  if c.txClosed then some (0, c)
  else if c.txExclusive then none
  else
    let (ret, c) := tcpTxCtl c (tcpFin ||| tcpAck) tx
    if ret ≠ 0 then some (ret, c)
    else
      let c := match c.pcb.state with
        | .established => tcpConnSetState c .finWait1
        | .closeWait => tcpConnSetState c .lastAck
        | _ => c
      some (0, { c with txClosed := true })

/-- `tcp_shutdown` -/
def tcpShutdown (c : TcpConn) (how : Int) (tx : NetTx) : Option (Int × TcpConn) :=
  if how ≠ shutRd && how ≠ shutWr && how ≠ shutRdwr then some (-einval, c)
  else do
    let (ret, c) ← if how = shutWr || how = shutRdwr then tcpConnShutdownTx c tx else pure (0, c)
    if ret ≠ 0 then pure (ret, c)
    else pure (0, if how = shutRd || how = shutRdwr then tcpConnShutdownRx c else c)

/-- `tcp_abort`: the reset it sends leaves no trace in the connection. -/
def tcpAbort (c : TcpConn) : TcpConn :=
  if c.pcb.state = .closed then c else tcpConnFail c econnaborted

/-- `tcp_close`, up to the put of the application's reference. -/
def tcpClose (c : TcpConn) (tx : NetTx) : Option TcpConn := do
  let (ret, c) ← tcpConnShutdownTx c tx
  let c := if ret ≠ 0 then tcpConnFail c (-ret) else c
  pure (tcpConnPut (tcpConnShutdownRx c))

/-- `tcp_conn_err`: an error the transport layer reports for the connection. -/
def tcpConnErr (c : TcpConn) (err : Int) : TcpConn := tcpConnFail c err

/-! ## Timeouts and retransmission -/

/-- `tcp_handle_timeouts` given which timeouts expired: the connect timeout, the `TIME_WAIT`
timeout, the delayed-ACK timeout and the retransmission timeout of the head of `txq`. Also says
whether it spawned a `tcp_retransmit` thread, for which it took a reference. -/
def tcpHandleTimeouts (c : TcpConn) (connect timeWait ack retransmit : Bool) (tx : NetTx) :
    TcpConn × Bool :=
  if c.pcb.state = .closed then (c, false)
  else if c.pcb.state < .established && connect then (tcpConnFail c etimedout, false)
  else if c.pcb.state = .timeWait && timeWait then (tcpConnPut (tcpConnSetState c .closed), false)
  else
    let (c, doAck) := if c.ackDelayed && ack then ({ c with ackDelayed := false }, true)
      else (c, false)
    let (c, spawn) := if !c.txExclusive && !c.txq.isEmpty && retransmit then (tcpConnGet c, true)
      else (c, false)
    let doAck := doAck || !c.rxqOoo.isEmpty
    (if doAck then (tcpTxAck c tx).2 else c, spawn)

/-- A `tcp_retransmit` thread: unless the connection closed meanwhile, retransmit the segments of
`txq` whose timeout expired; then drop the thread's reference. -/
def tcpRetransmitThread (c : TcpConn) (held : Nat → Bool) (expired : Nat) (tx : NetTx) :
    Option TcpConn :=
  if c.pcb.state ≠ .closed then do
    let c ← tcpTxRetransmit { c with txExclusive := true } held tx expired
    pure (tcpConnPut (tcpWriteFinish c tx))
  else some (tcpConnPut c)

/-- `tcp_dial` up to its wait: a new connection that sent its SYN and took the state machine's
reference; `none` when the SYN could not be sent (the connection is destroyed). -/
def tcpDial (iss rcvMss : UInt32) (tx : NetTx) : Option TcpConn :=
  let (ret, c) := tcpTxCtl (tcpConnAlloc iss rcvMss) tcpSyn tx
  if ret ≠ 0 then none else some (tcpConnSetState (tcpConnGet c) .synSent)

/-! ## A connection and its holders -/

/-- A connection with the holders of its references. -/
structure TcpSys where
  conn : TcpConn
  /-- the application is still in `tcp_dial`, waiting for the handshake -/
  dialing : Bool
  /-- the application holds its handle (from `tcp_conn_alloc` to `tcp_close`) -/
  app : Bool
  /-- `tcp_retransmit` threads spawned and not yet run -/
  retransmits : Nat
  /-- the connection was released -/
  freed : Bool
  /-- the bytes the application has read, in order -/
  delivered : List UInt8

/-- What can happen to a connection: a segment, an error from the transport layer, a pass of the
timeout worker, a retransmission thread running, and the application's calls. -/
inductive TcpEvent
  | rx (s : TcpSeg) (tx : NetTx)
  /-- `net_error` on an egress mbuf `m` (ARP gave up on its destination), with the table and
  its hash as they are and `self` the connection's entry: `trans_error` calls `tcp_conn_err` when
  `trans_lookup` returns that entry -/
  | netError (H : TransHash) (t : TransTable) (self : TransEntry) (m : NetMbuf) (e : Int)
  | timeouts (connect timeWait ack retransmit : Bool) (tx : NetTx)
  | retransmit (held : Nat → Bool) (expired : Nat) (tx : NetTx)
  | dialWake
  | read (len : Nat) (tx : NetTx)
  | write (buf : List UInt8) (tx : NetTx)
  | writev (iov : List (List UInt8)) (tx : NetTx)
  | shutdown (how : Int) (tx : NetTx)
  | abort
  | close (tx : NetTx)

/-- The end of a step: a count brought to zero releases the connection, `BUG_ON` a state other
than `CLOSED` (`none`). -/
def tcpSysRelease (s : TcpSys) : Option TcpSys :=
  if s.freed || 0 < s.conn.ref then some s
  else if s.conn.pcb.state ≠ .closed then none
  else some { s with freed := true }

/-- The system after `tcp_dial` sent its SYN. -/
def tcpSysInit (iss rcvMss : UInt32) (tx : NetTx) : Option TcpSys :=
  (tcpDial iss rcvMss tx).map fun c => ⟨c, true, true, 0, false, []⟩

/-- An application call on the connection, given the call's effect: the call is not made while
the application has no handle or is still in `tcp_dial` (the step changes nothing), and a call on
a released connection uses freed memory (`none`). -/
def tcpSysCall (s : TcpSys) (f : TcpConn → Option TcpSys) : Option TcpSys :=
  if !s.app || s.dialing then some s
  else if s.freed then none
  else match f s.conn with
    | none => some s
    | some s' => tcpSysRelease s'

/-- One event. A released connection has left the transport table and the worker's list, so
segments, errors and timeouts no longer reach it; `none` is a `BUG_ON` or a use of freed memory. -/
def tcpSysStep (s : TcpSys) : TcpEvent → Option TcpSys
  | .rx seg tx =>
    if s.freed then some s
    else (tcpRxConn s.conn seg tx).bind fun c => tcpSysRelease { s with conn := c }
  | .netError H t self m e =>
    if s.freed then some s
    else if netError H t m = some self then tcpSysRelease { s with conn := tcpConnErr s.conn e }
    else some s
  | .timeouts connect timeWait ack retransmit tx =>
    if s.freed then some s
    else
      let (c, spawn) := tcpHandleTimeouts s.conn connect timeWait ack retransmit tx
      tcpSysRelease { s with conn := c, retransmits := s.retransmits + if spawn then 1 else 0 }
  | .retransmit held expired tx =>
    if s.retransmits = 0 then some s
    else if s.freed then none
    else (tcpRetransmitThread s.conn held expired tx).bind fun c =>
      tcpSysRelease { s with conn := c, retransmits := s.retransmits - 1 }
  | .dialWake =>
    if !s.dialing then some s
    else if s.freed then none
    -- a failed dial destroys the connection
    else if s.conn.txClosed then some { s with dialing := false, app := false, freed := true }
    else if s.conn.pcb.state < .established then some s
    else some { s with dialing := false }
  | .read len tx => tcpSysCall s fun c =>
    (tcpRead c len tx).map fun (_, bytes, c) => { s with conn := c, delivered := s.delivered ++ bytes }
  | .write buf tx => tcpSysCall s fun c => (tcpWrite c buf tx).map fun (_, c) => { s with conn := c }
  | .writev iov tx => tcpSysCall s fun c => (tcpWritev c iov tx).map fun (_, c) => { s with conn := c }
  | .shutdown how tx => tcpSysCall s fun c =>
    (tcpShutdown c how tx).map fun (_, c) => { s with conn := c }
  | .abort => tcpSysCall s fun c => some { s with conn := tcpAbort c }
  | .close tx => tcpSysCall s fun c => (tcpClose c tx).map fun c => { s with conn := c, app := false }

/-- A run of events; `none` when one of them halts the runtime. -/
def tcpSysRun (s : TcpSys) : List TcpEvent → Option TcpSys
  | [] => some s
  | e :: es => (tcpSysStep s e).bind (tcpSysRun · es)

/-! ## Two runs of a dialled connection -/

/-- `net_error` on a packet the egress path built leaves the connection as it is: `trans_error`
reaches no entry. -/
theorem tcpSysStep_netError_txMbuf (s : TcpSys) (H : TransHash) (t : TransTable)
    (self : TransEntry) {mem : Nat → UInt8} (hmem : ∀ j < ipHdrLen, mem j = 0) (mtu : Nat)
    {ops : List TxMbufOp} {m : NetMbuf}
    (hrun : StepRun.run NetMbuf.txStep (netTxAllocMbuf mem 0 mtu) ops = some m)
    (hroom : ipHdrLen ≤ m.data) (e : Int) :
    tcpSysStep s (.netError H t self m e) = some s := by
  simp only [tcpSysStep, netError_txMbuf H t hmem mtu hrun hroom, reduceCtorEq, if_false, ite_self]

/-- `tcp_dial` sends its SYN, and a pass of the worker finds it unanswered after the retransmission
timeout: it takes a reference for a `tcp_retransmit` thread. Before that thread runs, the peer
resets the connection: `tcp_conn_fail` closes it and puts the state machine's reference, and the
dialling thread wakes, finds `tx_closed` and frees the connection with `tcp_conn_destroy`, which
does not look at the count. The count is still two, the dialling thread's reference and the
pending thread's, and the `tcp_retransmit` thread then locks freed memory. -/
theorem tcpDial_reset_frees_held_by_retransmit :
    let tx : NetTx := ⟨true, 0⟩
    let rst : TcpSeg := ⟨0, 1001, 0, tcpRst ||| tcpAck, ⟨0, 0, 0⟩, []⟩
    let run : List TcpEvent := [.timeouts false false false true tx, .rx rst tx, .dialWake]
    let s := (tcpSysInit 1000 1460 tx).bind (tcpSysRun · run)
    s.map (fun s => (s.conn.pcb.state, s.conn.ref, s.retransmits, s.app, s.freed)) =
        some (.closed, 2, 1, false, true) ∧
      s.bind (tcpSysStep · (.retransmit (fun _ => false) 0 tx)) = none := by
  decide +kernel

/-- With a window of 100 bytes, `tcp_writev` of 10 and 200 bytes sends the first vector and clips
the second to the 91 bytes left; clipped, the last vector is not pushed, and the segmenter keeps it
back in `tx_pending` (`[1011, 1102)`). `tcp_shutdown` then queues the FIN at `snd_nxt = 1102`,
after the bytes that were never sent, and closes the send side, so no later write sends them:
`txq` followed by `tx_pending` is no longer a chain from `snd_una` to `snd_nxt`. -/
theorem tcpShutdown_fin_after_pending :
    let tx : NetTx := ⟨true, 0⟩
    let synAck : TcpSeg := ⟨5000, 1001, 100, tcpSyn ||| tcpAck, ⟨tcpOptionMss, 1460, 0⟩, []⟩
    let run : List TcpEvent := [.rx synAck tx, .dialWake,
      .writev [List.replicate 10 7, List.replicate 200 7] tx, .shutdown shutWr tx]
    let s := (tcpSysInit 1000 1460 tx).bind (tcpSysRun · run)
    s.map (fun s => (s.conn.txq.map fun m => (m.segSeq, m.segEnd, m.flags),
        s.conn.txPending.map fun m => (m.segSeq, m.segEnd), s.conn.pcb.sndNxt, s.conn.pcb.state)) =
      some ([(1001, 1011, tcpAck), (1102, 1103, tcpFin ||| tcpAck)], some (1011, 1102), 1103,
        .finWait1) ∧
    s.map (fun s => (s.conn.txClosed, decide (Contig.Chain Mbuf.segSeq Mbuf.segEnd
        (s.conn.txq ++ s.conn.txPending.toList) s.conn.pcb.sndUna s.conn.pcb.sndNxt))) =
      some (true, false) := by
  decide +kernel

end Caladan
