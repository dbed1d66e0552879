import Mathlib
import Caladan.Net.Tcp.Out

/-!
# The TCP ingress path (`runtime/net/tcp_in.c`)

`tcp_rx_conn` receives one segment for a connection. It parses the header, and when the segment
is a plain in-order data segment of an established connection with room in both windows it
handles it itself (the fast path); otherwise it hands it to `__tcp_rx_conn`, which follows the
steps of RFC 793 Section 3.9 (the slow path). Both run under the connection's lock, so a call is
one atomic step; the work deferred until the lock is dropped (freeing buffers, waking threads,
sending an ACK or a fast retransmission) is part of the same step here.

A segment arrives parsed: its header fields, the options `tcp_parse_options` found in it
(`TcpOptions`), and its payload. `RST`s sent in reply (`send_rst`) leave no trace in the
connection and are not modelled.
-/

namespace Caladan

/-- `TCP_OPTION_MSS` -/
def tcpOptionMss : UInt8 := 0x01
/-- `TCP_OPTION_WSCALE` -/
def tcpOptionWscale : UInt8 := 0x02
/-- `TCP_MIN_MSS` -/
def tcpMinMss : UInt32 := 88

/-- `tcp_calculate_mss` -/
def tcpCalculateMss (mtu : UInt32) : UInt32 := mtu - 20 - 20

/-- `ETH_DEFAULT_MTU` -/
def ethDefaultMtu : UInt32 := 1500

/-- What the option loop of `tcp_parse_options` found: the options present, the MSS and the
window scale (already clamped to 14). -/
structure TcpOptions where
  optEn : UInt8
  mss : UInt16
  wscale : UInt8
deriving DecidableEq, Repr

/-- The end of `tcp_parse_options`: what it sets in the connection from the options found. -/
def tcpParseOptionsDone (c : TcpConn) (o : TcpOptions) : TcpConn :=
  let c := { c with pcb := { c.pcb with sndMss := max o.mss.toUInt32 tcpMinMss,
                                        sndWscale := o.wscale.toUInt32 } }
  let c := if o.optEn &&& tcpOptionWscale = 0 then
      { c with pcb := { c.pcb with rcvWnd := 0xFFFF, rcvWscale := 0 }, winmax := 0xFFFF }
    else c
  if o.optEn &&& tcpOptionMss = 0 then
    { c with pcb := { c.pcb with sndMss := tcpCalculateMss ethDefaultMtu } }
  else c

/-- A parsed TCP segment. -/
structure TcpSeg where
  seq : UInt32
  ack : UInt32
  win : UInt16
  flags : UInt8
  opts : TcpOptions
  payload : List UInt8
deriving DecidableEq, Repr

/-- `TCP_SLOWPATH_FLAGS` -/
def tcpSlowpathFlags : UInt8 := tcpFin ||| tcpRst ||| tcpUrg

/-! ## Acceptability and the receive queues -/

/-- `is_acceptable`: the four cases of the acceptability test for a segment of `len` sequence
numbers at `seq`. -/
def isAcceptable (c : TcpConn) (len seq : UInt32) : Bool :=
  let nxt := c.pcb.rcvNxt
  let wnd := c.pcb.rcvWnd
  if len = 0 && wnd = 0 then seq = nxt
  else if len = 0 && wnd > 0 then wrapsLte nxt seq && wrapsLt seq (nxt + wnd)
  else if len > 0 && wnd = 0 then false
  else (wrapsLte nxt seq && wrapsLt seq (nxt + wnd)) ||
    (wrapsLte nxt (seq + len - 1) && wrapsLt (seq + len - 1) (nxt + wnd))

/-- `is_snd_full` -/
def isSndFull (c : TcpConn) : Bool := wrapsLte (c.pcb.sndUna + c.pcb.sndWnd) c.pcb.sndNxt

/-- `tcp_rx_append_text`: clip the segment to `[rcv_nxt, rcv_nxt + rcv_wnd)`, append it to
`rxq` and advance `rcv_nxt` over it; `none` is a `BUG_ON` of `mbuf_pull` or `mbuf_trim`. The
tail clip trims as many bytes as it drops sequence numbers, including the one a FIN takes. -/
def tcpRxAppendText (c : TcpConn) (m : Mbuf) : Option TcpConn := do
  let nxt := c.pcb.rcvNxt
  let wnd := c.pcb.rcvWnd
  -- does the next receive octet clip the head of the text?
  let m ← if wrapsLt m.segSeq nxt then
      let len := nxt - m.segSeq
      (mbufPull m len.toNat).map fun m' => { m' with segSeq := m.segSeq + len }
    else some m
  -- does the receive window clip the tail of the text?
  let m ← if wrapsLt (nxt + wnd) m.segEnd then
      let len := m.segEnd - (nxt + wnd)
      (mbufTrim m len.toNat).map fun m' => { m' with segEnd := nxt + wnd }
    else some m
  pure { c with pcb := { c.pcb with rcvNxt := m.segEnd, rcvWnd := wnd - (m.segEnd - m.segSeq) },
                rxq := c.rxq ++ [m] }

/-- The insertion of an out-of-order segment by the reverse walk of `tcp_rx_text`, over the
queue from its tail: `none` when the walk finds the segment already covered. -/
def tcpOooInsertRev (m : Mbuf) : List Mbuf → Option (List Mbuf)
  | [] => some [m]
  | pos :: rest =>
    if wrapsGt m.segEnd pos.segEnd then some (m :: pos :: rest)
    else if wrapsGte m.segSeq pos.segSeq then none
    else (tcpOooInsertRev m rest).map (pos :: ·)

/-- The drain loop of `tcp_rx_text` over the out-of-order queue `ooo`: segments already received
are freed, the next in-order ones appended, and the walk stops at the first gap. -/
def tcpRxTextDrain (c : TcpConn) (wake fin : Bool) : List Mbuf → Option (Bool × Bool × TcpConn)
  | [] => some (wake, fin, { c with rxqOoo := [] })
  | pos :: rest =>
    if wrapsLte pos.segEnd c.pcb.rcvNxt then
      tcpRxTextDrain { c with rxqOooLen := c.rxqOooLen - 1 } wake fin rest
    else if wrapsGt pos.segSeq c.pcb.rcvNxt then
      some (wake, fin, { c with rxqOoo := pos :: rest })
    else do
      let c ← tcpRxAppendText { c with rxqOooLen := c.rxqOooLen - 1 } pos
      tcpRxTextDrain c true (fin || pos.flags &&& tcpFin > 0) rest

/-- The end of `tcp_rx_text`: drain the out-of-order queue. -/
def tcpRxTextFinish (c : TcpConn) (wake fin : Bool) : Option (Bool × Bool × Bool × TcpConn) := do
  let (wake, fin, c) ← tcpRxTextDrain c wake fin c.rxqOoo
  pure (true, wake || c.pcb.rcvWnd = 0, fin, c)

/-- `tcp_rx_text`: whether the segment was used, the `wake` and `fin` outputs, and the
connection. -/
def tcpRxText (c : TcpConn) (m : Mbuf) : Option (Bool × Bool × Bool × TcpConn) :=
  if c.pcb.rcvWnd = 0 then some (false, false, false, c)
  else if wrapsLte m.segSeq c.pcb.rcvNxt then do
    -- the next in-order segment
    let hit := m.flags &&& (tcpPush ||| tcpFin) != 0 || !c.rxq.isEmpty
    let c ← tcpRxAppendText c m
    tcpRxTextFinish c hit (hit && m.flags &&& tcpFin > 0)
  else if tcpOooMaxSize ≤ c.rxqOooLen then some (false, false, false, c)
  else match tcpOooInsertRev m c.rxqOoo.reverse with
    | none => some (false, false, false, c)
    | some q => tcpRxTextFinish { c with rxqOoo := q.reverse, rxqOooLen := c.rxqOooLen + 1 } false false

/-! ## The slow path -/

/-- The `done:` label of `__tcp_rx_conn` and the work deferred after the unlock. -/
def tcpRxConnDone (c : TcpConn) (doAck : Bool) (retransmit : Option Mbuf) (tx : NetTx) : TcpConn :=
  let c := if doAck then { c with ackDelayed := false, acksDelayedCnt := 0 } else c
  let c := tcpTxFastRetransmitFinish c retransmit tx
  if doAck then (tcpTxAck c tx).2 else c

/-- `__tcp_rx_conn` in `SYN_SENT`. -/
def tcpRxSynSent (c : TcpConn) (m : Mbuf) (ack sndNxt win : UInt32) (opts : TcpOptions)
    (tx : NetTx) : TcpConn :=
  let seq := m.segSeq
  if m.flags &&& tcpAck > 0 && (wrapsLte ack c.pcb.iss || wrapsGt ack sndNxt) then
    tcpRxConnDone c false none tx
  else if m.flags &&& tcpAck > 0 && m.flags &&& tcpRst > 0 &&
      wrapsLte c.pcb.sndUna ack && wrapsLte ack sndNxt then
    tcpRxConnDone (tcpConnFail c econnreset) false none tx
  else if m.flags &&& tcpAck = 0 && m.flags &&& tcpRst > 0 then tcpRxConnDone c false none tx
  else if m.flags &&& tcpSyn = 0 then tcpRxConnDone c false none tx
  else
    let c := tcpParseOptionsDone { c with pcb := { c.pcb with rcvNxt := seq + 1, irs := seq } } opts
    let c := if m.flags &&& tcpAck > 0 then
        tcpConnAck { c with pcb := { c.pcb with sndUna := ack } }
      else c
    if wrapsGt c.pcb.sndUna c.pcb.iss then
      let c := { c with pcb := { c.pcb with sndWnd := win, sndWl1 := seq, sndWl2 := ack } }
      tcpRxConnDone (tcpConnSetState c .established) true none tx
    else
      let (ret, c) := tcpTxCtl c (tcpSyn ||| tcpAck) tx
      -- a failed SYN/ACK feigns packet loss
      if ret ≠ 0 then tcpRxConnDone c false none tx
      else tcpRxConnDone (tcpConnSetState c .synReceived) false none tx

/-- Step 5 of `__tcp_rx_conn` from the duplicate-ACK test on: the connection, the segment to
retransmit fast, and whether processing stops here with an ACK (an ACK beyond `snd_nxt`). -/
def tcpRxAckStep (c : TcpConn) (seq ack sndNxt win len : UInt32) :
    TcpConn × Option Mbuf × Bool :=
  -- a duplicate ACK
  let (c, retransmit) :=
    if ack = c.pcb.sndUna && c.pcb.sndUna != c.pcb.sndNxt && len = 0 then
      let c := { c with repAcks := c.repAcks + 1 }
      if c.repAcks ≥ tcpFastRetransmitThresh then
        if c.txExclusive then
          ({ c with doFastRetransmit := true, fastRetransmitLastAck := ack, repAcks := 0 }, none)
        else ({ c with repAcks := 0 }, tcpTxFastRetransmitStart c)
      else (c, none)
    else (c, none)
  if wrapsLte c.pcb.sndUna ack && wrapsLte ack sndNxt then
    let c := if c.pcb.sndUna ≠ ack then { c with repAcks := 0 } else c
    let c := tcpConnAck { c with pcb := { c.pcb with sndUna := ack } }
    (tcpRxWindowUpdate c seq ack win, retransmit, false)
  else if wrapsGt ack sndNxt then (c, retransmit, true)
  else (tcpRxWindowUpdate c seq ack win, retransmit, false)
where
  /-- "should we update the send window?" -/
  tcpRxWindowUpdate (c : TcpConn) (seq ack win : UInt32) : TcpConn :=
    if wrapsLt c.pcb.sndWl1 seq || (c.pcb.sndWl1 = seq && wrapsLte c.pcb.sndWl2 ack) then
      let c' := { c with pcb := { c.pcb with sndWnd := win, sndWl1 := seq, sndWl2 := ack } }
      if win ≠ c.pcb.sndWnd then { c' with repAcks := 0 } else c'
    else c

/-- Steps 7 and 8 of `__tcp_rx_conn`: the segment text and the FIN. -/
def tcpRxTextStep (c : TcpConn) (m : Mbuf) (len : UInt32) (doAck : Bool) :
    Option (TcpConn × Bool) := do
  let s := c.pcb.state
  let (c, doAck, fin) ← if len > 0 && (s = .established || s = .finWait1 || s = .finWait2) then do
      let (_, _, fin, (c : TcpConn)) ← tcpRxText c { m with segEnd := m.segSeq + len }
      let c := { c with acksDelayedCnt := c.acksDelayedCnt + 1 }
      let (c, doAck) := if (2 : Int) ≤ c.acksDelayedCnt then (c, true)
        else if !c.ackDelayed then ({ c with ackDelayed := true }, doAck)
        else (c, doAck)
      pure (c, doAck || !c.rxqOoo.isEmpty, fin)
    else pure (c, doAck, false)
  if !fin then pure (c, doAck)
  else match c.pcb.state with
    | .established => pure (tcpConnSetState c .closeWait, doAck)
    | .finWait1 => pure (tcpConnSetState c .closing, doAck)
    | .finWait2 => pure (tcpConnSetState c .timeWait, true)
    | _ => pure (c, doAck)

/-- `__tcp_rx_conn`, the slow path, for a segment `m` whose `seg_end` is `seq` plus its payload
length; `none` is a `BUG_ON` of the buffer code. -/
def tcpRxConnSlow (c : TcpConn) (m : Mbuf) (ack sndNxt win : UInt32) (opts : TcpOptions)
    (tx : NetTx) : Option TcpConn :=
  let seq := m.segSeq
  let len := m.segEnd - m.segSeq + (if m.flags &&& tcpFin > 0 then 1 else 0)
  if c.pcb.state = .closed then some (tcpRxConnDone c false none tx)
  else if c.pcb.state = .synSent then some (tcpRxSynSent c m ack sndNxt win opts tx)
  -- step 1: acceptability
  else if !isAcceptable c len seq then some (tcpRxConnDone c (m.flags &&& tcpRst = 0) none tx)
  -- step 2: RST
  else if m.flags &&& tcpRst > 0 then some (tcpRxConnDone (tcpConnFail c econnreset) false none tx)
  -- step 4: SYN
  else if m.flags &&& tcpSyn > 0 then some (tcpRxConnDone (tcpConnFail c econnreset) false none tx)
  -- step 5: ACK
  else if m.flags &&& tcpAck = 0 then some (tcpRxConnDone c false none tx)
  else if c.pcb.state = .synReceived && !(wrapsLte c.pcb.sndUna ack && wrapsLte ack sndNxt) then
    some (tcpRxConnDone c false none tx)
  else
    let c := if c.pcb.state = .synReceived then
        tcpConnSetState { c with pcb := { c.pcb with sndWnd := win, sndWl1 := seq, sndWl2 := ack } }
          .established
      else c
    let (c, retransmit, stop) := tcpRxAckStep c seq ack sndNxt win len
    if stop then some (tcpRxConnDone c true retransmit tx)
    else if c.pcb.state = .finWait1 && c.pcb.sndUna = sndNxt then
      tcpRxTextStep (tcpConnSetState c .finWait2) m len false |>.map
        fun (c, doAck) => tcpRxConnDone c doAck retransmit tx
    else if c.pcb.state = .closing && c.pcb.sndUna = sndNxt then
      tcpRxTextStep (tcpConnSetState c .timeWait) m len false |>.map
        fun (c, doAck) => tcpRxConnDone c doAck retransmit tx
    else if c.pcb.state = .lastAck && c.pcb.sndUna = sndNxt then
      some (tcpRxConnDone (tcpConnPut (tcpConnSetState c .closed)) false retransmit tx)
    else
      tcpRxTextStep c m len false |>.map fun (c, doAck) => tcpRxConnDone c doAck retransmit tx

/-! ## The fast path -/

/-- The conditions under which `tcp_rx_conn` hands a segment of `len` payload bytes to the slow
path. -/
def tcpRxSlowPath (c : TcpConn) (s : TcpSeg) (len sndNxt : UInt32) : Bool :=
  s.flags &&& tcpSlowpathFlags != 0 || len = 0 || wrapsGt s.ack sndNxt ||
    c.pcb.state != .established || isSndFull c ||
    s.seq != c.pcb.rcvNxt || !c.rxqOoo.isEmpty || c.pcb.rcvWnd < len

/-- The fast path of `tcp_rx_conn` for a segment that passed its guard. -/
def tcpRxConnFast (c : TcpConn) (m : Mbuf) (ack win : UInt32) (tx : NetTx) : TcpConn :=
  let seq := m.segSeq
  let len := m.segEnd - m.segSeq
  let c := { c with repAcks := if c.pcb.sndUna = ack then c.repAcks else 0 }
  let c := tcpConnAck { c with pcb := { c.pcb with sndUna := ack } }
  -- should we update the send window?
  let c := if wrapsLt c.pcb.sndWl1 seq || (c.pcb.sndWl1 = seq && wrapsLte c.pcb.sndWl2 ack) then
      { c with pcb := { c.pcb with sndWnd := win, sndWl1 := seq, sndWl2 := ack }, repAcks := 0 }
    else c
  let c := { c with pcb := { c.pcb with rcvNxt := m.segEnd, rcvWnd := c.pcb.rcvWnd - len } }
  -- delayed acks
  let c := { c with acksDelayedCnt := c.acksDelayedCnt + 1 }
  let (c, doAck) := if (2 : Int) ≤ c.acksDelayedCnt then
      ({ c with ackDelayed := false, acksDelayedCnt := 0 }, true)
    else if !c.ackDelayed then ({ c with ackDelayed := true }, false)
    else (c, false)
  let c := { c with rxq := c.rxq ++ [m] }
  if doAck then (tcpTxAck c tx).2 else c

/-- `tcp_rx_conn`: a segment for the connection; `none` is a `BUG_ON` of the buffer code. A
segment longer than the receive MSS is dropped. -/
def tcpRxConn (c : TcpConn) (s : TcpSeg) (tx : NetTx) : Option TcpConn :=
  let sndNxt := c.pcb.sndNxt
  let len := UInt32.ofNat s.payload.length
  let win := (UInt32.ofNat s.win.toNat) <<< c.pcb.sndWscale
  if len > c.pcb.rcvMss then some c
  else
    let m : Mbuf := ⟨s.payload, s.seq, s.seq + len, s.flags⟩
    if tcpRxSlowPath c s len sndNxt then tcpRxConnSlow c m s.ack sndNxt win s.opts tx
    else some (tcpRxConnFast c m s.ack win tx)

/-! ## In-order text

The spec of the receive functions on an in-order segment: the segment goes to the end of `rxq`,
clipped to the window, and `rcv_nxt` and `rcv_wnd` move by what is kept. -/

section
variable {c : TcpConn} {m : Mbuf} {len : UInt32}

theorem isAcceptable_rcvNxt (h0 : len ≠ 0) (hw0 : c.pcb.rcvWnd ≠ 0)
    (hw : c.pcb.rcvWnd.toNat ≤ 2 ^ 31) : isAcceptable c len c.pcb.rcvNxt = true := by
  have hlt : wrapsLt c.pcb.rcvNxt (c.pcb.rcvNxt + c.pcb.rcvWnd) = true :=
    (wrapsLt_add_right _ _).mpr ⟨hw0, hw⟩
  simp [isAcceptable, h0, hw0, hlt]

/-- A segment from `rcv_nxt` that ends past the window is trimmed to it: it loses as many bytes
from its end as it has sequence numbers past the window, and `rcv_nxt` moves to the window's
end. -/
theorem tcpRxAppendText_clip {data : List UInt8} {seq : UInt32} {flags : UInt8}
    (hseq : seq = c.pcb.rcvNxt) (hlt : c.pcb.rcvWnd < len) (hlen : len.toNat ≤ 2 ^ 31)
    (hd : (len - c.pcb.rcvWnd).toNat ≤ data.length) :
    tcpRxAppendText c ⟨data, seq, seq + len, flags⟩ = some { c with
      pcb := { c.pcb with rcvNxt := seq + c.pcb.rcvWnd, rcvWnd := 0 }
      rxq := c.rxq ++ [⟨data.take (data.length - (len - c.pcb.rcvWnd).toNat), seq,
        seq + c.pcb.rcvWnd, flags⟩] } := by
  subst hseq
  have hsub : (len - c.pcb.rcvWnd).toNat = len.toNat - c.pcb.rcvWnd.toNat :=
    UInt32.toNat_sub_of_le _ _ (UInt32.le_of_lt hlt)
  have htail : wrapsLt (c.pcb.rcvNxt + c.pcb.rcvWnd) (c.pcb.rcvNxt + len) = true := by
    rw [wrapsLt_add_add, ← add_sub_cancel c.pcb.rcvWnd len, wrapsLt_add_right]
    refine ⟨sub_ne_zero.mpr (UInt32.ne_of_lt hlt).symm, ?_⟩
    omega
  have hd' : ¬ (len - c.pcb.rcvWnd).toNat > data.length := Nat.not_lt.mpr hd
  simp [tcpRxAppendText, htail, mbufTrim, hd', add_sub_add_left_eq_sub]

@[simp] theorem tcpRxTextDrain_nil (wake fin : Bool) :
    tcpRxTextDrain c wake fin [] = some (wake, fin, { c with rxqOoo := [] }) := rfl

theorem tcpRxText_clip {data : List UInt8} {seq : UInt32} {flags : UInt8}
    (hseq : seq = c.pcb.rcvNxt) (hw0 : c.pcb.rcvWnd ≠ 0) (hlt : c.pcb.rcvWnd < len)
    (hlen : len.toNat ≤ 2 ^ 31) (hd : (len - c.pcb.rcvWnd).toNat ≤ data.length)
    (hooo : c.rxqOoo = []) :
    tcpRxText c ⟨data, seq, seq + len, flags⟩ = some (true, true,
      (flags &&& (tcpPush ||| tcpFin) != 0 || !c.rxq.isEmpty) && flags &&& tcpFin > 0,
      { c with
        pcb := { c.pcb with rcvNxt := seq + c.pcb.rcvWnd, rcvWnd := 0 }
        rxq := c.rxq ++ [⟨data.take (data.length - (len - c.pcb.rcvWnd).toNat), seq,
          seq + c.pcb.rcvWnd, flags⟩] }) := by
  have hlte : wrapsLte seq c.pcb.rcvNxt = true := by rw [hseq]; exact wrapsLte_self _
  simp [tcpRxText, hw0, hlte, tcpRxAppendText_clip hseq hlt hlen hd, tcpRxTextFinish, hooo]

theorem tcpRxAckStep_acked {seq ack sndNxt win : UInt32} (h0 : len ≠ 0)
    (h₁ : wrapsLte c.pcb.sndUna ack = true) (h₂ : wrapsLte ack sndNxt = true) :
    tcpRxAckStep c seq ack sndNxt win len =
      (tcpRxAckStep.tcpRxWindowUpdate
        (tcpConnAck { c with
          pcb := { c.pcb with sndUna := ack }
          repAcks := if c.pcb.sndUna ≠ ack then 0 else c.repAcks }) seq ack win, none, false) := by
  by_cases hu : c.pcb.sndUna = ack <;> simp [tcpRxAckStep, h0, h₁, h₂, hu]

end

/-! ## What the slow path changes -/

/-- A window update changes the send window and the duplicate-ACK counter only. -/
theorem tcpRxWindowUpdate_frame (c : TcpConn) (seq ack win : UInt32) :
    ∃ wnd wl1 wl2 ra, tcpRxAckStep.tcpRxWindowUpdate c seq ack win =
      { c with pcb := { c.pcb with sndWnd := wnd, sndWl1 := wl1, sndWl2 := wl2 }, repAcks := ra } := by
  unfold tcpRxAckStep.tcpRxWindowUpdate
  split_ifs <;> exact ⟨_, _, _, _, rfl⟩

/-- The end of the slow path changes the delayed-ACK state and the header fields of the packets
it sends. -/
theorem tcpRxConnDone_frame (c : TcpConn) (doAck : Bool) (r : Option Mbuf) (tx : NetTx) :
    ∃ la lw ad adc, tcpRxConnDone c doAck r tx =
      { c with txLastAck := la, txLastWin := lw, ackDelayed := ad, acksDelayedCnt := adc } := by
  unfold tcpRxConnDone
  cases doAck
  · simp only [Bool.false_eq_true, if_false]
    rcases tcpTxFastRetransmitFinish_eq c tx r with h | h <;> rw [h] <;> exact ⟨_, _, _, _, rfl⟩
  · simp only [if_true]
    rcases tcpTxFastRetransmitFinish_eq { c with ackDelayed := false, acksDelayedCnt := 0 } tx r
      with h | h <;> rw [h] <;> rcases tcpTxAck_eq _ tx with h' | h' <;> rw [h'] <;>
      exact ⟨_, _, _, _, rfl⟩

section
variable (c : TcpConn) (doAck : Bool) (r : Option Mbuf) (tx : NetTx)

@[simp] theorem tcpRxConnDone_pcb : (tcpRxConnDone c doAck r tx).pcb = c.pcb := by
  obtain ⟨_, _, _, _, h⟩ := tcpRxConnDone_frame c doAck r tx
  rw [h]

@[simp] theorem tcpRxConnDone_rxq : (tcpRxConnDone c doAck r tx).rxq = c.rxq := by
  obtain ⟨_, _, _, _, h⟩ := tcpRxConnDone_frame c doAck r tx
  rw [h]

end

/-- The slow path of an established connection, on an acceptable segment of `len` sequence numbers
that carries an ACK in `[snd_una, snd_nxt]` and neither RST nor SYN: the acknowledgment step, then
the text step. -/
theorem tcpRxConnSlow_established {c : TcpConn} {m : Mbuf} {len ack sndNxt win : UInt32}
    {opts : TcpOptions} {tx : NetTx} (hest : c.pcb.state = .established)
    (hlen : m.segEnd - m.segSeq + (if m.flags &&& tcpFin > 0 then 1 else 0) = len) (h0 : len ≠ 0)
    (hacc : isAcceptable c len m.segSeq = true) (hrst : m.flags &&& tcpRst = 0)
    (hsyn : m.flags &&& tcpSyn = 0) (hack : m.flags &&& tcpAck ≠ 0)
    (huna : wrapsLte c.pcb.sndUna ack = true) (hnxt : wrapsLte ack sndNxt = true) :
    tcpRxConnSlow c m ack sndNxt win opts tx =
      (tcpRxTextStep (tcpRxAckStep.tcpRxWindowUpdate (tcpConnAck { c with
          pcb := { c.pcb with sndUna := ack }
          repAcks := if c.pcb.sndUna ≠ ack then 0 else c.repAcks }) m.segSeq ack win) m len false).map
        fun r => tcpRxConnDone r.1 r.2 none tx := by
  have hcl : c.pcb.state ≠ .closed := by rw [hest]; decide
  have hss : c.pcb.state ≠ .synSent := by rw [hest]; decide
  have hsr : c.pcb.state ≠ .synReceived := by rw [hest]; decide
  unfold tcpRxConnSlow
  simp only [hlen, hcl, hss, hsr, if_false, hacc, Bool.not_true, Bool.false_eq_true, hrst, hsyn, hack,
    UInt8.lt_irrefl, gt_iff_lt, Bool.false_and, decide_false]
  rw [tcpRxAckStep_acked h0 huna hnxt]
  -- the acknowledgment leaves the connection established
  set c₁ := tcpRxAckStep.tcpRxWindowUpdate (tcpConnAck { c with
    pcb := { c.pcb with sndUna := ack }
    repAcks := if c.pcb.sndUna ≠ ack then 0 else c.repAcks }) m.segSeq ack win with hc₁
  have hst₁ : c₁.pcb.state = .established := by
    obtain ⟨q, hq⟩ := tcpConnAck_frame { c with
      pcb := { c.pcb with sndUna := ack }
      repAcks := if c.pcb.sndUna ≠ ack then 0 else c.repAcks }
    obtain ⟨_, _, _, _, hu⟩ := tcpRxWindowUpdate_frame _ m.segSeq ack win
    rw [hc₁, hq, hu]
    exact hest
  simp only [hst₁, reduceCtorEq, decide_false, Bool.false_and, if_false, Bool.false_eq_true]

/-! ## The fast path against the slow path

The fast path is an optimisation of the slow one for segments its guard admits. The slow path
needs the segment to carry an ACK, to carry no SYN and to acknowledge nothing older than
`snd_una`; the guard checks none of the three, and each one missing changes the outcome
(`tcpRxConn_fast_diverges`). -/

/-- The fast path admits a data segment with an ACK older than `snd_una`, or with no ACK flag, or
with a SYN, and then does what the slow path does not. On an established connection with
`snd_una = 1100` and `snd_nxt = 1200`: the slow path keeps `snd_una` at 1100 for an ACK of 1050
where the fast path sets it back to 1050; it drops a segment without ACK where the fast path
queues its text; and it resets the connection on a SYN where the fast path stays established. -/
theorem tcpRxConn_fast_diverges :
    let c₀ : TcpConn := tcpConnAlloc 1000 1460
    let c : TcpConn := { c₀ with
      pcb := { c₀.pcb with state := .established, sndUna := 1100, sndNxt := 1200, sndWnd := 1000,
                           sndWl1 := 5000, sndWl2 := 1100, sndMss := 1460, rcvNxt := 5001,
                           rcvWnd := 1000, irs := 5000 }
      ref := 2 }
    let tx : NetTx := ⟨true, 0⟩
    let seg (ack : UInt32) (flags : UInt8) : TcpSeg := ⟨5001, ack, 1000, flags, ⟨0, 0, 0⟩, [1, 2, 3]⟩
    let m (flags : UInt8) : Mbuf := ⟨[1, 2, 3], 5001, 5004, flags⟩
    -- an old ACK
    tcpRxSlowPath c (seg 1050 tcpAck) 3 1200 = false ∧
      (tcpRxConnSlow c (m tcpAck) 1050 1200 1000 ⟨0, 0, 0⟩ tx).map (·.pcb.sndUna) = some 1100 ∧
      (tcpRxConnFast c (m tcpAck) 1050 1000 tx).pcb.sndUna = 1050 ∧
    -- no ACK flag
    tcpRxSlowPath c (seg 1150 tcpPush) 3 1200 = false ∧
      (tcpRxConnSlow c (m tcpPush) 1150 1200 1000 ⟨0, 0, 0⟩ tx).map (·.rxq) = some [] ∧
      (tcpRxConnFast c (m tcpPush) 1150 1000 tx).rxq = [m tcpPush] ∧
    -- a SYN
    tcpRxSlowPath c (seg 1150 (tcpSyn ||| tcpAck)) 3 1200 = false ∧
      (tcpRxConnSlow c (m (tcpSyn ||| tcpAck)) 1150 1200 1000 ⟨0, 0, 0⟩ tx).map (·.pcb.state) =
        some .closed ∧
      (tcpRxConnFast c (m (tcpSyn ||| tcpAck)) 1150 1000 tx).pcb.state = .established := by
  decide +kernel

/-- A pure ACK that overtakes the data segment sent before it moves `snd_una` to 1100; the data
segment, carrying the older ACK 1050, then takes the fast path and moves `snd_una` back to
1050, below the sequence numbers the first ACK already freed from `txq`. -/
theorem tcpRxConn_reordered_ack_rewinds_sndUna :
    let c₀ : TcpConn := tcpConnAlloc 1000 1460
    let c : TcpConn := { c₀ with
      pcb := { c₀.pcb with state := .established, sndUna := 1000, sndNxt := 1200, sndWnd := 1000,
                           sndWl1 := 5000, sndWl2 := 1000, sndMss := 1460, rcvNxt := 5001,
                           rcvWnd := 1000, irs := 5000 }
      ref := 2
      txq := [⟨List.replicate 100 0, 1000, 1100, tcpAck⟩, ⟨List.replicate 100 0, 1100, 1200, tcpAck⟩] }
    let tx : NetTx := ⟨true, 0⟩
    let ack : TcpSeg := ⟨5004, 1100, 1000, tcpAck, ⟨0, 0, 0⟩, []⟩
    let data : TcpSeg := ⟨5001, 1050, 1000, tcpAck, ⟨0, 0, 0⟩, [1, 2, 3]⟩
    ((tcpRxConn c ack tx).map (·.pcb.sndUna) = some 1100 ∧
      ((tcpRxConn c ack tx).bind (tcpRxConn · data tx)).map (·.pcb.sndUna) = some 1050 ∧
      ((tcpRxConn c ack tx).bind (tcpRxConn · data tx)).map (·.txq.length) = some 1) ∧
    wrapsLt 1050 1100 = true := by
  decide +kernel

/-! ## A FIN past the window

`__tcp_rx_conn` counts a FIN in the segment's length, and so in its `seg_end`. When the window
ends inside the segment, the tail clip of `tcp_rx_append_text` then trims one byte more than it
drops from the text: the last byte inside the window is lost, `rcv_nxt` still moves over it, and
the FIN, which lies past the window, is acted on all the same. -/

theorem tcpRxTextStep_fin_clip {c : TcpConn} {len : UInt32} {data : List UInt8} {seq e : UInt32}
    {flags : UInt8} {doAck : Bool}
    (hest : c.pcb.state = .established) (hooo : c.rxqOoo = []) (hseq : seq = c.pcb.rcvNxt)
    (hfin : flags &&& tcpFin ≠ 0) (hw0 : c.pcb.rcvWnd ≠ 0) (hlt : c.pcb.rcvWnd < len)
    (hlen : len.toNat ≤ 2 ^ 31) (hd : (len - c.pcb.rcvWnd).toNat ≤ data.length) :
    (tcpRxTextStep c ⟨data, seq, e, flags⟩ len doAck).map
        (fun r => (r.1.pcb.state, r.1.pcb.rcvNxt, r.1.rxq)) =
      some (.closeWait, seq + c.pcb.rcvWnd, c.rxq ++
        [⟨data.take (data.length - (len - c.pcb.rcvWnd).toNat), seq, seq + c.pcb.rcvWnd, flags⟩]) := by
  have hpos : 0 < len := UInt32.lt_of_le_of_lt UInt32.zero_le hlt
  have hhit : flags &&& (tcpPush ||| tcpFin) ≠ 0 := by
    rw [ne_eq, and_or_eq_zero]; exact fun h => hfin h.2
  have hfin' : flags &&& tcpFin > 0 := UInt8.pos_iff_ne_zero.mpr hfin
  -- the delayed-ACK bookkeeping touches neither the state nor the queue
  by_cases hcnt : (2 : Int) ≤ c.acksDelayedCnt + 1 <;> cases hda : c.ackDelayed <;>
    simp [tcpRxTextStep, hest, hpos, tcpRxText_clip hseq hw0 hlt hlen hd hooo, hhit, hfin', hcnt, hda,
      tcpConnSetState]

/-- A segment with a FIN and an acceptable ACK, at `rcv_nxt` of an established connection, with at
least as many bytes as the window has room for: the connection queues one byte fewer than the
window, moves `rcv_nxt` to the window's end, and goes to `CLOSE_WAIT`. The byte at the window's
last sequence number is in no buffer, and `rcv_nxt` acknowledges it to the peer. -/
theorem tcpRxConn_fin_clip_loses_byte (c : TcpConn) (s : TcpSeg) (tx : NetTx)
    (hest : c.pcb.state = .established) (hooo : c.rxqOoo = [])
    (hseq : s.seq = c.pcb.rcvNxt) (hflags : s.flags = tcpFin ||| tcpAck)
    (huna : wrapsLte c.pcb.sndUna s.ack = true) (hnxt : wrapsLte s.ack c.pcb.sndNxt = true)
    (hw0 : c.pcb.rcvWnd ≠ 0) (hwin : c.pcb.rcvWnd.toNat ≤ s.payload.length)
    (hmss : s.payload.length ≤ c.pcb.rcvMss.toNat) (hmss' : c.pcb.rcvMss.toNat < 2 ^ 31) :
    (tcpRxConn c s tx).map (fun c' => (c'.pcb.state, c'.pcb.rcvNxt, c'.rxq)) =
      some (.closeWait, s.seq + c.pcb.rcvWnd,
        c.rxq ++ [⟨s.payload.take (c.pcb.rcvWnd.toNat - 1), s.seq, s.seq + c.pcb.rcvWnd, s.flags⟩]) := by
  set p := s.payload.length with hp
  have hL : (UInt32.ofNat p).toNat = p := UInt32.toNat_ofNat_of_lt' (by rw [UInt32.size]; omega)
  have hL1 : (UInt32.ofNat p + 1).toNat = p + 1 := by
    rw [UInt32.toNat_add, hL]; simp; omega
  have hw1 : 1 ≤ c.pcb.rcvWnd.toNat := by
    rw [Nat.one_le_iff_ne_zero, ne_eq, ← UInt32.toNat_zero, UInt32.toNat_inj]; exact hw0
  -- the segment is not dropped, and its FIN sends it down the slow path
  have hdrop : ¬ UInt32.ofNat p > c.pcb.rcvMss := by
    rw [gt_iff_lt, UInt32.lt_iff_toNat_lt, hL]; omega
  have hslow : tcpRxSlowPath c s (UInt32.ofNat p) c.pcb.sndNxt = true := by
    have hfin : (tcpFin ||| tcpAck) &&& tcpSlowpathFlags ≠ 0 := by decide
    simp [tcpRxSlowPath, hflags, hfin]
  have hfl : s.flags &&& tcpFin ≠ 0 ∧ s.flags &&& tcpRst = 0 ∧ s.flags &&& tcpSyn = 0 ∧
      s.flags &&& tcpAck ≠ 0 := by rw [hflags]; decide
  obtain ⟨hfin, hrst, hsyn, hack⟩ := hfl
  have h0 : UInt32.ofNat p + 1 ≠ 0 := by
    rw [ne_eq, ← UInt32.toNat_inj, hL1]; simp
  have hacc : isAcceptable c (UInt32.ofNat p + 1) s.seq = true := by
    rw [hseq]; exact isAcceptable_rcvNxt h0 hw0 (by omega)
  unfold tcpRxConn
  simp only [hdrop, if_false, ← hp, hslow, if_true]
  set m : Mbuf := ⟨s.payload, s.seq, s.seq + UInt32.ofNat p, s.flags⟩ with hm
  have hlen : m.segEnd - m.segSeq + (if m.flags &&& tcpFin > 0 then 1 else 0) = UInt32.ofNat p + 1 := by
    rw [hm, add_sub_cancel_left, if_pos (UInt8.pos_iff_ne_zero.mpr hfin)]
  rw [tcpRxConnSlow_established hest hlen h0 hacc hrst hsyn hack huna hnxt]
  -- the acknowledgment step leaves the receive side as it was
  set c₁ := tcpRxAckStep.tcpRxWindowUpdate (tcpConnAck { c with
    pcb := { c.pcb with sndUna := s.ack }
    repAcks := if c.pcb.sndUna ≠ s.ack then 0 else c.repAcks }) s.seq s.ack
      (UInt32.ofNat s.win.toNat <<< c.pcb.sndWscale) with hc₁
  have hrcv : c₁.pcb.state = .established ∧ c₁.pcb.rcvNxt = c.pcb.rcvNxt ∧
      c₁.pcb.rcvWnd = c.pcb.rcvWnd ∧ c₁.rxq = c.rxq ∧ c₁.rxqOoo = c.rxqOoo := by
    obtain ⟨q, hq⟩ := tcpConnAck_frame { c with
      pcb := { c.pcb with sndUna := s.ack }
      repAcks := if c.pcb.sndUna ≠ s.ack then 0 else c.repAcks }
    obtain ⟨_, _, _, _, hu⟩ := tcpRxWindowUpdate_frame _ s.seq s.ack
      (UInt32.ofNat s.win.toNat <<< c.pcb.sndWscale)
    rw [hc₁, hq, hu]
    exact ⟨hest, rfl, rfl, rfl, rfl⟩
  obtain ⟨hst₁, hnxt₁, hwnd₁, hrxq₁, hooo₁⟩ := hrcv
  -- then the text step clips the segment, FIN included, to the window
  have hlt : c.pcb.rcvWnd < UInt32.ofNat p + 1 := by
    rw [UInt32.lt_iff_toNat_lt, hL1]; omega
  have hsub : (UInt32.ofNat p + 1 - c.pcb.rcvWnd).toNat = p + 1 - c.pcb.rcvWnd.toNat := by
    rw [UInt32.toNat_sub_of_le _ _ (UInt32.le_of_lt hlt), hL1]
  have hproj : (fun c' : TcpConn => (c'.pcb.state, c'.pcb.rcvNxt, c'.rxq)) ∘
      (fun r : TcpConn × Bool => tcpRxConnDone r.1 r.2 none tx) =
      fun r => (r.1.pcb.state, r.1.pcb.rcvNxt, r.1.rxq) := by
    funext r; simp
  rw [Option.map_map, hproj, tcpRxTextStep_fin_clip hst₁ (hooo₁.trans hooo) (hseq.trans hnxt₁.symm)
    hfin (hwnd₁ ▸ hw0) (hwnd₁ ▸ hlt) (by rw [hL1]; omega)
    (show (UInt32.ofNat p + 1 - c₁.pcb.rcvWnd).toNat ≤ s.payload.length by rw [hwnd₁, hsub]; omega),
    hwnd₁, hrxq₁, hsub, show p - (p + 1 - c.pcb.rcvWnd.toNat) = c.pcb.rcvWnd.toNat - 1 by omega]

/-- One byte left in the window, and a segment with one byte and a FIN: the byte is lost. -/
theorem tcpRxConn_fin_clip_one_byte :
    let c₀ : TcpConn := tcpConnAlloc 1000 1460
    let c : TcpConn := { c₀ with
      pcb := { c₀.pcb with state := .established, sndUna := 1001, sndNxt := 1001, sndMss := 1460,
                           rcvNxt := 5001, rcvWnd := 1, irs := 5000 } }
    let s : TcpSeg := ⟨5001, 1001, 65535, tcpFin ||| tcpAck, ⟨0, 0, 0⟩, [0x41]⟩
    (tcpRxConn c s ⟨true, 0⟩).map (fun c' => (c'.pcb.state, c'.pcb.rcvNxt, c'.rxq)) =
      some (.closeWait, s.seq + c.pcb.rcvWnd,
        c.rxq ++ [⟨s.payload.take (c.pcb.rcvWnd.toNat - 1), s.seq, s.seq + c.pcb.rcvWnd, s.flags⟩]) := by
  intro c₀ c s
  exact tcpRxConn_fin_clip_loses_byte c s _ rfl rfl rfl rfl (by decide) (by decide) (by decide)
    (by decide) (by decide) (by decide)

end Caladan
