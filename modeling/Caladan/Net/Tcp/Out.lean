import Mathlib
import Caladan.Net.Tcp.Conn
import Caladan.Lib.Chain

/-!
# The TCP egress path (`runtime/net/tcp_out.c`)

Every function here that sends a packet asks the network layer for a buffer
(`net_tx_alloc_mbuf`) and hands the packet to `net_tx_ip`; what these do is an input, `NetTx`,
shared by the packets one event sends. A packet's header is not kept: what writing it changes in
the connection is `tx_last_ack` and `tx_last_win` (`tcpPushTcphdr`).

`tcp_tx_send` is the segmenter loop. It is modelled with fuel: the C loop runs forever when the
send MSS is zero, and with a positive MSS the fuel it is given is enough. Data kept back when
`push` is false waits in `tx_pending`, already counted in `snd_nxt` but in no queue: the
segments of `txq` and then the pending one cover the sequence space up to `snd_nxt` without gap
or overlap (`TcpConn.TxChain`), and every pass keeps that.
-/

namespace Caladan

/-- What the network layer does with the egress packets of one event: whether
`net_tx_alloc_mbuf` returns buffers, and what `net_tx_ip` returns. -/
structure NetTx where
  alloc : Bool
  ret : Int
deriving DecidableEq, Repr

/-- `sizeof(struct tcp_hdr)` -/
def tcpHdrSize : UInt64 := 20

/-- `TCP_RETRANSMIT_BATCH` -/
def tcpRetransmitBatch : Nat := 16

/-- The connection fields `tcp_push_tcphdr` sets while it writes a header. -/
def tcpPushTcphdr (c : TcpConn) : TcpConn :=
  { c with txLastAck := c.pcb.rcvNxt, txLastWin := c.pcb.rcvWnd }

/-- `tcp_tx_ack` -/
def tcpTxAck (c : TcpConn) (tx : NetTx) : Int × TcpConn :=
  if !tx.alloc then (-enomem, c) else (tx.ret, tcpPushTcphdr c)

/-- `tcp_tx_ctl`: queue a control segment taking one sequence number. A failed `net_tx_ip` is
returned although the segment stays queued ("pretend the packet was sent"). -/
def tcpTxCtl (c : TcpConn) (flags : UInt8) (tx : NetTx) : Int × TcpConn :=
  if !tx.alloc then (-enomem, c)
  else
    let m : Mbuf := ⟨[], c.pcb.sndNxt, c.pcb.sndNxt + 1, flags⟩
    let c := tcpPushTcphdr c
    (tx.ret, { c with pcb := { c.pcb with sndNxt := c.pcb.sndNxt + 1 }, txq := c.txq ++ [m] })

/-- The result `tcp_tx_send` returns: the bytes sent, or the last error if none was. -/
def tcpTxSendRet (sent : Nat) (ret : Int) : Int := if sent > 0 then sent else ret

/-- The buffer a pass of the segmenter fills, with the number `seglen` of the `len` bytes still to
send that go into it: the pending buffer, grown at its end, or a new one at `snd_nxt`; `none` when
`net_tx_alloc_mbuf` fails. The connection gives up its pending buffer. -/
def tcpTxSendBuf (c : TcpConn) (len : Nat) (tx : NetTx) : Option (Mbuf × Nat × TcpConn) :=
  let mss := c.pcb.sndMss
  match c.txPending with
  | some m =>
    let seglen := min len (mss - UInt32.ofNat (mbufLength m)).toNat
    some ({ m with segEnd := m.segEnd + UInt32.ofNat seglen }, seglen, { c with txPending := none })
  | none =>
    if !tx.alloc then none
    else
      let seglen := min len mss.toNat
      some (⟨[], c.pcb.sndNxt, c.pcb.sndNxt + UInt32.ofNat seglen, tcpAck⟩, seglen, c)

/-- The segmenter loop of `tcp_tx_send` from a pass with `rest` bytes still to send and `sent`
sent; `none` when it has not ended after `fuel` passes. -/
def tcpTxSendLoop (push : Bool) (tx : NetTx) :
    Nat → TcpConn → List UInt8 → Nat → Int → Option (Int × TcpConn)
  | 0, _, _, _, _ => none
  | fuel + 1, c, rest, sent, ret =>
    match tcpTxSendBuf c rest.length tx with
    | none => some (tcpTxSendRet sent (-enobufs), c)
    | some (m, seglen, c) =>
      let m := { m with data := m.data ++ rest.take seglen }
      let c := { c with pcb := { c.pcb with sndNxt := c.pcb.sndNxt + UInt32.ofNat seglen } }
      let rest := rest.drop seglen
      let sent := sent + seglen
      -- if not pushing, keep the last buffer for later
      if !push && rest.isEmpty && UInt64.ofNat (mbufLength m) - tcpHdrSize < c.pcb.sndMss.toUInt64 then
        some (tcpTxSendRet sent ret, { c with txPending := some m })
      else
        let m := if push && rest.isEmpty then { m with flags := m.flags ||| tcpPush } else m
        let c := tcpPushTcphdr c
        let c := { c with txq := c.txq ++ [m] }
        if rest.isEmpty then some (tcpTxSendRet sent tx.ret, c)
        else tcpTxSendLoop push tx fuel c rest sent tx.ret

/-- `tcp_tx_send` of the bytes `buf`. -/
def tcpTxSend (c : TcpConn) (buf : List UInt8) (push : Bool) (tx : NetTx) : Option (Int × TcpConn) :=
  tcpTxSendLoop push tx (buf.length + 2) c buf 0 0

/-- `tcp_tx_retransmit_one` for the segment `m` of `txq`: the segment as `txq` then holds it and
the connection, or `none` for the `BUG_ON` of `mbuf_pull`. When the NIC still holds `m`
(`held`), a copy is sent and `m` stays as it is; otherwise `m` itself is trimmed to its
unacknowledged part and sent again. -/
def tcpTxRetransmitOne (c : TcpConn) (m : Mbuf) (held : Bool) (tx : NetTx) :
    Option (Int × Mbuf × TcpConn) :=
  if held && !tx.alloc then some (-enomem, m, c)
  else
    let una := c.pcb.sndUna
    if wrapsLte m.segEnd una then some (0, m, c)
    else do
      let m' ← if wrapsLt m.segSeq una then
          (mbufPull m (una - m.segSeq).toNat).map fun m => { m with segSeq := una }
        else some m
      let c := tcpPushTcphdr c
      pure (tx.ret, if held then m else m', c)

/-- A packet as `tcp_push_tcphdr` leaves it for `net_tx_ip`: the sequence number and data offset
of its header, the length `tcp_hdr_chksum` puts in the pseudo-header, its flags, and the bytes
after the fixed header (options, then payload). -/
structure TcpTxPkt where
  seq : UInt32
  off : UInt8
  phdrLen : UInt16
  flags : UInt8
  body : List UInt8
deriving DecidableEq, Repr

/-- The packet `tcp_tx_retransmit_one` sends for the segment `m` of `txq` whose header carries the
option bytes `opts`: `some none` when it sends nothing, `none` for the `BUG_ON` of `mbuf_pull`.
`l4len` and `opts_len` are read before the acknowledged bytes are pulled. -/
def tcpTxRetransmitOnePkt (c : TcpConn) (m : Mbuf) (opts : List UInt8) (held : Bool) (tx : NetTx) :
    Option (Option TcpTxPkt) :=
  let l4len : UInt16 :=
    (m.segEnd - m.segSeq).toUInt16 - (if m.flags &&& (tcpSyn ||| tcpFin) ≠ 0 then 1 else 0)
  let optsLen : UInt8 := UInt8.ofNat (opts.length / 4)
  if held && !tx.alloc then some none
  else
    -- the bytes after the fixed header: a copy of the options and `l4len` bytes, or in place
    let body := if held then (opts ++ m.data).take (4 * optsLen.toNat + l4len.toNat)
      else opts ++ m.data
    let una := c.pcb.sndUna
    if wrapsLte m.segEnd una then some none
    else do
      let (seq, body) ← if wrapsLt m.segSeq una then
          let k := (una - m.segSeq).toNat
          if k > body.length then none else some (una, body.drop k)
        else some (m.segSeq, body)
      let off := 5 + optsLen
      pure (some ⟨seq, off, off.toUInt16 * 4 + l4len, m.flags, body⟩)

/-- The loop of `tcp_tx_retransmit` over `txq` from position `i`, with `count` segments sent:
the first `expired` segments are those whose timeout expired, and `held i` says whether the NIC
still holds segment `i`. -/
def tcpTxRetransmitLoop (held : Nat → Bool) (tx : NetTx) (expired : Nat) :
    Nat → Nat → TcpConn → List Mbuf → Option (List Mbuf × TcpConn)
  | _, _, c, [] => some ([], c)
  | i, count, c, m :: ms =>
    if expired ≤ i then some (m :: ms, c)
    else if wrapsGte c.pcb.sndUna m.segEnd then
      (tcpTxRetransmitLoop held tx expired (i + 1) count c ms).map fun (ms, c) => (m :: ms, c)
    else do
      let (ret, m, c) ← tcpTxRetransmitOne c m (held i) tx
      if ret ≠ 0 ∨ tcpRetransmitBatch ≤ count + 1 then pure (m :: ms, c)
      else
        let (ms, c) ← tcpTxRetransmitLoop held tx expired (i + 1) (count + 1) c ms
        pure (m :: ms, c)

/-- `tcp_tx_retransmit` -/
def tcpTxRetransmit (c : TcpConn) (held : Nat → Bool) (tx : NetTx) (expired : Nat) :
    Option TcpConn :=
  (tcpTxRetransmitLoop held tx expired 0 0 c c.txq).map fun (q, c) => { c with txq := q }

/-- `tcp_tx_fast_retransmit_start`: the head of `txq`, unless a writer holds the queue. -/
def tcpTxFastRetransmitStart (c : TcpConn) : Option Mbuf :=
  if c.txExclusive then none else c.txq.head?

/-- `tcp_tx_fast_retransmit_finish`: the head was referenced by the start, so a copy is sent. -/
def tcpTxFastRetransmitFinish (c : TcpConn) (m : Option Mbuf) (tx : NetTx) : TcpConn :=
  match m with
  | none => c
  | some m => match tcpTxRetransmitOne c m true tx with
    | some (_, _, c) => c
    | none => c

/-! ## What the egress helpers change -/

section
variable {c c' : TcpConn} {tx : NetTx}

/-- An ACK changes the connection by the header it writes, if it is sent. -/
theorem tcpTxAck_eq (c : TcpConn) (tx : NetTx) :
    (tcpTxAck c tx).2 = c ∨ (tcpTxAck c tx).2 = tcpPushTcphdr c := by
  unfold tcpTxAck; split <;> simp

@[simp]
theorem tcpTxAck_rxq (c : TcpConn) (tx : NetTx) : (tcpTxAck c tx).2.rxq = c.rxq := by
  rcases tcpTxAck_eq c tx with h | h <;> rw [h]; rfl

/-- A fast retransmission sends a copy of the head, so it too changes the connection only by the
header it writes. -/
theorem tcpTxFastRetransmitFinish_eq (c : TcpConn) (tx : NetTx) (m : Option Mbuf) :
    tcpTxFastRetransmitFinish c m tx = c ∨ tcpTxFastRetransmitFinish c m tx = tcpPushTcphdr c := by
  rcases m with _ | m
  · exact .inl rfl
  simp only [tcpTxFastRetransmitFinish, tcpTxRetransmitOne]
  split_ifs
  · exact .inl rfl
  · exact .inl rfl
  -- a head acknowledged in part is pulled for the copy; the pull cannot fail, but either way
  · cases mbufPull m (c.pcb.sndUna - m.segSeq).toNat <;> simp
  · simp

end

/-! ## The segmenter -/

/-- The segments of `txq`, then the one kept back in `tx_pending`, cover the sequence numbers from
`s` to `snd_nxt` in order. -/
def TcpConn.TxChain (c : TcpConn) (s : UInt32) : Prop :=
  Contig.Chain Mbuf.segSeq Mbuf.segEnd (c.txq ++ c.txPending.toList) s c.pcb.sndNxt

instance (c : TcpConn) (s : UInt32) : Decidable (c.TxChain s) :=
  inferInstanceAs (Decidable (Contig.Chain Mbuf.segSeq Mbuf.segEnd _ _ _))

section
variable {c c₁ : TcpConn} {len seglen : Nat} {tx : NetTx} {m : Mbuf} {s : UInt32}

/-- A pass takes the connection's pending buffer and changes nothing else of it. -/
theorem tcpTxSendBuf_conn (h : tcpTxSendBuf c len tx = some (m, seglen, c₁)) :
    c₁ = { c with txPending := none } := by
  unfold tcpTxSendBuf at h
  split at h
  · cases h; rfl
  · rename_i hp
    split at h
    · cases h
    · cases h
      rw [← hp]

/-- The buffer of a pass covers the sequence numbers from the end of `txq` to `snd_nxt` advanced
by the bytes it takes. -/
theorem tcpTxSendBuf_chain (hc : c.TxChain s) (h : tcpTxSendBuf c len tx = some (m, seglen, c₁)) :
    Contig.Chain Mbuf.segSeq Mbuf.segEnd (c.txq ++ [m]) s (c.pcb.sndNxt + UInt32.ofNat seglen) := by
  unfold TcpConn.TxChain at hc
  unfold tcpTxSendBuf at h
  split at h
  · rename_i p hp
    cases h
    rw [hp, Option.toList_some] at hc
    obtain ⟨t, h₁, h₂⟩ := Contig.chain_append.mp hc
    obtain ⟨hps, hpe⟩ := Contig.chain_singleton.mp h₂
    exact Contig.chain_append.mpr ⟨t, h₁, Contig.chain_singleton.mpr ⟨hps, by rw [hpe]⟩⟩
  · rename_i hp
    split at h
    · cases h
    · cases h
      rw [hp, Option.toList_none, List.append_nil] at hc
      exact hc.snoc rfl

/-- A pass takes at most the bytes left, and from a new buffer at least one when the MSS is
positive. -/
theorem tcpTxSendBuf_seglen (h : tcpTxSendBuf c len tx = some (m, seglen, c₁)) :
    seglen ≤ len ∧ (c.txPending = none → min len c.pcb.sndMss.toNat ≤ seglen) := by
  unfold tcpTxSendBuf at h
  split at h
  · rename_i hp
    cases h
    exact ⟨Nat.min_le_left _ _, fun hn => by simp [hp] at hn⟩
  · split at h
    · cases h
    · cases h
      exact ⟨Nat.min_le_left _ _, fun _ => le_rfl⟩

end

section
variable {push : Bool} {tx : NetTx} {s : UInt32}

/-- The segmenter keeps `txq` and the pending buffer contiguous up to `snd_nxt`: each pass puts
its buffer at the end, pending or queued. -/
theorem tcpTxSendLoop_txChain :
    ∀ (fuel : Nat) (c : TcpConn) (rest : List UInt8) (sent : Nat) (ret r : Int) (c' : TcpConn),
      c.TxChain s → tcpTxSendLoop push tx fuel c rest sent ret = some (r, c') → c'.TxChain s
  | 0, _, _, _, _, _, _, _, hs => by simp [tcpTxSendLoop] at hs
  | fuel + 1, c, rest, sent, ret, r, c', h, hs => by
    simp only [tcpTxSendLoop] at hs
    split at hs
    · cases hs
      exact h
    · rename_i m seglen c₁ hb
      have hch := tcpTxSendBuf_chain h hb
      obtain rfl := tcpTxSendBuf_conn hb
      -- the buffer's payload and flags do not change its range
      have hq : ∀ m' : Mbuf, m'.segSeq = m.segSeq → m'.segEnd = m.segEnd →
          Contig.Chain Mbuf.segSeq Mbuf.segEnd (c.txq ++ [m']) s (c.pcb.sndNxt + UInt32.ofNat seglen) :=
        fun m' hlo hhi => hch.replace_last hlo hhi
      -- queuing the buffer, with or without TCP_PUSH, keeps the chain
      have hq' : ∀ m' : Mbuf, m'.segSeq = m.segSeq → m'.segEnd = m.segEnd →
          TcpConn.TxChain
            { tcpPushTcphdr { c with txPending := none, pcb.sndNxt := c.pcb.sndNxt + UInt32.ofNat seglen }
              with txq := c.txq ++ [m'] } s := by
        intro m' hlo hhi
        simp only [TcpConn.TxChain, tcpPushTcphdr, Option.toList_none, List.append_nil]
        exact hq m' hlo hhi
      -- kept back, or the end, or (with or without TCP_PUSH) the next pass
      split_ifs at hs
      · cases hs
        exact hq _ rfl rfl
      · cases hs
        exact hq' _ rfl rfl
      · cases hs
        exact hq' _ rfl rfl
      · exact tcpTxSendLoop_txChain fuel _ _ _ _ _ _ (by exact hq' _ rfl rfl) hs
      · exact tcpTxSendLoop_txChain fuel _ _ _ _ _ _ (by exact hq' _ rfl rfl) hs

theorem tcpTxSend_txChain {c c' : TcpConn} {buf : List UInt8} {r : Int} (h : c.TxChain s)
    (hs : tcpTxSend c buf push tx = some (r, c')) : c'.TxChain s :=
  tcpTxSendLoop_txChain _ _ _ _ _ _ _ h hs

/-- With a positive MSS the segmenter ends: a pass from a new buffer takes at least one byte, so a
pass per byte and one for a pending buffer are enough. -/
theorem tcpTxSendLoop_isSome :
    ∀ (fuel : Nat) (c : TcpConn) (rest : List UInt8) (sent : Nat) (ret : Int),
      0 < c.pcb.sndMss.toNat → rest.length + c.txPending.toList.length < fuel →
      (tcpTxSendLoop push tx fuel c rest sent ret).isSome
  | 0, _, _, _, _, _, hf => absurd hf (Nat.not_lt_zero _)
  | fuel + 1, c, rest, sent, ret, hmss, hf => by
    simp only [tcpTxSendLoop]
    split
    · rfl
    · rename_i m seglen c₁ hb
      obtain ⟨hle, hnew⟩ := tcpTxSendBuf_seglen hb
      obtain rfl := tcpTxSendBuf_conn hb
      -- the rest is shorter than the fuel left: by the pending buffer's pass, or by one byte
      have hfuel : (rest.drop seglen).isEmpty = false → (rest.drop seglen).length < fuel := by
        intro hrest
        simp only [List.isEmpty_eq_false_iff, ne_eq, List.drop_eq_nil_iff, not_le] at hrest
        rw [List.length_drop]
        cases hp : c.txPending with
        | none =>
          have := hnew hp
          rw [hp, Option.toList_none, List.length_nil, add_zero] at hf
          omega
        | some p =>
          rw [hp, Option.toList_some, List.length_singleton] at hf
          omega
      -- kept back, or the end, or (with or without TCP_PUSH) the next pass
      split_ifs with hkeep hrest
      · rfl
      · rfl
      · rfl
      · exact tcpTxSendLoop_isSome fuel _ _ _ _ hmss (hfuel (by simpa using hrest))
      · exact tcpTxSendLoop_isSome fuel _ _ _ _ hmss (hfuel (by simpa using hrest))

/-- With a positive MSS, `tcp_tx_send` returns. -/
theorem tcpTxSend_isSome {c : TcpConn} {buf : List UInt8} (hmss : 0 < c.pcb.sndMss.toNat) :
    (tcpTxSend c buf push tx).isSome := by
  refine tcpTxSendLoop_isSome _ _ _ _ _ hmss ?_
  cases c.txPending <;> simp

/-- With a positive MSS, `tcp_tx_send` returns, and the segments it queues or keeps pending go on
from the end of those before them up to the new `snd_nxt`. -/
theorem tcpTxSend_returns_chain {c : TcpConn} {buf : List UInt8} (hmss : 0 < c.pcb.sndMss.toNat)
    (h : c.TxChain s) : ∃ r c', tcpTxSend c buf push tx = some (r, c') ∧ c'.TxChain s := by
  obtain ⟨⟨r, c'⟩, hs⟩ := Option.isSome_iff_exists.1 (tcpTxSend_isSome hmss)
  exact ⟨r, c', hs, tcpTxSend_txChain h hs⟩

/-- A write of 3000 bytes with an MSS of 1460 on a fresh connection. -/
theorem tcpTxSend_returns_chain_three :
    let c : TcpConn := { tcpConnAlloc 1000 1460 with pcb.sndMss := 1460 }
    0 < c.pcb.sndMss.toNat ∧ c.TxChain 1000 ∧
      ∃ r c', tcpTxSend c (List.replicate 3000 7) true ⟨true, 0⟩ = some (r, c') ∧ c'.TxChain 1000 := by
  intro c
  have hmss : 0 < c.pcb.sndMss.toNat := by decide
  have h : c.TxChain 1000 := by decide
  exact ⟨hmss, h, tcpTxSend_returns_chain hmss h⟩

end

/-! ## Keeping the last buffer back -/

/-- The test of `tcp_tx_send` that keeps the last buffer back, on a header-less payload of `n`
bytes: `mbuf_length(m) - sizeof(struct tcp_hdr) < mss` in 64-bit unsigned arithmetic holds
exactly when the payload has at least 20 bytes and fewer than `mss + 20`. -/
theorem tcpTxSend_keep_test_iff (n : Nat) (mss : UInt32) (hn : n < 2 ^ 63) :
    UInt64.ofNat n - tcpHdrSize < mss.toUInt64 ↔ 20 ≤ n ∧ n < mss.toNat + 20 := by
  have hm := mss.toNat_lt
  have hn' : (UInt64.ofNat n).toNat = n := UInt64.toNat_ofNat_of_lt' (by rw [UInt64.size]; omega)
  rw [UInt64.lt_iff_toNat_lt, UInt64.toNat_sub, hn', UInt32.toNat_toUInt64]
  simp only [tcpHdrSize, UInt64.reduceToNat]
  omega

/-- A write of at most one MSS, with `push` false and nothing pending, makes one buffer; it is
kept back exactly when it holds at least 20 bytes, whatever its length against the MSS. -/
theorem tcpTxSend_keeps_iff (c : TcpConn) (buf : List UInt8) (tx : NetTx)
    (hp : c.txPending = none) (ha : tx.alloc = true) (hle : buf.length ≤ c.pcb.sndMss.toNat) :
    ∃ r c', tcpTxSend c buf false tx = some (r, c') ∧ (c'.txPending.isSome ↔ 20 ≤ buf.length) := by
  have hmss := c.pcb.sndMss.toNat_lt
  have hseg : min buf.length c.pcb.sndMss.toNat = buf.length := min_eq_left hle
  have hkeep := tcpTxSend_keep_test_iff buf.length c.pcb.sndMss (by omega)
  simp only [tcpTxSend, tcpTxSendLoop, tcpTxSendBuf, hp, ha, Bool.not_true, hseg, mbufLength,
    List.nil_append, List.take_length, List.drop_length, List.isEmpty_nil, Bool.not_false,
    Bool.true_and, Bool.false_and, Bool.false_eq_true, if_false, decide_eq_true_eq]
  split_ifs with h
  · exact ⟨_, _, rfl, by simp only [Option.isSome_some, true_iff]; exact (hkeep.mp h).1⟩
  · refine ⟨_, _, rfl, ?_⟩
    simp only [tcpPushTcphdr, Option.isSome_none, Bool.false_eq_true, false_iff]
    intro h20
    exact h (hkeep.mpr ⟨h20, by omega⟩)

/-- With an MSS of 1460 and `push` false, a write of 5 bytes is not kept back, and a write of a
full MSS is. -/
theorem tcpTxSend_keeps_full_not_short :
    let c : TcpConn := { tcpConnAlloc 1000 1460 with pcb.sndMss := 1460 }
    (∃ r c', tcpTxSend c (List.replicate 5 7) false ⟨true, 0⟩ = some (r, c') ∧ c'.txPending = none) ∧
      ∃ r c', tcpTxSend c (List.replicate 1460 7) false ⟨true, 0⟩ = some (r, c') ∧
        c'.txPending.isSome := by
  intro c
  obtain ⟨r₁, c₁, h₁, hk₁⟩ := tcpTxSend_keeps_iff c (List.replicate 5 7) ⟨true, 0⟩ rfl rfl (by decide)
  obtain ⟨r₂, c₂, h₂, hk₂⟩ := tcpTxSend_keeps_iff c (List.replicate 1460 7) ⟨true, 0⟩ rfl rfl
    (by rw [List.length_replicate]; decide)
  refine ⟨⟨r₁, c₁, h₁, ?_⟩, r₂, c₂, h₂, hk₂.mpr (by rw [List.length_replicate]; decide)⟩
  rw [List.length_replicate] at hk₁
  exact Option.not_isSome_iff_eq_none.mp fun h => absurd (hk₁.mp h) (by decide)

/-! ## Retransmitting a partly acknowledged segment -/

section
variable {c : TcpConn} {m : Mbuf} {opts : List UInt8} {held : Bool} {tx : NetTx}

end

/-- A segment of 10 bytes at 1000, acknowledged up to 1004 and retransmitted in place: the packet
starts at 1004 with the last 6 bytes, a TCP length of 26, and 30 as its pseudo-header length. -/
theorem tcpTxRetransmitOnePkt_stale_l4len :
    let c : TcpConn := { tcpConnAlloc 900 1460 with pcb.sndUna := 1004 }
    let m : Mbuf := ⟨[0, 1, 2, 3, 4, 5, 6, 7, 8, 9], 1000, 1010, tcpAck⟩
    (tcpTxRetransmitOnePkt c m [] false ⟨true, 0⟩).map
        (Option.map fun p => (p.seq, p.body, 20 + p.body.length, p.phdrLen)) =
      some (some (1004, [4, 5, 6, 7, 8, 9], 26, 30)) := by
  intro c m
  decide

end Caladan
