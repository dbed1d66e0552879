import Mathlib
import Caladan.Net.Tcp.In
import Caladan.Lib.Run

/-!
# The out-of-order queue of `tcp_rx_text`

`tcp_rx_text` keeps the segments that arrive ahead of `rcv_nxt` in `rxq_ooo`. An arriving segment
is placed by a walk from the tail: after the last segment that ends before it, or dropped when
that walk meets a segment that starts no later and ends no earlier. After each segment the head
of the queue is drained while it is already received or in order.

Every call keeps the queue ordered by `seg_end`, counted by `rxq_ooo_len` and within
`TCP_OOO_MAX_SIZE` (`TcpConn.OooOk.rxText`), and drops a segment only when the queue is full or a
queued segment covers it (`tcpRxText_drop`). The drain looks at the head only, and the order is on
the segments' ends: a segment that starts earlier but ends later than the head stays queued when
the head does not yet follow `rcv_nxt`, although it does (`tcpRxText_keeps_in_order`).
-/

namespace Caladan

/-- The queue as `tcp_rx_text` keeps it: counted by `rxq_ooo_len`, at most `TCP_OOO_MAX_SIZE`
long, and each segment ending no later than the next. -/
structure TcpConn.OooOk (c : TcpConn) : Prop where
  len_eq : c.rxqOooLen = c.rxqOoo.length
  len_le : c.rxqOoo.length ≤ tcpOooMaxSize
  sorted : c.rxqOoo.IsChain fun a b => wrapsLte a.segEnd b.segEnd = true

/-- The connection `tcp_rx_text` leaves. -/
def tcpRxTextConn (c : TcpConn) (m : Mbuf) : Option TcpConn := (tcpRxText c m).map (·.2.2.2)

/-! ## The insertion walk -/

section
variable {m : Mbuf}

theorem tcpOooInsertRev_length : ∀ {q q' : List Mbuf}, tcpOooInsertRev m q = some q' →
    q'.length = q.length + 1
  | [], _, h => by cases h; rfl
  | pos :: rest, q', h => by
    unfold tcpOooInsertRev at h
    split_ifs at h
    · cases h; rfl
    · obtain ⟨r, hr, rfl⟩ := Option.map_eq_some_iff.mp h
      rw [List.length_cons, List.length_cons, tcpOooInsertRev_length hr]

theorem tcpOooInsertRev_head : ∀ {q q' : List Mbuf}, tcpOooInsertRev m q = some q' →
    ∀ y ∈ q'.head?, y = m ∨ y ∈ q.head?
  | [], _, h => by cases h; simp
  | pos :: rest, q', h => by
    unfold tcpOooInsertRev at h
    split_ifs at h
    · cases h; simp
    · obtain ⟨r, -, rfl⟩ := Option.map_eq_some_iff.mp h
      simp

/-- Walked from the tail, the queue is ordered the other way; the insertion keeps that. -/
theorem tcpOooInsertRev_chain : ∀ {q q' : List Mbuf},
    q.IsChain (fun a b => wrapsLte b.segEnd a.segEnd = true) → tcpOooInsertRev m q = some q' →
    q'.IsChain fun a b => wrapsLte b.segEnd a.segEnd = true
  | [], _, _, h => by cases h; exact .singleton m
  | pos :: rest, q', hc, h => by
    unfold tcpOooInsertRev at h
    split_ifs at h with hgt hge
    · -- the segment ends after `pos`: it goes right behind it
      cases h
      refine .cons_cons ?_ hc
      rw [wrapsLte_iff_lt_or_eq]
      exact .inl (by rwa [wrapsGt_eq] at hgt)
    · obtain ⟨r, hr, rfl⟩ := Option.map_eq_some_iff.mp h
      have hrest := tcpOooInsertRev_chain (List.isChain_cons.mp hc).2 hr
      refine hrest.cons fun y hy => ?_
      rcases tcpOooInsertRev_head hr y hy with rfl | hy
      · exact wrapsLte_of_not_wrapsGt (by simpa using hgt)
      · exact (List.isChain_cons.mp hc).1 y hy

/-- The walk drops a segment only when a queued segment starts no later and ends no earlier. -/
theorem tcpOooInsertRev_eq_none : ∀ {q : List Mbuf}, tcpOooInsertRev m q = none →
    ∃ pos ∈ q, wrapsLte pos.segSeq m.segSeq = true ∧ wrapsLte m.segEnd pos.segEnd = true
  | [], h => by cases h
  | pos :: rest, h => by
    unfold tcpOooInsertRev at h
    split_ifs at h with hgt hge
    · exact ⟨pos, List.mem_cons_self .., by rwa [wrapsGte_eq] at hge,
        wrapsLte_of_not_wrapsGt (by simpa using hgt)⟩
    · obtain ⟨p, hp, hc⟩ := tcpOooInsertRev_eq_none (Option.map_eq_none_iff.mp h)
      exact ⟨p, List.mem_cons_of_mem _ hp, hc⟩

end

/-! ## The drain -/

section
variable {c c' : TcpConn} {m : Mbuf}

/-- `tcp_rx_append_text` changes only the control block and `rxq`. -/
theorem tcpRxAppendText_frame (h : tcpRxAppendText c m = some c') :
    ∃ pcb rxq, c' = { c with pcb := pcb, rxq := rxq } := by
  unfold tcpRxAppendText at h
  dsimp only at h
  -- the head clip, then the tail clip
  split at h <;>
  · obtain ⟨_, -, h⟩ := Option.bind_eq_some_iff.mp h
    split at h <;>
    · obtain ⟨_, -, h⟩ := Option.bind_eq_some_iff.mp h
      cases h
      exact ⟨_, _, rfl⟩

theorem tcpRxAppendText_ooo (h : tcpRxAppendText c m = some c') :
    c'.rxqOoo = c.rxqOoo ∧ c'.rxqOooLen = c.rxqOooLen := by
  obtain ⟨_, _, rfl⟩ := tcpRxAppendText_frame h
  exact ⟨rfl, rfl⟩

/-- The drain leaves a suffix of the queue it walks, counted by `rxq_ooo_len`. -/
theorem tcpRxTextDrain_ooo : ∀ {q : List Mbuf} {c c' : TcpConn} {wake fin wake' fin' : Bool},
    c.rxqOooLen = q.length → tcpRxTextDrain c wake fin q = some (wake', fin', c') →
    c'.rxqOoo <:+ q ∧ c'.rxqOooLen = c'.rxqOoo.length
  | [], c, c', _, _, _, _, hl, h => by
    cases h
    exact ⟨List.suffix_refl _, hl⟩
  | pos :: rest, c, c', wake, fin, wake', fin', hl, h => by
    have hl' : c.rxqOooLen - 1 = rest.length := by rw [hl, List.length_cons]; rfl
    unfold tcpRxTextDrain at h
    split_ifs at h with hdone hgap
    · -- already received: freed
      obtain ⟨hs, hn⟩ := tcpRxTextDrain_ooo hl' h
      exact ⟨hs.trans (List.suffix_cons _ _), hn⟩
    · -- still out of order: the walk stops
      cases h
      exact ⟨List.suffix_refl _, hl⟩
    · -- in order: appended to `rxq`
      obtain ⟨c₁, h₁, h⟩ := Option.bind_eq_some_iff.mp h
      have hl₁ : c₁.rxqOooLen = rest.length := by rw [(tcpRxAppendText_ooo h₁).2]; exact hl'
      obtain ⟨hs, hn⟩ := tcpRxTextDrain_ooo hl₁ h
      exact ⟨hs.trans (List.suffix_cons _ _), hn⟩

theorem TcpConn.OooOk.finish {wake fin used wake' fin' : Bool} (hc : c.OooOk)
    (h : tcpRxTextFinish c wake fin = some (used, wake', fin', c')) : c'.OooOk := by
  unfold tcpRxTextFinish at h
  obtain ⟨⟨w, f, c₁⟩, h₁, h⟩ := Option.bind_eq_some_iff.mp h
  cases h
  obtain ⟨hs, hn⟩ := tcpRxTextDrain_ooo hc.len_eq h₁
  exact ⟨hn, hs.length_le.trans hc.len_le, hc.sorted.suffix hs⟩

end

/-! ## A call of `tcp_rx_text` -/

section
variable {c c' : TcpConn} {m : Mbuf}

/-- The queue with an out-of-order segment inserted by the walk. -/
theorem TcpConn.OooOk.insert {q : List Mbuf} (hc : c.OooOk) (hlt : c.rxqOooLen < tcpOooMaxSize)
    (h : tcpOooInsertRev m c.rxqOoo.reverse = some q) :
    TcpConn.OooOk { c with rxqOoo := q.reverse, rxqOooLen := c.rxqOooLen + 1 } := by
  have hlen := tcpOooInsertRev_length h
  rw [List.length_reverse] at hlen
  refine ⟨?_, ?_, ?_⟩
  · simp only [List.length_reverse, hlen, hc.len_eq]
  · have := hc.len_eq
    simp only [List.length_reverse, hlen]
    omega
  · have hrev : c.rxqOoo.reverse.IsChain fun a b => wrapsLte b.segEnd a.segEnd = true :=
      List.isChain_reverse.mpr hc.sorted
    exact List.isChain_reverse.mpr (tcpOooInsertRev_chain hrev h)

/-- Every call of `tcp_rx_text` keeps the queue ordered, counted and bounded. -/
theorem TcpConn.OooOk.rxText {used wake fin : Bool} (hc : c.OooOk)
    (h : tcpRxText c m = some (used, wake, fin, c')) : c'.OooOk := by
  unfold tcpRxText at h
  split_ifs at h with hw hin hfull
  · cases h; exact hc
  · -- in order: appended, then drained
    obtain ⟨c₁, h₁, h⟩ := Option.bind_eq_some_iff.mp h
    obtain ⟨hq, hn⟩ := tcpRxAppendText_ooo h₁
    exact TcpConn.OooOk.finish ⟨by rw [hn, hq]; exact hc.len_eq, hq ▸ hc.len_le, hq ▸ hc.sorted⟩ h
  · cases h; exact hc
  · split at h
    · cases h; exact hc
    · rename_i q hq
      exact (hc.insert (by omega) hq).finish h

/-- A segment is left unused only with a closed window, a full queue, or a queued segment that
covers it. -/
theorem tcpRxText_drop {wake fin : Bool} (h : tcpRxText c m = some (false, wake, fin, c')) :
    c.pcb.rcvWnd = 0 ∨ tcpOooMaxSize ≤ c.rxqOooLen ∨
      ∃ pos ∈ c.rxqOoo, wrapsLte pos.segSeq m.segSeq = true ∧ wrapsLte m.segEnd pos.segEnd = true := by
  have hfin : ∀ {c₁ : TcpConn} {w f : Bool} {r : Bool × Bool × TcpConn},
      tcpRxTextFinish c₁ w f ≠ some (false, r) := by
    intro c₁ w f r hf
    unfold tcpRxTextFinish at hf
    obtain ⟨_, -, hf⟩ := Option.bind_eq_some_iff.mp hf
    cases hf
  unfold tcpRxText at h
  split_ifs at h with hw hin hfull
  · exact .inl (by simpa using hw)
  · obtain ⟨c₁, -, h⟩ := Option.bind_eq_some_iff.mp h
    exact absurd h hfin
  · exact .inr (.inl hfull)
  · split at h
    · rename_i hq
      obtain ⟨pos, hpos, hcov⟩ := tcpOooInsertRev_eq_none hq
      exact .inr (.inr ⟨pos, List.mem_reverse.mp hpos, hcov⟩)
    · exact absurd h hfin

theorem tcpRxTextConn_oooOk : StepRun.Invariant tcpRxTextConn TcpConn.OooOk := by
  intro c m c' hc h
  obtain ⟨⟨used, wake, fin, c''⟩, hr, rfl⟩ := Option.map_eq_some_iff.mp h
  exact hc.rxText hr

end

/-- Over every sequence of segments handed to `tcp_rx_text` on a new connection, the
out-of-order queue stays ordered by `seg_end`, `rxq_ooo_len` is its length and at most
`TCP_OOO_MAX_SIZE`, and a segment is dropped only with a closed window, a full queue or a queued
segment covering it. -/
theorem tcpRxText_ooo_accounting (iss rcvMss : UInt32) (ms : List Mbuf) {c : TcpConn}
    (hrun : StepRun.run tcpRxTextConn (tcpConnAlloc iss rcvMss) ms = some c) :
    c.OooOk ∧ ∀ (m : Mbuf) (wake fin : Bool) (c' : TcpConn),
      tcpRxText c m = some (false, wake, fin, c') → c.pcb.rcvWnd = 0 ∨ tcpOooMaxSize ≤ c.rxqOooLen ∨
        ∃ pos ∈ c.rxqOoo, wrapsLte pos.segSeq m.segSeq = true ∧ wrapsLte m.segEnd pos.segEnd = true :=
  ⟨tcpRxTextConn_oooOk.run ⟨rfl, Nat.zero_le _, .nil⟩ hrun, fun _ _ _ _ h => tcpRxText_drop h⟩

/-- A segment past `rcv_nxt` is queued out of order, and then the in-order one arrives. -/
theorem tcpRxText_ooo_accounting_two : ∃ c : TcpConn,
    StepRun.run tcpRxTextConn (tcpConnAlloc 1000 1460)
      [⟨List.replicate 4 0, 20, 24, tcpAck⟩, ⟨List.replicate 2 0, 0, 2, tcpAck⟩] = some c ∧
    c.OooOk ∧ ∀ (m : Mbuf) (wake fin : Bool) (c' : TcpConn),
      tcpRxText c m = some (false, wake, fin, c') → c.pcb.rcvWnd = 0 ∨ tcpOooMaxSize ≤ c.rxqOooLen ∨
        ∃ pos ∈ c.rxqOoo, wrapsLte pos.segSeq m.segSeq = true ∧ wrapsLte m.segEnd pos.segEnd = true := by
  have hsome : (StepRun.run tcpRxTextConn (tcpConnAlloc 1000 1460)
      [⟨List.replicate 4 0, 20, 24, tcpAck⟩, ⟨List.replicate 2 0, 0, 2, tcpAck⟩]).isSome = true := by
    decide
  obtain ⟨c, h⟩ := Option.isSome_iff_exists.mp hsome
  exact ⟨c, h, tcpRxText_ooo_accounting 1000 1460 _ h⟩

/-- With `rcv_nxt` at 10: `[20, 30)` and then `[15, 40)` are queued out of order, in this order
since the second ends later; `[10, 16)` then arrives in order and moves `rcv_nxt` to 16. The
drain stops at `[20, 30)`, which does not yet follow, and leaves `[15, 40)` queued although it
starts before `rcv_nxt` and covers the next 24 bytes. -/
theorem tcpRxText_keeps_in_order :
    let c : TcpConn := { tcpConnAlloc 1000 1460 with pcb.state := .established, pcb.rcvNxt := 10 }
    let b : Mbuf := ⟨List.replicate 25 0, 15, 40, tcpAck⟩
    (StepRun.run tcpRxTextConn c
        [⟨List.replicate 10 0, 20, 30, tcpAck⟩, b, ⟨List.replicate 6 0, 10, 16, tcpAck⟩]).map
      (fun c' => (c'.pcb.rcvNxt, decide (b ∈ c'.rxqOoo), wrapsLte b.segSeq c'.pcb.rcvNxt,
        wrapsLt c'.pcb.rcvNxt b.segEnd)) = some (16, true, true, true) := by
  intro c b
  decide

end Caladan
