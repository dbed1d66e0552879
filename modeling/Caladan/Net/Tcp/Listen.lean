import Mathlib
import Caladan.Lib.Run

/-!
# TCP listen queues (`tcp_listen`, `tcp_queue_recv`, `tcp_accept`, `tcp_qshutdown`, `tcp_qclose`)

A listen queue holds the connections `tcp_rx_listener` built for it until `tcp_accept` returns
them, and `backlog` counts the places left. `tcp_queue_recv` runs on any kthread, inside the RCU
read section of `net_rx_trans`, in three critical sections under `q->l`: it takes one unit of
backlog (unless the queue is full or shut down), builds the connection with the lock dropped,
and then either gives the unit back or appends the connection. Only the first looks at
`shutdown`. `__tcp_qshutdown` sets `shutdown` and removes the queue's entry from the transport
table, so no later SYN reaches the queue, but a `tcp_queue_recv` that already found the entry
goes on. `tcp_qclose` destroys the queued connections and releases the queue.

Each step below is one critical section, or `tcp_rx_listener`. Connections are numbered in the
order they are built. The state also records the connections `tcp_accept` returned and those
`tcp_qclose` destroyed.
-/

namespace Caladan

/-- Where one call of `tcp_queue_recv` is. -/
inductive TcpRecvPc
  /-- `net_rx_trans` found the queue's entry; before the first critical section -/
  | start
  /-- took a unit of backlog; `tcp_rx_listener` is building the connection -/
  | reserved
  /-- `tcp_rx_listener` returned `NULL` -/
  | failed
  /-- `tcp_rx_listener` returned connection `c` -/
  | created (c : Nat)
  | done
deriving DecidableEq, Repr

/-- A call that holds a unit of backlog. -/
def TcpRecvPc.holds : TcpRecvPc → Bool
  | .reserved | .failed | .created _ => true
  | .start | .done => false

/-- The connection a call has built and not yet queued. -/
def TcpRecvPc.conn : TcpRecvPc → Option Nat
  | .created c => some c
  | _ => none

/-- `struct tcpqueue` as the calls share it (`backlog`, `shutdown`, `conns`), whether its entry is
in the transport table and whether `tcp_qclose` has released it, the calls of `tcp_queue_recv` by
arrival, the connections built so far (`next`), and those returned by `tcp_accept` and destroyed
by `tcp_qclose`. -/
structure TcpQueue where
  backlog : Nat
  shutdown : Bool
  listed : Bool
  closed : Bool
  conns : List Nat
  recvs : List TcpRecvPc
  next : Nat
  accepted : List Nat
  destroyed : List Nat
deriving DecidableEq, Repr

/-- The steps of the queue's users. -/
inductive TcpQueueOp
  /-- a SYN reaches `net_rx_trans`, whose lookup finds the queue's entry -/
  | recv
  /-- the first critical section of call `r` of `tcp_queue_recv` -/
  | reserve (r : Nat)
  /-- `tcp_rx_listener` for call `r`, which succeeds or fails -/
  | listener (r : Nat) (ok : Bool)
  /-- call `r` gives its unit of backlog back -/
  | restore (r : Nat)
  /-- call `r` appends its connection and wakes an acceptor -/
  | insert (r : Nat)
  | accept
  | qshutdown
  | qclose
deriving DecidableEq, Repr

/-- The queue after `tcp_listen(laddr, backlog, &q)` returned 0. -/
def tcpListen (backlog : Nat) : TcpQueue := ⟨backlog, false, true, false, [], [], 0, [], []⟩

/-- One step; `none` where it is not enabled: a call not at that point, `tcp_accept` waiting on
an empty open queue, `BUG_ON(q->shutdown)` in a second `tcp_qshutdown`, and any call on a queue
`tcp_qclose` released. -/
def tcpQueueStep (s : TcpQueue) : TcpQueueOp → Option TcpQueue
  | .recv => if s.listed then some { s with recvs := s.recvs ++ [.start] } else none
  | .reserve r =>
    if s.recvs[r]? = some .start then
      if s.backlog = 0 ∨ s.shutdown then some { s with recvs := s.recvs.set r .done }
      else some { s with recvs := s.recvs.set r .reserved, backlog := s.backlog - 1 }
    else none
  | .listener r ok =>
    if s.recvs[r]? = some .reserved then
      if ok then some { s with recvs := s.recvs.set r (.created s.next), next := s.next + 1 }
      else some { s with recvs := s.recvs.set r .failed }
    else none
  | .restore r =>
    if s.recvs[r]? = some .failed then
      some { s with recvs := s.recvs.set r .done, backlog := s.backlog + 1 }
    else none
  | .insert r =>
    match s.recvs[r]? with
    | some (.created c) => some { s with recvs := s.recvs.set r .done, conns := s.conns ++ [c] }
    | _ => none
  | .accept =>
    if s.closed then none
    else match s.conns with
      | c :: cs => some { s with backlog := s.backlog + 1, conns := cs, accepted := s.accepted ++ [c] }
      -- drained and shut down: `-EPIPE`
      | [] => if s.shutdown then some s else none
  | .qshutdown =>
    if s.closed ∨ s.shutdown then none else some { s with shutdown := true, listed := false }
  | .qclose =>
    -- `__tcp_qshutdown` if needed, then the queued connections are destroyed
    if s.closed then none
    else some { s with shutdown := true, listed := false, conns := [],
                       destroyed := s.destroyed ++ s.conns, closed := true }

/-! ## One call moving on -/

theorem filterMap_cons_toList {α β : Type} (f : α → Option β) (a : α) (l : List α) :
    (a :: l).filterMap f = (f a).toList ++ l.filterMap f := by
  cases h : f a <;> simp [h]

/-- Replacing the element at `r` changes what `filterMap` keeps by that element only. -/
theorem filterMap_set_perm {α β : Type} [DecidableEq β] (f : α → Option β) {l : List α} {r : Nat} {a : α}
    (h : l[r]? = some a) (b : α) :
    ((l.set r b).filterMap f ++ (f a).toList).Perm (l.filterMap f ++ (f b).toList) := by
  obtain ⟨hr, rfl⟩ := List.getElem?_eq_some_iff.mp h
  have hl : l = l.take r ++ l[r] :: l.drop (r + 1) := by
    rw [List.getElem_cons_drop, List.take_append_drop]
  rw [List.set_eq_take_append_cons_drop, if_pos hr]
  conv_rhs => rw [hl]
  simp only [List.filterMap_append, filterMap_cons_toList]
  exact List.perm_iff_count.mpr fun x => by simp only [List.count_append]; omega

section
variable {recvs : List TcpRecvPc} {r : Nat} {a : TcpRecvPc}

theorem countP_holds_set (h : recvs[r]? = some a) (pc : TcpRecvPc) :
    (recvs.set r pc).countP TcpRecvPc.holds + (if a.holds then 1 else 0) =
      recvs.countP TcpRecvPc.holds + (if pc.holds then 1 else 0) := by
  obtain ⟨hr, rfl⟩ := List.getElem?_eq_some_iff.mp h
  have hle : (if recvs[r].holds then 1 else 0) ≤ recvs.countP TcpRecvPc.holds := by
    split_ifs with hh
    · exact List.countP_pos_iff.mpr ⟨_, List.getElem_mem hr, hh⟩
    · exact Nat.zero_le _
  rw [List.countP_set hr]
  omega

theorem count_conn_set (h : recvs[r]? = some a) (pc : TcpRecvPc) (x : Nat) :
    ((recvs.set r pc).filterMap TcpRecvPc.conn).count x + a.conn.toList.count x =
      (recvs.filterMap TcpRecvPc.conn).count x + pc.conn.toList.count x := by
  have hp := List.perm_iff_count.mp (filterMap_set_perm TcpRecvPc.conn h pc) x
  simpa only [List.count_append] using hp

end

/-! ## The accounting of every run -/

/-- What every run from `tcp_listen` keeps, counting what `tcp_qclose` destroyed: each unit of
backlog is free, queued, held by a call of `tcp_queue_recv` or spent on a destroyed
connection; and each connection built is exactly once either returned by `tcp_accept`,
destroyed, queued, or held by the call that built it. -/
structure TcpQueue.Ok (B : Nat) (s : TcpQueue) : Prop where
  accounting : s.backlog + s.conns.length + s.recvs.countP TcpRecvPc.holds + s.destroyed.length = B
  conserved : (s.accepted ++ s.destroyed ++ s.conns ++ s.recvs.filterMap TcpRecvPc.conn).Perm
    (List.range s.next)

theorem tcpListen_ok (B : Nat) : (tcpListen B).Ok B := ⟨by simp [tcpListen], by simp [tcpListen]⟩

section
variable {B : Nat} {s s' : TcpQueue}

/-- A call that moves from `a` to `pc`, neither holding a connection, leaves every connection
where it was. -/
theorem TcpQueue.Ok.conserved_set {r : Nat} {a pc : TcpRecvPc} (hs : s.Ok B)
    (hr : s.recvs[r]? = some a) (hc : a.conn = none) (hc' : pc.conn = none) :
    (s.accepted ++ s.destroyed ++ s.conns ++ (s.recvs.set r pc).filterMap TcpRecvPc.conn).Perm
      (List.range s.next) := by
  refine List.perm_iff_count.mpr fun x => ?_
  have h₁ := List.perm_iff_count.mp hs.conserved x
  have h₂ := count_conn_set hr pc x
  rw [hc, hc'] at h₂
  simp only [List.count_append, Option.toList_none, List.count_nil] at h₁ h₂ ⊢
  omega

/-- A call that moves without taking or giving back a unit of backlog or a connection keeps the
invariant. -/
theorem TcpQueue.Ok.set_recv {r : Nat} {a pc : TcpRecvPc} (hs : s.Ok B) (hr : s.recvs[r]? = some a)
    (hh : a.holds = pc.holds) (hc : a.conn = none) (hc' : pc.conn = none) :
    TcpQueue.Ok B { s with recvs := s.recvs.set r pc } := by
  have hcount := countP_holds_set hr pc
  rw [hh] at hcount
  refine ⟨?_, hs.conserved_set hr hc hc'⟩
  have := hs.accounting
  dsimp only
  omega

theorem TcpQueue.Ok.recv (hs : s.Ok B) (h : tcpQueueStep s .recv = some s') : s'.Ok B := by
  simp only [tcpQueueStep] at h
  split_ifs at h
  obtain rfl := Option.some.inj h
  constructor
  · simpa [List.countP_append, TcpRecvPc.holds] using hs.accounting
  · simpa [List.filterMap_append, List.filterMap_cons, TcpRecvPc.conn] using hs.conserved

theorem TcpQueue.Ok.reserve {r : Nat} (hs : s.Ok B) (h : tcpQueueStep s (.reserve r) = some s') :
    s'.Ok B := by
  simp only [tcpQueueStep] at h
  split_ifs at h with hr hfull
  · -- full or shut down: the call ends
    obtain rfl := Option.some.inj h
    exact hs.set_recv hr rfl rfl rfl
  · -- one unit of backlog moves to the call
    obtain rfl := Option.some.inj h
    have hcount := countP_holds_set hr .reserved
    have hb : s.backlog ≠ 0 := fun h0 => hfull (.inl h0)
    constructor
    · have := hs.accounting
      simp only [TcpRecvPc.holds, if_true, Bool.false_eq_true, if_false] at hcount
      dsimp only
      omega
    · exact hs.conserved_set hr rfl rfl


theorem TcpQueue.Ok.listener {r : Nat} {ok : Bool} (hs : s.Ok B)
    (h : tcpQueueStep s (.listener r ok) = some s') : s'.Ok B := by
  simp only [tcpQueueStep] at h
  split_ifs at h with hr hok
  · -- the connection is built: it is the call's until it is queued
    obtain rfl := Option.some.inj h
    have hcount := countP_holds_set hr (.created s.next)
    simp only [TcpRecvPc.holds] at hcount
    refine ⟨by have := hs.accounting; dsimp only; omega, ?_⟩
    refine List.perm_iff_count.mpr fun x => ?_
    have h₁ := List.perm_iff_count.mp hs.conserved x
    have h₂ := count_conn_set hr (.created s.next) x
    simp only [TcpRecvPc.conn, Option.toList_none, Option.toList_some, List.count_nil,
      List.count_singleton] at h₂
    simp only [List.count_append, List.range_succ, List.count_singleton] at h₁ ⊢
    omega
  · obtain rfl := Option.some.inj h
    exact hs.set_recv hr rfl rfl rfl

theorem TcpQueue.Ok.restore {r : Nat} (hs : s.Ok B) (h : tcpQueueStep s (.restore r) = some s') :
    s'.Ok B := by
  simp only [tcpQueueStep] at h
  split_ifs at h with hr
  obtain rfl := Option.some.inj h
  have hcount := countP_holds_set hr .done
  simp only [TcpRecvPc.holds, if_true, Bool.false_eq_true, if_false] at hcount
  exact ⟨by have := hs.accounting; dsimp only; omega, hs.conserved_set hr rfl rfl⟩

theorem TcpQueue.Ok.insert {r : Nat} (hs : s.Ok B) (h : tcpQueueStep s (.insert r) = some s') :
    s'.Ok B := by
  simp only [tcpQueueStep] at h
  split at h
  · -- the call's connection joins the queue, with its unit of backlog
    rename_i c hr
    obtain rfl := Option.some.inj h
    have hcount := countP_holds_set hr .done
    simp only [TcpRecvPc.holds, if_true, Bool.false_eq_true, if_false] at hcount
    refine ⟨by
      have := hs.accounting
      dsimp only
      simp only [List.length_append, List.length_singleton]
      omega, ?_⟩
    refine List.perm_iff_count.mpr fun x => ?_
    have h₁ := List.perm_iff_count.mp hs.conserved x
    have h₂ := count_conn_set hr .done x
    simp only [TcpRecvPc.conn, Option.toList_none, Option.toList_some, List.count_nil] at h₂
    simp only [List.count_append] at h₁ ⊢
    omega
  · exact absurd h (by simp)

theorem TcpQueue.Ok.accept (hs : s.Ok B) (h : tcpQueueStep s .accept = some s') : s'.Ok B := by
  simp only [tcpQueueStep] at h
  by_cases hcl : s.closed = true
  · simp [hcl] at h
  rw [if_neg hcl] at h
  cases hcs : s.conns with
  | cons c cs =>
    -- the head of the queue is returned, its unit of backlog freed
    rw [hcs] at h
    obtain rfl := Option.some.inj h
    have hacc := hs.accounting
    have hcons := hs.conserved
    rw [hcs] at hacc hcons
    refine ⟨by dsimp only; simp only [List.length_cons] at hacc; omega, ?_⟩
    refine List.perm_iff_count.mpr fun x => ?_
    have h₁ := List.perm_iff_count.mp hcons x
    simp only [List.count_append, List.count_cons, List.count_nil] at h₁ ⊢
    omega
  | nil =>
    -- `-EPIPE` on a drained queue that is shut down
    rw [hcs] at h
    split_ifs at h
    obtain rfl := Option.some.inj h
    exact hs

theorem TcpQueue.Ok.qshutdown (hs : s.Ok B) (h : tcpQueueStep s .qshutdown = some s') :
    s'.Ok B := by
  simp only [tcpQueueStep] at h
  split_ifs at h
  obtain rfl := Option.some.inj h
  exact ⟨hs.accounting, hs.conserved⟩

theorem TcpQueue.Ok.qclose (hs : s.Ok B) (h : tcpQueueStep s .qclose = some s') : s'.Ok B := by
  simp only [tcpQueueStep] at h
  split_ifs at h
  obtain rfl := Option.some.inj h
  -- the queued connections move to the destroyed ones
  refine ⟨by have := hs.accounting; dsimp only; simp only [List.length_append, List.length_nil]; omega, ?_⟩
  simpa only [List.append_nil, List.append_assoc] using hs.conserved

end

theorem tcpQueueStep_ok (B : Nat) : StepRun.Invariant tcpQueueStep (TcpQueue.Ok B) := by
  intro s op s' hs h
  cases op with
  | recv => exact hs.recv h
  | reserve r => exact hs.reserve h
  | listener r ok => exact hs.listener h
  | restore r => exact hs.restore h
  | insert r => exact hs.insert h
  | accept => exact hs.accept h
  | qshutdown => exact hs.qshutdown h
  | qclose => exact hs.qclose h

/-- Over every interleaving of SYN arrivals, `tcp_queue_recv`, `tcp_accept`, `tcp_qshutdown` and
`tcp_qclose` on a queue from `tcp_listen(laddr, B, &q)`: the free backlog, the queued
connections, the calls holding a unit and the connections `tcp_qclose` destroyed add up to `B`,
so at most `B` connections are queued; and every connection built is exactly once returned by
`tcp_accept`, destroyed by `tcp_qclose`, queued, or held by the call that built it. -/
theorem tcpQueueRun_accounting (B : Nat) {ops : List TcpQueueOp} {s : TcpQueue}
    (hrun : StepRun.run tcpQueueStep (tcpListen B) ops = some s) :
    s.backlog + s.conns.length + s.recvs.countP TcpRecvPc.holds + s.destroyed.length = B ∧
      s.conns.length ≤ B ∧
      (s.accepted ++ s.destroyed ++ s.conns ++ s.recvs.filterMap TcpRecvPc.conn).Perm
        (List.range s.next) := by
  have hs := (tcpQueueStep_ok B).run (tcpListen_ok B) hrun
  exact ⟨hs.accounting, by have := hs.accounting; omega, hs.conserved⟩

/-- Two SYNs on a queue of backlog 1: the first connection is queued and accepted, the second
finds the queue full. -/
theorem tcpQueueRun_accounting_two : ∃ s, StepRun.run tcpQueueStep (tcpListen 1)
      [.recv, .reserve 0, .listener 0 true, .insert 0, .recv, .reserve 1, .accept] = some s ∧
    s.backlog + s.conns.length + s.recvs.countP TcpRecvPc.holds + s.destroyed.length = 1 ∧
      s.conns.length ≤ 1 ∧
      (s.accepted ++ s.destroyed ++ s.conns ++ s.recvs.filterMap TcpRecvPc.conn).Perm
        (List.range s.next) :=
  ⟨_, rfl, @tcpQueueRun_accounting 1
    [.recv, .reserve 0, .listener 0 true, .insert 0, .recv, .reserve 1, .accept] _ rfl⟩

/-- Once `tcp_qclose` has released the queue, no step returns or destroys a connection. -/
theorem tcpQueueStep_closed {s s' : TcpQueue} {op : TcpQueueOp} (hc : s.closed = true)
    (h : tcpQueueStep s op = some s') :
    s'.closed = true ∧ s'.accepted = s.accepted ∧ s'.destroyed = s.destroyed := by
  cases op with
  | accept | qshutdown | qclose => simp [tcpQueueStep, hc] at h
  | recv =>
    simp only [tcpQueueStep] at h
    split_ifs at h
    obtain rfl := Option.some.inj h
    exact ⟨hc, rfl, rfl⟩
  | reserve r | listener r _ | restore r =>
    simp only [tcpQueueStep] at h
    split_ifs at h <;> obtain rfl := Option.some.inj h <;> exact ⟨hc, rfl, rfl⟩
  | insert r =>
    simp only [tcpQueueStep] at h
    split at h
    · obtain rfl := Option.some.inj h
      exact ⟨hc, rfl, rfl⟩
    · exact absurd h (by simp)

theorem tcpQueueRun_closed {s : TcpQueue} (hc : s.closed = true) :
    ∀ {ops : List TcpQueueOp} {s' : TcpQueue}, StepRun.run tcpQueueStep s ops = some s' →
      s'.closed = true ∧ s'.accepted = s.accepted ∧ s'.destroyed = s.destroyed := by
  have hI : StepRun.Invariant tcpQueueStep fun t : TcpQueue =>
      t.closed = true ∧ t.accepted = s.accepted ∧ t.destroyed = s.destroyed := by
    intro t op t' ⟨htc, hta, htd⟩ h
    obtain ⟨h₁, h₂, h₃⟩ := tcpQueueStep_closed htc h
    exact ⟨h₁, h₂.trans hta, h₃.trans htd⟩
  intro ops s' h
  exact hI.run ⟨hc, rfl, rfl⟩ h

/-- A SYN whose call of `tcp_queue_recv` took its unit of backlog before `tcp_qclose` appends its
connection after `tcp_qclose` destroyed the queued ones and released the queue. That connection
is then neither returned by `tcp_accept` nor destroyed, whatever happens next. -/
theorem tcpQueue_insert_after_close :
    StepRun.run tcpQueueStep (tcpListen 1) [.recv, .reserve 0, .listener 0 true, .qclose, .insert 0] =
      some ⟨0, true, false, true, [0], [.done], 1, [], []⟩ ∧
    ∀ (ops : List TcpQueueOp) (s' : TcpQueue),
      StepRun.run tcpQueueStep ⟨0, true, false, true, [0], [.done], 1, [], []⟩ ops = some s' →
        0 ∉ s'.accepted ∧ 0 ∉ s'.destroyed := by
  refine ⟨rfl, fun ops s' h => ?_⟩
  obtain ⟨-, ha, hd⟩ := tcpQueueRun_closed rfl h
  rw [ha, hd]
  exact ⟨List.not_mem_nil, List.not_mem_nil⟩

end Caladan
