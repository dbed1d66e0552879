import Mathlib
import Caladan.Iokernel.Sched

/-!
# The ingress path (`iokernel/rx.c`, `iokernel/commands.c`, `runtime/net/core.c`)

`rx_burst` hands every packet the NIC received to `rx_one_pkt`. A unicast packet goes to the proc
that `dp.mac_to_proc` names, a broadcast packet to every client; each copy is an `RX_NET_RECV`
message on the `rxq` of one runtime thread, chosen by `rx_send_to_runtime`, and the buffer's
reference count is the number of copies sent. A runtime's softirq (`iokernel_softirq_poll`) copies
the payload out and answers with `TXCMD_NET_COMPLETE` on the `txcmdq` of the kthread running it;
`commands_rx` drains those rings and drops one reference per command with `rte_pktmbuf_free`.

The IOKernel's dataplane thread runs `rx_burst` and `commands_rx` one after the other; a runtime's
softirqs run at the same time on other cores. Each event below is one atomic piece: one packet of
`rx_burst`, one message of a softirq, one call of `commands_rx`, or one egress completion that
`tx.c` puts on an `rxq`. The rings are the queues of their unread messages, and an `lrpc_send`
goes through exactly when its ring has a free slot, as `LrpcInv.send_cases` shows of the LRPC
channel.

`RxSys.Inv` is the accounting: a buffer's reference count is the number of messages and commands
that name it, plus its completions the runtime dropped. `rxReach_safe` shows it holds after every
interleaving, so `commands_rx` never frees a buffer twice and no runtime is told of a buffer that
is back in the pool.
-/

namespace Caladan

/-- `IOKERNEL_CMD_BURST_SIZE` -/
def iokernelCmdBurstSize : Nat := 64

/-- `PACKET_QUEUE_MCOUNT`: the slots of a thread's `rxq`. -/
def packetQueueMcount : Nat := 4096

/-- `COMMAND_QUEUE_MCOUNT`: the slots of a thread's `txcmdq`. -/
def commandQueueMcount : Nat := 4096

/-- `rte_is_unicast_ether_addr`: the group bit of the first byte is clear. -/
def etherIsUnicast (a : List UInt8) : Bool := a.headD 0 &&& 1 == 0

/-- `rte_is_broadcast_ether_addr`: every byte is `0xff`. -/
def etherIsBroadcast (a : List UInt8) : Bool := a.all (· == 0xff)

/-- A packet of `rte_eth_rx_burst`: its buffer, the bytes of its destination address, and the
RSS hash the NIC stored in `buf->hash.rss`. -/
structure RxPkt where
  buf : Nat
  dst : List UInt8
  rss : UInt32
deriving DecidableEq, Repr

/-- A message on a runtime thread's `rxq`: `RX_NET_RECV` with the header of an ingress buffer, or
`RX_NET_COMPLETE` of an egress buffer, which names no ingress buffer. -/
inductive RxMsg where
  | recv (buf : Nat)
  | other
deriving DecidableEq, Repr

/-- What `rx_one_pkt` reads of the dataplane and the scheduler: `dp.mac_to_proc`,
`dp.clients[0 .. nr_clients)`, each proc's scheduler fields, each proc as `sched_add_core` leaves
it (the policy's `notify_core_needed` decides), and `cfg.noidlefastwake`. -/
structure RxEnv where
  macToProc : List UInt8 → Option Nat
  clients : List Nat
  procs : Nat → IkProc
  added : Nat → IkProc
  noidlefastwake : Bool

/-- The buffers of `rx_mbuf_pool` and the rings between the planes: each buffer's reference count
(`0` while it is in the pool or the NIC's ring), the unread messages of every runtime thread's
`rxq` with the thread `(proc, index)` they are for, and the unread `TXCMD_NET_COMPLETE` commands
of every kthread's `txcmdq`, oldest first. `lost` is ghost state: the completions
`net_rx_send_completion` could not queue. -/
structure RxSys where
  refcnt : Nat → Nat
  rxq : List ((Nat × Nat) × RxMsg)
  txcmdq : List ((Nat × Nat) × Nat)
  lost : List Nat

/-- Every buffer in the pool and every ring empty. -/
def RxSys.init : RxSys := ⟨fun _ => 0, [], [], []⟩

/-- The thread `rx_send_to_runtime` sends to: the flow table's thread while the proc has an active
thread; otherwise, after `sched_add_core` unless `noidlefastwake`, the first idle thread if still
none is active. `none` where `hash % thread_count` divides by zero or `list_top` of an empty idle
list gives `NULL`. -/
def rxSendThread (env : RxEnv) (p : Nat) (hash : UInt32) : Option Nat :=
  let flow (q : IkProc) : Option Nat :=
    if q.threadCount = 0 then none else some (q.flowTbl (hash.toNat % q.threadCount))
  if 0 < (env.procs p).activeThreadCount then flow (env.procs p)
  else
    let q := if env.noidlefastwake then env.procs p else env.added p
    if q.activeThreadCount = 0 then q.idleThreads.head? else flow q

namespace RxSys

/-- `lrpc_send` on the `rxq` of thread `t`: whether it went through and the rings after it. -/
def sendRxq (s : RxSys) (t : Nat × Nat) (m : RxMsg) : Bool × RxSys :=
  if (s.rxq.filter (·.1 = t)).length < packetQueueMcount then
    (true, { s with rxq := s.rxq ++ [(t, m)] })
  else (false, s)

/-- `rx_send_to_runtime(p, hash, cmd, payload)`. -/
def sendToRuntime (s : RxSys) (env : RxEnv) (p : Nat) (hash : UInt32) (m : RxMsg) :
    Option (Bool × RxSys) :=
  (rxSendThread env p hash).map fun th => s.sendRxq (p, th) m

/-- `rte_pktmbuf_free`: drop a reference, the last one returning the buffer to the pool; `none`
for a buffer already in the pool. -/
def free (s : RxSys) (b : Nat) : Option RxSys :=
  if s.refcnt b = 0 then none
  else some { s with refcnt := Function.update s.refcnt b (s.refcnt b - 1) }

/-- The loop of `rx_one_pkt` over `dp.clients`: how many runtimes the header reached. -/
def rxBroadcast (env : RxEnv) (pkt : RxPkt) : List Nat → RxSys → Option (Nat × RxSys)
  | [], s => some (0, s)
  | p :: ps, s =>
    match s.sendToRuntime env p pkt.rss (.recv pkt.buf) with
    | none => none
    | some (sent, s) =>
      (rxBroadcast env pkt ps s).map fun r => (if sent then r.1 + 1 else r.1, r.2)

/-- `rx_one_pkt` on a packet whose buffer holds the one reference the NIC gave it. A broadcast
that reached `n` runtimes adds `n - 1` references (`rte_mbuf_refcnt_update`); a packet that
reached none is freed. -/
def rxOnePkt (s : RxSys) (env : RxEnv) (pkt : RxPkt) : Option RxSys :=
  if etherIsUnicast pkt.dst then
    match env.macToProc pkt.dst with
    | none => s.free pkt.buf
    | some p =>
      match s.sendToRuntime env p pkt.rss (.recv pkt.buf) with
      | none => none
      | some (true, s) => some s
      | some (false, s) => s.free pkt.buf
  else if etherIsBroadcast pkt.dst ∧ env.clients ≠ [] then
    match rxBroadcast env pkt env.clients s with
    | none => none
    | some (0, s) => s.free pkt.buf
    | some (n + 1, s) =>
      some { s with refcnt := Function.update s.refcnt pkt.buf (s.refcnt pkt.buf + n) }
  else s.free pkt.buf

/-- One turn of `iokernel_softirq_poll` on kthread `t`: `lrpc_recv` takes the oldest message of
its `rxq`. For `RX_NET_RECV`, `net_rx_alloc_mbuf` copies the payload and `net_rx_send_completion`
queues `TXCMD_NET_COMPLETE` on the `txcmdq` of the kthread `k` running the softirq, or drops it
with a `WARN` when that ring is full. `RX_NET_COMPLETE` frees an egress buffer. -/
def softirqRecv (s : RxSys) (t k : Nat × Nat) : RxSys :=
  match s.rxq.find? (·.1 = t) with
  | none => s
  | some e =>
    match e.2 with
    | .other => { s with rxq := s.rxq.erase e }
    | .recv b =>
      if (s.txcmdq.filter (·.1 = k)).length < commandQueueMcount then
        { s with rxq := s.rxq.erase e, txcmdq := s.txcmdq ++ [(k, b)] }
      else { s with rxq := s.rxq.erase e, lost := s.lost ++ [b] }

end RxSys

/-- `commands_drain_queue` on the `txcmdq` of thread `t`, for at most `n` commands: the buffers,
oldest first, and the commands left. -/
def commandsDrainTxcmdq (t : Nat × Nat) :
    Nat → List ((Nat × Nat) × Nat) → List Nat × List ((Nat × Nat) × Nat)
  | 0, q => ([], q)
  | n + 1, q =>
    match q.find? (·.1 = t) with
    | none => ([], q)
    | some e =>
      let r := commandsDrainTxcmdq t n (q.erase e)
      (e.2 :: r.1, r.2)

/-- The polling loop of `commands_rx` over the polled threads from `ts[pos % nrts]` on, with room
for `budget` more buffers: it stops once `IOKERNEL_CMD_BURST_SIZE` buffers are taken. -/
def commandsRxLoop (budget : Nat) :
    List (Nat × Nat) → List ((Nat × Nat) × Nat) → List Nat × List ((Nat × Nat) × Nat)
  | [], q => ([], q)
  | t :: ts, q =>
    if budget = 0 then ([], q)
    else
      let r := commandsDrainTxcmdq t budget q
      let r' := commandsRxLoop (budget - r.1.length) ts r.2
      (r.1 ++ r'.1, r'.2)

namespace RxSys

/-- `rte_pktmbuf_free` on each buffer in order. -/
def freeAll (s : RxSys) : List Nat → Option RxSys
  | [] => some s
  | b :: bs => (s.free b).bind (·.freeAll bs)

/-- `commands_rx` polling `polled` (the threads `ts[(pos + i) % nrts]` in order): whether it
freed a buffer, and the state after. -/
def commandsRx (s : RxSys) (polled : List (Nat × Nat)) : Option (Bool × RxSys) :=
  let r := commandsRxLoop iokernelCmdBurstSize polled s.txcmdq
  (({ s with txcmdq := r.2 } : RxSys).freeAll r.1).map fun s' => (0 < r.1.length, s')

end RxSys

/-- The events of the ingress path: one packet of `rx_burst`, one turn of the softirq of thread
`t` run by kthread `j` of the same proc, one call of `commands_rx`, and one egress completion
that `tx.c` sends to the `rxq` of thread `t`. -/
inductive RxEvent where
  | rx (env : RxEnv) (pkt : RxPkt)
  | softirq (t : Nat × Nat) (j : Nat)
  | commands (polled : List (Nat × Nat))
  | txComplete (t : Nat × Nat)

namespace RxSys

/-- One event; `none` is undefined behaviour: a free of a buffer in the pool, or a send to a proc
with no thread to pick. -/
def step (s : RxSys) : RxEvent → Option RxSys
  | .rx env pkt => ({ s with refcnt := Function.update s.refcnt pkt.buf 1 } : RxSys).rxOnePkt env pkt
  | .softirq t j => some (s.softirqRecv t (t.1, j))
  | .commands polled => (s.commandsRx polled).map (·.2)
  | .txComplete t => some (s.sendRxq t .other).2

end RxSys

/-- The NIC hands `rx_burst` only buffers it took from the pool. -/
def RxEvent.Enabled (s : RxSys) : RxEvent → Prop
  | .rx _ pkt => s.refcnt pkt.buf = 0
  | _ => True

/-- The states the ingress path reaches from `RxSys.init` by any interleaving of enabled events. -/
inductive RxSys.Reach : RxSys → Prop
  | init : RxSys.Reach RxSys.init
  | step {s s' : RxSys} {e : RxEvent} : RxSys.Reach s → e.Enabled s → s.step e = some s' →
      RxSys.Reach s'

/-! ## The accounting -/

/-- Erasing a member of a list drops one item from each count that counts it. -/
theorem countP_erase_add {α : Type*} [BEq α] [LawfulBEq α] (p : α → Bool) {l : List α} {a : α}
    (h : a ∈ l) : (l.erase a).countP p + (if p a then 1 else 0) = l.countP p := by
  rw [List.countP_erase]
  by_cases hp : p a
  · have := List.countP_pos_iff.2 ⟨a, h, hp⟩
    simp only [h, hp, and_self, if_true]
    omega
  · simp [hp]

namespace RxSys

/-- The references to buffer `b` in flight: the `RX_NET_RECV` messages naming it and its
completions not yet drained. -/
def refs (s : RxSys) (b : Nat) : Nat :=
  s.rxq.countP (·.2 = .recv b) + s.txcmdq.countP (·.2 = b)

/-- Each buffer's reference count is its references in flight plus its dropped completions. -/
def Inv (s : RxSys) : Prop := ∀ b, s.refcnt b = s.refs b + s.lost.count b

/-- `s'` is `s` with `n` more `RX_NET_RECV` messages for buffer `b` on the `rxq` rings. -/
structure AddsRecv (s s' : RxSys) (b n : Nat) : Prop where
  refcnt : s'.refcnt = s.refcnt
  txcmdq : s'.txcmdq = s.txcmdq
  lost : s'.lost = s.lost
  rxq : ∀ b', s'.rxq.countP (·.2 = .recv b') =
    s.rxq.countP (·.2 = .recv b') + if b' = b then n else 0

section

variable {s s' s₁ s₂ : RxSys} {b n m : Nat}

theorem inv_init : init.Inv := by
  intro b
  simp [init, refs]

theorem AddsRecv.rfl' : AddsRecv s s b 0 :=
  ⟨rfl, rfl, rfl, fun _ => by simp⟩

theorem AddsRecv.trans (h₁ : AddsRecv s s₁ b n) (h₂ : AddsRecv s₁ s₂ b m) :
    AddsRecv s s₂ b (n + m) := by
  refine ⟨h₂.refcnt.trans h₁.refcnt, h₂.txcmdq.trans h₁.txcmdq, h₂.lost.trans h₁.lost,
    fun b' => ?_⟩
  rw [h₂.rxq, h₁.rxq]
  split_ifs <;> omega

theorem sendRxq_addsRecv (t : Nat × Nat) :
    AddsRecv s (s.sendRxq t (.recv b)).2 b (if (s.sendRxq t (.recv b)).1 then 1 else 0) := by
  by_cases h : (s.rxq.filter (·.1 = t)).length < packetQueueMcount
  · simp only [sendRxq, if_pos h, if_true]
    refine ⟨rfl, rfl, rfl, fun b' => ?_⟩
    by_cases hb : b' = b
    · subst hb
      simp [List.countP_append]
    · simp [List.countP_append, hb, Ne.symm hb]
  · simp only [sendRxq, if_neg h]
    exact AddsRecv.rfl'

theorem sendToRuntime_addsRecv {env : RxEnv} {p : Nat} {hash : UInt32} {sent : Bool}
    (h : s.sendToRuntime env p hash (.recv b) = some (sent, s')) :
    AddsRecv s s' b (if sent then 1 else 0) := by
  obtain ⟨th, -, hsend⟩ := Option.map_eq_some_iff.1 h
  have h' := sendRxq_addsRecv (s := s) (b := b) (p, th)
  rwa [hsend] at h'

theorem rxBroadcast_addsRecv {env : RxEnv} {pkt : RxPkt} :
    ∀ {ps : List Nat} {s s' : RxSys} {n : Nat},
      rxBroadcast env pkt ps s = some (n, s') → AddsRecv s s' pkt.buf n
  | [], s, s', n, h => by
    obtain ⟨rfl, rfl⟩ := Prod.mk.inj (Option.some.inj h)
    exact AddsRecv.rfl'
  | p :: ps, s, s', n, h => by
    simp only [rxBroadcast] at h
    split at h
    · cases h
    rename_i sent s₁ hsend
    obtain ⟨⟨n', s₂⟩, hrest, hr⟩ := Option.map_eq_some_iff.1 h
    obtain ⟨rfl, rfl⟩ := Prod.mk.inj hr
    have h' := (sendToRuntime_addsRecv hsend).trans (rxBroadcast_addsRecv hrest)
    cases sent
    · simpa using h'
    · simpa [Nat.add_comm] using h'

theorem free_eq_some : s.free b = some s' ↔
    s.refcnt b ≠ 0 ∧ s' = { s with refcnt := Function.update s.refcnt b (s.refcnt b - 1) } := by
  unfold free
  split_ifs with h <;> simp [h, eq_comm]

theorem free_of_one (h1 : s.refcnt b = 1) (h : s.free b = some s') :
    s' = { s with refcnt := Function.update s.refcnt b 0 } := by
  obtain ⟨-, rfl⟩ := free_eq_some.1 h
  rw [h1]

/-- What `rx_one_pkt` does to a buffer holding one reference: it sends `n` copies of the header
and leaves the buffer with `n` references, so that one that reached no runtime is back in the
pool. -/
theorem rxOnePkt_spec {env : RxEnv} {pkt : RxPkt} (h1 : s.refcnt pkt.buf = 1)
    (h : s.rxOnePkt env pkt = some s') :
    ∃ n s₁, AddsRecv s s₁ pkt.buf n ∧
      s' = { s₁ with refcnt := Function.update s₁.refcnt pkt.buf n } := by
  -- every branch that sends nothing ends in `rte_pktmbuf_free`
  have hfree : ∀ {s₁}, AddsRecv s s₁ pkt.buf 0 → s₁.free pkt.buf = some s' →
      ∃ n s₁, AddsRecv s s₁ pkt.buf n ∧
        s' = { s₁ with refcnt := Function.update s₁.refcnt pkt.buf n } :=
    fun ha hf => ⟨0, _, ha, free_of_one (ha.refcnt ▸ h1) hf⟩
  unfold rxOnePkt at h
  split_ifs at h
  · split at h
    · exact hfree AddsRecv.rfl' h
    · split at h
      · cases h
      · rename_i s₁ hsend
        cases h
        have ha : AddsRecv s s' pkt.buf 1 := sendToRuntime_addsRecv hsend
        refine ⟨1, s', ha, ?_⟩
        have h1' : s'.refcnt pkt.buf = 1 := by rw [ha.refcnt, h1]
        rw [← h1', Function.update_eq_self]
      · rename_i s₁ hsend
        exact hfree (sendToRuntime_addsRecv hsend) h
  · split at h
    · cases h
    · rename_i s₁ hb
      exact hfree (rxBroadcast_addsRecv hb) h
    · rename_i n s₁ hb
      cases h
      have ha := rxBroadcast_addsRecv hb
      refine ⟨n + 1, s₁, ha, ?_⟩
      rw [ha.refcnt, h1, Nat.add_comm]
  · exact hfree AddsRecv.rfl' h

end

/-! ## The accounting over every interleaving -/

section

variable {s s' : RxSys}

/-- An `rx` event keeps the accounting: its buffer comes from the pool with nothing in flight
naming it, and leaves with one reference per header sent. -/
theorem Inv.rx {env : RxEnv} {pkt : RxPkt} (hs : s.Inv)
    (h0 : s.refcnt pkt.buf = 0) (h : s.step (.rx env pkt) = some s') : s'.Inv := by
  obtain ⟨n, s₁, ha, rfl⟩ := rxOnePkt_spec (by simp) h
  have hb := hs pkt.buf
  intro b
  have hr := ha.rxq b
  simp only [refs] at hb hr ⊢
  simp only [ha.txcmdq, ha.lost, ha.refcnt] at hr ⊢
  by_cases hb' : b = pkt.buf
  · subst hb'
    simp only [Function.update_self, if_true] at hr ⊢
    omega
  · have := hs b
    simp only [refs, Function.update_of_ne hb', hb', if_false] at hr this ⊢
    omega

/-- A softirq turn moves a header's reference to a completion, queued or dropped. -/
theorem Inv.softirqRecv (hs : s.Inv) (t k : Nat × Nat) : (s.softirqRecv t k).Inv := by
  unfold RxSys.softirqRecv
  split
  · exact hs
  rename_i e hfind
  have he := List.mem_of_find?_eq_some hfind
  intro b
  have h₁ := hs b
  have h₂ := countP_erase_add (fun e : (Nat × Nat) × RxMsg => decide (e.2 = .recv b)) he
  simp only [refs] at h₁ ⊢
  split
  · rename_i hm
    simp only [hm, reduceCtorEq, decide_false, if_false] at h₂ ⊢
    omega
  · rename_i b₀ hm
    simp only [hm, RxMsg.recv.injEq, decide_eq_true_eq] at h₂
    -- the reference moves from the header to its completion, queued or dropped
    by_cases hb : b₀ = b
    · subst hb
      split_ifs <;> simp [List.countP_append, List.count_append] at h₂ ⊢ <;> omega
    · split_ifs <;> simp [List.countP_append, List.count_append, hb] at h₂ ⊢ <;> omega

/-- An egress completion names no ingress buffer. -/
theorem Inv.sendRxq_other (hs : s.Inv) (t : Nat × Nat) : (s.sendRxq t .other).2.Inv := by
  unfold RxSys.sendRxq
  split_ifs
  · intro b
    have h₁ := hs b
    simp only [refs, List.countP_append] at h₁ ⊢
    simp
    omega
  · exact hs

end

end RxSys

/-- `commands_drain_queue` takes commands off the rings and hands back their buffers, one for
each. -/
theorem commandsDrainTxcmdq_count (t : Nat × Nat) (b : Nat) :
    ∀ (n : Nat) (q : List ((Nat × Nat) × Nat)),
      (commandsDrainTxcmdq t n q).2.countP (·.2 = b) + (commandsDrainTxcmdq t n q).1.count b =
        q.countP (·.2 = b)
  | 0, q => by simp [commandsDrainTxcmdq]
  | n + 1, q => by
    unfold commandsDrainTxcmdq
    split
    · simp
    rename_i e hfind
    have h₁ := countP_erase_add (fun e : (Nat × Nat) × Nat => decide (e.2 = b))
      (List.mem_of_find?_eq_some hfind)
    have h₂ := commandsDrainTxcmdq_count t b n (q.erase e)
    simp only [List.count_cons] at h₂ ⊢
    by_cases hb : e.2 = b <;> simp [hb] at h₁ ⊢ <;> omega

/-- The polling loop of `commands_rx` likewise. -/
theorem commandsRxLoop_count (b : Nat) :
    ∀ (budget : Nat) (ts : List (Nat × Nat)) (q : List ((Nat × Nat) × Nat)),
      (commandsRxLoop budget ts q).2.countP (·.2 = b) + (commandsRxLoop budget ts q).1.count b =
        q.countP (·.2 = b)
  | _, [], q => by simp [commandsRxLoop]
  | budget, t :: ts, q => by
    unfold commandsRxLoop
    split_ifs
    · simp
    · have h₁ := commandsDrainTxcmdq_count t b budget q
      have h₂ := commandsRxLoop_count b (budget - (commandsDrainTxcmdq t budget q).1.length) ts
        (commandsDrainTxcmdq t budget q).2
      simp only [List.count_append]
      omega

namespace RxSys

/-- Freeing buffers, none more often than it has references, drops one reference a time. -/
theorem freeAll_eq : ∀ (bs : List Nat) (s : RxSys), (∀ b, bs.count b ≤ s.refcnt b) →
    s.freeAll bs = some { s with refcnt := fun b => s.refcnt b - bs.count b }
  | [], s, _ => by simp [freeAll]
  | b :: bs, s, h => by
    have hb : bs.count b + 1 ≤ s.refcnt b := by simpa using h b
    have hfree : s.free b =
        some { s with refcnt := Function.update s.refcnt b (s.refcnt b - 1) } :=
      free_eq_some.2 ⟨by omega, rfl⟩
    rw [freeAll, hfree, Option.bind_some, freeAll_eq bs]
    · congr 2
      funext b'
      by_cases hb' : b' = b
      · subst hb'
        simp
        omega
      · simp [Function.update_of_ne hb', Ne.symm hb']
    · intro b'
      by_cases hb' : b' = b
      · subst hb'
        simp
        omega
      · have := h b'
        simp [Function.update_of_ne hb', Ne.symm hb'] at this ⊢
        omega

section

variable {s s' : RxSys}

/-- `commands_rx` keeps the accounting, and frees no buffer that is already in the pool. -/
theorem Inv.commandsRx (hs : s.Inv) (polled : List (Nat × Nat)) :
    ∃ r, s.commandsRx polled = some r ∧ r.2.Inv := by
  unfold RxSys.commandsRx
  -- each buffer's drained commands leave the ring for the list of buffers to free
  have hc := fun b => commandsRxLoop_count b iokernelCmdBurstSize polled s.txcmdq
  have hb : ∀ b, s.refcnt b = s.rxq.countP (·.2 = .recv b) +
      (commandsRxLoop iokernelCmdBurstSize polled s.txcmdq).2.countP (·.2 = b) +
      (commandsRxLoop iokernelCmdBurstSize polled s.txcmdq).1.count b + s.lost.count b := by
    intro b
    rw [hs b, refs, ← hc b]
    omega
  dsimp only
  rw [freeAll_eq _ _ fun b => by dsimp only; have := hb b; omega]
  refine ⟨_, rfl, fun b => ?_⟩
  have := hb b
  simp only [refs]
  omega

/-- Every enabled event keeps the accounting. -/
theorem Inv.step (hs : s.Inv) {e : RxEvent} (he : e.Enabled s) (h : s.step e = some s') :
    s'.Inv := by
  cases e with
  | rx env pkt => exact hs.rx he h
  | softirq t j =>
    cases h
    exact hs.softirqRecv _ _
  | commands polled =>
    obtain ⟨r, h', hinv⟩ := hs.commandsRx polled
    rw [RxSys.step, h'] at h
    cases h
    exact hinv
  | txComplete t =>
    cases h
    exact hs.sendRxq_other _

theorem Reach.inv (h : s.Reach) : s.Inv := by
  induction h with
  | init => exact inv_init
  | step _ he hstep ih => exact ih.step he hstep

end

/-! ## Progress -/

section

variable {s : RxSys} {env : RxEnv} {pkt : RxPkt}

theorem rxBroadcast_isSome (hp : ∀ p, (rxSendThread env p pkt.rss).isSome) :
    ∀ (ps : List Nat) (s : RxSys), (rxBroadcast env pkt ps s).isSome
  | [], _ => rfl
  | p :: ps, s => by
    obtain ⟨th, hth⟩ := Option.isSome_iff_exists.1 (hp p)
    simp only [rxBroadcast, sendToRuntime, hth, Option.map_some]
    exact Option.isSome_map.trans (rxBroadcast_isSome hp _ _)

/-- `rx_one_pkt` is defined on a buffer with one reference whenever every proc has a thread to
pick: each of its frees drops that one reference. -/
theorem rxOnePkt_isSome (h1 : s.refcnt pkt.buf = 1)
    (hp : ∀ p, (rxSendThread env p pkt.rss).isSome) : (s.rxOnePkt env pkt).isSome := by
  have hfree : ∀ {s₁ n}, AddsRecv s s₁ pkt.buf n → (s₁.free pkt.buf).isSome := fun ha => by
    simp [free, ha.refcnt, h1]
  unfold rxOnePkt
  split_ifs
  · split
    · exact hfree AddsRecv.rfl'
    · rename_i p _
      split
      · rename_i hsend
        obtain ⟨th, hth⟩ := Option.isSome_iff_exists.1 (hp p)
        simp [sendToRuntime, hth] at hsend
      · rfl
      · rename_i s₁ hsend
        exact hfree (sendToRuntime_addsRecv hsend)
  · split
    · rename_i hb
      have h' : (rxBroadcast env pkt env.clients s).isSome := rxBroadcast_isSome hp env.clients s
      simp [hb] at h'
    · rename_i s₁ hb
      exact hfree (rxBroadcast_addsRecv hb)
    · rfl
  · exact hfree AddsRecv.rfl'

end

end RxSys

/-- What an event needs of the environment to be defined: `rx_send_to_runtime` finds a thread
in every proc. -/
def RxEvent.Picks : RxEvent → Prop
  | .rx env pkt => ∀ p, (rxSendThread env p pkt.rss).isSome
  | _ => True

namespace RxSys

/-- From a state that keeps the accounting, every enabled event is defined once its packet has
threads to go to. -/
theorem Inv.step_isSome {s : RxSys} (hs : s.Inv) {e : RxEvent} (he : e.Enabled s)
    (hp : e.Picks) : (s.step e).isSome := by
  cases e with
  | rx env pkt =>
    have h1 : ({ s with refcnt := Function.update s.refcnt pkt.buf 1 } : RxSys).refcnt pkt.buf =
        1 := by simp
    exact rxOnePkt_isSome h1 hp
  | softirq t j => rfl
  | commands polled =>
    obtain ⟨r, h', -⟩ := hs.commandsRx polled
    simp [RxSys.step, h']
  | txComplete t => rfl

end RxSys

/-- Over every interleaving of packets, softirqs, calls of `commands_rx` and egress completions,
the accounting holds, no runtime is told of a buffer that is in the pool, and no event frees a
buffer twice: each is defined once its packet has threads to go to. -/
theorem rxReach_safe {s : RxSys} (h : s.Reach) :
    s.Inv ∧ (∀ t b, (t, RxMsg.recv b) ∈ s.rxq → 0 < s.refcnt b) ∧
      ∀ e : RxEvent, e.Enabled s → e.Picks → (s.step e).isSome := by
  have hs := h.inv
  refine ⟨hs, fun t b hm => ?_, fun e he hp => hs.step_isSome he hp⟩
  have hb := hs b
  have hpos : 0 < s.rxq.countP (·.2 = .recv b) := List.countP_pos_iff.2 ⟨_, hm, by simp⟩
  simp only [RxSys.refs] at hb
  omega

/-- A broadcast to two clients, then a softirq of the first: one header and one completion in
flight, and the buffer out of the pool with two references. -/
theorem rxReach_safe_softirq :
    let s : RxSys := ⟨Function.update (fun _ => 0) 7 2, [((1, 0), .recv 7)], [((0, 0), 7)], []⟩
    s.Reach ∧ s.Inv ∧ (∀ t b, (t, RxMsg.recv b) ∈ s.rxq → 0 < s.refcnt b) ∧
      ∀ e : RxEvent, e.Enabled s → e.Picks → (s.step e).isSome := by
  intro s
  let q : IkProc := ⟨1, fun _ => ⟨true, 0, 0⟩, fun _ => 0, 1, [], fun _ => 0⟩
  have hu : ((255 : UInt8) &&& 1 = 0) = False := by decide
  have h₁ : RxSys.Reach
      ⟨Function.update (fun _ => 0) 7 2, [((0, 0), .recv 7), ((1, 0), .recv 7)], [], []⟩ := by
    refine .step (e := .rx ⟨fun _ => none, [0, 1], fun _ => q, fun _ => q, false⟩
      ⟨7, List.replicate 6 0xff, 0⟩) .init rfl ?_
    simp [hu, q, RxSys.step, RxSys.rxOnePkt, RxSys.init, etherIsUnicast, etherIsBroadcast,
      RxSys.rxBroadcast, RxSys.sendToRuntime, rxSendThread, RxSys.sendRxq, packetQueueMcount]
  have h₂ : s.Reach := by
    refine .step (e := .softirq (0, 0) 0) h₁ trivial ?_
    simp [s, RxSys.step, RxSys.softirqRecv, commandQueueMcount]
  exact ⟨h₂, rxReach_safe h₂⟩

end Caladan
