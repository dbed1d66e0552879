import Mathlib
import Caladan.Lib.Run

/-!
# UDP transmit accounting (`udp_write_to`, `udp_tx_release_mbuf`, `udp_shutdown`, `udp_close`)

`outq_len` counts a socket's datagrams on their way out, and `udp_write_to` waits while it is at
`outq_cap`. A writer increments it under `outq_lock` before it allocates the mbuf. The mbuf's
release hook `udp_tx_release_mbuf` decrements it when the transmit completes (or when ARP frees
the mbuf). After `udp_close` has set `outq_free`, the release that brings `outq_len` to zero
drops the socket's last reference; if `outq_len` is already zero, `udp_close` drops it.

Two paths of `udp_write_to` return after the increment without the hook: a failed
`net_tx_alloc_mbuf`, and a failed `udp_send_raw`, after which the mbuf is freed with
`net_tx_release_mbuf`. Each such call leaves `outq_len` one above the datagrams in flight, for
good.

Each step below is one critical section, an allocation, or a send; writers interleave with
completions and with the socket's owner. The state records the mbufs handed to the stack and the
final `udp_conn_put` calls.
-/

namespace Caladan

/-- `UDP_OUT_DEFAULT_CAP` -/
def udpOutDefaultCap : Int := 2048

/-- Where one call of `udp_write_to` is. -/
inductive UdpWritePc
  | start
  /-- counted in `outq_len`, before `net_tx_alloc_mbuf` -/
  | reserved
  /-- holding mbuf `m`, before `udp_send_raw` -/
  | allocated (m : Nat)
  | done
deriving DecidableEq, Repr

/-- A call counted in `outq_len`. -/
def UdpWritePc.holds : UdpWritePc → Bool
  | .reserved | .allocated _ => true
  | .start | .done => false

/-- The egress half of `struct udpconn` (`outq_cap`, `outq_len`, `shutdown`, `outq_free`), the
calls of `udp_write_to`, the mbufs handed to the stack and not yet released, the mbufs allocated
so far, and how many times the final `udp_conn_put` ran. -/
structure UdpConn where
  outqCap : Int
  outqLen : Nat
  shutdown : Bool
  outqFree : Bool
  writers : List UdpWritePc
  txq : List Nat
  next : Nat
  puts : Nat
deriving DecidableEq, Repr

/-- The calls on a socket and the completions of its datagrams. -/
inductive UdpOp
  /-- `udp_set_buffers` with `write_mbufs` -/
  | setBuffers (writeMbufs : Int)
  /-- a thread calls `udp_write_to` -/
  | write
  /-- the `outq_lock` section of writer `w` -/
  | reserve (w : Nat)
  /-- `net_tx_alloc_mbuf` for writer `w` -/
  | alloc (w : Nat) (ok : Bool)
  /-- `udp_send_raw` for writer `w`, which fails for instance with `-ENOMEM` from `arp_lookup` -/
  | send (w : Nat) (ok : Bool)
  /-- mbuf `m` is released through its hook, `udp_tx_release_mbuf` -/
  | release (m : Nat)
  | shutdown
  | close
deriving DecidableEq, Repr

/-- A socket after `udp_init_conn`. -/
def udpInit : UdpConn := ⟨udpOutDefaultCap, 0, false, false, [], [], 0, 0⟩

/-- One step; `none` where it is not enabled: a writer not at that point, a writer waiting on
`outq_wq`, a release of an mbuf not in flight, `BUG_ON(c->shutdown)` in a second shutdown, and
any call on a socket `udp_close` released. -/
def udpStep (c : UdpConn) : UdpOp → Option UdpConn
  | .setBuffers n => some { c with outqCap := n }
  | .write => if c.outqFree then none else some { c with writers := c.writers ++ [.start] }
  | .reserve w =>
    if c.writers[w]? = some .start then
      -- `-EPIPE`
      if c.shutdown then some { c with writers := c.writers.set w .done }
      else if c.outqCap ≤ c.outqLen then none
      else some { c with writers := c.writers.set w .reserved, outqLen := c.outqLen + 1 }
    else none
  | .alloc w ok =>
    if c.writers[w]? = some .reserved then
      if ok then some { c with writers := c.writers.set w (.allocated c.next), next := c.next + 1 }
      -- `-ENOBUFS`
      else some { c with writers := c.writers.set w .done }
    else none
  | .send w ok =>
    match c.writers[w]? with
    | some (.allocated m) =>
      if ok then some { c with writers := c.writers.set w .done, txq := c.txq ++ [m] }
      -- the mbuf goes back with `net_tx_release_mbuf`, not through its hook
      else some { c with writers := c.writers.set w .done }
    | _ => none
  | .release m =>
    if m ∈ c.txq then
      some { c with txq := c.txq.erase m, outqLen := c.outqLen - 1,
                    puts := if c.outqFree ∧ c.outqLen - 1 = 0 then c.puts + 1 else c.puts }
    else none
  | .shutdown => if c.shutdown then none else some { c with shutdown := true }
  | .close =>
    if c.outqFree then none
    else some { c with shutdown := true, outqFree := true,
                       puts := if c.outqLen = 0 then c.puts + 1 else c.puts }

/-! ## While every allocation and send succeeds -/

/-- A step whose allocation or send, if any, succeeds. -/
def UdpOp.NoFail : UdpOp → Prop
  | .alloc _ ok | .send _ ok => ok = true
  | _ => True

/-- `outq_len` counts exactly the writers past their increment and the datagrams in flight; only
a socket that was shut down is released; and the final `udp_conn_put` has run once exactly when
the socket is released and nothing is counted. -/
structure UdpConn.Exact (c : UdpConn) : Prop where
  outq : c.outqLen = c.writers.countP UdpWritePc.holds + c.txq.length
  free_shutdown : c.outqFree = true → c.shutdown = true
  puts : c.puts = if c.outqFree = true ∧ c.outqLen = 0 then 1 else 0

section
variable {c c' : UdpConn} {w : Nat} {a pc : UdpWritePc}

theorem countP_holds_set_write (h : c.writers[w]? = some a) (pc : UdpWritePc) :
    (c.writers.set w pc).countP UdpWritePc.holds + (if a.holds then 1 else 0) =
      c.writers.countP UdpWritePc.holds + (if pc.holds then 1 else 0) := by
  obtain ⟨hw, rfl⟩ := List.getElem?_eq_some_iff.mp h
  have hle : (if c.writers[w].holds then 1 else 0) ≤ c.writers.countP UdpWritePc.holds := by
    split_ifs with hh
    · exact List.countP_pos_iff.mpr ⟨_, List.getElem_mem hw, hh⟩
    · exact Nat.zero_le _
  rw [List.countP_set hw]
  omega

/-- A writer that moves without changing whether it is counted keeps `Exact`. -/
theorem UdpConn.Exact.set_writer (hc : c.Exact) (h : c.writers[w]? = some a)
    (hh : a.holds = pc.holds) : UdpConn.Exact { c with writers := c.writers.set w pc } := by
  have hcount := countP_holds_set_write h pc
  rw [hh] at hcount
  exact ⟨by have := hc.outq; dsimp only; omega, hc.free_shutdown, hc.puts⟩

theorem UdpConn.Exact.step {op : UdpOp} (hop : op.NoFail) (hc : c.Exact) (h : udpStep c op = some c') :
    c'.Exact := by
  cases op with
  | setBuffers n =>
    obtain rfl := Option.some.inj h
    exact ⟨hc.outq, hc.free_shutdown, hc.puts⟩
  | write =>
    simp only [udpStep] at h
    split_ifs at h
    obtain rfl := Option.some.inj h
    exact ⟨by simp [List.countP_append, UdpWritePc.holds, hc.outq], hc.free_shutdown, hc.puts⟩
  | reserve w =>
    simp only [udpStep] at h
    split_ifs at h with hw hsh hcap
    · obtain rfl := Option.some.inj h
      exact hc.set_writer hw rfl
    · -- counted: the socket is open, so not released, and the count grows by one
      obtain rfl := Option.some.inj h
      have hcount := countP_holds_set_write hw .reserved
      simp only [UdpWritePc.holds, Bool.false_eq_true, if_false, if_true] at hcount
      have hfree : c.outqFree = false := by
        cases hf : c.outqFree
        · rfl
        · exact absurd (hc.free_shutdown hf) (by simpa using hsh)
      refine ⟨by have := hc.outq; dsimp only; omega, fun h => absurd h (by simp [hfree]), ?_⟩
      have := hc.puts
      simp only [hfree, Bool.false_eq_true, false_and, if_false] at this ⊢
      exact this
  | alloc w ok =>
    simp only [UdpOp.NoFail] at hop
    subst hop
    simp only [udpStep, if_true] at h
    split_ifs at h with hw
    obtain rfl := Option.some.inj h
    -- the writer stays counted; the mbuf numbering is not part of the count
    have hx : UdpConn.Exact { c with writers := c.writers.set w (.allocated c.next) } :=
      hc.set_writer hw rfl
    exact ⟨hx.outq, hx.free_shutdown, hx.puts⟩
  | send w ok =>
    simp only [UdpOp.NoFail] at hop
    subst hop
    simp only [udpStep, if_true] at h
    split at h
    · -- the datagram is handed to the stack: it moves from the writer to the queue
      rename_i m hw
      obtain rfl := Option.some.inj h
      have hcount := countP_holds_set_write hw .done
      simp only [UdpWritePc.holds, Bool.false_eq_true, if_false, if_true] at hcount
      refine ⟨?_, hc.free_shutdown, hc.puts⟩
      have := hc.outq
      simp only [List.length_append, List.length_singleton]
      omega
    · exact absurd h (by simp)
  | release m =>
    simp only [udpStep] at h
    by_cases hm : m ∈ c.txq
    case neg =>
      rw [if_neg hm] at h
      exact absurd h (by simp)
    rw [if_pos hm] at h
    obtain rfl := Option.some.inj h
    have hlen := List.length_erase_of_mem hm
    have hpos := List.length_pos_of_mem hm
    have hq := hc.outq
    refine ⟨by dsimp only; omega, hc.free_shutdown, ?_⟩
    -- counted before, so the put had not run; it runs now if this was the last
    have hp := hc.puts
    rw [if_neg (by omega)] at hp
    dsimp only
    rw [hp]
  | shutdown =>
    simp only [udpStep] at h
    split_ifs at h
    obtain rfl := Option.some.inj h
    exact ⟨hc.outq, fun _ => rfl, hc.puts⟩
  | close =>
    simp only [udpStep] at h
    by_cases hfree : c.outqFree = true
    · rw [if_pos hfree] at h
      exact absurd h (by simp)
    rw [if_neg hfree] at h
    obtain rfl := Option.some.inj h
    have hp := hc.puts
    rw [if_neg fun h => hfree h.1] at hp
    refine ⟨hc.outq, fun _ => rfl, ?_⟩
    dsimp only
    rw [hp]
    split_ifs <;> simp_all

end

theorem udpInit_exact : udpInit.Exact := ⟨rfl, fun h => absurd h (by decide), rfl⟩

/-- While no allocation and no send fails, whatever the interleaving of writers, completions,
`udp_set_buffers`, `udp_shutdown` and `udp_close`: `outq_len` is the number of writers past their
increment plus the datagrams handed to the stack and not yet released; so a writer waits only
while that many reach `outq_cap`; and the final `udp_conn_put` has run once after `udp_close`
exactly when that number is zero, and never before. -/
theorem udpRun_outq_exact {ops : List UdpOp} {c : UdpConn} (hops : ∀ op ∈ ops, op.NoFail)
    (hrun : StepRun.run udpStep udpInit ops = some c) :
    c.outqLen = c.writers.countP UdpWritePc.holds + c.txq.length ∧
    (∀ w, c.shutdown = false → c.writers[w]? = some .start → udpStep c (.reserve w) = none →
      c.outqCap ≤ c.writers.countP UdpWritePc.holds + c.txq.length) ∧
    c.puts = if c.outqFree = true ∧ c.outqLen = 0 then 1 else 0 := by
  have hI : StepRun.InvariantOn udpStep UdpOp.NoFail UdpConn.Exact :=
    fun _ _ _ hop hc h => hc.step hop h
  have hc := hI.run hops udpInit_exact hrun
  refine ⟨hc.outq, fun w hsh hw hnone => ?_, hc.puts⟩
  simp only [udpStep, hw, if_true, hsh, Bool.false_eq_true, if_false] at hnone
  by_contra hlt
  have hcap : ¬c.outqCap ≤ (c.outqLen : Int) := by
    rw [hc.outq]
    push_cast
    exact hlt
  rw [if_neg hcap] at hnone
  exact absurd hnone (by simp)

theorem udpRun_outq_exact_two :
    ∃ c, StepRun.run udpStep udpInit [.write, .write, .reserve 0, .alloc 0 true, .reserve 1,
        .send 0 true, .close] = some c ∧
      (c.outqLen = c.writers.countP UdpWritePc.holds + c.txq.length ∧
      (∀ w, c.shutdown = false → c.writers[w]? = some .start → udpStep c (.reserve w) = none →
        c.outqCap ≤ c.writers.countP UdpWritePc.holds + c.txq.length) ∧
      c.puts = if c.outqFree = true ∧ c.outqLen = 0 then 1 else 0) :=
  ⟨_, rfl, @udpRun_outq_exact [.write, .write, .reserve 0, .alloc 0 true, .reserve 1,
    .send 0 true, .close] _ (by simp [UdpOp.NoFail]) rfl⟩

/-! ## After a failed allocation or send -/

/-- A socket that `udp_close` released, with no datagram in flight and no writer past its
increment: the calls left can only be refused, fail with `-EPIPE`, or change `outq_cap`. -/
structure UdpConn.Idle (c : UdpConn) : Prop where
  free : c.outqFree = true
  shutdown : c.shutdown = true
  txq : c.txq = []
  writers : ∀ pc ∈ c.writers, pc.holds = false

theorem UdpConn.Idle.step {c c' : UdpConn} {op : UdpOp} (hc : c.Idle)
    (h : udpStep c op = some c') : c'.Idle ∧ c'.puts = c.puts := by
  -- a writer that reserved or allocated would be counted, so `alloc` and `send` are refused
  have hw : ∀ (w : Nat) (pc : UdpWritePc), c.writers[w]? = some pc → pc.holds = true → False := fun w pc hpc hh => by
    rw [hc.writers pc (List.mem_of_getElem? hpc)] at hh
    exact Bool.false_ne_true hh
  cases op with
  | setBuffers n =>
    obtain rfl := Option.some.inj h
    exact ⟨⟨hc.free, hc.shutdown, hc.txq, hc.writers⟩, rfl⟩
  | write => simp [udpStep, hc.free] at h
  | reserve w =>
    simp only [udpStep, hc.shutdown, if_true] at h
    split_ifs at h
    obtain rfl := Option.some.inj h
    refine ⟨⟨hc.free, rfl, hc.txq, fun pc hpc => ?_⟩, rfl⟩
    obtain hpc | rfl := List.mem_or_eq_of_mem_set hpc
    · exact hc.writers pc hpc
    · rfl
  | alloc w ok =>
    simp only [udpStep] at h
    by_cases hr : c.writers[w]? = some .reserved
    · exact (hw w _ hr rfl).elim
    · rw [if_neg hr] at h
      exact absurd h (by simp)
  | send w ok =>
    simp only [udpStep] at h
    split at h
    · exact (hw w _ (by assumption) rfl).elim
    · exact absurd h (by simp)
  | release m => simp [udpStep, hc.txq] at h
  | shutdown => simp [udpStep, hc.shutdown] at h
  | close => simp [udpStep, hc.free] at h

/-- From an idle released socket, no run calls `udp_conn_put` again. -/
theorem udpRun_idle_puts {c c' : UdpConn} {ops : List UdpOp} (hc : c.Idle)
    (h : StepRun.run udpStep c ops = some c') : c'.puts = c.puts := by
  have hI : StepRun.Invariant udpStep (fun d : UdpConn => d.Idle ∧ d.puts = c.puts) :=
    fun _ _ _ ⟨hd, hp⟩ hs => ⟨(hd.step hs).1, (hd.step hs).2.trans hp⟩
  exact (hI.run ⟨hc, rfl⟩ h).2

/-- A failed `udp_send_raw` leaves `outq_len` at one with nothing in flight. A failed
`net_tx_alloc_mbuf` at `outq_cap = 1` does the same, and then a second writer waits although no
datagram is in flight; after `udp_shutdown` and `udp_close` the socket is never released. -/
theorem udpWrite_error_leaks_outq :
    StepRun.run udpStep udpInit [.write, .reserve 0, .alloc 0 true, .send 0 false] =
      some ⟨udpOutDefaultCap, 1, false, false, [.done], [], 1, 0⟩ ∧
    StepRun.run udpStep udpInit [.setBuffers 1, .write, .reserve 0, .alloc 0 false, .write] =
      some ⟨1, 1, false, false, [.done, .start], [], 0, 0⟩ ∧
    udpStep ⟨1, 1, false, false, [.done, .start], [], 0, 0⟩ (.reserve 1) = none ∧
    StepRun.run udpStep ⟨1, 1, false, false, [.done, .start], [], 0, 0⟩
      [.shutdown, .reserve 1, .close] = some ⟨1, 1, true, true, [.done, .done], [], 0, 0⟩ ∧
    ∀ ops c, StepRun.run udpStep ⟨1, 1, true, true, [.done, .done], [], 0, 0⟩ ops = some c →
      c.puts = 0 :=
  ⟨by decide, by decide, by decide, by decide,
    fun _ _ h => udpRun_idle_puts ⟨rfl, rfl, rfl, by decide⟩ h⟩

end Caladan
