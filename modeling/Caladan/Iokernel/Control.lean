import Mathlib
import Caladan.Lib.Run

/-!
# Clients of the IOKernel across its two planes (`iokernel/control.c`, `iokernel/dp_clients.c`)

The control plane accepts runtimes on its socket, builds a `struct proc` for each
(`control_create_proc`) and hands it to the dataplane with `DATAPLANE_ADD_CLIENT`; when the
socket closes it marks the client `removed` and sends `DATAPLANE_REMOVE_CLIENT`. The dataplane
attaches the proc to the scheduler and keys it by MAC in `mac_to_proc`, and on removal undoes
both and drops its reference; the last `proc_put` sends `CONTROL_PLANE_REMOVE_CLIENT` back, on
which the control plane frees the proc.

The two `lrpc` channels are the queues of their unread messages: `lrpc_send` fails once
`CONTROL_DATAPLANE_QUEUE_SIZE` messages are unread (`lrpc_channel_fifo`). A proc is named by a
number the model hands out in order; a MAC by the little-endian number of its six bytes, so that
`addr[0]` is its low byte. Attaching to the scheduler is membership in `dp.clients`, which
`dp_clients_add_client` and `dp_clients_remove_client` change together with the scheduler; what
`sched_attach_proc` answers, and whether the socket reads and the shared region of a new client
can be read, are inputs. The references the dataplane takes besides its own (`poll_thread`, the
transmit path) are counted in `held`.
-/

namespace Caladan

/-- `IOKERNEL_MAX_PROC` -/
def iokernelMaxProc : Nat := 1024

/-- `IOKERNEL_CONTROL_BURST_SIZE` -/
def iokernelControlBurstSize : Nat := 4

/-- `CONTROL_DATAPLANE_QUEUE_SIZE` -/
def controlDataplaneQueueSize : Nat := 128

/-- `ETH_ADDR_GROUP` -/
def ethAddrGroup : Nat := 0x01

/-- `eth_addr_is_multicast` -/
def ethAddrIsMulticast (mac : Nat) : Bool := mac % 256 &&& ethAddrGroup != 0

/-- `eth_addr_is_zero` -/
def ethAddrIsZero (mac : Nat) : Bool := mac == 0

/-- `lrpc_send` on a channel between the planes, as the queue of its unread messages. -/
def chanSend {α : Type} (q : List α) (x : α) : Option (List α) :=
  if q.length < controlDataplaneQueueSize then some (q ++ [x]) else none

/-- The commands of the control plane to the dataplane, with the proc they point to. -/
inductive DpCmd
  /-- `DATAPLANE_ADD_CLIENT` -/
  | addClient (p : Nat)
  /-- `DATAPLANE_REMOVE_CLIENT` -/
  | removeClient (p : Nat)
deriving DecidableEq, Repr

/-- What `control_create_proc` takes from a client's `struct control_hdr`; `hasDirectpath` is
what its thread specs enable. -/
structure ControlHdr where
  guaranteedCores : UInt32
  mac : Nat
  hasDirectpath : Bool
deriving DecidableEq, Repr

/-- The fields of a `struct proc` the two planes read and write. -/
structure ClientProc where
  guaranteedCores : UInt32
  mac : Nat
  hasDirectpath : Bool
  ref : Nat
  removed : Bool
  attachFail : Bool
  kill : Bool
deriving DecidableEq, Repr

/-- The clients, as the two planes and the channels between them hold them. -/
structure Ctl where
  /-- `bitmap_popcount(sched_allowed_cores, NCPU)` -/
  allowedCount : Nat
  procs : Nat → ClientProc
  /-- the proc the next `control_create_proc` that succeeds returns -/
  nextProc : Nat
  /-- `clients[0 .. nr_clients)`, each with its socket -/
  clients : List Nat
  /-- `nr_guaranteed`, an `int` added to `unsigned int` values -/
  nrGuaranteed : UInt32
  /-- `lrpc_control_to_data` -/
  controlToData : List DpCmd
  /-- `lrpc_data_to_control`: the procs of its `CONTROL_PLANE_REMOVE_CLIENT` messages -/
  dataToControl : List Nat
  /-- `dp.clients[0 .. dp.nr_clients)`: the procs attached to the scheduler -/
  dpClients : List Nat
  /-- `dp.mac_to_proc` -/
  macToProc : Nat → Option Nat
  /-- the references of the dataplane's polled threads and transmissions -/
  held : Nat → Nat
  /-- the procs `control_destroy_proc` has freed, in order -/
  destroyed : List Nat

namespace Ctl

def modifyProc (s : Ctl) (p : Nat) (f : ClientProc → ClientProc) : Ctl :=
  { s with procs := Function.update s.procs p (f (s.procs p)) }

/-- `control_create_proc`, where `ok` says whether the shared region, its header and the tables
it points to can be read: the checks on the header's values, then the new proc with one
reference. -/
def controlCreateProc (s : Ctl) (hdr : ControlHdr) (ok : Bool) : Option (Ctl × Nat) :=
  if !ok then none
  -- `guaranteed_cores + nr_guaranteed` is an `unsigned int` sum
  else if s.allowedCount < (hdr.guaranteedCores + s.nrGuaranteed).toNat then none
  else if ethAddrIsMulticast hdr.mac || ethAddrIsZero hdr.mac then none
  else
    let p := s.nextProc
    some ({ s with
      procs := Function.update s.procs p
        { guaranteedCores := hdr.guaranteedCores, mac := hdr.mac,
          hasDirectpath := hdr.hasDirectpath, ref := 1, removed := false,
          attachFail := false, kill := false }
      nextProc := p + 1
      nrGuaranteed := s.nrGuaranteed + hdr.guaranteedCores }, p)

/-- `control_destroy_proc` -/
def controlDestroyProc (s : Ctl) (p : Nat) : Ctl :=
  { s with
    nrGuaranteed := s.nrGuaranteed - (s.procs p).guaranteedCores
    destroyed := s.destroyed ++ [p] }

/-- `control_add_client` after its `accept`; `ok` says whether `getsockopt`, the two reads and
the reads of `control_create_proc` succeed. -/
def controlAddClient (s : Ctl) (hdr : ControlHdr) (ok : Bool) : Ctl :=
  if iokernelMaxProc ≤ s.clients.length then s
  else
    match s.controlCreateProc hdr ok with
    | none => s
    | some (s, p) =>
      match chanSend s.controlToData (.addClient p) with
      | none => s.controlDestroyProc p
      | some q => { s with controlToData := q, clients := s.clients ++ [p] }

/-- `control_instruct_dataplane_to_remove_client` for the socket of client `p`: a full channel
only logs. -/
def controlInstructDataplaneToRemoveClient (s : Ctl) (p : Nat) : Ctl :=
  if p ∉ s.clients then s
  else
    let s := s.modifyProc p fun c => { c with removed := true }
    match chanSend s.controlToData (.removeClient p) with
    | none => s
    | some q => { s with controlToData := q }

/-- `control_remove_client` -/
def controlRemoveClient (s : Ctl) (p : Nat) : Ctl :=
  if p ∉ s.clients then s
  else { s.controlDestroyProc p with clients := s.clients.erase p }

/-- `proc_release`: a full channel only logs. -/
def procRelease (s : Ctl) (p : Nat) : Ctl :=
  match chanSend s.dataToControl p with
  | none => s
  | some q => { s with dataToControl := q }

/-- `proc_put` -/
def procPut (s : Ctl) (p : Nat) : Ctl :=
  let s := s.modifyProc p fun c => { c with ref := c.ref - 1 }
  if (s.procs p).ref = 0 then s.procRelease p else s

/-- `dp_clients_add_client`, where `attachOk` is what `sched_attach_proc` answers. -/
def dpClientsAddClient (s : Ctl) (p : Nat) (attachOk : Bool) : Ctl :=
  if attachOk then
    let s := { s.modifyProc p (fun c => { c with kill := false }) with
      dpClients := s.dpClients ++ [p] }
    if !(s.procs p).hasDirectpath then
      { s with macToProc := Function.update s.macToProc (s.procs p).mac (some p) }
    else s
  else (s.modifyProc p fun c => { c with attachFail := true }).procPut p

/-- `dp_clients_remove_client`; `rte_hash_del_key` drops the MAC whatever proc it maps to. -/
def dpClientsRemoveClient (s : Ctl) (p : Nat) : Ctl :=
  if p ∉ s.dpClients then s
  else
    let s := { s with dpClients := s.dpClients.erase p }
    let s := if !(s.procs p).hasDirectpath then
        { s with macToProc := Function.update s.macToProc (s.procs p).mac none }
      else s
    (s.modifyProc p fun c => { c with kill := true }).procPut p

/-- One command of `dp_clients_rx_control_lrpcs`. -/
def dpClientsRxOne (s : Ctl) (attachOk : Nat → Bool) : DpCmd → Ctl
  | .addClient p => s.dpClientsAddClient p (attachOk p)
  | .removeClient p => s.dpClientsRemoveClient p

/-- The loop of `dp_clients_rx_control_lrpcs`, with `n` more commands allowed. -/
def dpClientsRxLoop (attachOk : Nat → Bool) : Nat → Ctl → Ctl
  | 0, s => s
  | n + 1, s =>
    match s.controlToData with
    | [] => s
    | cmd :: rest => dpClientsRxLoop attachOk n ({ s with controlToData := rest }.dpClientsRxOne attachOk cmd)

/-- `dp_clients_rx_control_lrpcs` -/
def dpClientsRxControlLrpcs (s : Ctl) (attachOk : Nat → Bool) : Ctl :=
  dpClientsRxLoop attachOk iokernelControlBurstSize s

/-- A reference taken by the dataplane for a thread it polls or a packet it sends. -/
def procGetHeld (s : Ctl) (p : Nat) : Ctl :=
  { s.modifyProc p (fun c => { c with ref := c.ref + 1 }) with
    held := Function.update s.held p (s.held p + 1) }

/-- `unpoll_thread` or the end of a transmission: `proc_put` of a reference so taken. -/
def procPutHeld (s : Ctl) (p : Nat) : Ctl :=
  { s with held := Function.update s.held p (s.held p - 1) }.procPut p

/-- The planes before any client, on a machine of `allowedCount` allowed cores. -/
def init (allowedCount : Nat) : Ctl where
  allowedCount := allowedCount
  procs := fun _ => ⟨0, 0, false, 0, false, false, false⟩
  nextProc := 0
  clients := []
  nrGuaranteed := 0
  controlToData := []
  dataToControl := []
  dpClients := []
  macToProc := fun _ => none
  held := fun _ => 0
  destroyed := []

end Ctl

/-- What happens to the clients, on either plane. -/
inductive CtlOp
  /-- a connection on the control socket, with the header of its region -/
  | accept (hdr : ControlHdr) (ok : Bool)
  /-- the socket of client `p` reads as closed in `control_loop` -/
  | close (p : Nat)
  /-- `control_loop` takes one `CONTROL_PLANE_REMOVE_CLIENT` -/
  | controlRecv
  /-- `dp_clients_rx_control_lrpcs`, with what `sched_attach_proc` answers for each proc -/
  | dpPoll (attachOk : Nat → Bool)
  /-- the dataplane takes a reference to a proc it holds -/
  | procGet (p : Nat)
  /-- the dataplane drops a reference it took -/
  | procPut (p : Nat)

/-- One step of the two planes. `control_loop` selects only the sockets of clients not marked
`removed`; the dataplane takes references only to procs it has attached or already holds. -/
def ctlStep (s : Ctl) : CtlOp → Option Ctl
  | .accept hdr ok => some (s.controlAddClient hdr ok)
  | .close p =>
    if p ∈ s.clients ∧ (s.procs p).removed = false then
      some (s.controlInstructDataplaneToRemoveClient p)
    else none
  | .controlRecv =>
    match s.dataToControl with
    | [] => none
    | p :: rest => some ({ s with dataToControl := rest }.controlRemoveClient p)
  | .dpPoll attachOk => some (s.dpClientsRxControlLrpcs attachOk)
  | .procGet p => if 0 < s.held p ∨ p ∈ s.dpClients then some (s.procGetHeld p) else none
  | .procPut p => if 0 < s.held p then some (s.procPutHeld p) else none

theorem mem_of_chanSend {α : Type} {l l' : List α} {x y : α} (h : chanSend l x = some l')
    (hy : y ∈ l') : y ∈ l ∨ y = x := by
  unfold chanSend at h
  split_ifs at h
  cases h
  simpa using hy

namespace Ctl

variable {s t : Ctl} {p q : Nat}

/-! ## What each function changes -/

@[simp] theorem modifyProc_procs_self {f : ClientProc → ClientProc} :
    (s.modifyProc q f).procs q = f (s.procs q) := by
  simp [modifyProc]

theorem modifyProc_procs_of_ne {f : ClientProc → ClientProc} (h : p ≠ q) :
    (s.modifyProc q f).procs p = s.procs p := by
  simp [modifyProc, Function.update_of_ne h]

/-- `proc_release` only sends. -/
theorem procRelease_eq (s : Ctl) (q : Nat) :
    ∃ l, s.procRelease q = { s with dataToControl := l } ∧
      ∀ x ∈ l, x ∈ s.dataToControl ∨ x = q := by
  unfold procRelease
  split
  · exact ⟨s.dataToControl, rfl, fun x hx => .inl hx⟩
  · rename_i l hl
    exact ⟨l, rfl, fun x hx => mem_of_chanSend hl hx⟩

/-- `proc_put` changes the proc's count and may send. -/
theorem procPut_eq (s : Ctl) (q : Nat) :
    ∃ l, s.procPut q = { s.modifyProc q (fun c => { c with ref := c.ref - 1 }) with
      dataToControl := l } ∧ ∀ x ∈ l, x ∈ s.dataToControl ∨ x = q := by
  dsimp only [procPut]
  split_ifs
  · exact procRelease_eq _ q
  · exact ⟨s.dataToControl, rfl, fun x hx => .inl hx⟩

/-! ## A client that nothing removes -/

/-- Client `p` is attached and marked `removed`, and neither channel carries a message about it:
its socket is no longer selected, so no command to remove it will ever be sent. -/
structure Stranded (s : Ctl) (p : Nat) : Prop where
  lt : p < s.nextProc
  client : p ∈ s.clients
  attached : p ∈ s.dpClients
  removed : (s.procs p).removed = true
  no_add : DpCmd.addClient p ∉ s.controlToData
  no_remove : DpCmd.removeClient p ∉ s.controlToData
  no_release : p ∉ s.dataToControl
  ref : (s.procs p).ref = s.held p + 1
  not_destroyed : p ∉ s.destroyed

instance (s : Ctl) (p : Nat) : Decidable (s.Stranded p) :=
  decidable_of_iff (p < s.nextProc ∧ p ∈ s.clients ∧ p ∈ s.dpClients ∧
      (s.procs p).removed = true ∧ DpCmd.addClient p ∉ s.controlToData ∧
      DpCmd.removeClient p ∉ s.controlToData ∧ p ∉ s.dataToControl ∧
      (s.procs p).ref = s.held p + 1 ∧ p ∉ s.destroyed)
    ⟨fun ⟨h1, h2, h3, h4, h5, h6, h7, h8, h9⟩ => ⟨h1, h2, h3, h4, h5, h6, h7, h8, h9⟩,
      fun ⟨h1, h2, h3, h4, h5, h6, h7, h8, h9⟩ => ⟨h1, h2, h3, h4, h5, h6, h7, h8, h9⟩⟩

/-- The step every lemma below makes: `p`'s record is kept, and what the channels and the
history gain is about other procs. -/
theorem Stranded.frame (h : s.Stranded p) (hlt : s.nextProc ≤ t.nextProc)
    (hcl : p ∈ t.clients) (hdp : p ∈ t.dpClients) (hproc : t.procs p = s.procs p)
    (hheld : t.held p = s.held p)
    (hring : ∀ c ∈ t.controlToData, c ∈ s.controlToData ∨ (c ≠ .addClient p ∧ c ≠ .removeClient p))
    (hrel : ∀ x ∈ t.dataToControl, x ∈ s.dataToControl ∨ x ≠ p)
    (hdes : ∀ x ∈ t.destroyed, x ∈ s.destroyed ∨ x ≠ p) : t.Stranded p where
  lt := lt_of_lt_of_le h.lt hlt
  client := hcl
  attached := hdp
  removed := hproc ▸ h.removed
  no_add hm := (hring _ hm).elim h.no_add fun hne => hne.1 rfl
  no_remove hm := (hring _ hm).elim h.no_remove fun hne => hne.2 rfl
  no_release hm := (hrel _ hm).elim h.no_release fun hne => hne rfl
  ref := by rw [hproc, hheld, h.ref]
  not_destroyed hm := (hdes _ hm).elim h.not_destroyed fun hne => hne rfl

/-- A change of another proc's record, of `dp.clients` keeping `p`, or of `mac_to_proc`. -/
theorem Stranded.records (h : s.Stranded p) {procs : Nat → ClientProc} {dp : List Nat}
    {macs : Nat → Option Nat} (hproc : procs p = s.procs p) (hdp : p ∈ dp) :
    Ctl.Stranded { s with procs := procs, dpClients := dp, macToProc := macs } p :=
  h.frame le_rfl h.client hdp hproc rfl (fun _ => .inl) (fun _ => .inl)
    (fun _ => .inl)

theorem Stranded.modifyProc (h : s.Stranded p) (hq : q ≠ p) {f : ClientProc → ClientProc} :
    (s.modifyProc q f).Stranded p :=
  h.records (modifyProc_procs_of_ne hq.symm) h.attached

theorem Stranded.procPut (h : s.Stranded p) (hq : q ≠ p) : (s.procPut q).Stranded p := by
  obtain ⟨l, he, hl⟩ := procPut_eq s q
  rw [he]
  dsimp only
  refine (h.modifyProc hq (f := fun c => { c with ref := c.ref - 1 })).frame le_rfl h.client h.attached rfl rfl
    (fun _ => .inl) (fun x hx => ?_) (fun _ => .inl)
  rcases hl x hx with hx | rfl
  · exact .inl hx
  · exact .inr hq

theorem Stranded.controlDestroyProc (h : s.Stranded p) (hq : q ≠ p) :
    (s.controlDestroyProc q).Stranded p :=
  h.frame le_rfl h.client h.attached rfl rfl (fun _ => .inl) (fun _ => .inl)
    (fun x hx => by
      simp only [Ctl.controlDestroyProc, List.mem_append, List.mem_singleton] at hx
      rcases hx with hx | rfl
      · exact .inl hx
      · exact .inr hq)

/-- A new client is another proc. -/
theorem Stranded.controlAddClient (h : s.Stranded p) (hdr : ControlHdr) (ok : Bool) :
    (s.controlAddClient hdr ok).Stranded p := by
  unfold Ctl.controlAddClient Ctl.controlCreateProc
  split_ifs with hfull hok hcnt hmac
  · exact h
  · exact h
  · exact h
  · exact h
  · -- the new proc is `s.nextProc`, past `p`
    have hne : s.nextProc ≠ p := by
      have := h.lt
      omega
    have h₁ : Ctl.Stranded { s with
        procs := Function.update s.procs s.nextProc
          { guaranteedCores := hdr.guaranteedCores, mac := hdr.mac,
            hasDirectpath := hdr.hasDirectpath, ref := 1, removed := false,
            attachFail := false, kill := false }
        nextProc := s.nextProc + 1
        nrGuaranteed := s.nrGuaranteed + hdr.guaranteedCores } p :=
      h.frame (Nat.le_succ _) h.client h.attached (Function.update_of_ne hne.symm _ _) rfl
        (fun _ => .inl) (fun _ => .inl) (fun _ => .inl)
    dsimp only
    split
    · exact h₁.controlDestroyProc hne
    · rename_i l hl
      refine h₁.frame le_rfl (List.mem_append_left _ h.client) h.attached rfl rfl
        (fun c hc => ?_) (fun _ => .inl) (fun _ => .inl)
      rcases mem_of_chanSend hl hc with hc | rfl
      · exact .inl hc
      · exact .inr ⟨fun he => hne (DpCmd.addClient.inj he), DpCmd.noConfusion⟩

theorem Stranded.controlInstructDataplaneToRemoveClient (h : s.Stranded p) (hq : q ≠ p) :
    (s.controlInstructDataplaneToRemoveClient q).Stranded p := by
  unfold Ctl.controlInstructDataplaneToRemoveClient
  split_ifs
  · have h₁ := h.modifyProc hq (f := fun c => { c with removed := true })
    dsimp only
    split
    · exact h₁
    · rename_i l hl
      refine h₁.frame le_rfl h.client h.attached rfl rfl (fun c hc => ?_) (fun _ => .inl)
        (fun _ => .inl)
      rcases mem_of_chanSend hl hc with hc | rfl
      · exact .inl hc
      · exact .inr ⟨DpCmd.noConfusion, fun he => hq (DpCmd.removeClient.inj he)⟩
  · exact h

theorem Stranded.controlRemoveClient (h : s.Stranded p) (hq : q ≠ p) :
    (s.controlRemoveClient q).Stranded p := by
  unfold Ctl.controlRemoveClient
  split_ifs
  · exact (h.controlDestroyProc hq).frame le_rfl ((List.mem_erase_of_ne hq.symm).mpr h.client)
      h.attached rfl rfl (fun _ => .inl) (fun _ => .inl) (fun _ => .inl)
  · exact h

theorem Stranded.dpClientsAddClient (h : s.Stranded p) (hq : q ≠ p) (ok : Bool) :
    (s.dpClientsAddClient q ok).Stranded p := by
  unfold Ctl.dpClientsAddClient
  split_ifs
  · have h₁ : Ctl.Stranded { s.modifyProc q (fun c => { c with kill := false }) with
        dpClients := s.dpClients ++ [q] } p :=
      (h.modifyProc hq).records rfl (List.mem_append_left _ h.attached)
    dsimp only
    split_ifs
    · exact h₁.records rfl h₁.attached
    · exact h₁
  · exact (h.modifyProc hq).procPut hq

theorem Stranded.dpClientsRemoveClient (h : s.Stranded p) (hq : q ≠ p) :
    (s.dpClientsRemoveClient q).Stranded p := by
  unfold Ctl.dpClientsRemoveClient
  split_ifs
  · have h₁ : Ctl.Stranded { s with dpClients := s.dpClients.erase q } p :=
      h.records rfl ((List.mem_erase_of_ne hq.symm).mpr h.attached)
    dsimp only
    split_ifs
    · exact ((h₁.records rfl h₁.attached).modifyProc hq).procPut hq
    · exact (h₁.modifyProc hq).procPut hq
  · exact h

/-- Taking the head command off the channel. -/
theorem Stranded.pop {cmd : DpCmd} {rest : List DpCmd} (h : s.Stranded p)
    (hq : s.controlToData = cmd :: rest) : Ctl.Stranded { s with controlToData := rest } p :=
  h.frame le_rfl h.client h.attached rfl rfl (fun _ hc => .inl (hq ▸ List.mem_cons_of_mem _ hc))
    (fun _ => .inl) (fun _ => .inl)

/-- The dataplane's loop meets no command about `p`. -/
theorem Stranded.dpClientsRxLoop (attachOk : Nat → Bool) :
    ∀ n {s : Ctl}, s.Stranded p → (Ctl.dpClientsRxLoop attachOk n s).Stranded p
  | 0, _, h => h
  | n + 1, s, h => by
    unfold Ctl.dpClientsRxLoop
    split
    · exact h
    · rename_i cmd rest hq
      have hpop := h.pop hq
      apply Stranded.dpClientsRxLoop attachOk n
      cases cmd with
      | addClient q =>
        have hne : q ≠ p := by
          rintro rfl
          exact h.no_add (hq ▸ List.mem_cons_self)
        exact hpop.dpClientsAddClient hne _
      | removeClient q =>
        have hne : q ≠ p := by
          rintro rfl
          exact h.no_remove (hq ▸ List.mem_cons_self)
        exact hpop.dpClientsRemoveClient hne

theorem Stranded.procGetHeld (h : s.Stranded p) (q : Nat) : (s.procGetHeld q).Stranded p := by
  by_cases hq : q = p
  · subst hq
    refine ⟨h.lt, h.client, h.attached, by simpa [Ctl.procGetHeld] using h.removed, h.no_add,
      h.no_remove, h.no_release, ?_, h.not_destroyed⟩
    simp [Ctl.procGetHeld, h.ref]
  · exact h.frame le_rfl h.client h.attached
      (by simp [Ctl.procGetHeld, modifyProc_procs_of_ne (Ne.symm hq)])
      (Function.update_of_ne (Ne.symm hq) _ _) (fun _ => .inl) (fun _ => .inl)
      (fun _ => .inl)

/-- A reference the dataplane drops is never the last one while it keeps `p` attached. -/
theorem Stranded.procPutHeld (h : s.Stranded p) (hpos : 0 < s.held q) :
    (s.procPutHeld q).Stranded p := by
  by_cases hq : q = p
  · subst hq
    dsimp only [Ctl.procPutHeld, Ctl.procPut]
    rw [if_neg (by simp [Ctl.modifyProc, h.ref]; omega)]
    refine ⟨h.lt, h.client, h.attached, by simpa [Ctl.modifyProc] using h.removed, h.no_add,
      h.no_remove, h.no_release, ?_, h.not_destroyed⟩
    simp only [Ctl.modifyProc, Function.update_self, h.ref]
    omega
  · have h₁ := h.frame (t := { s with held := Function.update s.held q (s.held q - 1) }) le_rfl
      h.client h.attached rfl (Function.update_of_ne (Ne.symm hq) _ _) (fun _ => .inl)
      (fun _ => .inl) (fun _ => .inl)
    exact h₁.procPut hq

end Ctl

open Ctl

/-- No step removes a stranded client: the dataplane keeps it attached and the control plane
never frees it. -/
theorem ctlStep_stranded (p : Nat) : StepRun.Invariant ctlStep (fun s => s.Stranded p) := by
  intro s op s' h hs
  cases op with
  | accept hdr ok =>
    cases hs
    exact h.controlAddClient hdr ok
  | close q =>
    obtain ⟨hq, hs⟩ := Option.ite_none_right_eq_some.mp hs
    cases hs
    -- the socket of `p` is no longer selected
    have hne : q ≠ p := by
      rintro rfl
      simp [h.removed] at hq
    exact h.controlInstructDataplaneToRemoveClient hne
  | controlRecv =>
    simp only [ctlStep] at hs
    split at hs
    · cases hs
    · rename_i q rest hq
      cases hs
      have hne : q ≠ p := by
        rintro rfl
        exact h.no_release (hq ▸ List.mem_cons_self)
      have h₁ : Ctl.Stranded { s with dataToControl := rest } p :=
        h.frame le_rfl h.client h.attached rfl rfl (fun _ => .inl)
          (fun x hx => .inl (hq ▸ List.mem_cons_of_mem _ hx)) (fun _ => .inl)
      exact h₁.controlRemoveClient hne
  | dpPoll attachOk =>
    cases hs
    exact h.dpClientsRxLoop attachOk _
  | procGet q =>
    obtain ⟨-, hs⟩ := Option.ite_none_right_eq_some.mp hs
    cases hs
    exact h.procGetHeld q
  | procPut q =>
    obtain ⟨hpos, hs⟩ := Option.ite_none_right_eq_some.mp hs
    cases hs
    exact h.procPutHeld hpos

/-- A client header with MAC `mac`, no guaranteed cores and no directpath queues. -/
def ctlHdr (mac : Nat) : ControlHdr := ⟨0, mac, false⟩

/-- A client attached, then 128 more connecting while the dataplane is busy with packets and
does not read its channel. -/
def ctlFullTrace : List CtlOp :=
  [.accept (ctlHdr 2) true, .dpPoll fun _ => true] ++
    (List.range 128).map fun i => .accept (ctlHdr (2 * i + 4)) true

/-- Two clients with the same MAC, attached. -/
def ctlSameMacTrace : List CtlOp :=
  [.accept (ctlHdr 2) true, .accept (ctlHdr 2) true, .dpPoll fun _ => true]

/-- A closed socket whose `DATAPLANE_REMOVE_CLIENT` meets a full channel is never acted on: the
client is marked `removed`, so its socket is not selected again, and on every later run the proc
stays attached to the scheduler with its cores and is never freed. Apart from that, two clients
may give the same MAC: the second one takes the key of `mac_to_proc`, and the first, attached
and without directpath, is no longer reached through it. -/
theorem ctl_remove_dropped_strands_client :
    (∃ s, StepRun.run ctlStep (Ctl.init 8) ctlFullTrace = some s ∧ 0 ∈ s.dpClients ∧
      controlDataplaneQueueSize ≤ s.controlToData.length ∧
      ∃ s₁, ctlStep s (.close 0) = some s₁ ∧ (s₁.procs 0).removed = true ∧
        ∀ ops s', StepRun.run ctlStep s₁ ops = some s' →
          0 ∈ s'.dpClients ∧ 0 ∉ s'.destroyed ∧ ctlStep s' (.close 0) = none) ∧
    (∃ s, StepRun.run ctlStep (Ctl.init 8) ctlSameMacTrace = some s ∧ 0 ∈ s.dpClients ∧
      (s.procs 0).hasDirectpath = false ∧ (s.procs 0).mac = (s.procs 1).mac ∧
      s.macToProc (s.procs 0).mac = some 1) := by
  refine ⟨?_, ?_⟩
  · have hfull : (StepRun.run ctlStep (Ctl.init 8) ctlFullTrace).map
        (fun s => (decide (0 ∈ s.dpClients), s.controlToData.length)) = some (true, 128) := by
      decide +kernel
    have hclose : (StepRun.run ctlStep (Ctl.init 8) (ctlFullTrace ++ [.close 0])).map
        (fun s => decide (s.Stranded 0)) = some true := by
      decide +kernel
    obtain ⟨s₁, hrun₁, hs₁⟩ := Option.map_eq_some_iff.mp hclose
    obtain ⟨s, hrun, hstep⟩ := StepRun.run_snoc_eq_some.mp hrun₁
    obtain ⟨s₀, hrun₀, h₀⟩ := Option.map_eq_some_iff.mp hfull
    rw [hrun, Option.some.injEq] at hrun₀
    subst hrun₀
    obtain ⟨hdp, hlen⟩ := Prod.mk.inj h₀
    have h₁ : s₁.Stranded 0 := of_decide_eq_true hs₁
    refine ⟨s, hrun, of_decide_eq_true hdp, by rw [hlen]; decide, s₁, hstep, h₁.removed,
      fun ops s' hrun' => ?_⟩
    -- from there on the client stays stranded
    have h' := (ctlStep_stranded 0).run h₁ hrun'
    refine ⟨h'.attached, h'.not_destroyed, ?_⟩
    simp [ctlStep, h'.removed]
  · have hsum : (StepRun.run ctlStep (Ctl.init 8) ctlSameMacTrace).map
        (fun s => (decide (0 ∈ s.dpClients), (s.procs 0).hasDirectpath,
          decide ((s.procs 0).mac = (s.procs 1).mac), s.macToProc (s.procs 0).mac)) =
        some (true, false, true, some 1) := by
      decide +kernel
    obtain ⟨s, hrun, hs⟩ := Option.map_eq_some_iff.mp hsum
    simp only [Prod.mk.injEq, decide_eq_true_eq] at hs
    exact ⟨s, hrun, hs⟩

end Caladan
