import Mathlib
import Caladan.Lib.Run

/-!
# DAGOR server admission (`breakwater/src/dg_server.c`)

A DAGOR server takes a slot of `s->avail_slots` for each `CALL` and compares the request's
priority with `dagor_prio_thresh`. A request above the threshold is answered at once with
`DG_SFLAG_DROP`: its slot is marked completed for the sender. Any other request is counted in
`s->num_pending` and `srpc_num_pending` and handed to a new `srpc_worker`. The sender takes the
completed slots, subtracts their number from `s->num_pending` under the lock, and after the
response vector from `srpc_num_pending`; the teardown of the session subtracts what is left.

The actors and steps are those of `Caladan.Breakwater.Server`: a session's receive loop, its
sender and its workers, each step one critical section under `s->lock` or one atomic operation
on a global, with the slot bitmaps kept by their population count and the completed slots by their
`drop` flags. Whether a request's priority is above the threshold, and whether its payload could
be read, are inputs. A ghost counter records the priority drops the sender has taken.
-/

namespace Caladan

/-- `SDG_MAX_WINDOW` -/
def sdgMaxWindow : Nat := 64

/-- Where `srpc_sender` is. -/
inductive DgSenderPc
  /-- At the top of its loop, parked until the session closes or a slot completes. -/
  | wait
  /-- Took the completed slots, with their `drop` flags; about to send their responses. -/
  | respond (tmp : List Bool)
  /-- The session closed: waiting for the slots in flight before it exits. -/
  | close
  | done
deriving DecidableEq, Repr

/-- Where `srpc_server` is, for its session. -/
inductive DgServerPc
  /-- In `srpc_recv_one`, reading the next header. -/
  | recv
  /-- A `CALL` holds a reserved slot; its payload is being read. -/
  | call
  /-- `s->num_pending++` is done; next, `atomic_inc(&srpc_num_pending)` and the worker. -/
  | spawn
  /-- `srpc_recv_one` failed: about to tear the session down. -/
  | teardown
  /-- Torn down; about to decrement `srpc_num_sess`. -/
  | leave
  /-- Waiting for the sender to finish. -/
  | wait
  | exited
deriving DecidableEq, Repr

/-- `struct sdg_session`, with the pcs of its receive loop and sender. -/
structure DgSession where
  numPending : Int
  /-- `bitmap_popcount(s->avail_slots)` -/
  avail : Nat
  closed : Bool
  /-- The set bits of `s->completed_slots`, each with its slot's `drop` flag. -/
  completed : List Bool
  /-- `srpc_worker` threads spawned for this session and not yet done. -/
  running : Nat
  sender : DgSenderPc
  server : DgServerPc
  /-- The priority drops whose completion the sender has taken. -/
  dropsTaken : Nat
deriving DecidableEq, Repr

/-- A session as `srpc_server` sets it up: zeroed, every slot free. -/
def DgSession.fresh : DgSession := ⟨0, sdgMaxWindow, false, [], 0, .wait, .recv, 0⟩

/-- The server's globals and its sessions. -/
structure DgServer where
  sess : List DgSession
  /-- `srpc_num_sess` -/
  numSess : Int
  /-- `srpc_num_pending` -/
  numPending : Int
deriving DecidableEq, Repr

namespace DgServer

def init : DgServer := ⟨[], 0, 0⟩

/-- Session `i`. -/
def get (st : DgServer) (i : Nat) : DgSession := st.sess.getD i .fresh

/-- Write session `i`. -/
def set (st : DgServer) (i : Nat) (s : DgSession) : DgServer := { st with sess := st.sess.set i s }

/-- Session `i` exists and `p` holds of it. -/
def holds (st : DgServer) (i : Nat) (p : DgSession → Bool) : Bool :=
  i < st.sess.length && p (st.get i)

/-- `srpc_server` for a new connection: it allocates the session, counts it and spawns its
sender. -/
def serverStart (st : DgServer) : DgServer :=
  { st with sess := st.sess ++ [.fresh], numSess := st.numSess + 1 }

/-- The rest of a `CALL` in `srpc_recv_one` once its slot is reserved: `ok` is whether its payload
was read, `drop` whether `chdr.prio > dagor_prio_thresh`. A dropped request is marked completed
under the lock; a kept one is counted in `s->num_pending` under the lock. -/
def recvCall (st : DgServer) (i : Nat) (drop ok : Bool) : DgServer :=
  let s := st.get i
  if !ok then st.set i { s with avail := s.avail + 1, server := .teardown }
  else if drop then st.set i { s with completed := s.completed ++ [true], server := .recv }
  else st.set i { s with numPending := s.numPending + 1, server := .spawn }

/-- `atomic_inc(&srpc_num_pending)` and `thread_spawn(srpc_worker, ...)`. -/
def recvAdmit (st : DgServer) (i : Nat) : DgServer :=
  { st with numPending := st.numPending + 1 }.set i
    { st.get i with running := (st.get i).running + 1, server := .recv }

/-- The teardown critical section of `srpc_server` after `srpc_recv_one` failed. -/
def teardown (st : DgServer) (i : Nat) : DgServer :=
  let s := st.get i
  { st with numPending := st.numPending - s.numPending }.set i
    { s with closed := true, numPending := 0, server := .leave }

/-- The critical section of `srpc_sender` once it is woken and the session is open: it takes the
completed slots and subtracts their number from `s->num_pending`. -/
def senderWake (st : DgServer) (i : Nat) : DgServer :=
  let s := st.get i
  st.set i { s with
    completed := []
    numPending := s.numPending - s.completed.length
    dropsTaken := s.dropsTaken + s.completed.count true
    sender := .respond s.completed }

/-- `srpc_send_completion_vector` for the slots `tmp`: the slot puts, then `srpc_num_pending`
less one per header. -/
def srpcSendCompletionVector (st : DgServer) (i : Nat) (tmp : List Bool) : DgServer :=
  { st with numPending := st.numPending - tmp.length }.set i
    { st.get i with avail := (st.get i).avail + tmp.length, sender := .wait }

end DgServer

/-- The steps of the server's actors; each names the session it acts for. -/
inductive DgOp
  | serverStart
  /-- `srpc_get_slot` for a `CALL`. -/
  | recvSlot (i : Nat)
  | recvCall (i : Nat) (drop ok : Bool)
  | recvAdmit (i : Nat)
  /-- `srpc_recv_one` failed on a header. -/
  | recvFail (i : Nat)
  | serverTeardown (i : Nat)
  | serverLeave (i : Nat)
  | serverFree (i : Nat)
  | workerDone (i : Nat)
  | senderWake (i : Nat)
  | senderRespond (i : Nat)
  | senderClose (i : Nat)
deriving DecidableEq, Repr

open DgServer in
/-- One step of the server, or `none` where the actor cannot take it. -/
def dgStep (st : DgServer) : DgOp → Option DgServer
  | .serverStart => some st.serverStart
  | .recvSlot i =>
    if st.holds i fun s => s.server == .recv && 0 < s.avail then
      some (st.set i { st.get i with avail := (st.get i).avail - 1, server := .call })
    else none
  | .recvCall i drop ok =>
    if st.holds i (·.server == .call) then some (st.recvCall i drop ok) else none
  | .recvAdmit i => if st.holds i (·.server == .spawn) then some (st.recvAdmit i) else none
  | .recvFail i =>
    if st.holds i (·.server == .recv) then some (st.set i { st.get i with server := .teardown })
    else none
  | .serverTeardown i =>
    if st.holds i (·.server == .teardown) then some (st.teardown i) else none
  | .serverLeave i =>
    if st.holds i (·.server == .leave) then
      some ({ st with numSess := st.numSess - 1 }.set i { st.get i with server := .wait })
    else none
  | .serverFree i =>
    if st.holds i fun s => s.server == .wait && s.sender == .done then
      some (st.set i { st.get i with server := .exited })
    else none
  | .workerDone i =>
    if st.holds i (0 < ·.running) then
      some (st.set i { st.get i with
        running := (st.get i).running - 1, completed := (st.get i).completed ++ [false] })
    else none
  | .senderWake i =>
    -- the sender sleeps while the session is open and no slot has completed
    if st.holds i fun s => s.sender == .wait && (s.closed || !s.completed.isEmpty) then
      if (st.get i).closed then some (st.set i { st.get i with sender := .close })
      else some (st.senderWake i)
    else none
  | .senderRespond i =>
    match (st.get i).sender with
    | .respond tmp =>
      if i < st.sess.length then some (st.srpcSendCompletionVector i tmp) else none
    | _ => none
  | .senderClose i =>
    -- it waits until every slot is free or completed, then puts the ones left over
    if st.holds i fun s => s.sender == .close && s.avail + s.completed.length == sdgMaxWindow then
      some (st.set i { st.get i with avail := sdgMaxWindow, sender := .done })
    else none

namespace DgSession

/-- The responses the sender has taken and not yet subtracted from `srpc_num_pending`. -/
def owed (s : DgSession) : Int :=
  match s.sender with
  | .respond tmp => tmp.length
  | _ => 0

/-- One while `s->num_pending` counts a request that `srpc_num_pending` does not count yet. -/
def admitting (s : DgSession) : Int := if s.server = .spawn then 1 else 0

/-- The session's part of `srpc_num_pending`. -/
def share (s : DgSession) : Int := s.numPending - s.admitting + s.owed

/-- The completed slots of requests a worker served. -/
def kept (s : DgSession) : Nat := s.completed.count false

/-- While the session is open, `s->num_pending` is the number of admitted requests whose
completion the sender has not taken, less the priority drops it has taken. -/
def Counted (s : DgSession) : Prop :=
  s.closed = false → s.numPending + s.dropsTaken = s.running + s.admitting + s.kept

/-- What the two accountings read of a session. -/
def books (s : DgSession) : Int × Int × Int × Nat × Nat × Nat × Bool :=
  (s.numPending, s.admitting, s.owed, s.dropsTaken, s.running, s.kept, s.closed)

variable {s s' : DgSession}

theorem share_of_books (h : s'.books = s.books) : s'.share = s.share := by
  simp only [books, Prod.mk.injEq] at h
  simp [share, h.1, h.2.1, h.2.2.1]

theorem Counted.of_books (hc : s.Counted) (h : s'.books = s.books) : s'.Counted := by
  simp only [books, Prod.mk.injEq] at h
  obtain ⟨hn, ha, -, hd, hr, hk, hcl⟩ := h
  intro hcl'
  rw [hn, ha, hd, hr, hk]
  exact hc (hcl ▸ hcl')

end DgSession

namespace DgServer

variable {st : DgServer} {i : Nat}

/-- `srpc_num_pending` is the sum of the sessions' parts. -/
def Accounted (st : DgServer) : Prop := st.numPending = (st.sess.map DgSession.share).sum

/-- The accounting of the whole server and of each session. -/
structure Ok (st : DgServer) : Prop where
  accounted : st.Accounted
  counted : ∀ s ∈ st.sess, s.Counted

theorem init_ok : init.Ok := ⟨rfl, fun _ h => absurd h List.not_mem_nil⟩

theorem get_eq (hi : i < st.sess.length) : st.get i = st.sess[i] := by
  simp [get, hi]

theorem get_mem (hi : i < st.sess.length) : st.get i ∈ st.sess := by
  rw [get_eq hi]
  exact List.getElem_mem hi

@[simp] theorem set_sess (s : DgSession) : (st.set i s).sess = st.sess.set i s := rfl
@[simp] theorem set_numPending (s : DgSession) : (st.set i s).numPending = st.numPending := rfl

theorem sum_share_set (hi : i < st.sess.length) (s : DgSession) :
    ((st.sess.set i s).map DgSession.share).sum =
      (st.sess.map DgSession.share).sum - (st.get i).share + s.share := by
  rw [List.map_set, List.sum_set', dif_pos (by simpa using hi), List.getElem_map, get_eq hi]
  ring

/-- A step that writes session `i` and moves `srpc_num_pending` by what the session's part moves
keeps the accounting. -/
theorem Ok.update (h : st.Ok) {st' : DgServer} {s : DgSession} {δ : Int}
    (hi : i < st.sess.length) (hsess : st'.sess = st.sess.set i s)
    (hnum : st'.numPending = st.numPending + δ) (hs : s.share = (st.get i).share + δ)
    (hc : (st.get i).Counted → s.Counted) : st'.Ok := by
  refine ⟨?_, fun x hx => ?_⟩
  · rw [Accounted, hnum, hsess, sum_share_set hi, hs, h.accounted]
    ring
  · rw [hsess] at hx
    rcases List.mem_or_eq_of_mem_set hx with hx | rfl
    · exact h.counted x hx
    · exact hc (h.counted _ (get_mem hi))

/-- A step that leaves what the accountings read of session `i` as it was. -/
theorem Ok.quiet (h : st.Ok) {st' : DgServer} {s : DgSession} (hi : i < st.sess.length)
    (hsess : st'.sess = st.sess.set i s) (hnum : st'.numPending = st.numPending)
    (hb : s.books = (st.get i).books) : st'.Ok :=
  h.update (δ := 0) hi hsess (by rw [hnum, add_zero])
    (by rw [DgSession.share_of_books hb, add_zero]) (·.of_books hb)

theorem Ok.serverStart (h : st.Ok) : st.serverStart.Ok := by
  refine ⟨?_, fun x hx => ?_⟩
  · simpa [Accounted, DgServer.serverStart, DgSession.share, DgSession.fresh,
      DgSession.admitting, DgSession.owed] using h.accounted
  · rcases List.mem_append.mp hx with hx | hx
    · exact h.counted x hx
    · rw [List.mem_singleton.mp hx]
      intro _
      simp [DgSession.fresh, DgSession.admitting, DgSession.kept]

theorem Ok.recvCall (h : st.Ok) (hi : i < st.sess.length) (hs : (st.get i).server = .call)
    (drop ok : Bool) : (st.recvCall i drop ok).Ok := by
  unfold DgServer.recvCall
  split_ifs
  · exact h.quiet hi rfl rfl (by simp [DgSession.books, DgSession.admitting, DgSession.owed,
      DgSession.kept, hs])
  · -- a priority drop is marked completed and counted nowhere
    exact h.quiet hi rfl rfl (by simp [DgSession.books, DgSession.admitting, DgSession.owed,
      DgSession.kept, hs])
  · -- a kept request is in `s->num_pending` and not yet in `srpc_num_pending`
    refine h.update (δ := 0) hi rfl (add_zero _).symm ?_ fun hc hcl => ?_
    · simp [DgSession.share, DgSession.admitting, DgSession.owed, hs]
    · have := hc hcl
      simp [DgSession.admitting, DgSession.kept, hs] at this ⊢
      omega

theorem Ok.recvAdmit (h : st.Ok) (hi : i < st.sess.length) (hs : (st.get i).server = .spawn) :
    (st.recvAdmit i).Ok := by
  refine h.update (δ := 1) hi rfl rfl ?_ fun hc hcl => ?_
  · simp [DgSession.share, DgSession.admitting, DgSession.owed, hs]
    ring
  · have := hc hcl
    simp [DgSession.admitting, DgSession.kept, hs] at this ⊢
    omega

theorem Ok.teardown (h : st.Ok) (hi : i < st.sess.length) (hs : (st.get i).server = .teardown) :
    (st.teardown i).Ok := by
  refine h.update (δ := -(st.get i).numPending) hi rfl (sub_eq_add_neg _ _) ?_
    fun _ hcl => by simp at hcl
  simp [DgSession.share, DgSession.admitting, DgSession.owed, hs]

/-- The sender takes the completed slots, drops included, off `s->num_pending`. -/
theorem Ok.senderWake (h : st.Ok) (hi : i < st.sess.length) (hs : (st.get i).sender = .wait) :
    (st.senderWake i).Ok := by
  refine h.update (δ := 0) hi rfl (add_zero _).symm ?_ fun hc hcl => ?_
  · simp [DgSession.share, DgSession.owed, DgSession.admitting, hs]
    ring
  · have := hc hcl
    have hlen := List.count_true_add_count_false (st.get i).completed
    simp only [DgSession.admitting, DgSession.kept, List.count_nil] at this ⊢
    push_cast
    omega

theorem Ok.srpcSendCompletionVector (h : st.Ok) (hi : i < st.sess.length) {tmp : List Bool}
    (hs : (st.get i).sender = .respond tmp) : (st.srpcSendCompletionVector i tmp).Ok :=
  h.update (δ := -tmp.length) hi rfl (sub_eq_add_neg _ _)
    (by simp [DgSession.share, DgSession.owed, DgSession.admitting, hs]) id

theorem holds_eq_true {p : DgSession → Bool} :
    st.holds i p = true ↔ i < st.sess.length ∧ p (st.get i) = true := by
  simp [holds]

/-- A step guarded by a condition on session `i` is taken only when the session exists and the
condition holds. -/
theorem guard_eq_some {p : DgSession → Bool} {x st' : DgServer}
    (h : (if st.holds i p then some x else none) = some st') :
    i < st.sess.length ∧ p (st.get i) = true ∧ st' = x := by
  split_ifs at h with hg
  obtain ⟨hi, hp⟩ := holds_eq_true.mp hg
  exact ⟨hi, hp, (Option.some.inj h).symm⟩

end DgServer

open DgServer DgSession in
theorem dgStep_ok : StepRun.Invariant dgStep DgServer.Ok := by
  intro st op st' h hs
  cases op with
  | serverStart =>
    cases hs
    exact h.serverStart
  | recvSlot i =>
    obtain ⟨hi, hg, rfl⟩ := guard_eq_some hs
    simp only [Bool.and_eq_true, beq_iff_eq, decide_eq_true_eq] at hg
    exact h.quiet hi rfl rfl (by simp [books, admitting, owed, kept, hg.1])
  | recvCall i drop ok =>
    obtain ⟨hi, hg, rfl⟩ := guard_eq_some hs
    exact h.recvCall hi (by simpa using hg) drop ok
  | recvAdmit i =>
    obtain ⟨hi, hg, rfl⟩ := guard_eq_some hs
    exact h.recvAdmit hi (by simpa using hg)
  | recvFail i =>
    obtain ⟨hi, hg, rfl⟩ := guard_eq_some hs
    exact h.quiet hi rfl rfl (by simp [books, admitting, owed, kept, by simpa using hg])
  | serverTeardown i =>
    obtain ⟨hi, hg, rfl⟩ := guard_eq_some hs
    exact h.teardown hi (by simpa using hg)
  | serverLeave i =>
    obtain ⟨hi, hg, rfl⟩ := guard_eq_some hs
    exact h.quiet hi rfl rfl (by simp [books, admitting, owed, kept, by simpa using hg])
  | serverFree i =>
    obtain ⟨hi, hg, rfl⟩ := guard_eq_some hs
    simp only [Bool.and_eq_true, beq_iff_eq] at hg
    exact h.quiet hi rfl rfl (by simp [books, admitting, owed, kept, hg.1])
  | workerDone i =>
    obtain ⟨hi, hg, rfl⟩ := guard_eq_some hs
    have hr : 0 < (st.get i).running := by simpa using hg
    -- a served request moves from the workers to the completed slots
    refine h.update (δ := 0) hi rfl (add_zero _).symm (by simp [share, owed, admitting])
      fun hc hcl => ?_
    have := hc hcl
    simp only [admitting, kept, List.count_append] at this ⊢
    simp at this ⊢
    omega
  | senderWake i =>
    simp only [dgStep] at hs
    split_ifs at hs with hg hcl
    · cases hs
      obtain ⟨hi, hg⟩ := holds_eq_true.mp hg
      simp only [Bool.and_eq_true, beq_iff_eq] at hg
      exact h.quiet hi rfl rfl (by simp [books, admitting, owed, kept, hg.1])
    · cases hs
      obtain ⟨hi, hg⟩ := holds_eq_true.mp hg
      simp only [Bool.and_eq_true, beq_iff_eq] at hg
      exact h.senderWake hi hg.1
  | senderRespond i =>
    simp only [dgStep] at hs
    split at hs
    · rename_i tmp hsend
      split_ifs at hs with hi
      cases hs
      exact h.srpcSendCompletionVector hi hsend
    · cases hs
  | senderClose i =>
    obtain ⟨hi, hg, rfl⟩ := guard_eq_some hs
    simp only [Bool.and_eq_true, beq_iff_eq] at hg
    exact h.quiet hi rfl rfl (by simp [books, admitting, owed, kept, hg.1])

/-- Over every run: `srpc_num_pending` is the sum over the sessions of `s->num_pending`, less a
request counted there and not yet globally, plus the responses the sender took and has not yet
subtracted; and while a session is open, `s->num_pending` is its admitted requests whose
completion the sender has not taken, less the priority drops the sender has taken. -/
theorem dgRun_accounting {st : DgServer} (ops : List DgOp)
    (hst : StepRun.run dgStep DgServer.init ops = some st) :
    st.numPending = (st.sess.map DgSession.share).sum ∧
    ∀ s ∈ st.sess, s.closed = false →
      s.numPending = s.running + s.admitting + s.kept - s.dropsTaken := by
  have h := dgStep_ok.run DgServer.init_ok hst
  refine ⟨h.accounted, fun s hs hcl => ?_⟩
  have := h.counted s hs hcl
  omega

/-- One session; one request above `dagor_prio_thresh`, dropped; the sender takes its slot and
sends the response. -/
def dgPrioDropTrace : List DgOp :=
  [.serverStart, .recvSlot 0, .recvCall 0 true true, .senderWake 0, .senderRespond 0]

theorem dgRun_accounting_drop : ∃ st,
    StepRun.run dgStep DgServer.init dgPrioDropTrace = some st ∧
    (st.numPending = (st.sess.map DgSession.share).sum ∧
    ∀ s ∈ st.sess, s.closed = false →
      s.numPending = s.running + s.admitting + s.kept - s.dropsTaken) :=
  ⟨_, rfl, dgRun_accounting dgPrioDropTrace rfl⟩

theorem dg_prio_drop_negative_pending :
    ∃ st, StepRun.run dgStep DgServer.init dgPrioDropTrace = some st ∧
      (st.get 0).closed = false ∧ (st.get 0).running = 0 ∧ (st.get 0).server ≠ .spawn ∧
      (st.get 0).completed = [] ∧ (st.get 0).sender = .wait ∧
      (st.get 0).numPending = -1 ∧ st.numPending = -1 :=
  ⟨_, rfl, rfl, rfl, by decide, rfl, rfl, rfl, rfl⟩

end Caladan
