import Mathlib
import Caladan.Lib.Run

/-!
# Breakwater server credits (`breakwater/src/bw_server.c`)

A Breakwater server gives each client session a window `s->win` of credits and keeps their sum in
`srpc_win_used`, which `srpc_cc_worker` compares every RTT with the pool `srpc_win_avail`. A
session whose window fell to zero with nothing outstanding is put on the drained list of its
sender's core; the worker takes sessions off those lists and grants each one credit while the pool
has room.

Four kinds of actor share this state: a session's receive loop (`srpc_server` with
`srpc_recv_one`), its sender thread (`srpc_sender`), the workers it spawns (`srpc_worker`), and
the one `srpc_cc_worker`. Each step below is one critical section under `s->lock` (with the
drained-list lock it nests), or one atomic operation on a global. A thread that parks until a
condition holds is modelled by that condition as the guard of its next step: every writer of the
sender's wake conditions readies a parked sender. `assert` is compiled out (it is `DEBUG` only);
`BUG_ON` stops the server, so a step whose `BUG_ON` fires is not enabled.

Sessions are numbered in the order `srpc_server` allocates them. The slot bitmaps are kept by
their population count, the completed slots with their `drop` flags; the slot puts of one response
vector are one step with the `srpc_num_pending` update after them. The part of `srpc_cc_worker`
that computes the next pool from the queueing delay in floating point is an input of its step; the
integer clamps after it are modelled.
-/

namespace Caladan

/-- `SBW_MAX_WINDOW`. -/
def sbwMaxWindow : Nat := 64

/-- An `int` converted to `uint64_t`. -/
def toU64 (x : Int) : UInt64 := UInt64.ofInt x

/-- A `uint64_t` stored into an `int`: the two's complement wrap gcc gives. -/
def toCInt (x : UInt64) : Int := Int.bmod x.toNat (2 ^ 32)

/-- `MIN(a, b)` of `base/stddef.h` with a `uint64_t` operand: both are compared and the smaller
is chosen as `uint64_t`, then stored into an `int`. -/
def minU64 (a b : UInt64) : Int := toCInt (if a < b then a else b)

/-- Where `srpc_sender` is. -/
inductive SenderPc
  /-- At the top of its loop, parked until there is something to do. -/
  | wait
  /-- About to send a `WINUPDATE`. -/
  | winupdate
  /-- About to send the responses of the completed slots `tmp` (their drop flags), with its
  copies `win` and `drained_core`. -/
  | respond (tmp : List Bool) (win drainedCore : Int)
  /-- Sent them; about to test whether the session drained. -/
  | drain (win drainedCore : Int)
  /-- Passed the unlocked test on core `core`; about to link the session. -/
  | link (core : Nat)
  /-- Closed: waiting for in-flight requests before it exits. -/
  | close
  | done
deriving DecidableEq, Repr

/-- Where `srpc_server` is, for its session. -/
inductive ServerPc
  /-- In `srpc_recv_one`, reading the next header. -/
  | recv
  /-- A `CALL` holds a reserved slot; its payload is being read. -/
  | call
  /-- `srpc_recv_one` failed: about to tear the session down. -/
  | teardown
  /-- Torn down; about to decrement `srpc_num_sess`. -/
  | leave
  /-- Waiting for the sender to finish. -/
  | wait
  /-- The session is freed; about to test whether it was the last one. -/
  | freed
  | exited
deriving DecidableEq, Repr

/-- `struct sbw_session`, with the pcs of its receive loop and sender. -/
structure BwSession where
  drainedCore : Int
  isLinked : Bool
  wakeUp : Bool
  win : Int
  advertisedWin : Int
  numPending : Int
  needWinupdate : Bool
  demand : UInt64
  demandSync : Bool
  /-- `bitmap_popcount(s->avail_slots)`. -/
  avail : Nat
  closed : Bool
  /-- The set bits of `s->completed_slots`, each with its slot's `drop` flag. -/
  completed : List Bool
  /-- `srpc_worker` threads spawned for this session and not yet done. -/
  running : Nat
  sender : SenderPc
  server : ServerPc
deriving DecidableEq, Repr

/-- A session as `srpc_server` sets it up: zeroed, not drained, every slot free. -/
def BwSession.fresh : BwSession where
  drainedCore := -1
  isLinked := false
  wakeUp := false
  win := 0
  advertisedWin := 0
  numPending := 0
  needWinupdate := false
  demand := 0
  demandSync := false
  avail := sbwMaxWindow
  closed := false
  completed := []
  running := 0
  sender := .wait
  server := .recv

/-- One round of `srpc_cc_worker` after its timer: the pool `new_win` it will publish, the credits
`win_open` it may still grant, and the core `core_id` its scans start from. -/
structure CcRound where
  newWin : Int
  winOpen : Int
  coreId : Nat
deriving DecidableEq, Repr

/-- Where `srpc_cc_worker` is. -/
inductive CcPc
  /-- In `timer_sleep`. -/
  | sleep
  /-- Clamped the pool; about to read `srpc_win_used`. -/
  | readUsed (newWin : Int) (coreId : Nat)
  /-- At the test of `while (win_open > 0)`. -/
  | loop (r : CcRound)
  /-- Scanning: about to call `srpc_choose_drained_session(core)`, with `left` cores after it. -/
  | choose (r : CcRound) (core left : Nat)
  /-- Popped session `ds`; about to clear its `drained_core`. -/
  | clear (r : CcRound) (ds : Nat)
  /-- About to decrement `srpc_num_drained`. -/
  | dec (r : CcRound) (ds : Nat)
  /-- About to grant `ds` its credit under `ds->lock`. -/
  | credit (r : CcRound) (ds : Nat)
  /-- About to increment `srpc_win_used`. -/
  | inc (r : CcRound) (ds : Nat)
  /-- Out of the loop; about to publish the pool. -/
  | finish (newWin : Int)
deriving DecidableEq, Repr

/-- The server's globals, its sessions and the congestion-control worker. -/
structure BwServer where
  sess : List BwSession
  winUsed : Int
  winAvail : Int
  numSess : Int
  numPending : Int
  numDrained : Int
  /-- `srpc_drained[k].list`, by core. -/
  drained : List (List Nat)
  /-- `runtime_max_cores()`. -/
  maxCores : Nat
  cc : CcPc
deriving DecidableEq, Repr

namespace BwServer

/-- The globals as `srpc_listener` sets them, on `maxCores` cores. -/
def init (maxCores : Nat) : BwServer :=
  ⟨[], 0, maxCores, 0, 0, 0, List.replicate maxCores [], maxCores, .sleep⟩

/-- Session `i`. -/
def get (st : BwServer) (i : Nat) : BwSession := st.sess.getD i .fresh

/-- Write session `i`. -/
def set (st : BwServer) (i : Nat) (s : BwSession) : BwServer := { st with sess := st.sess.set i s }

/-- Session `i` exists and `p` holds of it. -/
def holds (st : BwServer) (i : Nat) (p : BwSession → Bool) : Bool :=
  i < st.sess.length && p (st.get i)

/-- The sum the claim compares with `srpc_win_used`: `s->win` over the sessions not torn down. -/
def liveWin (st : BwServer) : Int := ((st.sess.filter fun s => !s.closed).map (·.win)).sum

/-- `srpc_remove_from_drained_list`, under the session's lock. `list_del` unlinks the node from
whichever list holds it. -/
def removeFromDrainedList (st : BwServer) (i : Nat) : BwServer :=
  let s := st.get i
  if s.drainedCore = -1 then st
  else if s.isLinked then
    { st with drained := st.drained.map (List.erase · i), numDrained := st.numDrained - 1 }.set i
      { s with isLinked := false, drainedCore := -1 }
  else st.set i { s with drainedCore := -1 }

/-- The "adjust window if demand changed" block of `srpc_recv_one`: the window is cut to what the
session still asks for, in the `uint64_t` arithmetic of `s->demand`, and the cut is taken off
`srpc_win_used`. -/
def adjustWindow (st : BwServer) (i : Nat) : BwServer :=
  let s := st.get i
  let want := toU64 s.numPending + s.demand
  if want < toU64 s.win then
    { st with winUsed := st.winUsed - toCInt (toU64 s.win - want) }.set i
      { s with win := toCInt want }
  else st

/-- `srpc_update_window`, under the session's lock. `num_sess` is compared with the unsigned
`runtime_max_cores()`; it is at least one here, as the session is open. -/
def srpcUpdateWindow (st : BwServer) (i : Nat) (reqDropped : Bool) : BwServer :=
  let s := st.get i
  if s.drainedCore ≠ -1 then st
  else
    let openWindow := st.winAvail - st.winUsed
    let maxOverprovision := max (openWindow.tdiv st.numSess) 1
    let want := toU64 s.numPending + s.demand
    let win :=
      if st.winUsed < st.winAvail then
        minU64 (want + toU64 maxOverprovision) (toU64 (s.win + openWindow))
      else if st.winUsed > st.winAvail then s.win - 1
      else s.win
    let win := if s.wakeUp ∨ st.numSess ≤ st.maxCores then max win maxOverprovision else win
    -- prioritize the session
    let win :=
      if s.win > 0 ∧ win = 0 ∧ reqDropped = false ∧ s.demandSync = false then maxOverprovision
      else win
    let win := max win s.numPending
    let win := min win (sbwMaxWindow - 1)
    let win :=
      if s.demandSync then minU64 (toU64 win) want
      else minU64 (toU64 win) (want + toU64 maxOverprovision)
    { st with winUsed := st.winUsed + (win - s.win) }.set i { s with win := win }

/-- `srpc_server` for a new connection: it allocates the session, counts it and spawns its
sender. -/
def serverStart (st : BwServer) : BwServer :=
  { st with sess := st.sess ++ [.fresh], numSess := st.numSess + 1 }

/-- The `BW_OP_CALL` critical section of `srpc_recv_one`, once the payload is read; `drop` is
`runtime_queue_us() >= SBW_DROP_THRESH`. A kept request is handed to a new `srpc_worker`. -/
def recvCall (st : BwServer) (i : Nat) (demand : UInt64) (demandSync drop : Bool) : BwServer :=
  let st := st.set i { st.get i with demand := demand, demandSync := demandSync }
  let st := st.removeFromDrainedList i
  let st := st.set i { st.get i with numPending := (st.get i).numPending + 1 }
  let st := st.adjustWindow i
  let st := { st with numPending := st.numPending + 1 }
  let s := st.get i
  if drop then st.set i { s with completed := s.completed ++ [true], server := .recv }
  else st.set i { s with running := s.running + 1, server := .recv }

/-- The `BW_OP_WINUPDATE` critical section of `srpc_recv_one`. -/
def recvWinupdate (st : BwServer) (i : Nat) (demand : UInt64) (demandSync : Bool) : BwServer :=
  let old := (st.get i).demand
  let st := st.set i { st.get i with demand := demand, demandSync := demandSync }
  let st :=
    if old > 0 ∧ demand = 0 then st.removeFromDrainedList i
    else if old = 0 ∧ demand > 0 ∧ (st.get i).numPending = 0 then
      st.set i { st.get i with needWinupdate := true }
    else st
  let st := if demand = 0 then st.set i { st.get i with advertisedWin := 0 } else st
  st.adjustWindow i

/-- The teardown critical section of `srpc_server` after `srpc_recv_one` failed. -/
def teardown (st : BwServer) (i : Nat) : BwServer :=
  let st := st.set i { st.get i with closed := true }
  let st := if (st.get i).isLinked then st.removeFromDrainedList i else st
  let s := st.get i
  { st with winUsed := st.winUsed - s.win, numPending := st.numPending - s.numPending }.set i
    { s with numPending := 0, demand := 0, win := 0, server := .leave }

/-- `srpc_server` after the sender is done: the session is freed, and the last session out
resets the pool. -/
def serverReset (st : BwServer) (i : Nat) : BwServer :=
  let st := st.set i { st.get i with server := .exited }
  if st.numSess = 0 then { st with winUsed := 0, winAvail := st.maxCores } else st

/-- The critical section of `srpc_sender` once it is woken and the session is open: it takes the
completed slots, leaves the drained list if the worker granted it a credit, updates the window
and decides between a `WINUPDATE` and the responses. -/
def senderWake (st : BwServer) (i : Nat) : BwServer :=
  let tmp := (st.get i).completed
  let reqDropped := tmp.any id
  let st := st.set i { st.get i with completed := [] }
  let st := if (st.get i).wakeUp then st.removeFromDrainedList i else st
  let drainedCore := (st.get i).drainedCore
  let st := st.set i { st.get i with numPending := (st.get i).numPending - tmp.length }
  let st := st.srpcUpdateWindow i reqDropped
  let s := st.get i
  let sendWinupdate :=
    (s.needWinupdate || s.wakeUp) && tmp.length == 0 && decide (s.advertisedWin < s.win)
  st.set i { s with
    advertisedWin := if tmp.length > 0 ∨ sendWinupdate then s.win else s.advertisedWin
    needWinupdate := false, wakeUp := false
    sender := if sendWinupdate then .winupdate else .respond tmp s.win drainedCore }

/-- The drain critical section of `srpc_sender` on core `core`; `none` where its `BUG_ON` fires. -/
def senderLink (st : BwServer) (i core : Nat) : Option BwServer :=
  let s := st.get i
  if s.demandSync = false ∨ s.demand > 0 then
    if s.win > 0 then none
    else some ({ st with
      drained := st.drained.modify core (· ++ [i])
      numDrained := st.numDrained + 1 }.set i
        { s with isLinked := true, drainedCore := core, sender := .wait })
  else some (st.set i { s with sender := .wait })

/-- The closing critical section of `srpc_sender`, and the puts of the slots left over. -/
def senderClose (st : BwServer) (i : Nat) : BwServer :=
  let st := st.removeFromDrainedList i
  st.set i { st.get i with avail := sbwMaxWindow, sender := .done }

/-- One call of `srpc_choose_drained_session(core)` in the worker's scan: pop the first session
of the core's list, or go on to the next core, or give up once every core was tried. -/
def ccChoose (st : BwServer) (r : CcRound) (core left : Nat) : BwServer :=
  match st.drained.getD core [], left with
  | ds :: rest, _ =>
    { st with drained := st.drained.set core rest, cc := .clear r ds }.set ds
      { st.get ds with isLinked := false }
  | [], 0 => { st with cc := .finish r.newWin }
  | [], left + 1 => { st with cc := .choose r ((core + 1) % st.maxCores) left }

end BwServer

/-- The steps of the server's actors; each names the session it acts for. -/
inductive BwOp
  | serverStart
  /-- `srpc_get_slot` for a `CALL`. -/
  | recvSlot (i : Nat)
  /-- The rest of a `CALL`: `ok` is whether its payload was read. -/
  | recvCall (i : Nat) (demand : UInt64) (demandSync drop ok : Bool)
  | recvWinupdate (i : Nat) (demand : UInt64) (demandSync : Bool)
  /-- `srpc_recv_one` failed on a header. -/
  | recvFail (i : Nat)
  | serverTeardown (i : Nat)
  | serverLeave (i : Nat)
  | serverFree (i : Nat)
  | serverReset (i : Nat)
  | workerDone (i : Nat)
  | senderWake (i : Nat)
  /-- `srpc_winupdate`: `ok` is whether the send succeeded. -/
  | senderWinupdate (i : Nat) (ok : Bool)
  | senderRespond (i : Nat)
  /-- The unlocked drain test, on the core `get_current_affinity()` gave. -/
  | senderDrain (i core : Nat)
  | senderLink (i : Nat)
  | senderClose (i : Nat)
  /-- The worker wakes: `computed` is the pool its floating-point rule gives, before the clamps. -/
  | ccTick (computed coreId : Nat)
  | ccReadUsed
  | ccLoop
  | ccChoose
  | ccClear
  | ccDec
  | ccCredit
  | ccInc
  | ccFinish
deriving DecidableEq, Repr

open BwServer in
/-- One step of the server, or `none` where the actor cannot take it. -/
def bwStep (st : BwServer) : BwOp → Option BwServer
  | .serverStart => some st.serverStart
  | .recvSlot i =>
    if st.holds i fun s => s.server == .recv && 0 < s.avail then
      some (st.set i { st.get i with avail := (st.get i).avail - 1, server := .call })
    else none
  | .recvCall i demand demandSync drop ok =>
    if st.holds i (·.server == .call) then
      if ok then some (st.recvCall i demand demandSync drop)
      -- the payload read failed: the slot goes back and the connection is done
      else some (st.set i { st.get i with avail := (st.get i).avail + 1, server := .teardown })
    else none
  | .recvWinupdate i demand demandSync =>
    if st.holds i (·.server == .recv) then some (st.recvWinupdate i demand demandSync) else none
  | .recvFail i =>
    if st.holds i (·.server == .recv) then some (st.set i { st.get i with server := .teardown })
    else none
  | .serverTeardown i =>
    if st.holds i (·.server == .teardown) then some (st.teardown i) else none
  | .serverLeave i =>
    if st.holds i (·.server == .leave) then
      some ({ st with numSess := st.numSess - 1 }.set i { st.get i with server := .wait })
    else none
  | .serverFree i =>
    if st.holds i fun s => s.server == .wait && s.sender == .done then
      some (st.set i { st.get i with server := .freed })
    else none
  | .serverReset i => if st.holds i (·.server == .freed) then some (st.serverReset i) else none
  | .workerDone i =>
    if st.holds i (0 < ·.running) then
      some (st.set i { st.get i with
        running := (st.get i).running - 1, completed := (st.get i).completed ++ [false] })
    else none
  | .senderWake i =>
    -- the sender sleeps while the session is open and has nothing to send
    if st.holds i fun s => s.sender == .wait &&
        (s.closed || s.needWinupdate || s.wakeUp || !s.completed.isEmpty) then
      if (st.get i).closed then some (st.set i { st.get i with sender := .close })
      else some (st.senderWake i)
    else none
  | .senderWinupdate i ok =>
    if st.holds i (·.sender == .winupdate) then
      some (st.set i { st.get i with sender := if ok then .wait else .close })
    else none
  | .senderRespond i =>
    match (st.get i).sender with
    | .respond tmp win drainedCore =>
      if i < st.sess.length then
        some ({ st with numPending := st.numPending - tmp.length }.set i { st.get i with
          avail := (st.get i).avail + tmp.length, sender := .drain win drainedCore })
      else none
    | _ => none
  | .senderDrain i core =>
    match (st.get i).sender with
    | .drain win drainedCore =>
      if i < st.sess.length ∧ core < st.maxCores then
        if win = 0 ∧ drainedCore = -1 ∧ (st.get i).avail = sbwMaxWindow then
          some (st.set i { st.get i with sender := .link core })
        else some (st.set i { st.get i with sender := .wait })
      else none
    | _ => none
  | .senderLink i =>
    match (st.get i).sender with
    | .link core => if i < st.sess.length then st.senderLink i core else none
    | _ => none
  | .senderClose i =>
    if st.holds i fun s => s.sender == .close && s.closed &&
        decide (sbwMaxWindow ≤ s.avail + s.completed.length) then
      some (st.senderClose i)
    else none
  | .ccTick computed coreId =>
    match st.cc with
    | .sleep =>
      if coreId < st.maxCores then
        let newWin : Int := max computed st.maxCores
        some { st with cc := .readUsed (min newWin (st.numSess * 2 ^ 6)) coreId }
      else none
    | _ => none
  | .ccReadUsed =>
    match st.cc with
    | .readUsed newWin coreId =>
      some { st with cc := .loop ⟨newWin, newWin - st.winUsed, coreId⟩ }
    | _ => none
  | .ccLoop =>
    match st.cc with
    | .loop r =>
      if 0 < r.winOpen then some { st with cc := .choose r r.coreId (st.maxCores - 1) }
      else some { st with cc := .finish r.newWin }
    | _ => none
  | .ccChoose =>
    match st.cc with
    | .choose r core left => some (st.ccChoose r core left)
    | _ => none
  | .ccClear =>
    match st.cc with
    | .clear r ds => some ({ st with cc := .dec r ds }.set ds { st.get ds with drainedCore := -1 })
    | _ => none
  | .ccDec =>
    match st.cc with
    | .dec r ds => some { st with numDrained := st.numDrained - 1, cc := .credit r ds }
    | _ => none
  | .ccCredit =>
    match st.cc with
    | .credit r ds =>
      -- BUG_ON(ds->win > 0); nothing tests whether the session was closed
      if (st.get ds).win > 0 then none
      else some ({ st with cc := .inc r ds }.set ds { st.get ds with wakeUp := true, win := 1 })
    | _ => none
  | .ccInc =>
    match st.cc with
    | .inc r _ =>
      some { st with winUsed := st.winUsed + 1, cc := .loop { r with winOpen := r.winOpen - 1 } }
    | _ => none
  | .ccFinish =>
    match st.cc with
    | .finish newWin => some { st with winAvail := newWin, cc := .sleep }
    | _ => none

namespace BwServer

variable {st : BwServer} {i : Nat} {s : BwSession}

@[simp] theorem set_winUsed : (st.set i s).winUsed = st.winUsed := rfl
@[simp] theorem set_numDrained : (st.set i s).numDrained = st.numDrained := rfl
@[simp] theorem set_drained : (st.set i s).drained = st.drained := rfl
@[simp] theorem set_maxCores : (st.set i s).maxCores = st.maxCores := rfl
@[simp] theorem set_cc : (st.set i s).cc = st.cc := rfl
@[simp] theorem set_length : (st.set i s).sess.length = st.sess.length := List.length_set

theorem get_set_self (h : i < st.sess.length) : (st.set i s).get i = s := by
  simp [get, set, h]

theorem lt_length_of_closed (h : (st.get i).closed = true) : i < st.sess.length := by
  by_contra hi
  rw [get, List.getD_eq_default _ _ (by omega)] at h
  exact absurd h (by decide)

theorem filter_open_set_of_closed (hs : s.closed = true) :
    ∀ (l : List BwSession) (i : Nat), (l.getD i .fresh).closed = true →
      (l.set i s).filter (fun s => !s.closed) = l.filter (fun s => !s.closed)
  | [], _, _ => rfl
  | a :: l, 0, hi => by simp_all
  | a :: l, i + 1, hi => by
    simp only [List.set_cons_succ, List.filter_cons]
    rw [filter_open_set_of_closed hs l i (by simpa using hi)]

/-- Writing a closed session over a closed one leaves the live sum alone. -/
theorem liveWin_set_of_closed (hi : (st.get i).closed = true) (hs : s.closed = true) :
    (st.set i s).liveWin = st.liveWin := by
  simp only [liveWin, set, filter_open_set_of_closed hs st.sess i hi]

end BwServer

section Steps

variable {st st' : BwServer} {r : CcRound} {ds : Nat}

/-- The worker's grant: `BUG_ON` passes only on an empty window, and the session gets one credit
and is told to wake, whatever its state. -/
theorem bwStep_ccCredit (hcc : st.cc = .credit r ds) (h : bwStep st .ccCredit = some st') :
    (st.get ds).win ≤ 0 ∧
      st' = { st with cc := .inc r ds }.set ds { st.get ds with wakeUp := true, win := 1 } := by
  simp only [bwStep, hcc] at h
  split_ifs at h with hw
  exact ⟨not_lt.1 hw, (Option.some.inj h).symm⟩

theorem bwStep_ccInc (hcc : st.cc = .inc r ds) :
    bwStep st .ccInc = some { st with
      winUsed := st.winUsed + 1, cc := .loop { r with winOpen := r.winOpen - 1 } } := by
  simp only [bwStep, hcc]

end Steps

/-- When `srpc_cc_worker` grants its credit to a session that `srpc_server` has closed in the
meantime, the session is written after teardown, and `srpc_win_used` moves one further from the
windows of the open sessions, for good: the teardown already took that session's window off. -/
theorem ccCredit_closed_breaks_winUsed {st st₁ st₂ : BwServer} {r : CcRound} {ds : Nat}
    (hcc : st.cc = .credit r ds) (hclosed : (st.get ds).closed = true)
    (h₁ : bwStep st .ccCredit = some st₁) (h₂ : bwStep st₁ .ccInc = some st₂) :
    (st₂.get ds).closed = true ∧ (st₂.get ds).win = 1 ∧
      st₂.winUsed - st₂.liveWin = st.winUsed - st.liveWin + 1 := by
  have hlt := BwServer.lt_length_of_closed hclosed
  obtain ⟨-, rfl⟩ := bwStep_ccCredit hcc h₁
  obtain rfl := Option.some.inj ((bwStep_ccInc (by rfl)).symm.trans h₂)
  generalize hs₁ : { st.get ds with wakeUp := true, win := 1 } = s₁
  have hs₁c : s₁.closed = true := hs₁ ▸ hclosed
  have hget : ({ st with cc := .inc r ds }.set ds s₁).get ds = s₁ := BwServer.get_set_self hlt
  have hlive : ({ st with cc := .inc r ds }.set ds s₁).liveWin = st.liveWin :=
    BwServer.liveWin_set_of_closed hclosed hs₁c
  refine ⟨?_, ?_, ?_⟩
  · change (({ st with cc := .inc r ds }.set ds s₁).get ds).closed = true
    rw [hget, hs₁c]
  · change (({ st with cc := .inc r ds }.set ds s₁).get ds).win = 1
    rw [hget, ← hs₁]
  · change st.winUsed + 1 - ({ st with cc := .inc r ds }.set ds s₁).liveWin = _
    rw [hlive]
    ring

/-- The run of the counterexample on one core, with sessions 0 and 1. -/
def leakTrace : List BwOp :=
  [.serverStart, .serverStart,
    -- session 0 asks for one request and gets the one credit of the pool
    .recvWinupdate 0 1 false, .senderWake 0, .senderWinupdate 0 true,
    -- session 1 asks too, gets nothing and goes on the drained list of core 0
    .recvWinupdate 1 1 false, .senderWake 1, .senderRespond 1, .senderDrain 1 0, .senderLink 1,
    -- session 0 no longer asks: its credit is back in the pool
    .recvWinupdate 0 0 false,
    -- the worker sees room for one credit and pops session 1
    .ccTick 1 0, .ccReadUsed, .ccLoop, .ccChoose, .ccClear, .ccDec,
    -- session 1's connection ends: torn down, its sender exits, it is freed
    .recvFail 1, .serverTeardown 1, .serverLeave 1, .senderWake 1, .senderClose 1, .serverFree 1,
    .serverReset 1]

/-- Where `leakTrace` ends: the worker about to grant its credit to the freed session 1. -/
def leakState : BwServer := (StepRun.run bwStep (BwServer.init 1) leakTrace).getD (BwServer.init 1)

theorem ccCredit_closed_breaks_winUsed_two_sessions :
    StepRun.run bwStep (BwServer.init 1) leakTrace = some leakState ∧
      leakState.winUsed = leakState.liveWin ∧ (leakState.get 1).server = .exited ∧
      ∃ st₁ st₂, bwStep leakState .ccCredit = some st₁ ∧ bwStep st₁ .ccInc = some st₂ ∧
        (st₂.get 1).win = 1 ∧ st₂.winUsed = st₂.liveWin + 1 := by
  have hcc : leakState.cc = .credit ⟨1, 1, 0⟩ 1 := by decide
  obtain ⟨st₁, h₁⟩ : ∃ st₁, bwStep leakState .ccCredit = some st₁ := ⟨_, rfl⟩
  have hcc₁ : st₁.cc = .inc ⟨1, 1, 0⟩ 1 := by rw [(bwStep_ccCredit hcc h₁).2]; rfl
  have h₂ := bwStep_ccInc hcc₁
  have h := ccCredit_closed_breaks_winUsed hcc (by decide) h₁ h₂
  have hused : leakState.winUsed = leakState.liveWin := by decide
  exact ⟨rfl, hused, by decide, _, _, h₁, h₂, h.2.1, by linarith [h.2.2]⟩

end Caladan
