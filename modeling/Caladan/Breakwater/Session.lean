import Mathlib
import Caladan.Breakwater.Server

/-!
# One Breakwater session end to end (`bw_client.c`, `bw_server.c`)

The client (`cbw_send_one`, `crpc_drain_queue`, `cbw_recv_one`, `crpc_timer`) counts the requests
it sent and has no response for in `win_used`, and sends only while `win_used < win_avail`, the
window of the last server header. The server takes a slot of `s->avail_slots` for each `CALL`
with `srpc_get_slot`; if none is free, `srpc_recv_one` reads the payload into a scratch buffer and
drops the request without an answer. `srpc_sender` writes the responses of the completed slots
with one `tcp_writev_full` and puts their slots back only after it.

TCP is two reliable FIFO streams of headers (a payload travels with its header), and the
connection stays open. The server side is the model of `Caladan.Breakwater.Server` with the
session as session `0`; its steps are taken as they are, except the response vector, which is cut
into the write and the slot puts. The client is `cbw_open`'s session: `demand_sync` stays false.
Which queued requests have expired (`CBW_MAX_CLIENT_DELAY_US`) is an input of the steps that test
it. A ghost counter records the requests `srpc_recv_one` dropped for want of a slot.
-/

namespace Caladan

/-- `CRPC_QLEN` -/
def crpcQlen : Nat := 16

/-- A `struct cbw_hdr` on the client-to-server stream: the op, `demand` and the `DSYNC` flag. -/
inductive CbwHdr
  | call (demand : Nat) (dsync : Bool)
  | winupdate (demand : Nat) (dsync : Bool)
deriving DecidableEq, Repr

/-- A `struct sbw_hdr` on the server-to-client stream: the op, `win`, and `BW_SFLAG_DROP`. -/
inductive SbwHdr
  | call (win : UInt64) (drop : Bool)
  | winupdate (win : UInt64)
deriving DecidableEq, Repr

def CbwHdr.isCall : CbwHdr → Bool
  | .call _ _ => true
  | .winupdate _ _ => false

def SbwHdr.isCall : SbwHdr → Bool
  | .call _ _ => true
  | .winupdate _ => false

/-- `struct cbw_session`: the two `uint32_t` counters, the length `head - tail` of the request
queue, and the flags. -/
structure CbwSession where
  winUsed : Nat
  winAvail : Nat
  qlen : Nat
  waitingWinupdate : Bool
  init : Bool
  demandSync : Bool
deriving DecidableEq, Repr

/-- After `cbw_open`. -/
def CbwSession.fresh : CbwSession := ⟨0, 0, 0, false, false, false⟩

/-- The loop of `crpc_send_request_vector`: a `CALL` per queued request while the window has
room, each with the queue length left behind it as its demand. -/
def crpcSendLoop (c : CbwSession) : Nat → CbwSession × List CbwHdr
  | 0 => (c, [])
  | n + 1 =>
    if c.winUsed < c.winAvail then
      let r := crpcSendLoop { c with winUsed := c.winUsed + 1, qlen := c.qlen - 1 } n
      (r.1, .call (c.qlen - 1) c.demandSync :: r.2)
    else (c, [])

/-- `crpc_send_request_vector` -/
def crpcSendRequestVector (c : CbwSession) : CbwSession × List CbwHdr :=
  if c.qlen = 0 ∨ c.winAvail ≤ c.winUsed then (c, []) else crpcSendLoop c c.qlen

/-- `crpc_drain_queue`; the first `expired` queued requests are past `CBW_MAX_CLIENT_DELAY_US`. -/
def crpcDrainQueue (c : CbwSession) (expired : Nat) : CbwSession × List CbwHdr :=
  if c.qlen = 0 ∨ c.waitingWinupdate then (c, [])
  else if c.winAvail = 0 ∧ c.demandSync then
    ({ c with waitingWinupdate := true }, [.winupdate c.qlen c.demandSync])
  else crpcSendRequestVector { c with qlen := c.qlen - min expired c.qlen }

/-- `crpc_enqueue_one`: the queue drops its oldest request when full; the very first request
asks the server for a window. -/
def crpcEnqueueOne (c : CbwSession) : CbwSession × List CbwHdr :=
  let c := { c with qlen := (if crpcQlen ≤ c.qlen then c.qlen - 1 else c.qlen) + 1 }
  if c.init then (c, [])
  else ({ c with waitingWinupdate := true, init := true }, [.winupdate c.qlen c.demandSync])

/-- `cbw_send_one`, under `s->lock`. -/
def cbwSendOne (c : CbwSession) (expired : Nat) : CbwSession × List CbwHdr :=
  if c.winUsed < c.winAvail ∧ c.qlen = 0 then
    -- hot path: `crpc_send_raw`
    ({ c with winUsed := c.winUsed + 1 }, [.call c.qlen c.demandSync])
  else
    let e := crpcEnqueueOne c
    let d := crpcDrainQueue e.1 expired
    (d.1, e.2 ++ d.2)

/-- The window of a server header as `win_avail` stores it: the low 32 bits. -/
def sbwWin (win : UInt64) : Nat := win.toNat % 2 ^ 32

/-- `cbw_recv_one` on one server header. -/
def cbwRecvOne (c : CbwSession) (h : SbwHdr) (expired : Nat) : CbwSession × List CbwHdr :=
  let c := match h with
    | .call win _ => { c with winUsed := c.winUsed - 1, winAvail := sbwWin win,
                              waitingWinupdate := false }
    | .winupdate win => { c with winAvail := sbwWin win, waitingWinupdate := false }
  if 0 < c.winAvail then crpcDrainQueue c expired else (c, [])

/-- One wakeup of `crpc_timer` with a nonempty queue: it drops the expired requests. -/
def crpcTimer (c : CbwSession) (expired : Nat) : CbwSession × List CbwHdr :=
  let n := min expired c.qlen
  let c := { c with qlen := c.qlen - n }
  if c.qlen = 0 ∧ 0 < n ∧ c.demandSync then
    ({ c with waitingWinupdate := false }, [.winupdate c.qlen c.demandSync])
  else (c, [])

/-- The steps of the server that touch neither stream. -/
def BwOp.internal : BwOp → Bool
  | .workerDone _ | .senderWake _ | .senderDrain _ _ | .senderLink _ | .ccTick _ _ | .ccReadUsed
  | .ccLoop | .ccChoose | .ccClear | .ccDec | .ccCredit | .ccInc | .ccFinish => true
  | _ => false

/-- A session between a client and the server, with the two streams; `hdr` is the `CALL` header
`srpc_recv_one` holds while it reads the payload into its slot, `vec` says that `srpc_sender`
wrote its response vector and has not put the slots back, and `dropped` counts the requests
`srpc_recv_one` dropped. -/
structure BwConn where
  cli : CbwSession
  srv : BwServer
  c2s : List CbwHdr
  s2c : List SbwHdr
  hdr : Option (Nat × Bool)
  vec : Bool
  dropped : Nat
deriving DecidableEq, Repr

/-- A connection once `srpc_server` has set up its session on a server with `maxCores` cores. -/
def BwConn.init (maxCores : Nat) : BwConn :=
  ⟨.fresh, (BwServer.init maxCores).serverStart, [], [], none, false, 0⟩

inductive BwConnOp
  /-- an application thread calls `cbw_send_one` -/
  | send (expired : Nat)
  /-- `cbw_recv_one` reads the next server header -/
  | recv (expired : Nat)
  | timer (expired : Nat)
  /-- `srpc_recv_one` reads the next client header; for a `CALL`, `srpc_get_slot` -/
  | srvRecv
  /-- the rest of a `CALL` once its payload is read; `drop` is the `SBW_DROP_THRESH` test -/
  | srvCall (drop : Bool)
  /-- `srpc_winupdate` -/
  | srvWinupdate
  /-- the `tcp_writev_full` of `srpc_send_completion_vector` -/
  | srvRespond
  /-- its `srpc_put_slot` loop and the `srpc_num_pending` update -/
  | srvPut
  | srv (op : BwOp)
deriving DecidableEq, Repr

/-- One step of the session, or `none` where its actor cannot take it. -/
def bwConnStep (c : BwConn) : BwConnOp → Option BwConn
  | .send expired =>
    let r := cbwSendOne c.cli expired
    some { c with cli := r.1, c2s := c.c2s ++ r.2 }
  | .recv expired =>
    match c.s2c with
    | h :: rest =>
      let r := cbwRecvOne c.cli h expired
      some { c with cli := r.1, s2c := rest, c2s := c.c2s ++ r.2 }
    | [] => none
  | .timer expired =>
    if c.cli.qlen = 0 then none
    else
      let r := crpcTimer c.cli expired
      some { c with cli := r.1, c2s := c.c2s ++ r.2 }
  | .srvRecv =>
    match c.c2s with
    | .call demand dsync :: rest =>
      if c.srv.holds 0 (·.server == .recv) then
        if 0 < (c.srv.get 0).avail then
          (bwStep c.srv (.recvSlot 0)).map fun srv =>
            { c with srv := srv, c2s := rest, hdr := some (demand, dsync) }
        -- no slot: the payload goes to `buf_tmp` and the request is dropped
        else some { c with c2s := rest, dropped := c.dropped + 1 }
      else none
    | .winupdate demand dsync :: rest =>
      (bwStep c.srv (.recvWinupdate 0 (UInt64.ofNat demand) dsync)).map fun srv =>
        { c with srv := srv, c2s := rest }
    | [] => none
  | .srvCall drop =>
    match c.hdr with
    | some (demand, dsync) =>
      (bwStep c.srv (.recvCall 0 (UInt64.ofNat demand) dsync drop true)).map fun srv =>
        { c with srv := srv, hdr := none }
    | none => none
  | .srvWinupdate =>
    if (c.srv.get 0).sender = .winupdate then
      (bwStep c.srv (.senderWinupdate 0 true)).map fun srv =>
        { c with srv := srv, s2c := c.s2c ++ [.winupdate (toU64 (c.srv.get 0).win)] }
    else none
  | .srvRespond =>
    match (c.srv.get 0).sender with
    | .respond tmp _ _ =>
      if c.vec then none
      else some { c with s2c := c.s2c ++ tmp.map (.call (toU64 (c.srv.get 0).win)), vec := true }
    | _ => none
  | .srvPut =>
    if c.vec then (bwStep c.srv (.senderRespond 0)).map fun srv => { c with srv := srv, vec := false }
    else none
  | .srv op =>
    if op.internal then (bwStep c.srv op).map fun srv => { c with srv := srv } else none

/-! ## The client counts what it sends -/

/-- A client step that raised `win_used` by the number of `CALL`s it sent. -/
def CbwSession.Sends (c : CbwSession) (r : CbwSession × List CbwHdr) : Prop :=
  r.1.winUsed = c.winUsed + r.2.countP CbwHdr.isCall

namespace CbwSession
variable {c : CbwSession}

theorem Sends.none (h : c'.winUsed = c.winUsed) : c.Sends (c', []) := by
  simp [Sends, h]

theorem Sends.append {r r' : CbwSession × List CbwHdr} (h : c.Sends r) (h' : r.1.Sends r') :
    c.Sends (r'.1, r.2 ++ r'.2) := by
  simp only [Sends, List.countP_append] at *
  omega

theorem crpcSendLoop_sends (n : Nat) : ∀ c : CbwSession, c.Sends (crpcSendLoop c n) := by
  induction n with
  | zero => exact fun c => Sends.none rfl
  | succ n ih =>
    intro c
    unfold crpcSendLoop
    split_ifs
    · -- one `CALL`, one more credit in use
      have h := ih { c with winUsed := c.winUsed + 1, qlen := c.qlen - 1 }
      simp only [Sends, List.countP_cons, CbwHdr.isCall, if_true] at h ⊢
      omega
    · exact Sends.none rfl

theorem crpcSendRequestVector_sends : c.Sends (crpcSendRequestVector c) := by
  unfold crpcSendRequestVector
  split_ifs
  · exact Sends.none rfl
  · exact crpcSendLoop_sends _ c

theorem crpcDrainQueue_sends (expired : Nat) : c.Sends (crpcDrainQueue c expired) := by
  unfold crpcDrainQueue
  split_ifs
  · exact Sends.none rfl
  · simp [Sends, CbwHdr.isCall]
  · exact crpcSendRequestVector_sends

theorem cbwSendOne_sends (expired : Nat) : c.Sends (cbwSendOne c expired) := by
  unfold cbwSendOne
  split_ifs
  · simp [Sends, CbwHdr.isCall]
  · -- `crpc_enqueue_one` sends at most a `WINUPDATE`
    have he : c.Sends (crpcEnqueueOne c) := by
      unfold crpcEnqueueOne
      dsimp only
      split_ifs <;> simp [Sends, CbwHdr.isCall]
    exact he.append (crpcDrainQueue_sends expired)

theorem crpcTimer_sends (expired : Nat) : c.Sends (crpcTimer c expired) := by
  unfold crpcTimer
  dsimp only
  split_ifs <;> simp [Sends, CbwHdr.isCall]

/-- `cbw_recv_one` gives back the credit of a `CALL` response and sends what the new window
allows. -/
theorem cbwRecvOne_sends (h : SbwHdr) (expired : Nat) (hpos : h.isCall = true → 0 < c.winUsed) :
    (cbwRecvOne c h expired).1.winUsed + (if h.isCall then 1 else 0) =
      c.winUsed + (cbwRecvOne c h expired).2.countP CbwHdr.isCall := by
  -- the header's effect on the counters, before the drain
  obtain ⟨c₁, hc₁, hr⟩ : ∃ c₁ : CbwSession,
      c₁.winUsed + (if h.isCall then 1 else 0) = c.winUsed ∧
        cbwRecvOne c h expired = if 0 < c₁.winAvail then crpcDrainQueue c₁ expired else (c₁, []) := by
    cases h with
    | call win drop =>
      have := hpos rfl
      exact ⟨_, by simp only [SbwHdr.isCall, if_true]; omega, rfl⟩
    | winupdate win => exact ⟨_, by simp [SbwHdr.isCall], rfl⟩
  rw [hr]
  by_cases hw : 0 < c₁.winAvail
  · rw [if_pos hw]
    have hd := crpcDrainQueue_sends (c := c₁) expired
    simp only [Sends] at hd
    omega
  · rw [if_neg hw]
    simp only [List.countP_nil]
    omega

end CbwSession

/-! ## What the credit count reads of the server -/

/-- The part of a session that holds requests: its workers, its completed slots, and where its
sender and its receive loop are. -/
def BwSession.held (s : BwSession) : Nat × List Bool × SenderPc × ServerPc :=
  (s.running, s.completed, s.sender, s.server)

namespace BwServer
variable {st st₁ st₂ : BwServer} {i j : Nat} {s : BwSession}

theorem get_set_of_ne (h : i ≠ j) : (st.set i s).get j = st.get j := by
  simp only [get, set, List.getD_eq_getElem?_getD, List.getElem?_set_ne h]

/-- `st'` has the sessions of `st`, each holding what it held in `st`. -/
def HeldEq (st st' : BwServer) : Prop :=
  st'.sess.length = st.sess.length ∧ ∀ j, (st'.get j).held = (st.get j).held

theorem HeldEq.refl (st : BwServer) : HeldEq st st := ⟨rfl, fun _ => rfl⟩

theorem HeldEq.trans (h₁ : HeldEq st st₁) (h₂ : HeldEq st₁ st₂) : HeldEq st st₂ :=
  ⟨h₂.1.trans h₁.1, fun j => (h₂.2 j).trans (h₁.2 j)⟩

theorem HeldEq.ite {c : Prop} [Decidable c] {a b : BwServer} (ha : c → HeldEq st a)
    (hb : ¬c → HeldEq st b) : HeldEq st (if c then a else b) := by
  split_ifs with h
  · exact ha h
  · exact hb h

/-- A write that keeps what session `i` holds. The four fields are compared one by one: compared
as one `held`, Lean first tries to unify the two sessions whole. -/
theorem heldEq_set (h : s.running = (st.get i).running ∧ s.completed = (st.get i).completed ∧
    s.sender = (st.get i).sender ∧ s.server = (st.get i).server) : HeldEq st (st.set i s) := by
  refine ⟨set_length, fun j => ?_⟩
  by_cases hij : i = j
  · subst hij
    by_cases hi : i < st.sess.length
    · obtain ⟨h₁, h₂, h₃, h₄⟩ := h
      rw [get_set_self hi, BwSession.held, BwSession.held, h₁, h₂, h₃, h₄]
    · simp only [set, List.set_eq_of_length_le (Nat.le_of_not_lt hi)]
  · rw [get_set_of_ne hij]

/-- A change of the globals only. -/
theorem heldEq_of_sess (h : st₁.sess = st.sess) : HeldEq st st₁ :=
  ⟨by rw [h], fun j => by simp only [get, h]⟩

theorem heldEq_removeFromDrainedList : HeldEq st (st.removeFromDrainedList i) := by
  unfold removeFromDrainedList
  dsimp only
  refine HeldEq.ite (fun _ => .refl _) (fun _ => HeldEq.ite (fun _ => ?_) (fun _ => heldEq_set ⟨rfl, rfl, rfl, rfl⟩))
  exact (heldEq_of_sess rfl).trans (heldEq_set ⟨rfl, rfl, rfl, rfl⟩)

theorem heldEq_adjustWindow : HeldEq st (st.adjustWindow i) := by
  unfold adjustWindow
  extract_lets s want
  split
  · exact (heldEq_of_sess rfl).trans (heldEq_set ⟨rfl, rfl, rfl, rfl⟩)
  · exact .refl _

theorem heldEq_srpcUpdateWindow (reqDropped : Bool) :
    HeldEq st (st.srpcUpdateWindow i reqDropped) := by
  unfold srpcUpdateWindow
  extract_lets s
  split
  · exact .refl _
  · exact (heldEq_of_sess rfl).trans (heldEq_set ⟨rfl, rfl, rfl, rfl⟩)

theorem heldEq_recvWinupdate (demand : UInt64) (demandSync : Bool) :
    HeldEq st (st.recvWinupdate i demand demandSync) := by
  unfold recvWinupdate
  extract_lets old s₁ st₁ s₂ st₂ s₃ st₃
  have h₁ : HeldEq st st₁ := heldEq_set ⟨rfl, rfl, rfl, rfl⟩
  have h₂ : HeldEq st₁ st₂ :=
    HeldEq.ite (fun _ => heldEq_removeFromDrainedList)
      (fun _ => HeldEq.ite (fun _ => heldEq_set ⟨rfl, rfl, rfl, rfl⟩) (fun _ => .refl _))
  have h₃ : HeldEq st₂ st₃ := HeldEq.ite (fun _ => heldEq_set ⟨rfl, rfl, rfl, rfl⟩) (fun _ => .refl _)
  exact ((h₁.trans h₂).trans h₃).trans heldEq_adjustWindow

theorem heldEq_ccChoose (r : CcRound) (core left : Nat) : HeldEq st (st.ccChoose r core left) := by
  unfold ccChoose
  split
  · exact (heldEq_of_sess rfl).trans (heldEq_set ⟨rfl, rfl, rfl, rfl⟩)
  · exact heldEq_of_sess rfl
  · exact heldEq_of_sess rfl

/-- The `CALL` section of `srpc_recv_one`: the receive loop is back at the next header, and the
request went to a new worker, or to the completed slots if it is dropped. -/
theorem recvCall_get (hi : i < st.sess.length) (demand : UInt64) (demandSync drop : Bool) :
    (st.recvCall i demand demandSync drop).sess.length = st.sess.length ∧
      ((st.recvCall i demand demandSync drop).get i).held =
        if drop then ((st.get i).running, (st.get i).completed ++ [true], (st.get i).sender, .recv)
        else ((st.get i).running + 1, (st.get i).completed, (st.get i).sender, .recv) := by
  unfold recvCall
  extract_lets s₁ st₁ st₂ s₃ st₃ st₄ st₅ s
  -- everything before the last write keeps what the session holds
  have h₁ : HeldEq st st₁ := heldEq_set ⟨rfl, rfl, rfl, rfl⟩
  have h₃ : HeldEq st₂ st₃ := heldEq_set ⟨rfl, rfl, rfl, rfl⟩
  have h₅ : HeldEq st₄ st₅ := heldEq_of_sess rfl
  have h : HeldEq st st₅ :=
    (((h₁.trans heldEq_removeFromDrainedList).trans h₃).trans heldEq_adjustWindow).trans h₅
  have hs : s.held = (st.get i).held := h.2 i
  have hi' : i < st₅.sess.length := h.1 ▸ hi
  simp only [BwSession.held, Prod.mk.injEq] at hs
  obtain ⟨h₁, h₂, h₃, -⟩ := hs
  split
  · refine ⟨set_length.trans h.1, ?_⟩
    rw [get_set_self hi']
    simp only [BwSession.held, h₁, h₂, h₃]
  · refine ⟨set_length.trans h.1, ?_⟩
    rw [get_set_self hi']
    simp only [BwSession.held, h₁, h₂, h₃]

/-- `srpc_sender` wakes: it takes every completed slot, and either sends a `WINUPDATE` (only when
none had completed) or goes on to answer the slots it took. -/
theorem senderWake_get (hi : i < st.sess.length) :
    (st.senderWake i).sess.length = st.sess.length ∧
      ((st.senderWake i).get i).running = (st.get i).running ∧
      ((st.senderWake i).get i).completed = [] ∧
      ((st.senderWake i).get i).server = (st.get i).server ∧
      (((st.senderWake i).get i).sender = .winupdate ∧ (st.get i).completed = [] ∨
        ∃ w dc, ((st.senderWake i).get i).sender = .respond (st.get i).completed w dc) := by
  unfold senderWake
  extract_lets tmp reqDropped s₁ st₁ st₂ dc s₃ st₃ st₄ s sw
  have h₂ : HeldEq st₁ st₂ := HeldEq.ite (fun _ => heldEq_removeFromDrainedList) (fun _ => .refl _)
  have h₃ : HeldEq st₂ st₃ := heldEq_set ⟨rfl, rfl, rfl, rfl⟩
  have h : HeldEq st₁ st₄ := (h₂.trans h₃).trans (heldEq_srpcUpdateWindow reqDropped)
  have hi₁ : i < st₁.sess.length := lt_of_lt_of_eq hi set_length.symm
  have hi₄ : i < st₄.sess.length := h.1 ▸ hi₁
  -- what the sender reads after the window update is what it left after taking the slots
  have hs : s.held = (st₁.get i).held := h.2 i
  rw [get_set_self hi] at hs
  simp only [BwSession.held, Prod.mk.injEq] at hs
  obtain ⟨hr, hc, -, hsv⟩ := hs
  refine ⟨set_length.trans (h.1.trans set_length), ?_⟩
  rw [get_set_self hi₄]
  refine ⟨hr, hc, hsv, ?_⟩
  by_cases hsw : sw = true
  · -- a `WINUPDATE` is sent only when no slot completed
    have htmp : tmp = [] := by
      simp only [sw, Bool.and_eq_true, beq_iff_eq, List.length_eq_zero_iff] at hsw
      exact hsw.1.2
    exact .inl ⟨by simp only [hsw, if_true], htmp⟩
  · exact .inr ⟨s.win, dc, by simp only [hsw, Bool.false_eq_true, if_false]; rfl⟩

end BwServer

/-! ## The credits of the session -/

/-- The requests a sender at `pc` took and has not written the responses of. -/
def respPending (pc : SenderPc) (vec : Bool) : Nat :=
  match pc with
  | .respond tmp _ _ => if vec then 0 else tmp.length
  | _ => 0

/-- The requests the server holds: the `CALL` whose payload it reads, the workers, the completed
slots, and the slots the sender took and has not answered. -/
def BwConn.srvHeld (c : BwConn) : Nat :=
  (if c.hdr.isSome then 1 else 0) + (c.srv.get 0).running + (c.srv.get 0).completed.length +
    respPending (c.srv.get 0).sender c.vec

/-- The client's credits as the rest of the session holds them: `CALL`s on their way to the
server, requests the server holds, responses on their way back, and dropped requests. -/
def BwConn.credits (c : BwConn) : Nat :=
  c.c2s.countP CbwHdr.isCall + c.srvHeld + c.s2c.countP SbwHdr.isCall + c.dropped

/-- The session's invariant: one session on the server, `hdr` held exactly while the receive loop
reads a payload, `vec` set only while the sender answers, and `win_used` equal to the credits. -/
structure BwConn.Ok (c : BwConn) : Prop where
  one : c.srv.sess.length = 1
  hdr : c.hdr.isSome = true ↔ (c.srv.get 0).server = .call
  vec : c.vec = true → ∃ tmp w dc, (c.srv.get 0).sender = .respond tmp w dc
  used : c.cli.winUsed = c.credits

theorem BwConn.init_ok (maxCores : Nat) : (BwConn.init maxCores).Ok := by
  refine ⟨rfl, ?_, fun h => absurd h (by simp [BwConn.init]), rfl⟩
  simp [BwConn.init, BwServer.serverStart, BwServer.init, BwServer.get, BwSession.fresh]

namespace BwConn.Ok
variable {c c' : BwConn}

theorem zero_lt (hc : c.Ok) : 0 < c.srv.sess.length := by
  rw [hc.one]
  exact Nat.one_pos

/-- Every step that names a session of the server names session `0`. -/
theorem eq_zero (hc : c.Ok) {i : Nat} (hi : i < c.srv.sess.length) : i = 0 :=
  Nat.lt_one_iff.mp (hc.one ▸ hi)

/-- A server step that keeps what the session holds. -/
theorem of_heldEq (hc : c.Ok) {srv : BwServer} (h : BwServer.HeldEq c.srv srv) :
    ({ c with srv := srv } : BwConn).Ok := by
  have h0 := h.2 0
  simp only [BwSession.held, Prod.mk.injEq] at h0
  obtain ⟨hr, hcomp, hsnd, hsrv⟩ := h0
  refine ⟨h.1.trans hc.one, ?_, ?_, ?_⟩
  · simpa only [hsrv] using hc.hdr
  · simpa only [hsnd] using hc.vec
  · have := hc.used
    simp only [BwConn.credits, BwConn.srvHeld, hr, hcomp, hsnd] at this ⊢
    exact this

/-- A server step while the sender is not answering, which keeps where the receive loop is and
moves requests between the workers, the completed slots and the sender. -/
theorem of_session (hc : c.Ok) (hvec : c.vec = false) {srv : BwServer}
    (hlen : srv.sess.length = 1) (hserver : (srv.get 0).server = (c.srv.get 0).server)
    (hcount : (srv.get 0).running + (srv.get 0).completed.length + respPending (srv.get 0).sender false =
      (c.srv.get 0).running + (c.srv.get 0).completed.length +
        respPending (c.srv.get 0).sender false) :
    ({ c with srv := srv } : BwConn).Ok := by
  refine ⟨hlen, ?_, fun h => absurd (hvec ▸ h) (by decide), ?_⟩
  · simpa only [hserver] using hc.hdr
  · have := hc.used
    simp only [BwConn.credits, BwConn.srvHeld, hvec] at this ⊢
    omega

/-- The sender is not answering unless `vec` says so. -/
theorem vec_false (hc : c.Ok) (h : ∀ tmp w dc, (c.srv.get 0).sender ≠ .respond tmp w dc) :
    c.vec = false := by
  cases hv : c.vec
  · rfl
  · obtain ⟨tmp, w, dc, hs⟩ := hc.vec hv
    exact absurd hs (h tmp w dc)

/-- A step of the server that writes session `0` and keeps the rest of the session's state, while
the sender has no response vector out. -/
theorem of_set (hc : c.Ok) (hvec : c.vec = false) {st : BwServer} {s : BwSession}
    (hsess : st.sess = c.srv.sess) (hrun : s.running = (c.srv.get 0).running)
    (hcomp : s.completed = (c.srv.get 0).completed) (hserver : s.server = (c.srv.get 0).server)
    (hpc : respPending s.sender false = respPending (c.srv.get 0).sender false) :
    ({ c with srv := st.set 0 s } : BwConn).Ok := by
  have hlt : 0 < st.sess.length := hsess ▸ hc.zero_lt
  refine hc.of_session hvec (by rw [BwServer.set_length, hsess, hc.one]) ?_ ?_
  · rw [BwServer.get_set_self hlt, hserver]
  · rw [BwServer.get_set_self hlt, hrun, hcomp, hpc]

theorem workerDone (hc : c.Ok) {i : Nat} {srv : BwServer}
    (h : bwStep c.srv (.workerDone i) = some srv) : ({ c with srv := srv } : BwConn).Ok := by
  simp only [bwStep] at h
  split_ifs at h with hrun
  obtain rfl := Option.some.inj h
  simp only [BwServer.holds, Bool.and_eq_true, decide_eq_true_eq] at hrun
  obtain ⟨hi, hpos⟩ := hrun
  obtain rfl := hc.eq_zero hi
  have hlt := hc.zero_lt
  have hu := hc.used
  refine ⟨by rw [BwServer.set_length, hc.one], ?_, ?_, ?_⟩
  · simpa [BwServer.get_set_self hlt] using hc.hdr
  · simpa [BwServer.get_set_self hlt] using hc.vec
  · -- the worker's request moves from `running` to the completed slots
    simp only [BwConn.credits, BwConn.srvHeld, BwServer.get_set_self hlt, List.length_append,
      List.length_singleton] at hu ⊢
    omega

theorem senderWake (hc : c.Ok) {i : Nat} {srv : BwServer}
    (h : bwStep c.srv (.senderWake i) = some srv) : ({ c with srv := srv } : BwConn).Ok := by
  simp only [bwStep] at h
  split_ifs at h with hwait hclosed
  all_goals
    simp only [BwServer.holds, Bool.and_eq_true, decide_eq_true_eq, beq_iff_eq] at hwait
    obtain ⟨hi, hpc, -⟩ := hwait
    obtain rfl := hc.eq_zero hi
    obtain rfl := Option.some.inj h
  · -- a closed session: the sender goes to its closing section
    exact hc.of_set (hc.vec_false (by simp [hpc])) rfl rfl rfl rfl (by simp [hpc, respPending])
  · -- the sender takes the completed slots, to answer them or send a `WINUPDATE`
    have hlt := hc.zero_lt
    obtain ⟨hlen, hrun, hcomp, hserver, hsnd⟩ := BwServer.senderWake_get hlt
    refine hc.of_session (hc.vec_false (by simp [hpc])) (hlen.trans hc.one) hserver ?_
    rw [hrun, hcomp, hpc]
    rcases hsnd with ⟨hw, hnil⟩ | ⟨w, dc, hr⟩
    · simp [hw, hnil, respPending]
    · simp [hr, respPending]

theorem senderDrain (hc : c.Ok) {i core : Nat} {srv : BwServer}
    (h : bwStep c.srv (.senderDrain i core) = some srv) : ({ c with srv := srv } : BwConn).Ok := by
  simp only [bwStep] at h
  split at h
  case h_2 => exact absurd h (by simp)
  rename_i w dc hpc
  split_ifs at h with hi hidle
  all_goals
    obtain rfl := hc.eq_zero hi.1
    obtain rfl := Option.some.inj h
    -- the sender moves on from `.drain`, with no response pending on either side
    exact hc.of_set (hc.vec_false (by simp [hpc])) rfl rfl rfl rfl (by simp [hpc, respPending])

theorem senderLink (hc : c.Ok) {i : Nat} {srv : BwServer}
    (h : bwStep c.srv (.senderLink i) = some srv) : ({ c with srv := srv } : BwConn).Ok := by
  simp only [bwStep] at h
  split at h
  case h_2 => exact absurd h (by simp)
  rename_i core hpc
  split_ifs at h with hi
  obtain rfl := hc.eq_zero hi
  have hvec := hc.vec_false (by simp [hpc])
  unfold BwServer.senderLink at h
  dsimp only at h
  -- linked onto a drained list or not, the sender goes back to waiting
  split_ifs at h with hdemand hwin
  all_goals
    obtain rfl := Option.some.inj h
    exact hc.of_set hvec rfl rfl rfl rfl (by simp [hpc, respPending])

theorem send (hc : c.Ok) {expired : Nat} (h : bwConnStep c (.send expired) = some c') : c'.Ok := by
  obtain rfl := Option.some.inj h
  have hs := CbwSession.cbwSendOne_sends (c := c.cli) expired
  refine ⟨hc.one, hc.hdr, hc.vec, ?_⟩
  have := hc.used
  simp only [CbwSession.Sends] at hs
  simp only [BwConn.credits, BwConn.srvHeld, List.countP_append] at this ⊢
  omega

theorem recv (hc : c.Ok) {expired : Nat} (h : bwConnStep c (.recv expired) = some c') : c'.Ok := by
  simp only [bwConnStep] at h
  split at h
  case h_2 => exact absurd h (by simp)
  rename_i hd rest hs2c
  obtain rfl := Option.some.inj h
  have hu := hc.used
  simp only [BwConn.credits, hs2c, List.countP_cons] at hu
  -- a `CALL` response at the head holds one of the credits in use
  have hr := CbwSession.cbwRecvOne_sends (c := c.cli) hd expired (fun hcall => by
    simp only [hcall, if_true] at hu
    omega)
  refine ⟨hc.one, hc.hdr, hc.vec, ?_⟩
  simp only [BwConn.credits, BwConn.srvHeld, List.countP_append] at hu ⊢
  omega

theorem timer (hc : c.Ok) {expired : Nat} (h : bwConnStep c (.timer expired) = some c') : c'.Ok := by
  simp only [bwConnStep] at h
  split_ifs at h
  obtain rfl := Option.some.inj h
  have hs := CbwSession.crpcTimer_sends (c := c.cli) expired
  refine ⟨hc.one, hc.hdr, hc.vec, ?_⟩
  have := hc.used
  simp only [CbwSession.Sends] at hs
  simp only [BwConn.credits, BwConn.srvHeld, List.countP_append] at this ⊢
  omega

theorem srvRecv (hc : c.Ok) (h : bwConnStep c .srvRecv = some c') : c'.Ok := by
  simp only [bwConnStep] at h
  have hu := hc.used
  have hlt := hc.zero_lt
  split at h
  · -- a `CALL`
    rename_i demand dsync rest hc2s
    simp only [BwConn.credits, hc2s, List.countP_cons, CbwHdr.isCall, if_true] at hu
    split_ifs at h with hrecv havail
    · -- `srpc_get_slot` finds a slot: the receive loop goes on to read the payload
      obtain ⟨srv, hstep, rfl⟩ := Option.map_eq_some_iff.mp h
      have hrecv' : (c.srv.get 0).server = .recv := by simpa [BwServer.holds, hlt] using hrecv
      simp only [bwStep] at hstep
      rw [if_pos (by simp [BwServer.holds, hlt, hrecv', havail])] at hstep
      obtain rfl := Option.some.inj hstep
      have hnone : c.hdr.isSome = false := by
        cases hh : c.hdr.isSome
        · rfl
        · have := hc.hdr.mp hh
          rw [hrecv'] at this
          cases this
      refine ⟨by rw [BwServer.set_length, hc.one], ?_, ?_, ?_⟩
      · simp [BwServer.get_set_self hlt]
      · intro hv
        simpa [BwServer.get_set_self hlt] using hc.vec hv
      · simp only [BwConn.credits, BwConn.srvHeld, hnone, BwServer.get_set_self hlt,
          Option.isSome_some, if_true, Bool.false_eq_true, if_false] at hu ⊢
        omega
    · -- no slot: the request is read and dropped
      obtain rfl := Option.some.inj h
      refine ⟨hc.one, hc.hdr, hc.vec, ?_⟩
      simp only [BwConn.credits, BwConn.srvHeld] at hu ⊢
      omega
  · -- a `WINUPDATE` changes the window only
    rename_i demand dsync rest hc2s
    obtain ⟨srv, hstep, rfl⟩ := Option.map_eq_some_iff.mp h
    simp only [bwStep] at hstep
    split_ifs at hstep
    obtain rfl := Option.some.inj hstep
    have hc' : ({ c with c2s := rest } : BwConn).Ok := by
      refine ⟨hc.one, hc.hdr, hc.vec, ?_⟩
      simp only [BwConn.credits, BwConn.srvHeld, hc2s, List.countP_cons, CbwHdr.isCall,
        Bool.false_eq_true, if_false] at hu ⊢
      omega
    exact hc'.of_heldEq (BwServer.heldEq_recvWinupdate _ _)
  · exact absurd h (by simp)

theorem srvCall (hc : c.Ok) {drop : Bool} (h : bwConnStep c (.srvCall drop) = some c') :
    c'.Ok := by
  simp only [bwConnStep] at h
  split at h
  case h_2 => exact absurd h (by simp)
  rename_i demand dsync hhdr
  obtain ⟨srv, hstep, rfl⟩ := Option.map_eq_some_iff.mp h
  have hlt := hc.zero_lt
  have hcall : (c.srv.get 0).server = .call := hc.hdr.mp (by simp [hhdr])
  simp only [bwStep] at hstep
  rw [if_pos (by simp [BwServer.holds, hlt, hcall])] at hstep
  obtain rfl := Option.some.inj hstep
  obtain ⟨hlen, hheld⟩ := BwServer.recvCall_get hlt (UInt64.ofNat demand) dsync drop
  have hu := hc.used
  -- the credit `hdr` held goes to a worker, or to a completed slot when the request is dropped
  cases drop <;>
  · simp only [BwSession.held, Bool.false_eq_true, if_true, if_false, Prod.mk.injEq] at hheld
    obtain ⟨hr, hcomp, hsnd, hsrv⟩ := hheld
    refine ⟨hlen.trans hc.one, by simp [hsrv], fun hv => by simpa [hsnd] using hc.vec hv, ?_⟩
    simp only [BwConn.credits, BwConn.srvHeld, hhdr, hr, hcomp, hsnd, Option.isSome_some,
      Option.isSome_none, if_true, Bool.false_eq_true, if_false, List.length_append,
      List.length_singleton] at hu ⊢
    omega

theorem srvWinupdate (hc : c.Ok) (h : bwConnStep c .srvWinupdate = some c') : c'.Ok := by
  simp only [bwConnStep] at h
  split_ifs at h with hpc
  obtain ⟨srv, hstep, rfl⟩ := Option.map_eq_some_iff.mp h
  simp only [bwStep] at hstep
  rw [if_pos (by simp [BwServer.holds, hc.one, hpc])] at hstep
  obtain rfl := Option.some.inj hstep
  -- a `WINUPDATE` carries no credit
  have hc' : ({ c with s2c := c.s2c ++ [.winupdate (toU64 (c.srv.get 0).win)] } : BwConn).Ok := by
    refine ⟨hc.one, hc.hdr, hc.vec, ?_⟩
    have hu := hc.used
    simp only [BwConn.credits, BwConn.srvHeld, List.countP_append, List.countP_singleton,
      SbwHdr.isCall, Bool.false_eq_true, if_false] at hu ⊢
    omega
  exact hc'.of_set (hc.vec_false (by simp [hpc])) rfl rfl rfl rfl (by simp [hpc, respPending])

theorem srvRespond (hc : c.Ok) (h : bwConnStep c .srvRespond = some c') : c'.Ok := by
  simp only [bwConnStep] at h
  split at h
  case h_2 => exact absurd h (by simp)
  rename_i tmp w dc hpc
  split_ifs at h with hvec
  obtain rfl := Option.some.inj h
  refine ⟨hc.one, hc.hdr, fun _ => ⟨tmp, w, dc, hpc⟩, ?_⟩
  -- the credits of the slots the sender took are now on the stream, as `CALL` responses
  have hu := hc.used
  simp only [BwConn.credits, BwConn.srvHeld, hpc, hvec, respPending, if_true,
    Bool.false_eq_true, if_false, List.countP_append, List.countP_map] at hu ⊢
  have hall : tmp.countP (SbwHdr.isCall ∘ SbwHdr.call (toU64 (c.srv.get 0).win)) = tmp.length :=
    List.countP_eq_length.mpr fun _ _ => rfl
  omega

theorem srvPut (hc : c.Ok) (h : bwConnStep c .srvPut = some c') : c'.Ok := by
  simp only [bwConnStep] at h
  split_ifs at h with hvec
  obtain ⟨srv, hstep, rfl⟩ := Option.map_eq_some_iff.mp h
  obtain ⟨tmp, w, dc, hpc⟩ := hc.vec hvec
  simp only [bwStep, hpc] at hstep
  rw [if_pos hc.zero_lt] at hstep
  obtain rfl := Option.some.inj hstep
  have hlt : 0 < ({ c.srv with numPending := c.srv.numPending - tmp.length } : BwServer).sess.length :=
    hc.zero_lt
  -- the responses are written, so the slots go back without changing the credits
  refine ⟨by rw [BwServer.set_length, hc.one], ?_, fun h => absurd h Bool.false_ne_true, ?_⟩
  · simpa [BwServer.get_set_self hlt] using hc.hdr
  · have hu := hc.used
    simp only [BwConn.credits, BwConn.srvHeld, BwServer.get_set_self hlt, hpc, hvec,
      respPending, if_true] at hu ⊢
    exact hu

theorem srv (hc : c.Ok) {op : BwOp} (h : bwConnStep c (.srv op) = some c') : c'.Ok := by
  simp only [bwConnStep] at h
  split_ifs at h with hop
  obtain ⟨srv, hstep, rfl⟩ := Option.map_eq_some_iff.mp h
  cases op <;> simp only [BwOp.internal, Bool.false_eq_true] at hop
  case workerDone => exact hc.workerDone hstep
  case senderWake => exact hc.senderWake hstep
  case senderDrain => exact hc.senderDrain hstep
  case senderLink => exact hc.senderLink hstep
  -- the worker's steps write a session's `drained_core`, `is_linked`, `wake_up` and `win` only
  all_goals
    refine hc.of_heldEq ?_
    simp only [bwStep] at hstep
    split at hstep <;> try split_ifs at hstep
    all_goals cases hstep
    all_goals first
      | exact BwServer.heldEq_of_sess rfl
      | exact BwServer.heldEq_ccChoose _ _ _
      | exact (BwServer.heldEq_of_sess rfl).trans (BwServer.heldEq_set ⟨rfl, rfl, rfl, rfl⟩)

end BwConn.Ok


/-- The invariant holds along every step of the session. -/
theorem bwConnStep_ok {c c' : BwConn} {op : BwConnOp} (hc : c.Ok) (h : bwConnStep c op = some c') :
    c'.Ok := by
  cases op with
  | send => exact hc.send h
  | recv => exact hc.recv h
  | timer => exact hc.timer h
  | srvRecv => exact hc.srvRecv h
  | srvCall => exact hc.srvCall h
  | srvWinupdate => exact hc.srvWinupdate h
  | srvRespond => exact hc.srvRespond h
  | srvPut => exact hc.srvPut h
  | srv => exact hc.srv h

theorem bwConnRun_ok {maxCores : Nat} {ops : List BwConnOp} {c : BwConn}
    (hrun : StepRun.run bwConnStep (BwConn.init maxCores) ops = some c) : c.Ok :=
  StepRun.Invariant.run (fun _ _ _ hc h => bwConnStep_ok hc h) (BwConn.init_ok maxCores) hrun

/-- Credits are conserved: over every run of the session, `win_used` counts each request exactly
once, on its way to the server, held by it, answered on the way back, or dropped. -/
theorem bwConnRun_winUsed_credits {maxCores : Nat} {ops : List BwConnOp} {c : BwConn}
    (hrun : StepRun.run bwConnStep (BwConn.init maxCores) ops = some c) :
    c.cli.winUsed = c.c2s.countP CbwHdr.isCall + c.srvHeld + c.s2c.countP SbwHdr.isCall + c.dropped :=
  (bwConnRun_ok hrun).used

theorem bwConnRun_winUsed_credits_demand :
    ∃ c, StepRun.run bwConnStep (BwConn.init 1) [.send 0, .srvRecv] = some c ∧
      c.cli.winUsed = c.c2s.countP CbwHdr.isCall + c.srvHeld + c.s2c.countP SbwHdr.isCall + c.dropped :=
  ⟨_, rfl, @bwConnRun_winUsed_credits 1 [.send 0, .srvRecv] _ rfl⟩

/-- A dropped request stays dropped: no step takes one back. -/
theorem bwConnStep_dropped_le {c c' : BwConn} {op : BwConnOp} (h : bwConnStep c op = some c') :
    c.dropped ≤ c'.dropped := by
  -- every branch rebuilds the session from `c`; only the drop branch of `.srvRecv` writes `dropped`
  cases op with
  | send expired =>
    cases h
    exact le_rfl
  | recv expired =>
    simp only [bwConnStep] at h
    split at h
    · cases h
      exact le_rfl
    · cases h
  | timer expired =>
    simp only [bwConnStep] at h
    split_ifs at h
    cases h
    exact le_rfl
  | srvRecv =>
    simp only [bwConnStep] at h
    split at h
    · split_ifs at h
      · obtain ⟨_, _, rfl⟩ := Option.map_eq_some_iff.mp h
        exact le_rfl
      · -- no slot: the request is dropped
        cases h
        exact Nat.le_succ _
    · obtain ⟨_, _, rfl⟩ := Option.map_eq_some_iff.mp h
      exact le_rfl
    · cases h
  | srvCall drop =>
    simp only [bwConnStep] at h
    split at h
    · obtain ⟨_, _, rfl⟩ := Option.map_eq_some_iff.mp h
      exact le_rfl
    · cases h
  | srvWinupdate =>
    simp only [bwConnStep] at h
    split_ifs at h
    obtain ⟨_, _, rfl⟩ := Option.map_eq_some_iff.mp h
    exact le_rfl
  | srvRespond =>
    simp only [bwConnStep] at h
    split at h
    · split_ifs at h
      cases h
      exact le_rfl
    · cases h
  | srvPut =>
    simp only [bwConnStep] at h
    split_ifs at h
    obtain ⟨_, _, rfl⟩ := Option.map_eq_some_iff.mp h
    exact le_rfl
  | srv op =>
    simp only [bwConnStep] at h
    split_ifs at h
    obtain ⟨_, _, rfl⟩ := Option.map_eq_some_iff.mp h
    exact le_rfl

/-- A dropped request's credit never comes back: after any run from a state of the session,
`win_used` is at least the number of requests dropped before it. -/
theorem bwConnRun_dropped_le_winUsed {c c' : BwConn} {ops : List BwConnOp} (hc : c.Ok)
    (hrun : StepRun.run bwConnStep c ops = some c') : c.dropped ≤ c'.cli.winUsed := by
  have hinv : c'.Ok ∧ c.dropped ≤ c'.dropped :=
    StepRun.Invariant.run (I := fun c' => c'.Ok ∧ c.dropped ≤ c'.dropped)
      (fun _ _ _ h hs => ⟨bwConnStep_ok h.1 hs, h.2.trans (bwConnStep_dropped_le hs)⟩)
      ⟨hc, le_refl _⟩ hrun
  have hu := hinv.1.used
  unfold BwConn.credits at hu
  omega

/-- A session at `maxCores = 1`: the worker opens a window of `64`, cut to `63` by the
`WINUPDATE`; the client fills it; two responses go out in one vector; the client reads them and
sends two requests before the sender puts the slots back, and the second finds no slot. -/
def dropTrace : List BwConnOp :=
  ([.srv (.ccTick 64 0), .srv .ccReadUsed, .srv .ccLoop, .srv .ccChoose, .srv .ccFinish,
    .send 0, .srvRecv, .srv (.senderWake 0), .srvWinupdate, .recv 0] : List BwConnOp) ++
  List.replicate 62 (BwConnOp.send 0) ++
  (List.replicate 63 ([.srvRecv, .srvCall false] : List BwConnOp)).flatten ++
  ([.srv (.workerDone 0), .srv (.workerDone 0), .srv (.senderWake 0), .srvRespond,
    .recv 0, .send 0, .recv 0, .send 0, .srvRecv, .srvCall false, .srvRecv] : List BwConnOp)

/-- A session at `maxCores = 1` where the window shrinks under the client: the client has two
requests out when the server drops both for queueing delay, each drop cutting the session's
window; the client sends a third before the answer to the first, which carries the window `1`,
arrives. -/
def shrinkTrace : List BwConnOp :=
  [.srv (.ccTick 64 0), .srv .ccReadUsed, .srv .ccLoop, .send 0, .srvRecv, .srv .ccChoose,
    .srv .ccFinish, .srv (.senderWake 0), .srvWinupdate, .send 0, .recv 0, .srvRecv,
    .srvCall true, .srv (.senderWake 0), .srvRecv, .srvCall true, .send 0, .srvRespond, .recv 0]

theorem bwConn_overruns_window_and_leaks_credit :
    (∃ c, StepRun.run bwConnStep (BwConn.init 1) shrinkTrace = some c ∧
      c.cli.winAvail < c.cli.winUsed) ∧
    ∃ c, StepRun.run bwConnStep (BwConn.init 1) dropTrace = some c ∧
      c.dropped = 1 ∧ c.cli.winUsed ≤ c.cli.winAvail ∧ (c.srv.get 0).closed = false ∧
      ∀ ops c', StepRun.run bwConnStep c ops = some c' → 1 ≤ c'.cli.winUsed := by
  have hshrink : (StepRun.run bwConnStep (BwConn.init 1) shrinkTrace).map
      (fun c => decide (c.cli.winAvail < c.cli.winUsed)) = some true := by
    decide +kernel
  have htrace : (StepRun.run bwConnStep (BwConn.init 1) dropTrace).map
      (fun c => (c.dropped, decide (c.cli.winUsed ≤ c.cli.winAvail), (c.srv.get 0).closed)) =
        some (1, true, false) := by
    decide +kernel
  refine ⟨?_, ?_⟩
  · obtain ⟨c, hrun, hc⟩ := Option.map_eq_some_iff.mp hshrink
    exact ⟨c, hrun, of_decide_eq_true hc⟩
  · obtain ⟨c, hrun, hc⟩ := Option.map_eq_some_iff.mp htrace
    simp only [Prod.mk.injEq, decide_eq_true_eq] at hc
    obtain ⟨hdrop, hwin, hopen⟩ := hc
    refine ⟨c, hrun, hdrop, hwin, hopen, fun ops c' hrun' => ?_⟩
    -- the dropped request's credit is among those `win_used` still counts
    exact hdrop ▸ bwConnRun_dropped_le_winUsed (bwConnRun_ok hrun) hrun'

end Caladan
