import Mathlib
import Caladan.Base.Lrpc
import Caladan.Lib.Serial

/-!
# The LRPC channel protocol

`LrpcSys` is one channel with both of its ends and the shared region, together with two ghost
logs: `sent`, the messages whose `lrpc_send` returned `true`, and `rcvd`, the messages returned by
successful `lrpc_recv` calls. A run is any sequence of calls of the sender (`lrpc_send`,
`lrpc_poll_send_tail`) and the receiver (`lrpc_recv`, `lrpc_empty`), each one atomic step.

`LrpcInv k` ties the words of the channel to the unbounded counts `N = sent.length` and
`R = rcvd.length`: the positions are `N` and `R` modulo `2^32`, the cached tail is some count
between `N - 2^k` and `R`, and the table holds the last `2^k` messages sent, each encoded with
the parity of its lap (`lrpcEncode`), with slots never written still zero. The read of slot `R`
then decides exactly whether `R < N` (`recv_slot`): the message is there with the parity the
reader expects, or the slot holds a message of the previous lap, or it is still zero.
-/

namespace Caladan

/-- One call made by the sender or the receiver of a channel. -/
inductive LrpcCall
  | send (cmd payload : UInt64)
  | pollSendTail
  | recv
  | empty
deriving DecidableEq, Repr

/-- `lrpc_send`'s precondition: the command leaves the parity bit clear. -/
def LrpcCall.CmdOk : LrpcCall → Prop
  | .send cmd _ => cmd &&& lrpcDoneParity = 0
  | _ => True

instance (c : LrpcCall) : Decidable c.CmdOk := by
  cases c <;> unfold LrpcCall.CmdOk <;> infer_instance

/-- A channel, its shared region, and the ghost logs of what was sent and received. -/
structure LrpcSys where
  out : LrpcChanOut
  inn : LrpcChanIn
  shm : LrpcShm
  sent : List (UInt64 × UInt64)
  rcvd : List (UInt64 × UInt64)

/-- Both ends just initialised over a zeroed region. -/
def LrpcSys.init (out : LrpcChanOut) (inn : LrpcChanIn) : LrpcSys :=
  ⟨out, inn, ⟨fun _ => ⟨0, 0⟩, 0⟩, [], []⟩

/-- One call; the logs record what the call reported. -/
def LrpcSys.step (s : LrpcSys) : LrpcCall → LrpcSys
  | .send cmd payload =>
    let r := lrpcSend s.out s.shm cmd payload
    { s with out := r.2.1, shm := r.2.2, sent := if r.1 then s.sent ++ [(cmd, payload)] else s.sent }
  | .pollSendTail => { s with out := (lrpcPollSendTail s.out s.shm).2 }
  | .recv =>
    let r := lrpcRecv s.inn s.shm
    { s with inn := r.2.1, shm := r.2.2, rcvd := s.rcvd ++ r.1.toList }
  | .empty => s

def LrpcSys.run (s : LrpcSys) (calls : List LrpcCall) : LrpcSys := calls.foldl LrpcSys.step s

/-- The parity bit of count `n` on a table of `2^k` slots. -/
def lrpcLapParity (k n : Nat) : UInt64 := if PowRing.lap k n = 1 then 0 else lrpcDoneParity

/-- How the `n`-th message sits in its slot. -/
def lrpcEncode (k n : Nat) (p : UInt64 × UInt64) : LrpcMsg := ⟨p.1 ||| lrpcLapParity k n, p.2⟩

/-- The invariant of a channel over a table of `2^k` slots (see the module doc). -/
structure LrpcInv (k : Nat) (s : LrpcSys) : Prop where
  k_lt : k < 32
  size_out : s.out.size.toNat = 2 ^ k
  size_in : s.inn.size.toNat = 2 ^ k
  fifo : s.rcvd <+: s.sent
  window : s.sent.length ≤ s.rcvd.length + 2 ^ k
  head : s.out.sendHead = UInt32.ofNat s.sent.length
  recvHead : s.inn.recvHead = UInt32.ofNat s.rcvd.length
  wb : s.shm.recvHeadWb = UInt32.ofNat s.rcvd.length
  tail : ∃ t, t ≤ s.rcvd.length ∧ s.sent.length ≤ t + 2 ^ k ∧ s.out.sendTail = UInt32.ofNat t
  live : ∀ n (h : n < s.sent.length), s.sent.length ≤ n + 2 ^ k →
    s.shm.tbl (n % 2 ^ k) = lrpcEncode k n s.sent[n]
  fresh : ∀ i, i < 2 ^ k → s.sent.length ≤ i → s.shm.tbl i = ⟨0, 0⟩
  cmds : ∀ p ∈ s.sent, p.1 &&& lrpcDoneParity = 0

/-! ## Counters on the table -/

section
variable {k : Nat}

theorem lrpcLapParity_cases (k n : Nat) :
    lrpcLapParity k n = 0 ∨ lrpcLapParity k n = lrpcDoneParity := by
  unfold lrpcLapParity; split <;> simp

theorem lrpcLapParity_add_ne (k n : Nat) : lrpcLapParity k (n + 2 ^ k) ≠ lrpcLapParity k n := by
  have hne := PowRing.lap_add_ne k n
  have h1 : PowRing.lap k n < 2 := Nat.mod_lt _ (by decide)
  have h2 : PowRing.lap k (n + 2 ^ k) < 2 := Nat.mod_lt _ (by decide)
  unfold lrpcLapParity
  split <;> split <;> simp [lrpcDoneParity_ne_zero, Ne.symm lrpcDoneParity_ne_zero] <;> omega

theorem lrpcLapParity_of_lt {n : Nat} (h : n < 2 ^ k) : lrpcLapParity k n = lrpcDoneParity := by
  simp [lrpcLapParity, PowRing.lap, Nat.div_eq_of_lt h]

theorem lrpcParity_ofNat {size : UInt32} (hk : k < 32) (hs : size.toNat = 2 ^ k) (n : Nat) :
    lrpcParity (UInt32.ofNat n) size = lrpcLapParity k n := by
  have h := PowRing.and_ne_zero_iff hs (UInt32.ofNat n)
  rw [PowRing.lap_ofNat n hk] at h
  by_cases hl : PowRing.lap k n = 1
  · simp [lrpcParity, lrpcLapParity, hl, h.mpr hl]
  · have : UInt32.ofNat n &&& size = 0 := by simpa using mt h.mp hl
    simp [lrpcParity, lrpcLapParity, hl, this]

theorem lrpcSlot_ofNat {size : UInt32} (hk : k < 32) (hs : size.toNat = 2 ^ k) (n : Nat) :
    (UInt32.ofNat n &&& (size - 1)).toNat = n % 2 ^ k := by
  rw [PowRing.and_sub_one_toNat hs, PowRing.slot_ofNat n (by omega)]

end

/-! ## Initialisation -/

theorem LrpcInv.init {size : UInt32} {out : LrpcChanOut} {inn : LrpcChanIn}
    (hout : lrpcInitOut size = some out) (hin : lrpcInitIn size = some inn) :
    ∃ k, LrpcInv k (LrpcSys.init out inn) := by
  unfold lrpcInitOut at hout
  unfold lrpcInitIn at hin
  split at hout
  · rename_i hpow
    simp only [Option.some.injEq] at hout hin
    rw [if_pos hpow] at hin
    simp only [Option.some.injEq] at hin
    subst hout hin
    have hpow' : size ≠ 0 ∧ size &&& (size - 1) = 0 := by simpa [isPowerOfTwo] using hpow
    obtain ⟨k, hk, hs⟩ := (PowRing.isPow_iff size).mp hpow'
    refine ⟨k, ⟨hk, hs, hs, List.prefix_rfl, ?_, rfl, rfl, rfl, ⟨0, le_rfl, ?_, rfl⟩, ?_,
      fun i _ _ => rfl, ?_⟩⟩ <;> simp [LrpcSys.init]
  · cases hout

/-! ## The calls -/

namespace LrpcInv
variable {k : Nat} {s : LrpcSys}

/-- The slot the receiver reads holds message `R` when `R < N`, and otherwise a word whose parity
bit differs from the one the reader expects. -/
theorem recv_slot (h : LrpcInv k s) :
    (∀ hr : s.rcvd.length < s.sent.length,
      s.shm.tbl (s.inn.recvHead &&& (s.inn.size - 1)).toNat = lrpcEncode k s.rcvd.length s.sent[s.rcvd.length]) ∧
    (s.rcvd.length = s.sent.length →
      (s.shm.tbl (s.inn.recvHead &&& (s.inn.size - 1)).toNat).cmd &&& lrpcDoneParity ≠
        lrpcParity s.inn.recvHead s.inn.size) := by
  rw [h.recvHead, lrpcSlot_ofNat h.k_lt h.size_in, lrpcParity_ofNat h.k_lt h.size_in]
  refine ⟨fun hr => h.live _ hr (by have := h.window; omega), fun hrN => ?_⟩
  rw [hrN]
  by_cases hN : s.sent.length < 2 ^ k
  · rw [Nat.mod_eq_of_lt hN, h.fresh _ hN le_rfl, lrpcLapParity_of_lt hN]
    exact Ne.symm lrpcDoneParity_ne_zero
  · -- the slot still holds the message sent one lap earlier
    obtain ⟨n, hn⟩ : ∃ n, s.sent.length = n + 2 ^ k := ⟨s.sent.length - 2 ^ k, by omega⟩
    have hlt : n < s.sent.length := by have := Nat.two_pow_pos k; omega
    have hslot : s.sent.length % 2 ^ k = n % 2 ^ k := by rw [hn, Nat.add_mod_right]
    rw [hslot, h.live n hlt (by omega), lrpcEncode,
      (encode_parity (h.cmds _ (List.getElem_mem hlt)) (lrpcLapParity_cases k n)).1, hn]
    exact Ne.symm (lrpcLapParity_add_ne k n)

/-- Writing the next message through a channel half whose tail is a count `t ≤ R` less than one
table away from `N`. -/
theorem put (h : LrpcInv k s) {t : Nat} (ht : t ≤ s.rcvd.length) (hN : s.sent.length < t + 2 ^ k)
    {cmd payload : UInt64} (hcmd : cmd &&& lrpcDoneParity = 0) :
    LrpcInv k { s with
      out := (lrpcPut { s.out with sendTail := UInt32.ofNat t } s.shm cmd payload).1,
      shm := (lrpcPut { s.out with sendTail := UInt32.ofNat t } s.shm cmd payload).2,
      sent := s.sent ++ [(cmd, payload)] } := by
  have hidx : (s.out.sendHead &&& (s.out.size - 1)).toNat = s.sent.length % 2 ^ k := by
    rw [h.head, lrpcSlot_ofNat h.k_lt h.size_out]
  have hpar : lrpcParity s.out.sendHead s.out.size = lrpcLapParity k s.sent.length := by
    rw [h.head, lrpcParity_ofNat h.k_lt h.size_out]
  obtain ⟨hk, hso, hsi, hpre, hwin, hhead, hrh, hwb, -, hlive, hfresh, hcmds⟩ := h
  refine ⟨hk, hso, hsi, hpre.trans (List.prefix_append _ _), by simp; omega, ?_, hrh, hwb,
    ⟨t, ht, by simp; omega, rfl⟩, ?_, ?_, ?_⟩
  · simp [lrpcPut, hhead]
  · intro n hn hwin'
    simp only [List.length_append, List.length_singleton] at hn hwin'
    simp only [lrpcPut, hidx, hpar]
    rcases Nat.lt_or_ge n s.sent.length with hlt | hge
    · have hne : n % 2 ^ k ≠ s.sent.length % 2 ^ k := fun he =>
        absurd (PowRing.mod_inj_of_window (by omega) (by omega) he) (by omega)
      rw [Function.update_of_ne hne, hlive n hlt (by omega), List.getElem_append_left hlt]
    · have hn' : n = s.sent.length := by omega
      subst hn'
      simp [lrpcEncode]
  · intro i hi hge
    simp only [List.length_append, List.length_singleton] at hge
    have hne : i ≠ s.sent.length % 2 ^ k := by
      have := Nat.mod_le s.sent.length (2 ^ k); omega
    simp only [lrpcPut, hidx, Function.update_of_ne hne]
    exact hfresh i hi (by omega)
  · intro p hp
    rcases List.mem_append.mp hp with hp | hp
    · exact hcmds p hp
    · simp only [List.mem_singleton] at hp; subst hp; exact hcmd

/-- What `lrpc_send` does from an invariant state: it fails with `2^k` messages outstanding
(having refreshed its tail), or it writes the message through a tail `t ≤ R` that leaves room. -/
theorem send_cases (h : LrpcInv k s) (cmd payload : UInt64) :
    (s.sent.length = s.rcvd.length + 2 ^ k ∧
      lrpcSend s.out s.shm cmd payload = (false, { s.out with sendTail := UInt32.ofNat s.rcvd.length }, s.shm)) ∨
    ∃ t, t ≤ s.rcvd.length ∧ s.sent.length < t + 2 ^ k ∧
      lrpcSend s.out s.shm cmd payload =
        (true, (lrpcPut { s.out with sendTail := UInt32.ofNat t } s.shm cmd payload).1,
          (lrpcPut { s.out with sendTail := UInt32.ofNat t } s.shm cmd payload).2) := by
  obtain ⟨t, ht, hNt, htail⟩ := h.tail
  have hw := h.window
  have hle := h.fifo.length_le
  have hpow : 2 ^ k ≤ 2 ^ 31 := Nat.pow_le_pow_right (by decide) (by have := h.k_lt; omega)
  have hsize := h.size_out
  -- the occupancy the fast path computes from the cached tail
  have hocc : (s.out.sendHead - s.out.sendTail).toNat = s.sent.length - t := by
    rw [h.head, htail, Serial.toNat_ofNat_sub_ofNat (by omega) (by omega)]
  by_cases hfull : s.out.sendHead - s.out.sendTail ≥ s.out.size
  · -- slow path: the tail is reloaded from the write-back word
    have hocc' : (s.out.sendHead - s.shm.recvHeadWb).toNat = s.sent.length - s.rcvd.length := by
      rw [h.head, h.wb, Serial.toNat_ofNat_sub_ofNat (by omega) (by omega)]
    by_cases hR : s.out.sendHead - s.shm.recvHeadWb = s.out.size
    · refine .inl ⟨?_, by rw [h.wb] at hR; simp [lrpcSend, lrpcSendSlow, hfull, hR, h.wb]⟩
      have := congrArg UInt32.toNat hR
      rw [hocc', hsize] at this
      omega
    · refine .inr ⟨s.rcvd.length, le_rfl, ?_, by
        rw [h.wb] at hR; simp [lrpcSend, lrpcSendSlow, hfull, hR, h.wb]⟩
      have hne : (s.out.sendHead - s.shm.recvHeadWb).toNat ≠ s.out.size.toNat :=
        fun he => hR (UInt32.toNat_inj.mp he)
      rw [hocc', hsize] at hne
      omega
  · -- fast path: the cached tail leaves room
    refine .inr ⟨t, ht, ?_, by simp [lrpcSend, hfull, ← htail]⟩
    rw [ge_iff_le, UInt32.le_iff_toNat_le, hocc, hsize] at hfull
    omega

theorem send (h : LrpcInv k s) {cmd payload : UInt64} (hcmd : cmd &&& lrpcDoneParity = 0) :
    LrpcInv k (s.step (.send cmd payload)) := by
  rcases h.send_cases cmd payload with ⟨hN, hres⟩ | ⟨t, ht, hNt, hres⟩
  · simp only [LrpcSys.step, hres, Bool.false_eq_true, if_false]
    exact ⟨h.k_lt, h.size_out, h.size_in, h.fifo, h.window, h.head, h.recvHead, h.wb,
      ⟨s.rcvd.length, le_rfl, h.window, rfl⟩, h.live, h.fresh, h.cmds⟩
  · simp only [LrpcSys.step, hres, if_true]
    exact h.put ht hNt hcmd

theorem send_false (h : LrpcInv k s) {cmd payload : UInt64}
    (hf : (lrpcSend s.out s.shm cmd payload).1 = false) : s.sent.length = s.rcvd.length + 2 ^ k := by
  rcases h.send_cases cmd payload with ⟨hN, -⟩ | ⟨t, -, -, hres⟩
  · exact hN
  · simp [hres] at hf

theorem recv (h : LrpcInv k s) :
    LrpcInv k (s.step .recv) ∧ ((lrpcRecv s.inn s.shm).1 = none → s.rcvd.length = s.sent.length) := by
  obtain ⟨hlive, hstale⟩ := h.recv_slot
  have hle := h.fifo.length_le
  have hw := h.window
  rcases Nat.lt_or_ge s.rcvd.length s.sent.length with hr | hr
  · have hmsg := hlive hr
    have henc := encode_parity (h.cmds _ (List.getElem_mem hr)) (lrpcLapParity_cases k s.rcvd.length)
    have hpar : lrpcParity s.inn.recvHead s.inn.size = lrpcLapParity k s.rcvd.length := by
      rw [h.recvHead, lrpcParity_ofNat h.k_lt h.size_in]
    have hres : lrpcRecv s.inn s.shm =
        (some s.sent[s.rcvd.length], { s.inn with recvHead := s.inn.recvHead + 1 },
          { s.shm with recvHeadWb := s.inn.recvHead + 1 }) := by
      simp only [lrpcRecv, hmsg, lrpcEncode, henc.1, henc.2, hpar, bne_self_eq_false,
        Bool.false_eq_true, if_false]
    refine ⟨?_, by simp [hres]⟩
    simp only [LrpcSys.step, hres, Option.toList_some]
    -- the received log grows by the next message of the sent log
    have hpre : s.rcvd ++ [s.sent[s.rcvd.length]] <+: s.sent := by
      have htake := List.prefix_iff_eq_take.mp h.fifo
      have hnext : s.rcvd ++ [s.sent[s.rcvd.length]] = s.sent.take (s.rcvd.length + 1) := by
        rw [← List.take_append_getElem hr, ← htake]
      rw [hnext]
      exact List.take_prefix _ _
    exact ⟨h.k_lt, h.size_out, h.size_in, hpre, by simp; omega, h.head,
      by simp [h.recvHead], by simp [h.recvHead],
      by obtain ⟨t, ht, hNt, htl⟩ := h.tail; exact ⟨t, by simp; omega, by omega, htl⟩,
      h.live, h.fresh, h.cmds⟩
  · have hRN : s.rcvd.length = s.sent.length := by omega
    have hres : lrpcRecv s.inn s.shm = (none, s.inn, s.shm) := by
      simp only [lrpcRecv, bne_iff_ne, ne_eq, hstale hRN, not_false_eq_true, if_true]
    refine ⟨?_, fun _ => hRN⟩
    simp only [LrpcSys.step, hres, Option.toList_none, List.append_nil]
    exact h

theorem pollSendTail (h : LrpcInv k s) : LrpcInv k (s.step .pollSendTail) := by
  have hle := h.fifo.length_le
  exact ⟨h.k_lt, h.size_out, h.size_in, h.fifo, h.window, h.head, h.recvHead, h.wb,
    ⟨s.rcvd.length, le_rfl, h.window, by simp [LrpcSys.step, lrpcPollSendTail, h.wb]⟩, h.live, h.fresh, h.cmds⟩

theorem empty_iff (h : LrpcInv k s) : lrpcEmpty s.inn s.shm = true ↔ s.rcvd.length = s.sent.length := by
  obtain ⟨hlive, hstale⟩ := h.recv_slot
  have hle := h.fifo.length_le
  constructor
  · intro he
    by_contra hne
    have hr : s.rcvd.length < s.sent.length := by omega
    have henc := encode_parity (h.cmds _ (List.getElem_mem hr)) (lrpcLapParity_cases k s.rcvd.length)
    have hpar : lrpcParity s.inn.recvHead s.inn.size = lrpcLapParity k s.rcvd.length := by
      rw [h.recvHead, lrpcParity_ofNat h.k_lt h.size_in]
    simp only [lrpcEmpty, hlive hr, lrpcEncode, henc.1, hpar, bne_self_eq_false,
      Bool.false_eq_true] at he
  · intro hRN
    simp only [lrpcEmpty, bne_iff_ne, ne_eq, hstale hRN, not_false_eq_true]

theorem step (h : LrpcInv k s) {c : LrpcCall} (hc : c.CmdOk) : LrpcInv k (s.step c) := by
  cases c with
  | send cmd payload => exact h.send hc
  | pollSendTail => exact h.pollSendTail
  | recv => exact h.recv.1
  | empty => exact h

theorem run (h : LrpcInv k s) {calls : List LrpcCall} (hc : ∀ c ∈ calls, c.CmdOk) :
    LrpcInv k (s.run calls) :=
  List.foldlRecOn calls LrpcSys.step h fun _ hs c hmem => hs.step (hc c hmem)

end LrpcInv

/-- The LRPC channel protocol: after any run of calls on a channel initialised over a zeroed
region, the messages received are a prefix of the messages sent, a send fails only with `size`
messages outstanding, and a receive fails, or `lrpc_empty` holds, only once everything sent has
been received. -/
theorem lrpc_channel_fifo {size : UInt32} {out : LrpcChanOut} {inn : LrpcChanIn}
    (hout : lrpcInitOut size = some out) (hin : lrpcInitIn size = some inn)
    (calls : List LrpcCall) (hcmd : ∀ c ∈ calls, c.CmdOk) :
    let s := (LrpcSys.init out inn).run calls
    s.rcvd <+: s.sent ∧
    (∀ cmd payload, (lrpcSend s.out s.shm cmd payload).1 = false →
      s.sent.length = s.rcvd.length + size.toNat) ∧
    ((lrpcRecv s.inn s.shm).1 = none → s.rcvd.length = s.sent.length) ∧
    (lrpcEmpty s.inn s.shm = true → s.rcvd.length = s.sent.length) := by
  obtain ⟨k, h0⟩ := LrpcInv.init hout hin
  have h := h0.run hcmd
  have hsize : size.toNat = 2 ^ k := by
    have h1 := h0.size_out
    unfold lrpcInitOut at hout
    split at hout
    · simp only [Option.some.injEq] at hout; subst hout; exact h1
    · cases hout
  refine ⟨h.fifo, fun cmd payload hf => hsize ▸ h.send_false hf, fun hr => h.recv.2 hr,
    fun he => h.empty_iff.mp he⟩

/-- A channel of two slots over which one message is sent and received. -/
theorem lrpc_channel_fifo_two :
    ((LrpcSys.init ⟨0, 0, 2⟩ ⟨0, 2⟩).run [.send 7 9, .recv]).rcvd <+:
      ((LrpcSys.init ⟨0, 0, 2⟩ ⟨0, 2⟩).run [.send 7 9, .recv]).sent :=
  (@lrpc_channel_fifo 2 ⟨0, 0, 2⟩ ⟨0, 2⟩ (by decide) (by decide) [.send 7 9, .recv] (by decide)).1

end Caladan
