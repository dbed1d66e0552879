import Mathlib
import Caladan.Base.LrpcChannel
import Caladan.Iokernel.Tx
import Caladan.Iokernel.Rx

/-!
# The rings of the ingress path as queues

`Caladan.Iokernel.Rx` reads each LRPC ring as the queue of its unread messages. This module ties
that reading to the LRPC channel (`LrpcSys`, `LrpcInv`) and to the ring-level drains of
`Caladan.Iokernel.Tx`. The unread messages of a channel are `LrpcSys.pending`, the messages sent
and not yet received. From an invariant state `lrpc_recv` takes the first one
(`LrpcInv.recv_pending`), and `n` receives take the first `n` (`LrpcInv.recvN_pending`).

`commandsRx_refines` is the refinement of the command path: the ring-level `commands_rx` of
`Caladan.commandsRx`, polling channels whose unread messages are the `TXCMD_NET_COMPLETE`
commands the queue view holds for each thread, frees the buffers that `commandsRxLoop` takes, in
the same order, and leaves each channel holding the commands the queue view leaves.
-/

namespace Caladan

/-- The messages sent over the channel and not yet received. -/
def LrpcSys.pending (s : LrpcSys) : List (UInt64 × UInt64) := s.sent.drop s.rcvd.length

@[simp] theorem LrpcSys.length_pending (s : LrpcSys) :
    s.pending.length = s.sent.length - s.rcvd.length := by
  simp [LrpcSys.pending]

namespace LrpcInv

variable {k : Nat} {s : LrpcSys}

theorem sent_eq (h : LrpcInv k s) : s.sent = s.rcvd ++ s.pending := by
  obtain ⟨t, ht⟩ := h.fifo
  rw [LrpcSys.pending, ← ht, List.drop_left]

/-- `lrpc_recv` from an invariant state takes the first unread message, and `none` when there is
none. -/
theorem recv_pending (h : LrpcInv k s) :
    lrpcRecv s.inn s.shm = (s.pending.head?, (s.step .recv).inn, (s.step .recv).shm) ∧
      LrpcInv k (s.step .recv) ∧ (s.step .recv).sent = s.sent ∧
      (s.step .recv).pending = s.pending.tail := by
  obtain ⟨h', hnone⟩ := h.recv
  have hsent := h.sent_eq
  -- what the receive returned is the next message of the sent log
  have hhead : (lrpcRecv s.inn s.shm).1 = s.pending.head? := by
    cases hr : (lrpcRecv s.inn s.shm).1 with
    | none =>
      have hRN := hnone hr
      simp [LrpcSys.pending, hRN]
    | some m =>
      obtain ⟨u, hu⟩ := h'.fifo
      simp only [LrpcSys.step, hr, Option.toList_some] at hu
      rw [hsent, List.append_assoc] at hu
      obtain ⟨rest, hp⟩ : ∃ rest, s.pending = m :: rest :=
        ⟨u, by simpa using (List.append_cancel_left hu).symm⟩
      simp [hp]
  refine ⟨by rw [← hhead]; simp [LrpcSys.step], h', rfl, ?_⟩
  simp only [LrpcSys.pending, LrpcSys.step, List.length_append]
  rw [hhead]
  cases hp : s.pending with
  | nil =>
    simp only [LrpcSys.pending] at hp
    simp [hp]
  | cons m rest =>
    simp only [LrpcSys.pending] at hp
    simp [← List.drop_drop, hp]

/-- `n` receives take the first `n` unread messages. -/
theorem recvN_pending (h : LrpcInv k s) (n : Nat) :
    ∃ s', LrpcInv k s' ∧ s'.sent = s.sent ∧ s'.pending = s.pending.drop n ∧
      lrpcRecvN n s.inn s.shm = (s.pending.take n, s'.inn, s'.shm) := by
  induction n generalizing s with
  | zero => exact ⟨s, h, rfl, rfl, rfl⟩
  | succ n ih =>
    obtain ⟨hrecv, h₁, hsent₁, hpend₁⟩ := h.recv_pending
    cases hp : s.pending with
    | nil =>
      refine ⟨s.step .recv, h₁, hsent₁, by simp [hpend₁, hp], ?_⟩
      rw [hp] at hrecv
      simp [lrpcRecvN_succ_none hrecv]
    | cons m rest =>
      rw [hp] at hrecv hpend₁
      obtain ⟨s', h', hsent', hpend', hrecvN⟩ := ih h₁
      refine ⟨s', h', hsent'.trans hsent₁, by simp [hpend', hpend₁], ?_⟩
      rw [lrpcRecvN_succ_some hrecv, hrecvN, hpend₁]
      simp

end LrpcInv

/-! ## The queue view of the command path -/

section

variable {α : Type*} [BEq α] [LawfulBEq α] {p p' : α → Bool} {l : List α} {e : α}

/-- Erasing the first item a filter keeps drops the head of the filter. -/
theorem filter_erase_of_find? (h : l.find? p = some e) : (l.erase e).filter p = (l.filter p).tail := by
  have hcons : l.filter p = e :: (l.filter p).tail := by
    rw [← List.head?_filter] at h
    exact List.eq_cons_of_mem_head? h
  rw [← List.erase_filter, hcons, List.erase_cons_head]
  rfl

/-- Erasing an item another filter drops leaves that filter alone. -/
theorem filter_erase_of_not (h : p' e = false) : (l.erase e).filter p' = l.filter p' := by
  rw [← List.erase_filter, List.erase_of_not_mem (by simp [h])]

end

/-- `commands_drain_queue` on the queue view takes the first `n` unread commands of thread `t`,
and leaves the commands of every other thread alone. -/
theorem commandsDrainTxcmdq_filter (t : Nat × Nat) :
    ∀ (n : Nat) (q : List ((Nat × Nat) × Nat)),
      (commandsDrainTxcmdq t n q).1 = ((q.filter (·.1 = t)).take n).map (·.2) ∧
      ∀ t', (commandsDrainTxcmdq t n q).2.filter (·.1 = t') =
        if t' = t then (q.filter (·.1 = t)).drop n else q.filter (·.1 = t')
  | 0, q => by
    refine ⟨by simp [commandsDrainTxcmdq], fun t' => ?_⟩
    split_ifs with ht
    · subst ht
      simp [commandsDrainTxcmdq]
    · simp [commandsDrainTxcmdq]
  | n + 1, q => by
    unfold commandsDrainTxcmdq
    split
    · rename_i hnone
      -- no command of `t` is unread
      have hnil : q.filter (·.1 = t) = [] := by
        rw [← List.head?_eq_none_iff, List.head?_filter]
        exact hnone
      refine ⟨by simp [hnil], fun t' => ?_⟩
      split_ifs with ht
      · subst ht
        simp [hnil]
      · rfl
    · rename_i e hfind
      have het : e.1 = t := by simpa using List.find?_some hfind
      have hcons : q.filter (·.1 = t) = e :: (q.filter (·.1 = t)).tail := by
        rw [← List.head?_filter] at hfind
        exact List.eq_cons_of_mem_head? hfind
      obtain ⟨ih₁, ih₂⟩ := commandsDrainTxcmdq_filter t n (q.erase e)
      rw [filter_erase_of_find? hfind] at ih₁ ih₂
      refine ⟨?_, fun t' => ?_⟩
      · rw [hcons]
        simp [ih₁]
      · dsimp only
        rw [ih₂ t']
        split_ifs with ht
        · rw [hcons]
          simp
        · exact filter_erase_of_not (by simpa [het] using Ne.symm ht)

/-- The polling loop leaves the commands of a thread it does not poll alone. -/
theorem commandsRxLoop_filter_of_not_mem {t' : Nat × Nat} :
    ∀ (budget : Nat) (ts : List (Nat × Nat)) (q : List ((Nat × Nat) × Nat)), t' ∉ ts →
      (commandsRxLoop budget ts q).2.filter (·.1 = t') = q.filter (·.1 = t')
  | _, [], q, _ => rfl
  | budget, t :: ts, q, hnot => by
    have hne : t' ≠ t := fun h => hnot (h ▸ List.mem_cons_self)
    unfold commandsRxLoop
    split_ifs
    · rfl
    · dsimp only
      rw [commandsRxLoop_filter_of_not_mem _ ts _ (fun h => hnot (List.mem_cons_of_mem _ h)),
        (commandsDrainTxcmdq_filter t budget q).2 t', if_neg hne]

/-- The `txcmdq` channel `c` of thread `t` holds, unread and in order, the `TXCMD_NET_COMPLETE`
commands that the queue view `q` holds for `t`, each naming its buffer by the pointer `ptr`
gives it. -/
structure TxcmdqHolds (k : Nat) (ptr : Nat → UInt64) (q : List ((Nat × Nat) × Nat))
    (t : Nat × Nat) (c : LrpcSys) : Prop where
  inv : LrpcInv k c
  pending : c.pending = (q.filter (·.1 = t)).map fun e => (txcmdNetComplete, ptr e.2)

namespace TxcmdqHolds

variable {k : Nat} {ptr : Nat → UInt64} {q : List ((Nat × Nat) × Nat)} {t : Nat × Nat}
  {c : LrpcSys}

/-- The ring-level `commands_drain_queue` of `Caladan.Iokernel.Tx` does what the queue view's
does. -/
theorem drain (h : TxcmdqHolds k ptr q t c) (n : Nat) :
    ∃ c', TxcmdqHolds k ptr (commandsDrainTxcmdq t n q).2 t c' ∧ c'.sent = c.sent ∧
      commandsDrainQueue n c.inn c.shm =
        some ((commandsDrainTxcmdq t n q).1.map ptr, c'.inn, c'.shm) := by
  obtain ⟨c', h', hsent, hpend, hrecvN⟩ := h.inv.recvN_pending n
  obtain ⟨hd₁, hd₂⟩ := commandsDrainTxcmdq_filter t n q
  refine ⟨c', ⟨h', ?_⟩, hsent, ?_⟩
  · rw [hpend, h.pending, hd₂ t, if_pos rfl, List.map_drop]
  · -- every unread command is a completion, so the drain does not halt
    have hall : (c.pending.take n).all (·.1 == txcmdNetComplete) = true := by
      rw [h.pending, List.all_eq_true]
      intro x hx
      obtain ⟨e, -, rfl⟩ := List.mem_map.1 (List.mem_of_mem_take hx)
      simp
    rw [commandsDrainQueue_eq, hrecvN, if_pos hall, hd₁, h.pending, List.map_take]
    simp [Function.comp_def]

/-- A drain of another thread leaves the channel of `t` holding its commands. -/
theorem of_drain_ne {t₀ : Nat × Nat} (h : TxcmdqHolds k ptr q t c) (hne : t ≠ t₀) (n : Nat) :
    TxcmdqHolds k ptr (commandsDrainTxcmdq t₀ n q).2 t c :=
  ⟨h.inv, by rw [h.pending, (commandsDrainTxcmdq_filter t₀ n q).2 t, if_neg hne]⟩

end TxcmdqHolds

/-- The ring-level `commands_rx` refines the queue view: over channels that hold the commands of
the queue view, one per polled thread, it frees the buffers `commandsRxLoop` takes, in the same
order, and leaves channels that hold what the queue view leaves. -/
theorem commandsRx_refines {k : Nat} (ptr : Nat → UInt64) :
    ∀ (budget : Nat) (polled : List (Nat × Nat)) (q : List ((Nat × Nat) × Nat))
      (ch : Nat × Nat → LrpcSys), polled.Nodup → (∀ t ∈ polled, TxcmdqHolds k ptr q t (ch t)) →
      ∃ ch' : Nat × Nat → LrpcSys,
        (∀ t ∈ polled, TxcmdqHolds k ptr (commandsRxLoop budget polled q).2 t (ch' t) ∧
          (ch' t).sent = (ch t).sent) ∧
        commandsRx budget (polled.map fun t => ((ch t).inn, (ch t).shm)) =
          some ((commandsRxLoop budget polled q).1.map ptr,
            polled.map fun t => ((ch' t).inn, (ch' t).shm))
  | _, [], q, ch, _, _ => ⟨ch, by simp, by simp [commandsRx, commandsRxLoop]⟩
  | budget, t :: ts, q, ch, hnd, hh => by
    obtain ⟨hnot, hnd'⟩ := List.nodup_cons.1 hnd
    by_cases h0 : budget = 0
    · -- the burst is full: nothing is polled
      refine ⟨ch, fun t' ht' => ⟨?_, rfl⟩, ?_⟩
      · simpa [commandsRxLoop, h0] using hh t' ht'
      · simp [commandsRx, commandsRxLoop, h0]
    obtain ⟨c', hc', hsent, hdrain⟩ := (hh t List.mem_cons_self).drain budget
    -- the other polled threads still hold their commands after the drain of `t`
    have hts : ∀ t' ∈ ts, TxcmdqHolds k ptr (commandsDrainTxcmdq t budget q).2 t' (ch t') :=
      fun t' ht' => (hh t' (List.mem_cons_of_mem _ ht')).of_drain_ne
        (fun he : t' = t => hnot (he ▸ ht')) budget
    obtain ⟨ch'', hch'', hrest⟩ := commandsRx_refines ptr
      (budget - (commandsDrainTxcmdq t budget q).1.length) ts _ ch hnd' hts
    have hmap : ts.map (fun t' => ((Function.update ch'' t c' t').inn,
        (Function.update ch'' t c' t').shm)) = ts.map fun t' => ((ch'' t').inn, (ch'' t').shm) :=
      List.map_congr_left fun t' ht' => by
        rw [Function.update_of_ne (fun he : t' = t => hnot (he ▸ ht'))]
    refine ⟨Function.update ch'' t c', fun t' ht' => ?_, ?_⟩
    · rcases List.mem_cons.1 ht' with rfl | ht'
      · rw [Function.update_self]
        refine ⟨⟨hc'.inv, ?_⟩, hsent⟩
        simp only [commandsRxLoop, if_neg h0]
        rw [commandsRxLoop_filter_of_not_mem _ ts _ hnot, hc'.pending]
      · rw [Function.update_of_ne (fun he : t' = t => hnot (he ▸ ht'))]
        obtain ⟨hh', hs'⟩ := hch'' t' ht'
        refine ⟨?_, hs'⟩
        simpa [commandsRxLoop, h0] using hh'
    · simp only [List.map_cons, commandsRx, if_neg h0, hdrain, List.length_map, hrest,
        Option.map_some, commandsRxLoop, List.map_append, Function.update_self, hmap]

/-- One completion of buffer 5 on a channel of two slots: `commands_rx` frees its pointer. -/
theorem commandsRx_refines_one :
    let c := (LrpcSys.init ⟨0, 0, 2⟩ ⟨0, 2⟩).run [.send txcmdNetComplete 77]
    ∃ c' : LrpcSys, commandsRx 64 [(c.inn, c.shm)] = some ([77], [(c'.inn, c'.shm)]) := by
  intro c
  obtain ⟨k, h0⟩ := @LrpcInv.init 2 ⟨0, 0, 2⟩ ⟨0, 2⟩ (by decide) (by decide)
  have hc : LrpcInv k c := h0.run (by decide)
  have hp : c.pending = [(txcmdNetComplete, 77)] := by decide
  obtain ⟨ch', -, h⟩ := commandsRx_refines (k := k) (fun _ => 77) 64 [(0, 0)] [((0, 0), 5)]
    (fun _ => c) (by simp) (fun t ht => ⟨hc, by simp at ht; simp [hp, ht]⟩)
  exact ⟨ch' (0, 0), by simpa [commandsRxLoop, commandsDrainTxcmdq] using h⟩

end Caladan
