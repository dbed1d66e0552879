import Mathlib
import Caladan.Net.Tcp.Conn

/-!
# NVMe requests of the runtime (`runtime/storage.c`)

`storage_write` and `storage_read` stage a request in a DMA buffer: one from the per-thread
cache of `REQUEST_BUF_SZ`-byte buffers when the request fits, one from `spdk_zmalloc` otherwise.
A call is followed to its return, and what it does is recorded in order: the changes of the
preemption depth (`getk`, `putk`, `preempt_disable`, `preempt_enable`, and
`thread_park_and_unlock_np`, from which the thread returns with preemption enabled), the buffer
taken and given back, the bytes copied, and the command handed to the device with its buffer and
its transfer length. What SPDK answers is an input.
-/

namespace Caladan

/-- `ENODEV` -/
def enodev : Int := 19

/-- `EIO` -/
def eio : Int := 5

/-- `REQUEST_BUF_SZ`, the size of a buffer of `storage_buf_mp` -/
def requestBufSz : Nat := 16 * 1024

/-- A DMA buffer, by the allocator it comes from. -/
inductive StorageBuf
  /-- from the per-thread cache `storage_buf_pt` -/
  | tcache
  /-- from `spdk_zmalloc` of `size` bytes -/
  | spdk (size : Nat)
deriving DecidableEq, Repr

/-- The bytes a buffer holds. -/
def StorageBuf.size : StorageBuf → Nat
  | .tcache => requestBufSz
  | .spdk n => n

/-- What one call does, in order. -/
inductive StorageEv
  | preemptDisable
  | preemptEnable
  /-- `thread_park_and_unlock_np`, which returns with preemption enabled -/
  | park
  | alloc (b : StorageBuf)
  | free (b : StorageBuf)
  /-- a `memcpy` of `n` bytes between the caller's buffer and the DMA buffer -/
  | copy (n : Nat)
  /-- the command, with the size of its DMA buffer and the `lba_count * block_size` bytes the
  device moves -/
  | cmd (buf len : Nat)
deriving DecidableEq, Repr

/-- What an event does to the preemption depth. -/
def StorageEv.preemptDelta : StorageEv → Int
  | .preemptDisable => 1
  | .preemptEnable => -1
  | .park => -1
  | _ => 0

/-- The answers of the environment to one call. -/
structure StorageEnv where
  /-- `cfg_storage_enabled` -/
  enabled : Bool
  /-- the buffer allocation returns a buffer -/
  allocOk : Bool
  /-- what `spdk_nvme_ns_cmd_write` or `spdk_nvme_ns_cmd_read` returns -/
  cmdRc : Int

/-- The body `storage_write` and `storage_read` share; they differ in where the copy stands:
before the command for a write, after the wake-up for a read. -/
def storageRequest (write : Bool) (env : StorageEnv) (blockSize lbaCount : UInt32) :
    List StorageEv × Int :=
  if !env.enabled then ([], -enodev)
  else
    -- `lba_count * block_size` is a `uint32_t` product, widened to `size_t` only afterwards
    let reqSize := (lbaCount * blockSize).toNat
    let buf := if reqSize ≤ requestBufSz then StorageBuf.tcache else .spdk reqSize
    if !env.allocOk then ([StorageEv.preemptDisable, .preemptEnable], -enomem)
    else
      let copyIn : List StorageEv := if write then [.copy reqSize] else []
      let copyOut : List StorageEv := if write then [] else [.copy reqSize]
      let issue : List StorageEv :=
        [.preemptDisable, .alloc buf] ++ copyIn ++ [.cmd buf.size (lbaCount.toNat * blockSize.toNat)]
      if env.cmdRc ≠ 0 then (issue ++ ([.free buf, .preemptEnable] : List StorageEv), -eio)
      else (issue ++ ([.park] : List StorageEv) ++ copyOut ++
        ([.preemptDisable, .free buf, .preemptEnable] : List StorageEv), 0)

/-- `storage_write` -/
def storageWrite (env : StorageEnv) (blockSize lbaCount : UInt32) : List StorageEv × Int :=
  storageRequest true env blockSize lbaCount

/-- `storage_read` -/
def storageRead (env : StorageEnv) (blockSize lbaCount : UInt32) : List StorageEv × Int :=
  storageRequest false env blockSize lbaCount

/-- The request size as the code computes it: the product of the two `uint32_t` values, modulo
`2 ^ 32`. -/
theorem reqSize_eq (blockSize lbaCount : UInt32) :
    (lbaCount * blockSize).toNat = lbaCount.toNat * blockSize.toNat % 2 ^ 32 := by
  rw [UInt32.toNat_mul]

/-- Every call returns at the preemption depth it started at, takes at most one DMA buffer and
gives that one back exactly once. Where `lba_count * block_size` fits in 32 bits, every command
the call hands to the device has a buffer that holds the transfer, every copy moves exactly that
many bytes, and a call that returns 0 has issued one such command and made one such copy: a write
copies in before the command, a read copies out after it. -/
theorem storageRequest_ok (write : Bool) (env : StorageEnv) (blockSize lbaCount : UInt32) :
    ((storageRequest write env blockSize lbaCount).1.map StorageEv.preemptDelta).sum = 0 ∧
    (∀ b, (storageRequest write env blockSize lbaCount).1.count (.free b) =
        (storageRequest write env blockSize lbaCount).1.count (.alloc b) ∧
      (storageRequest write env blockSize lbaCount).1.count (.alloc b) ≤ 1) ∧
    (lbaCount.toNat * blockSize.toNat < 2 ^ 32 →
      (∀ ev ∈ (storageRequest write env blockSize lbaCount).1,
        (∀ buf len, ev = .cmd buf len → len ≤ buf) ∧
        (∀ n, ev = .copy n → n = lbaCount.toNat * blockSize.toNat)) ∧
      ((storageRequest write env blockSize lbaCount).2 = 0 →
        ∃ buf, lbaCount.toNat * blockSize.toNat ≤ buf ∧
          (storageRequest write env blockSize lbaCount).1.count
            (.cmd buf (lbaCount.toNat * blockSize.toNat)) = 1 ∧
          (storageRequest write env blockSize lbaCount).1.count
            (.copy (lbaCount.toNat * blockSize.toNat)) = 1 ∧
          List.Sublist (if write then [StorageEv.copy (lbaCount.toNat * blockSize.toNat),
              .cmd buf (lbaCount.toNat * blockSize.toNat)]
            else [StorageEv.cmd buf (lbaCount.toNat * blockSize.toNat),
              .copy (lbaCount.toNat * blockSize.toNat)])
            (storageRequest write env blockSize lbaCount).1)) := by
  have hsize := reqSize_eq blockSize lbaCount
  simp only [storageRequest]
  generalize (lbaCount * blockSize).toNat = reqSize at hsize ⊢
  -- the buffer, and the bytes it holds, are fixed before the paths part
  have hbuf : reqSize ≤ (if reqSize ≤ requestBufSz then StorageBuf.tcache else .spdk reqSize).size := by
    split_ifs with h
    · exact h
    · exact le_refl _
  generalize (if reqSize ≤ requestBufSz then StorageBuf.tcache else .spdk reqSize) = buf at hbuf ⊢
  refine ⟨?_, fun b => ?_, fun hfit => ?_⟩
  · split_ifs <;> cases write <;> simp [StorageEv.preemptDelta]
  · split_ifs <;> cases write <;> by_cases hbb : buf = b <;> simp [hbb]
  rw [Nat.mod_eq_of_lt hfit] at hsize
  subst hsize
  refine ⟨fun ev hev => ⟨fun buf' len he => ?_, fun n he => ?_⟩, fun hret => ?_⟩
  · subst he
    split_ifs at hev <;> cases write <;> simp at hev <;> omega
  · subst he
    split_ifs at hev <;> cases write <;> simp at hev <;> omega
  · -- only the path that parks and wakes up returns 0
    have hen : env.enabled = true := by
      cases h : env.enabled
      · simp [h, enodev] at hret
      · rfl
    have hal : env.allocOk = true := by
      cases h : env.allocOk
      · simp [hen, h, enomem] at hret
      · rfl
    have hrc : env.cmdRc = 0 := by
      by_contra h
      simp [hen, hal, h, eio] at hret
    simp only [hen, hal, hrc, Bool.not_true, Bool.false_eq_true, if_false, ne_eq, not_true_eq_false]
    refine ⟨buf.size, hbuf, ?_⟩
    cases write <;> simp

/-- `lba_count * block_size` is computed in 32 bits: where the product is a multiple of `2 ^ 32`
the request size is 0, so the call takes a `REQUEST_BUF_SZ`-byte buffer of the thread cache and
hands it to the device for the whole transfer; a write copies nothing into it. Block sizes of 512
bytes with `lba_count = 2 ^ 23` get there. -/
theorem storageRequest_wrap_undersizes :
    (8388608 : UInt32).toNat * (512 : UInt32).toNat = 2 ^ 32 ∧
    ∀ write env (blockSize lbaCount : UInt32), env.enabled = true → env.allocOk = true →
      0 < lbaCount.toNat * blockSize.toNat → lbaCount.toNat * blockSize.toNat % 2 ^ 32 = 0 →
      requestBufSz < lbaCount.toNat * blockSize.toNat ∧
      StorageEv.cmd requestBufSz (lbaCount.toNat * blockSize.toNat) ∈
        (storageRequest write env blockSize lbaCount).1 ∧
      (write = true → StorageEv.copy 0 ∈ (storageRequest write env blockSize lbaCount).1) := by
  refine ⟨by decide, fun write env blockSize lbaCount hen hal hpos hwrap => ?_⟩
  have hsize : (lbaCount * blockSize).toNat = 0 := by rw [reqSize_eq, hwrap]
  refine ⟨?_, ?_, fun hw => ?_⟩
  · -- a positive multiple of `2 ^ 32`
    have := Nat.le_of_dvd hpos (Nat.dvd_of_mod_eq_zero hwrap)
    simp only [requestBufSz]
    omega
  · simp only [storageRequest, hen, hal, hsize, Bool.not_true, Bool.false_eq_true, ↓reduceIte,
      Nat.zero_le]
    split_ifs <;> cases write <;> simp [StorageBuf.size]
  · subst hw
    simp only [storageRequest, hen, hal, hsize, Bool.not_true, Bool.false_eq_true, ↓reduceIte,
      Nat.zero_le]
    split_ifs <;> simp

end Caladan
