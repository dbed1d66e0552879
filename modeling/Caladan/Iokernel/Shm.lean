import Mathlib
import Caladan.Base.Lrpc

/-!
# Shared-memory pointers between a runtime and the IOKernel (`inc/iokernel/shm.h`)

A runtime hands the IOKernel offsets (`shmptr_t`) into the region it shares with it, and the
IOKernel turns each one into an address with `shmptr_to_ptr`, which is to refuse any object that
does not fit in `[0, len)`. Addresses, offsets and sizes are 64-bit words, computed with the
wrapping arithmetic of `uintptr_t` and `size_t`; `none` stands for `NULL`.

The test guards `shmptr + r->len` against overflow but then compares `shmptr + len` with
`r->len`, which wraps for an offset near `2^64`: such an offset with a large enough object passes
and yields an address before the region, which the LRPC table of an egress queue shows below. The
test is sound for objects no larger than the region, which covers every fixed-size header.

The same file models what `control_create_proc` builds from the offsets: the LRPC queues
(`shm_init_lrpc_in`/`shm_init_lrpc_out`), whose table size `sizeof(struct lrpc_msg) * msg_count`
is a `size_t` product, and the hardware queues of `control_init_hwq`, whose table size is an
`unsigned int` product and whose descriptor reads (`hwq_busy`) are 32-bit offsets.
-/

namespace Caladan

/-- `struct shm_region` -/
structure ShmRegion where
  base : UInt64
  len : UInt64
deriving DecidableEq, Repr

/-- `ULONG_MAX` -/
def ulongMax : UInt64 := 0xFFFFFFFFFFFFFFFF

/-- `shmptr_to_ptr` -/
def shmptrToPtr (r : ShmRegion) (shmptr len : UInt64) : Option UInt64 :=
  if ulongMax - shmptr < r.len || shmptr + len > r.len then none
  else some (shmptr + r.base)

/-- `struct queue_spec` -/
structure QueueSpec where
  msgCount : UInt64
  msgBuf : UInt64
  wb : UInt64
deriving DecidableEq, Repr

/-- `sizeof(struct lrpc_msg)` -/
def lrpcMsgSize : UInt64 := 16

/-- `shm_init_lrpc_in`: the table address, the write-back address and the channel, or `none`
for `-EINVAL`. The `size_t` count is passed to `lrpc_init_in`'s `unsigned int`. -/
def shmInitLrpcIn (r : ShmRegion) (s : QueueSpec) : Option (UInt64 × UInt64 × LrpcChanIn) := do
  let tbl ← shmptrToPtr r s.msgBuf (lrpcMsgSize * s.msgCount)
  let wb ← shmptrToPtr r s.wb 4
  let c ← lrpcInitIn s.msgCount.toUInt32
  pure (tbl, wb, c)

/-- `shm_init_lrpc_out` -/
def shmInitLrpcOut (r : ShmRegion) (s : QueueSpec) : Option (UInt64 × UInt64 × LrpcChanOut) := do
  let tbl ← shmptrToPtr r s.msgBuf (lrpcMsgSize * s.msgCount)
  let wb ← shmptrToPtr r s.wb 4
  let c ← lrpcInitOut s.msgCount.toUInt32
  pure (tbl, wb, c)

/-- `struct hardware_queue_spec` -/
structure HardwareQueueSpec where
  descriptorTable : UInt64
  consumerIdx : UInt64
  descriptorLogSize : UInt32
  nrDescriptors : UInt32
  parityByteOffset : UInt32
  parityBitMask : UInt32
  hwqType : UInt32
deriving DecidableEq, Repr

/-- `HWQ_INVALID` -/
def hwqInvalid : UInt32 := 0

/-- The fields of `struct hwq` that `control_init_hwq` sets and `hwq_busy` reads. -/
structure Hwq where
  enabled : Bool
  descriptorTable : UInt64
  consumerIdx : UInt64
  descriptorLogSize : UInt32
  nrDescriptors : UInt32
  parityByteOffset : UInt32
  parityBitMask : UInt32
deriving DecidableEq, Repr

/-- `control_init_hwq`; `none` is `-EINVAL`. The table size `(1 << log) * nr` is computed at
`unsigned int` width (the `int` shift meets an `uint32_t` factor) and widened to `size_t`. -/
def controlInitHwq (r : ShmRegion) (hs : HardwareQueueSpec) : Option Hwq :=
  if hs.hwqType = hwqInvalid then some ⟨false, 0, 0, 0, 0, 0, 0⟩
  else
    match shmptrToPtr r hs.descriptorTable (((1 : UInt32) <<< hs.descriptorLogSize) * hs.nrDescriptors).toUInt64,
      shmptrToPtr r hs.consumerIdx 4 with
    | some tbl, some cidx =>
      if !isPowerOfTwo hs.nrDescriptors then none
      else if hs.parityByteOffset > (1 : UInt32) <<< hs.descriptorLogSize then none
      else some ⟨true, tbl, cidx, hs.descriptorLogSize, hs.nrDescriptors, hs.parityByteOffset,
        hs.parityBitMask⟩
    | _, _ => none

/-- The byte `hwq_busy` reads for completion index `cq_idx`. -/
def hwqBusyAddr (h : Hwq) (cqIdx : UInt32) : UInt64 :=
  let idx := cqIdx &&& (h.nrDescriptors - 1)
  h.descriptorTable + ((idx <<< h.descriptorLogSize) + h.parityByteOffset).toUInt64

/-! ## The bounds test -/

/-- A pointer `shmptr_to_ptr` returns is the offset from the base, and the offset passed the
test: it is at most `ULONG_MAX - len(region)` and its end, taken modulo `2^64`, is within the
region. -/
theorem shmptrToPtr_eq_some {r : ShmRegion} {shmptr len p : UInt64}
    (h : shmptrToPtr r shmptr len = some p) :
    p = shmptr + r.base ∧ shmptr.toNat + r.len.toNat ≤ 2 ^ 64 - 1 ∧
      (shmptr.toNat + len.toNat) % 2 ^ 64 ≤ r.len.toNat := by
  unfold shmptrToPtr at h
  split at h
  · cases h
  · rename_i hc
    simp only [Bool.or_eq_true, decide_eq_true_eq, not_or] at hc
    obtain ⟨h1, h2⟩ := hc
    have hmax : shmptr ≤ ulongMax := by
      rw [UInt64.le_iff_toNat_le]
      have := shmptr.toNat_lt
      simp only [ulongMax, UInt64.reduceToNat]
      omega
    rw [UInt64.not_lt, UInt64.le_iff_toNat_le, UInt64.toNat_sub_of_le _ _ hmax] at h1
    rw [gt_iff_lt, UInt64.not_lt, UInt64.le_iff_toNat_le, UInt64.toNat_add] at h2
    simp only [ulongMax, UInt64.reduceToNat] at h1
    have := shmptr.toNat_lt
    exact ⟨(Option.some.inj h).symm, by omega, h2⟩

/-- For an object no larger than the region, the test is sound over the integers: the object
lies inside the region. -/
theorem shmptrToPtr_sound {r : ShmRegion} {shmptr len p : UInt64}
    (h : shmptrToPtr r shmptr len = some p) (hlen : len ≤ r.len) :
    shmptr.toNat + len.toNat ≤ r.len.toNat := by
  obtain ⟨-, h1, h2⟩ := shmptrToPtr_eq_some h
  rw [UInt64.le_iff_toNat_le] at hlen
  rwa [Nat.mod_eq_of_lt (by omega)] at h2

/-! ## A queue the test lets through -/

/-- A runtime's RX queue spec with `2^27` messages at offset `2^64 - 2^31` of a 1 GiB region:
`shm_init_lrpc_out` accepts it, and the table it hands the IOKernel ends where the region
begins, so every slot the IOKernel writes lies before the region. -/
theorem shmInitLrpcOut_table_before_region :
    shmInitLrpcOut ⟨0x7f0000000000, 0x40000000⟩ ⟨0x8000000, 0xFFFFFFFF80000000, 0x100⟩ =
        some (0x7eff80000000, 0x7f0000000100, ⟨0, 0, 0x8000000⟩) ∧
      0x7eff80000000 + 16 * 0x8000000 = 0x7f0000000000 := by
  decide

end Caladan
