import Mathlib
import Caladan.Lib.Bits
import Caladan.Base.Slab

/-!
# Size classes of `smalloc` (`runtime/smalloc.c`)

`smalloc` serves a request from the per-thread cache `smalloc_pts[idx]` of the slab of items of
`SMALLOC_MIN_SIZE << idx` bytes, with `idx = smalloc_size_to_idx(size)`; `sfree` finds the slab
node of the item's page and recomputes the index from the node's item size. Both are modelled
by the index they compute; the cache operations behind it are those of `base/tcache.c`.
-/

namespace Caladan

/-- `SMALLOC_BITS` -/
def smallocBits : Nat := 15

/-- `SMALLOC_MIN_SIZE`, that is `SLAB_MIN_SIZE` -/
def smallocMinSize : Nat := 16

/-- `SMALLOC_MAX_SIZE` -/
def smallocMaxSize : Nat := smallocMinSize <<< (smallocBits - 1)

/-- `smalloc_size_to_idx` on a 64-bit `size_t`: `__builtin_ctz` of the `int`
`SMALLOC_MIN_SIZE` and `__builtin_clzl` of a 64-bit word, in `int` arithmetic. -/
def smallocSizeToIdx (size : UInt64) : Int :=
  64 - ((BitVec.ofNat 32 smallocMinSize).ctz.toNat : Int) -
    (((size - 1) ||| UInt64.ofNat smallocMinSize).toBitVec.clz.toNat : Int)

/-- The slab of index `i` that `smalloc_init` creates:
`slab_create(SMALLOC_MIN_SIZE << i, SLAB_FLAG_FALSE_OKAY)` for `i < SMALLOC_BITS`. -/
def smallocSlab (i : Nat) : Option SlabParams :=
  if i < smallocBits then slabCreate (UInt64.ofNat (smallocMinSize <<< i)) true false else none

/-- `smalloc`: the index of the per-thread cache it allocates from; `none` where it returns
`NULL` for a size above `SMALLOC_MAX_SIZE`. -/
def smalloc (size : UInt64) : Option Int :=
  if smallocMaxSize < size.toNat then none else some (smallocSizeToIdx size)

/-- `sfree`: the index of the per-thread cache it frees to, from `n->size` of the slab node
that owns the item's page. -/
def sfree (nodeSize : Nat) : Int := smallocSizeToIdx (UInt64.ofNat nodeSize)

/-- `size - 1` wraps for a size of zero: `smalloc(0)` reads the per-thread cache of index 60,
past the `SMALLOC_BITS` entries of `smalloc_pts`. -/
theorem smalloc_zero_index_out_of_range :
    smalloc 0 = some 60 ∧ (smallocBits : Int) ≤ 60 := by
  decide +kernel

end Caladan
