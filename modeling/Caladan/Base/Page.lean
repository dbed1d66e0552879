import Mathlib
import Caladan.Lib.Run
import Caladan.Base.Slab

/-!
# Large pages of the page allocator (`base/page.c`, `inc/base/page.h`)

`page_tbl` holds a table of `LGPAGE_META_ENTS` page structs for each NUMA node; entry `g` of it
describes the large page at `PAGE_BASE_ADDR + g * PGSIZE_2MB`, so entry `i` of node `n`'s table
is `g = n * LGPAGE_META_ENTS + i`. A node hands out the slots of its table in order (`idx`) and
takes back freed ones on its list `pages`. A shattered large page keeps the structs of its small
pages in its own first bytes.

A large page struct is named by its index in `page_tbl`, a small page struct by its address;
addresses are `uintptr_t` values within the page region, as naturals. Of a page struct the model
keeps `flags` and the reference count. What `mem_map_anom` and `mem_lookup_page_phys_addr`
answer to `lgpage_create` is an input.
-/

namespace Caladan

/-- `NNUMA` -/
def nnuma : Nat := 4

/-- `sizeof(struct page)`: `flags` and `ref` of four bytes each, then eight bytes each for
`next`, the two pointers of `link`, `snode`, `offset`, `paddr` and `item_count`. -/
def pageStructSize : Nat := 64

/-- `SMPAGE_META_LEN` -/
def smpageMetaLen : Nat := pgSize2MB.toNat / pgSize4KB.toNat * pageStructSize

/-- `LGPAGE_META_ENTS`, with `LGPAGE_META_LEN` of one large page -/
def lgpageMetaEnts : Nat := 1 * pgSize2MB.toNat / pageStructSize

/-- `LGPAGE_NODE_ADDR_LEN` -/
def lgpageNodeAddrLen : Nat := lgpageMetaEnts * pgSize2MB.toNat

/-- `PAGE_BASE_ADDR` -/
def pageBaseAddr : Nat := 0x100000000000

/-- `PAGE_FLAG_LARGE` -/
def pageFlagLarge : Nat := 0x01

/-- `PAGE_FLAG_IN_USE` -/
def pageFlagInUse : Nat := 0x02

/-- `PAGE_FLAG_SHATTERED` -/
def pageFlagShattered : Nat := 0x08

/-- `&lgpage_nodes[n].tbl[i]`, as an index of `page_tbl`. -/
def tblSlot (n i : Nat) : Nat := n * lgpageMetaEnts + i

/-- `PGADDR_2MB`: the address rounded down to its large page. The shifts and masks of `mem.h`
are divisions by the page sizes. -/
def pgaddr2MB (a : Nat) : Nat := a / pgSize2MB.toNat * pgSize2MB.toNat

/-- `addr_to_numa_node` -/
def addrToNumaNode (a : Nat) : Nat := (a - pageBaseAddr) / lgpageNodeAddrLen

/-- `addr_to_lgpage`, as an index of `page_tbl`: `LGPGN(addr)` -/
def addrToLgpage (a : Nat) : Nat := (a - pageBaseAddr) / pgSize2MB.toNat

/-- `lgpage_to_addr` -/
def lgpageToAddr (g : Nat) : Nat := pageBaseAddr + g * pgSize2MB.toNat

/-- `addr_to_smpage`: `&frags[PGN(addr)]` with `frags` at the start of the large page. -/
def addrToSmpage (a : Nat) : Nat :=
  pgaddr2MB a + (a - pgaddr2MB a) / pgSize4KB.toNat * pageStructSize

/-- `smpage_to_addr` -/
def smpageToAddr (p : Nat) : Nat :=
  pgaddr2MB p + (p - pgaddr2MB p) / pageStructSize * pgSize4KB.toNat

/-- A `struct page *`: an entry of `page_tbl`, or the struct of a small page. -/
inductive PagePtr
  | lg (g : Nat)
  | sm (p : Nat)
deriving DecidableEq, Repr

/-- `addr_to_page`, given the flags of the entries of `page_tbl`. -/
def addrToPage (flags : Nat → Nat) (a : Nat) : PagePtr :=
  let g := addrToLgpage a
  if flags g &&& pageFlagShattered ≠ 0 then .sm (addrToSmpage a) else .lg g

/-- The states a slot of a node's table is meant to be in. -/
inductive SlotState
  /-- past the node's `idx`: never handed out -/
  | unused
  /-- on the node's free list, with no flags -/
  | free
  /-- `PAGE_FLAG_IN_USE`, with a live reference -/
  | allocated
deriving DecidableEq, Repr

/-- The large pages: each node's `idx` and free list `pages`, and the flags and reference count
of each entry of `page_tbl`. -/
structure PageSys where
  idx : Nat → Nat
  pages : Nat → List Nat
  flags : Nat → Nat
  ref : Nat → Nat

namespace PageSys

/-- The slot `lgpage_alloc_on_node` takes: the head of the free list, or the next entry of the
table while there is one. -/
def takeSlot (s : PageSys) (n : Nat) : Option (Nat × PageSys) :=
  match s.pages n with
  | g :: rest => some (g, { s with pages := Function.update s.pages n rest })
  | [] =>
    if lgpageMetaEnts ≤ s.idx n then none
    else some (tblSlot n (s.idx n), { s with idx := Function.update s.idx n (s.idx n + 1) })

/-- `lgpage_alloc_on_node`; `created` says whether `lgpage_create` succeeds. A slot whose page
could not be created is dropped. -/
def lgpageAllocOnNode (s : PageSys) (n : Nat) (created : Bool) : PageSys × Option Nat :=
  match s.takeSlot n with
  | none => (s, none)
  | some (g, s) =>
    if created then
      ({ s with
        flags := Function.update s.flags g (pageFlagLarge ||| pageFlagInUse)
        ref := Function.update s.ref g 1 }, some g)
    else (s, none)

/-- `lgpage_free`: the node is read back from the page's address. -/
def lgpageFree (s : PageSys) (g : Nat) : PageSys :=
  let n := addrToNumaNode (lgpageToAddr g)
  { s with
    flags := Function.update s.flags g 0
    pages := Function.update s.pages n (g :: s.pages n) }

/-- `page_get` -/
def pageGet (s : PageSys) (g : Nat) : PageSys :=
  { s with ref := Function.update s.ref g (s.ref g + 1) }

/-- `page_put` of a large page: `page_release` frees it at the last reference. -/
def pagePut (s : PageSys) (g : Nat) : PageSys :=
  let s' := { s with ref := Function.update s.ref g (s.ref g - 1) }
  if s.ref g - 1 = 0 then s'.lgpageFree g else s'

section
variable {s : PageSys} {g : Nat}

@[simp] theorem lgpageFree_idx : (s.lgpageFree g).idx = s.idx := rfl
@[simp] theorem lgpageFree_ref : (s.lgpageFree g).ref = s.ref := rfl
@[simp] theorem lgpageFree_flags : (s.lgpageFree g).flags = Function.update s.flags g 0 := rfl
@[simp] theorem lgpageFree_pages : (s.lgpageFree g).pages =
    Function.update s.pages (addrToNumaNode (lgpageToAddr g))
      (g :: s.pages (addrToNumaNode (lgpageToAddr g))) := rfl

@[simp] theorem pageGet_idx : (s.pageGet g).idx = s.idx := rfl
@[simp] theorem pageGet_pages : (s.pageGet g).pages = s.pages := rfl
@[simp] theorem pageGet_ref : (s.pageGet g).ref = Function.update s.ref g (s.ref g + 1) := rfl

@[simp] theorem pagePut_idx : (s.pagePut g).idx = s.idx := by
  unfold pagePut
  split_ifs <;> rfl

@[simp] theorem pagePut_ref : (s.pagePut g).ref = Function.update s.ref g (s.ref g - 1) := by
  unfold pagePut
  split_ifs <;> rfl

theorem pagePut_pages : (s.pagePut g).pages =
    if s.ref g - 1 = 0 then (s.lgpageFree g).pages else s.pages := by
  unfold pagePut
  split_ifs <;> rfl

end

/-- The large pages after `page_init`. -/
def init : PageSys where
  idx := fun _ => 0
  pages := fun _ => []
  flags := fun _ => 0
  ref := fun _ => 0

/-- Slot `i` of node `n`'s table is in state `st`. -/
def slotIn (s : PageSys) (n i : Nat) : SlotState → Bool
  | .unused => decide (s.idx n ≤ i)
  | .free => decide (tblSlot n i ∈ s.pages n) && s.flags (tblSlot n i) == 0
  | .allocated => s.flags (tblSlot n i) &&& pageFlagInUse != 0 && decide (0 < s.ref (tblSlot n i))

end PageSys

/-! ## Addresses -/

theorem pgSize2MB_toNat : pgSize2MB.toNat = 2097152 := rfl

theorem lgpageMetaEnts_eq : lgpageMetaEnts = 32768 := rfl

/-- The slots of different nodes' tables are distinct entries of `page_tbl`. -/
theorem tblSlot_inj {n m i j : Nat} (hi : i < lgpageMetaEnts) (hj : j < lgpageMetaEnts)
    (h : tblSlot n i = tblSlot m j) : n = m ∧ i = j := by
  simp only [tblSlot, lgpageMetaEnts_eq] at h hi hj
  omega

/-- An offset `o` within the large page `g` keeps its 2MB-aligned base. -/
theorem pgaddr2MB_frag {g o : Nat} (ho : o < pgSize2MB.toNat) :
    pgaddr2MB (lgpageToAddr g + o) = lgpageToAddr g := by
  simp only [pgaddr2MB, lgpageToAddr, pageBaseAddr, pgSize2MB_toNat] at ho ⊢
  omega

/-- An offset `o` within the large page `g` maps back to its entry of `page_tbl`. -/
theorem addrToLgpage_frag {g o : Nat} (ho : o < pgSize2MB.toNat) :
    addrToLgpage (lgpageToAddr g + o) = g := by
  simp only [addrToLgpage, lgpageToAddr, pageBaseAddr, pgSize2MB_toNat] at ho ⊢
  omega

theorem addrToNumaNode_tblSlot {n i : Nat} (hi : i < lgpageMetaEnts) :
    addrToNumaNode (lgpageToAddr (tblSlot n i)) = n := by
  simp only [addrToNumaNode, lgpageNodeAddrLen, lgpageToAddr, tblSlot, pageBaseAddr,
    lgpageMetaEnts_eq, pgSize2MB_toNat] at hi ⊢
  omega

/-- Small page `k` of a large page, and its struct in the array at the start of the large page,
both lie within the large page. -/
theorem smpage_offsets_lt {k : Nat} (hk : k < pgSize2MB.toNat / pgSize4KB.toNat) :
    k * pgSize4KB.toNat < pgSize2MB.toNat ∧ k * pageStructSize < pgSize2MB.toNat := by
  change k < 512 at hk
  change k * 4096 < 2097152 ∧ k * 64 < 2097152
  omega

/-- The struct of small page `k` of a shattered large page `g` is the `k`-th of the array at the
start of `g`, and its page the `k`-th 4KB page of `g`. -/
theorem smpageToAddr_frag {g k : Nat} (hk : k < pgSize2MB.toNat / pgSize4KB.toNat) :
    smpageToAddr (lgpageToAddr g + k * pageStructSize) = lgpageToAddr g + k * pgSize4KB.toNat := by
  rw [smpageToAddr, pgaddr2MB_frag (smpage_offsets_lt hk).2, Nat.add_sub_cancel_left,
    Nat.mul_div_cancel _ (by decide)]

theorem addrToSmpage_frag {g k : Nat} (hk : k < pgSize2MB.toNat / pgSize4KB.toNat) :
    addrToSmpage (lgpageToAddr g + k * pgSize4KB.toNat) = lgpageToAddr g + k * pageStructSize := by
  rw [addrToSmpage, pgaddr2MB_frag (smpage_offsets_lt hk).1, Nat.add_sub_cancel_left,
    Nat.mul_div_cancel _ (by decide)]

/-- The address maps of `page.h` invert each other: a large page's address leads back to its
entry of `page_tbl` and to the node whose table holds it, and in a shattered large page each
small page struct and the address of its page lead to each other. -/
theorem page_addr_roundtrip :
    (∀ g, addrToLgpage (lgpageToAddr g) = g) ∧
    (∀ n i, i < lgpageMetaEnts → addrToNumaNode (lgpageToAddr (tblSlot n i)) = n) ∧
    (∀ flags g k, k < pgSize2MB.toNat / pgSize4KB.toNat →
      addrToSmpage (smpageToAddr (lgpageToAddr g + k * pageStructSize)) =
        lgpageToAddr g + k * pageStructSize ∧
      (flags g &&& pageFlagShattered ≠ 0 →
        addrToPage flags (smpageToAddr (lgpageToAddr g + k * pageStructSize)) =
          .sm (lgpageToAddr g + k * pageStructSize))) := by
  refine ⟨fun g => ?_, fun n i hi => addrToNumaNode_tblSlot hi, fun flags g k hk => ?_⟩
  · simpa using addrToLgpage_frag (g := g) (o := 0) (by decide)
  · rw [smpageToAddr_frag hk, addrToSmpage_frag hk]
    refine ⟨rfl, fun hsh => ?_⟩
    rw [addrToPage, addrToLgpage_frag (smpage_offsets_lt hk).1, if_pos hsh, addrToSmpage_frag hk]

/-- The calls on large pages; `get` and `put` are made by a holder of a reference. -/
inductive PageOp
  /-- `page_alloc_on_node(PGSIZE_2MB, n)` -/
  | alloc (n : Nat) (created : Bool)
  | get (g : Nat)
  | put (g : Nat)
deriving DecidableEq, Repr

/-- The call does not meet a failure of `lgpage_create`. -/
def PageOp.createOk : PageOp → Bool
  | .alloc _ created => created
  | _ => true

/-- One call on the large pages. -/
def pageStep (s : PageSys) : PageOp → Option PageSys
  | .alloc n created => if n < nnuma then some (s.lgpageAllocOnNode n created).1 else none
  | .get g => if 0 < s.ref g then some (s.pageGet g) else none
  | .put g => if 0 < s.ref g then some (s.pagePut g) else none

end Caladan
