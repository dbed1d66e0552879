import Mathlib
import Caladan.Lib.Run

/-!
# The slab allocator (`base/slab.c`)

A slab node carves pages into items of `size` bytes from byte `offset` on, `nr_elems` of them per
page. The page being carved is `cur_pg`, at the per-node offset `pg_off`; a freed item goes to the
free list `pg->next` of its page and is handed out again before any new one is carved. A page that
ran out of items goes to `full_list`; one that gets back `SLAB_PARTIAL_THRESH` items moves to
`partial_list`, from which `cur_pg` is refilled before a new page is taken; a page whose items are
all back is given to `page_put`.

Items are named by their page and their byte offset in it, which is what `addr_to_smpage` and
`addr_to_lgpage` recover from the address, as every item lies in its page. Every call on a node
runs under `n->page_lock`, so `__slab_node_alloc` and `slab_node_free` are single steps, and
`slab_tcache_alloc` and `slab_tcache_free` are their compositions. What `page_alloc_on_node`
returns is an input: a page the node does not hold, or `NULL`.

Beside the node, the model keeps as ghost state the items handed out and, for each page, how many
of its items were ever carved.
-/

namespace Caladan

/-- `SLAB_PARTIAL_THRESH`, that is `SLAB_CHUNK_SIZE / 2`. -/
def slabPartialThresh : Nat := 8 / 2

section Create

/-- `PGSIZE_4KB`. -/
def pgSize4KB : UInt64 := 4096

/-- `PGSIZE_2MB`. -/
def pgSize2MB : UInt64 := 2097152

/-- `align_up` of `base/stddef.h` on a `size_t`, for a power-of-two alignment. -/
def alignUp (x a : UInt64) : UInt64 := ((x - 1) ||| (a - 1)) + 1

/-- `align_down`. -/
def alignDown (x a : UInt64) : UInt64 := x &&& ~~~(a - 1)

/-- `SLAB_4KB_LIMIT`. -/
def slab4KBLimit : UInt64 := alignDown (pgSize4KB / (slabPartialThresh * 2).toUInt64) 8

/-- `SLAB_2MB_LIMIT`. -/
def slab2MBLimit : UInt64 := alignDown (pgSize2MB / (slabPartialThresh * 2).toUInt64) 8

/-- The constant fields of a `struct slab_node`. -/
structure SlabParams where
  size : Nat
  offset : Nat
  nrElems : Nat
  pgSize : Nat
deriving DecidableEq, Repr

/-- `slab_create`: the item size is rounded up to a cache line (to a word with
`SLAB_FLAG_FALSE_OKAY`), and decides the page size and how many items fit in a page. `none` where
it returns `-E2BIG`, or where it would divide by a size of zero. -/
def slabCreate (size : UInt64) (falseOkay lgpage : Bool) : Option SlabParams :=
  let size := if falseOkay then alignUp size 8 else alignUp size 64
  if size > slab2MBLimit then none
  else
    let pgsize := if lgpage || decide (size > slab4KBLimit) then pgSize2MB else pgSize4KB
    if size = 0 then none else some ⟨size.toNat, 0, (pgsize / size).toNat, pgsize.toNat⟩

theorem slab4KBLimit_toNat : slab4KBLimit.toNat = 512 := by decide

theorem slab2MBLimit_toNat : slab2MBLimit.toNat = 262144 := by decide

/-- A node `slab_create` makes holds at least eight items a page, and they fit in it. -/
theorem slabCreate_ok {size : UInt64} {falseOkay lgpage : Bool} {c : SlabParams}
    (h : slabCreate size falseOkay lgpage = some c) :
    0 < c.size ∧ 8 ≤ c.nrElems ∧ c.offset + c.nrElems * c.size ≤ c.pgSize := by
  simp only [slabCreate] at h
  generalize hs : (if falseOkay then alignUp size 8 else alignUp size 64) = s at h
  by_cases h2 : s > slab2MBLimit
  · rw [if_pos h2] at h
    cases h
  by_cases h0 : s = 0
  · simp [h0] at h
  rw [if_neg h2, if_neg h0] at h
  obtain rfl := (Option.some.inj h).symm
  have hs2 : s.toNat ≤ 262144 := by
    have := UInt64.lt_iff_toNat_lt.not.1 h2
    rw [slab2MBLimit_toNat] at this
    omega
  have hs0 : 0 < s.toNat := by
    rcases Nat.eq_zero_or_pos s.toNat with h' | h'
    · exact absurd (UInt64.toNat_inj.1 (by simpa using h')) h0
    · exact h'
  refine ⟨hs0, ?_, ?_⟩
  · dsimp only
    by_cases hlg : (lgpage || decide (s > slab4KBLimit)) = true
    · rw [if_pos hlg, UInt64.toNat_div]
      exact (Nat.le_div_iff_mul_le hs0).2 (by simp [pgSize2MB]; omega)
    · -- a small item: at most `SLAB_4KB_LIMIT` bytes
      have hs4 : s.toNat ≤ 512 := by
        simp only [Bool.or_eq_true, decide_eq_true_eq, not_or] at hlg
        have := UInt64.lt_iff_toNat_lt.not.1 hlg.2
        rw [slab4KBLimit_toNat] at this
        omega
      rw [if_neg hlg, UInt64.toNat_div]
      exact (Nat.le_div_iff_mul_le hs0).2 (by simp [pgSize4KB]; omega)
  · dsimp only
    rw [UInt64.toNat_div, Nat.zero_add]
    exact Nat.div_mul_le_self _ _

end Create

/-- A slab node's constant fields, with what `slab_create` guarantees of them. -/
structure SlabCfg extends SlabParams where
  size_pos : 0 < size
  nrElems_pos : 0 < nrElems
  fits : offset + nrElems * size ≤ pgSize

/-- The node `slab_create` makes. -/
def SlabCfg.ofCreate {size : UInt64} {falseOkay lgpage : Bool} {c : SlabParams}
    (h : slabCreate size falseOkay lgpage = some c) : SlabCfg where
  toSlabParams := c
  size_pos := (slabCreate_ok h).1
  nrElems_pos := lt_of_lt_of_le (by decide) (slabCreate_ok h).2.1
  fits := (slabCreate_ok h).2.2

/-- The slab fields of `struct page`: `item_count`, and the free list `next` by item offset. -/
structure SlabPage where
  itemCount : Int
  next : List Nat
deriving DecidableEq, Repr

/-- The changing fields of `struct slab_node` with the slab fields of its pages; `out`, the items
handed out, and `carved`, how many items of each page were ever carved, are ghost state. -/
structure SlabNode (P : Type*) where
  pgOff : Nat
  curPg : Option P
  fullList : List P
  partialList : List P
  pg : P → SlabPage
  nrPages : Int
  out : List (P × Nat)
  carved : P → Nat

namespace SlabNode

variable {P : Type*}

/-- `__slab_create_node`. -/
def init : SlabNode P := ⟨0, none, [], [], fun _ => ⟨0, []⟩, 0, [], fun _ => 0⟩

/-- The pages the node holds. -/
def held (n : SlabNode P) : List P := n.curPg.toList ++ n.fullList ++ n.partialList

/-- Whether `__slab_node_alloc` needs a new `cur_pg`. -/
def needsPage (n : SlabNode P) : Bool :=
  match n.curPg with
  | none => true
  | some c => (n.pg c).itemCount == 0

variable [DecidableEq P]

/-- The offsets of the items of page `p` that are handed out. -/
def outOf (n : SlabNode P) (p : P) : List Nat := (n.out.filter (·.1 == p)).map (·.2)

end SlabNode

/-- The offsets of the first `k` items of a page. -/
def SlabCfg.items (cfg : SlabCfg) (k : Nat) : List Nat :=
  (List.range k).map (cfg.offset + · * cfg.size)

section Node

variable {P : Type*} [DecidableEq P] (cfg : SlabCfg)

/-- `__slab_node_get_page`; `fresh` is what `page_alloc_on_node` returns. -/
def slabNodeGetPage (n : SlabNode P) (fresh : Option P) : Option P × SlabNode P :=
  match n.partialList, fresh with
  | p :: ps, _ => (some p, { n with partialList := ps })
  | [], some p => (some p, { n with
      pgOff := cfg.offset, pg := Function.update n.pg p ⟨cfg.nrElems, []⟩
      carved := Function.update n.carved p 0 })
  | [], none => (none, n)

/-- The refill at the top of `__slab_node_alloc`: the exhausted `cur_pg` goes to the full list and
`__slab_node_get_page` gives the next one, `NULL` when out of memory. -/
def slabNodeRefill (n : SlabNode P) (fresh : Option P) : SlabNode P :=
  let n := match n.curPg with
    | some c => { n with fullList := c :: n.fullList }
    | none => n
  match slabNodeGetPage cfg n fresh with
  | (some p, n) => { n with curPg := some p, nrPages := n.nrPages + 1 }
  | (none, n) => { n with curPg := none }

/-- The rest of `__slab_node_alloc`: a freed item of `cur_pg` goes first, otherwise the next one
is carved at `pg_off`. -/
def slabNodeTake (n : SlabNode P) : Option (P × Nat) × SlabNode P :=
  match n.curPg with
  | none => (none, n)
  | some c =>
    match (n.pg c).next with
    | off :: rest => (some (c, off), { n with
        pg := Function.update n.pg c ⟨(n.pg c).itemCount - 1, rest⟩, out := (c, off) :: n.out })
    | [] => (some (c, n.pgOff), { n with
        pgOff := n.pgOff + cfg.size, pg := Function.update n.pg c ⟨(n.pg c).itemCount - 1, []⟩
        out := (c, n.pgOff) :: n.out, carved := Function.update n.carved c (n.carved c + 1) })

/-- `__slab_node_alloc`: the item, `none` for `NULL`. -/
def slabNodeAlloc (n : SlabNode P) (fresh : Option P) : Option (P × Nat) × SlabNode P :=
  slabNodeTake cfg (if n.needsPage then slabNodeRefill cfg n fresh else n)

/-- `slab_node_free`, and the page it gives to `page_put`, if any. `list_del` unlinks the page
from whichever list holds it. -/
def slabNodeFree (n : SlabNode P) (item : P × Nat) : SlabNode P × Option P :=
  let p := item.1
  let s : SlabPage := ⟨(n.pg p).itemCount + 1, item.2 :: (n.pg p).next⟩
  let n := { n with pg := Function.update n.pg p s, out := n.out.erase item }
  if n.curPg = some p then (n, none)
  else if s.itemCount = slabPartialThresh then
    ({ n with fullList := n.fullList.erase p, partialList := p :: n.partialList.erase p }, none)
  else if s.itemCount = cfg.nrElems then
    ({ n with
      fullList := n.fullList.erase p, partialList := n.partialList.erase p
      nrPages := n.nrPages - 1 }, some p)
  else (n, none)

/-- The frees of `slab_tcache_free`, and of the rollback of `slab_tcache_alloc`, in order. -/
def slabFreeAll (n : SlabNode P) (items : List (P × Nat)) : SlabNode P :=
  items.foldl (fun n it => (slabNodeFree cfg n it).1) n

/-- The loop of `slab_tcache_alloc` under the page lock, with `got` the items so far, the last
first; a failed allocation frees them again, the last first. -/
def slabTcacheAllocLoop :
    SlabNode P → List (Option P) → List (P × Nat) → Option (List (P × Nat)) × SlabNode P
  | n, [], got => (some got.reverse, n)
  | n, fresh :: rest, got =>
    match slabNodeAlloc cfg n fresh with
    | (some it, n) => slabTcacheAllocLoop n rest (it :: got)
    | (none, n) => (none, slabFreeAll cfg n got)

end Node

section Items

variable (cfg : SlabCfg)

theorem SlabCfg.mem_items {k x : Nat} : x ∈ cfg.items k ↔ ∃ i < k, x = cfg.offset + i * cfg.size := by
  simp [SlabCfg.items, eq_comm]

theorem SlabCfg.items_nodup (k : Nat) : (cfg.items k).Nodup := by
  refine (List.nodup_range).map fun i j hij => ?_
  have := cfg.size_pos
  simp only [add_right_inj] at hij
  exact Nat.eq_of_mul_eq_mul_right this hij

theorem SlabCfg.items_succ (k : Nat) :
    cfg.items (k + 1) = cfg.items k ++ [cfg.offset + k * cfg.size] := by
  simp [SlabCfg.items, List.range_succ]

theorem SlabCfg.not_mem_items_self (k : Nat) : cfg.offset + k * cfg.size ∉ cfg.items k := by
  rw [SlabCfg.mem_items]
  rintro ⟨i, hi, h⟩
  have := cfg.size_pos
  simp only [add_right_inj] at h
  have := Nat.eq_of_mul_eq_mul_right this h
  omega

theorem SlabCfg.length_items (k : Nat) : (cfg.items k).length = k := by
  simp [SlabCfg.items]

end Items

namespace SlabNode

variable {P : Type*} [DecidableEq P]

theorem mem_outOf {n : SlabNode P} {p : P} {off : Nat} : off ∈ n.outOf p ↔ (p, off) ∈ n.out := by
  simp [outOf]

theorem outOf_cons_self {n n' : SlabNode P} {p : P} {off : Nat} (h : n'.out = (p, off) :: n.out) :
    n'.outOf p = off :: n.outOf p := by
  simp [outOf, h]

theorem outOf_cons_of_ne {n n' : SlabNode P} {p q : P} {off : Nat} (h : n'.out = (p, off) :: n.out)
    (hq : q ≠ p) : n'.outOf q = n.outOf q := by
  simp [outOf, h, Ne.symm hq]

theorem outOf_erase {n n' : SlabNode P} {p : P} {off : Nat} (hit : (p, off) ∈ n.out)
    (h : n'.out = n.out.erase (p, off)) : (n.outOf p).Perm (off :: n'.outOf p) := by
  have := ((List.perm_cons_erase hit).filter (·.1 == p)).map (·.2)
  simpa [outOf, h] using this

theorem outOf_erase_of_ne {n n' : SlabNode P} {p q : P} {off : Nat}
    (h : n'.out = n.out.erase (p, off)) (hq : q ≠ p) : n'.outOf q = n.outOf q := by
  have hno : (p, off) ∉ n.out.filter (·.1 == q) := by simp [Ne.symm hq]
  simp only [outOf, h, ← List.erase_filter, List.erase_of_not_mem hno]

end SlabNode

namespace SlabNode

variable {P : Type*} [DecidableEq P] (cfg : SlabCfg)

/-- What a held page keeps. -/
structure PageOk (n : SlabNode P) (p : P) : Prop where
  carved_le : n.carved p ≤ cfg.nrElems
  /-- Only `cur_pg` can be partly carved, and then `pg_off` is its next item. -/
  fresh : n.carved p = cfg.nrElems ∨
    n.curPg = some p ∧ n.pgOff = cfg.offset + n.carved p * cfg.size
  /-- The free list and the items handed out are the items carved. -/
  items : ((n.pg p).next ++ n.outOf p).Perm (cfg.items (n.carved p))
  count : (n.pg p).itemCount = (n.pg p).next.length + (cfg.nrElems - n.carved p)

/-- What a node keeps along every run. -/
structure Inv (n : SlabNode P) : Prop where
  held_nodup : n.held.Nodup
  out_nodup : n.out.Nodup
  out_held : ∀ it ∈ n.out, it.1 ∈ n.held
  page : ∀ p ∈ n.held, n.PageOk cfg p
  partial_pos : ∀ p ∈ n.partialList, 0 < (n.pg p).itemCount

variable {cfg} {n n' : SlabNode P} {p : P}

theorem PageOk.length (h : n.PageOk cfg p) :
    (n.pg p).next.length + (n.outOf p).length = n.carved p := by
  simpa [SlabCfg.length_items] using h.items.length_eq

theorem PageOk.nodup (h : n.PageOk cfg p) : ((n.pg p).next ++ n.outOf p).Nodup :=
  h.items.nodup_iff.2 (cfg.items_nodup _)

theorem PageOk.count_nonneg (h : n.PageOk cfg p) : 0 ≤ (n.pg p).itemCount := by
  have := h.carved_le
  rw [h.count]
  omega

/-- `item_count` is the number of the page's items not handed out. -/
theorem PageOk.count_eq (h : n.PageOk cfg p) :
    (n.pg p).itemCount = cfg.nrElems - (n.outOf p).length := by
  have := h.length
  have := h.carved_le
  rw [h.count]
  omega

/-- A page keeps its accounts in a node that agrees on them and on the carving state. -/
theorem PageOk.congr (h : n.PageOk cfg p) (hc : n'.curPg = n.curPg) (hoff : n'.pgOff = n.pgOff)
    (hpg : n'.pg p = n.pg p) (hcv : n'.carved p = n.carved p) (hout : n'.outOf p = n.outOf p) :
    n'.PageOk cfg p where
  carved_le := hcv ▸ h.carved_le
  fresh := by rw [hc, hoff, hcv]; exact h.fresh
  items := by rw [hpg, hcv, hout]; exact h.items
  count := by rw [hpg, hcv]; exact h.count

theorem PageOk.full_of_count_zero (h : n.PageOk cfg p) (h0 : (n.pg p).itemCount = 0) :
    n.carved p = cfg.nrElems := by
  have := h.count
  have := h.carved_le
  omega

/-- A fully carved page keeps its accounts in a state where its own fields are unchanged. -/
theorem PageOk.transfer (h : n.PageOk cfg p) (hc : n.carved p = cfg.nrElems)
    (hpg : n'.pg p = n.pg p) (hcv : n'.carved p = n.carved p) (hout : n'.outOf p = n.outOf p) :
    n'.PageOk cfg p where
  carved_le := hcv ▸ h.carved_le
  fresh := .inl (hcv.trans hc)
  items := by rw [hpg, hcv, hout]; exact h.items
  count := by rw [hpg, hcv]; exact h.count

/-- A held page other than `cur_pg` is fully carved. -/
theorem PageOk.full_of_ne (h : n.PageOk cfg p) (hp : n.curPg ≠ some p) :
    n.carved p = cfg.nrElems :=
  h.fresh.resolve_right fun h' => hp h'.1

/-- When `cur_pg` is missing or exhausted, every held page is fully carved. -/
theorem Inv.carved_of_needsPage (hi : n.Inv cfg) (hneed : n.needsPage = true) :
    ∀ q ∈ n.held, n.carved q = cfg.nrElems := by
  intro q hq
  rcases (hi.page q hq).fresh with h | ⟨hc, -⟩
  · exact h
  · simp only [needsPage, hc, beq_iff_eq] at hneed
    exact (hi.page q hq).full_of_count_zero hneed

/-- The pages of a node whose pages are all fully carved may be moved between its lists. -/
theorem Inv.relist (hi : n.Inv cfg) (hfull : ∀ q ∈ n.held, n.carved q = cfg.nrElems)
    (hheld : n'.held.Perm n.held) (hpg : n'.pg = n.pg) (hcv : n'.carved = n.carved)
    (hout : n'.out = n.out) (hpart : ∀ q ∈ n'.partialList, q ∈ n.partialList) : n'.Inv cfg where
  held_nodup := hheld.nodup_iff.2 hi.held_nodup
  out_nodup := hout ▸ hi.out_nodup
  out_held it hit := hheld.mem_iff.2 (hi.out_held it (hout ▸ hit))
  page q hq := by
    have hq' := hheld.mem_iff.1 hq
    exact (hi.page q hq').transfer (hfull q hq') (by rw [hpg]) (by rw [hcv]) (by simp only [outOf, hout])
  partial_pos q hq := hpg ▸ hi.partial_pos q (hpart q hq)

theorem erase_append_erase {L M : List P} (hnd : (L ++ M).Nodup) (p : P) :
    L.erase p ++ M.erase p = (L ++ M).erase p := by
  by_cases hp : p ∈ L
  · have hpM : p ∉ M := fun h => List.disjoint_of_nodup_append hnd hp h
    rw [List.erase_append_left _ hp, List.erase_of_not_mem hpM]
  · rw [List.erase_of_not_mem hp, List.erase_append_right _ hp]

/-- `list_del` of a page that is not `cur_pg` from whichever list holds it. -/
theorem held_erase (hnd : n.held.Nodup) (hc : n.curPg ≠ some p) :
    n.curPg.toList ++ n.fullList.erase p ++ n.partialList.erase p = n.held.erase p := by
  have hpc : p ∉ n.curPg.toList := by
    rcases h : n.curPg with _ | c
    · simp
    · simp only [Option.toList_some, List.mem_singleton]
      rintro rfl
      exact hc h
  have hLM : (n.fullList ++ n.partialList).Nodup := by
    rw [held, List.append_assoc] at hnd
    exact (List.nodup_append.1 hnd).2.1
  rw [held, List.append_assoc, List.append_assoc, List.erase_append_right _ hpc,
    erase_append_erase hLM]

/-- The lists of a node may be rearranged, keeping `cur_pg`, as long as every page stays held
once, no page that an item is out of is dropped, and the partial pages have an item. -/
theorem Inv.relist_of_cur (hi : n.Inv cfg) (hc : n'.curPg = n.curPg) (hoff : n'.pgOff = n.pgOff)
    (hpg : n'.pg = n.pg) (hcv : n'.carved = n.carved) (hout : n'.out = n.out)
    (hnd : n'.held.Nodup) (hheld : ∀ q ∈ n'.held, q ∈ n.held)
    (hkeep : ∀ it ∈ n.out, it.1 ∈ n'.held)
    (hpart : ∀ q ∈ n'.partialList, 0 < (n.pg q).itemCount) : n'.Inv cfg where
  held_nodup := hnd
  out_nodup := hout ▸ hi.out_nodup
  out_held it hit := hkeep it (hout ▸ hit)
  page q hq := (hi.page q (hheld q hq)).congr hc hoff (by rw [hpg]) (by rw [hcv])
    (by simp only [outOf, hout])
  partial_pos q hq := hpg ▸ hpart q hq

end SlabNode

section Refill

open SlabNode

variable {P : Type*} [DecidableEq P] {cfg : SlabCfg} {n : SlabNode P} {fresh : Option P}

/-- What the refill does: the old `cur_pg` joins the full list, and the new one is the head of the
partial list, a fresh page, or `NULL`. -/
theorem slabNodeRefill_cases (cfg : SlabCfg) (n : SlabNode P) (fresh : Option P) :
    (∃ p ps, n.partialList = p :: ps ∧ slabNodeRefill cfg n fresh = { n with
      curPg := some p, fullList := n.curPg.toList ++ n.fullList, partialList := ps
      nrPages := n.nrPages + 1 }) ∨
    (∃ p, n.partialList = [] ∧ fresh = some p ∧ slabNodeRefill cfg n fresh = { n with
      curPg := some p, fullList := n.curPg.toList ++ n.fullList, pgOff := cfg.offset
      pg := Function.update n.pg p ⟨cfg.nrElems, []⟩, carved := Function.update n.carved p 0
      nrPages := n.nrPages + 1 }) ∨
    (n.partialList = [] ∧ fresh = none ∧
      slabNodeRefill cfg n fresh = { n with curPg := none, fullList := n.curPg.toList ++ n.fullList }) := by
  rcases hp : n.partialList with _ | ⟨p, ps⟩
  · rcases fresh with _ | f
    · refine .inr (.inr ⟨rfl, rfl, ?_⟩)
      rcases hc : n.curPg with _ | c <;> simp [slabNodeRefill, slabNodeGetPage, hc, hp]
    · refine .inr (.inl ⟨f, rfl, rfl, ?_⟩)
      rcases hc : n.curPg with _ | c <;> simp [slabNodeRefill, slabNodeGetPage, hc, hp]
  · refine .inl ⟨p, ps, rfl, ?_⟩
    rcases hc : n.curPg with _ | c <;> simp [slabNodeRefill, slabNodeGetPage, hc, hp]

/-- The refill keeps the invariant and leaves a `cur_pg` with an item, if any; the pages it holds
afterwards are the ones it held and the fresh one. -/
theorem SlabNode.Inv.refill (hi : n.Inv cfg) (hneed : n.needsPage = true)
    (hfresh : ∀ p ∈ fresh, p ∉ n.held) :
    (slabNodeRefill cfg n fresh).Inv cfg ∧ (slabNodeRefill cfg n fresh).out = n.out ∧
      (∀ c, (slabNodeRefill cfg n fresh).curPg = some c →
        0 < ((slabNodeRefill cfg n fresh).pg c).itemCount) ∧
      ∀ q ∈ (slabNodeRefill cfg n fresh).held, q ∈ n.held ∨ fresh = some q := by
  have hfull := hi.carved_of_needsPage hneed
  rcases slabNodeRefill_cases cfg n fresh with
    ⟨p, ps, hp, hr⟩ | ⟨p, hp, rfl, hr⟩ | ⟨hp, rfl, hr⟩ <;> rw [hr]
  · -- the head of the partial list becomes `cur_pg`
    refine ⟨hi.relist hfull ?_ rfl rfl rfl (fun q hq => by simp [hp, hq]), rfl, ?_, ?_⟩
    · simp only [held, hp, Option.toList_some]
      exact List.perm_middle.symm
    · rintro c ⟨⟩
      exact hi.partial_pos p (by simp [hp])
    · intro q hq
      left
      simp only [held, hp, Option.toList_some, List.mem_append, List.mem_cons] at hq ⊢
      tauto
  · -- a fresh page, with every item still to carve
    have hpn : p ∉ n.held := hfresh p rfl
    have hno : ∀ it ∈ n.out, it.1 ≠ p := fun it hit h => hpn (h ▸ hi.out_held it hit)
    have hmem : ∀ q, q ∈ [p] ++ (n.curPg.toList ++ n.fullList) ++ n.partialList ↔
        q = p ∨ q ∈ n.held := by
      intro q
      simp only [held, hp, List.mem_append, List.mem_singleton, List.not_mem_nil, or_false]
    refine ⟨⟨?_, hi.out_nodup, ?_, ?_, by simp [hp]⟩, rfl, ?_, ?_⟩
    · have := hi.held_nodup
      simp only [held, hp, List.append_nil] at this hpn ⊢
      exact List.nodup_cons.2 ⟨hpn, this⟩
    · intro it hit
      exact (hmem _).2 (.inr (hi.out_held it hit))
    · intro q hq
      by_cases hqp : q = p
      · subst hqp
        refine ⟨by simp, .inr ⟨rfl, by simp⟩, ?_, by simp⟩
        have : n.outOf q = [] := by
          rw [List.eq_nil_iff_forall_not_mem]
          intro off hoff
          exact hno _ (mem_outOf.1 hoff) rfl
        simpa [outOf, SlabCfg.items] using this
      · have hq' : q ∈ n.held := ((hmem q).1 hq).resolve_left hqp
        exact (hi.page q hq').transfer (hfull q hq') (by simp [hqp]) (by simp [hqp]) rfl
    · rintro c ⟨⟩
      simpa using cfg.nrElems_pos
    · intro q hq
      rcases (hmem q).1 hq with rfl | hq
      · exact .inr rfl
      · exact .inl hq
  · -- out of memory: no `cur_pg`
    refine ⟨hi.relist hfull ?_ rfl rfl rfl (by simp), rfl, by simp, ?_⟩
    · simp [held, hp]
    · intro q hq
      left
      simpa [held, hp] using hq

/-- Taking an item from a `cur_pg` that has one keeps the invariant, and hands out an item that
was not out. -/
theorem SlabNode.Inv.take (hi : n.Inv cfg)
    (hpos : ∀ c, n.curPg = some c → 0 < (n.pg c).itemCount) :
    (slabNodeTake cfg n).2.Inv cfg ∧
      (slabNodeTake cfg n).2.out = (slabNodeTake cfg n).1.toList ++ n.out ∧
      (slabNodeTake cfg n).2.held = n.held := by
  unfold slabNodeTake
  rcases hc : n.curPg with _ | c
  · exact ⟨hi, rfl, rfl⟩
  have hcH : c ∈ n.held := by simp [held, hc]
  have hpc := hi.page c hcH
  have hcp := hpos c hc
  -- every other held page is fully carved, and not on the partial list if it is `cur_pg`
  have hfull : ∀ q ∈ n.held, q ≠ c → n.carved q = cfg.nrElems :=
    fun q hq hqc => (hi.page q hq).full_of_ne (by rw [hc]; exact fun h => hqc (Option.some.inj h).symm)
  have hcpart : c ∉ n.partialList := by
    intro h
    have := hi.held_nodup
    simp only [held, hc, Option.toList_some, List.cons_append, List.nodup_cons,
      List.mem_append] at this
    exact this.1 (.inr h)
  -- `cur_pg` stays, so the new node holds the same pages
  have hH : n.held = (some c).toList ++ n.fullList ++ n.partialList := by rw [held, hc]
  have hHmem : ∀ q, q ∈ n.held ↔ q ∈ (some c).toList ++ n.fullList ++ n.partialList :=
    fun q => by rw [hH]
  dsimp only
  rcases hnx : (n.pg c).next with _ | ⟨off, rest⟩
  all_goals dsimp only
  · -- nothing freed: carve the next item at `pg_off`
    have hlt : n.carved c < cfg.nrElems := by
      have := hpc.count
      rw [hnx] at this
      simp only [List.length_nil] at this
      omega
    obtain ⟨-, hoff⟩ := hpc.fresh.resolve_left (by omega)
    have hitems : (n.outOf c).Perm (cfg.items (n.carved c)) := by simpa [hnx] using hpc.items
    have hnew : (c, n.pgOff) ∉ n.out := by
      intro h
      have := hitems.mem_iff.1 (mem_outOf.2 h)
      rw [hoff] at this
      exact cfg.not_mem_items_self _ this
    refine ⟨⟨?_, List.nodup_cons.2 ⟨hnew, hi.out_nodup⟩, ?_, ?_, ?_⟩, rfl, hH.symm⟩
    · exact (hH ▸ hi.held_nodup :)
    · intro it hit
      rcases List.mem_cons.1 hit with rfl | hit
      · exact (hHmem _).1 hcH
      · exact (hHmem _).1 (hi.out_held it hit)
    · intro q hq
      replace hq := (hHmem q).2 hq
      by_cases hqc : q = c
      · subst hqc
        refine ⟨by simp; omega, ?_, ?_, ?_⟩
        · by_cases hlast : n.carved q + 1 = cfg.nrElems
          · exact .inl (by simpa using hlast)
          · exact .inr ⟨rfl, by simp [hoff]; ring⟩
        · rw [outOf_cons_self rfl]
          simp only [Function.update_self, List.nil_append, SlabCfg.items_succ, ← hoff]
          exact (hitems.cons _).trans (List.perm_append_singleton _ _).symm
        · have := hpc.count
          rw [hnx] at this
          simp only [Function.update_self, List.length_nil] at this ⊢
          omega
      · exact (hi.page q hq).transfer (hfull q hq hqc) (by simp [hqc]) (by simp [hqc])
          (outOf_cons_of_ne rfl hqc)
    · intro q hq
      have hqc : q ≠ c := fun h => hcpart (h ▸ hq)
      simpa [hqc] using hi.partial_pos q hq
  · -- a freed item of `cur_pg` goes first
    have hnew : (c, off) ∉ n.out := by
      intro h
      have := hpc.nodup
      rw [hnx] at this
      exact (List.nodup_append.1 this).2.2 off (by simp) off (mem_outOf.2 h) rfl
    refine ⟨⟨?_, List.nodup_cons.2 ⟨hnew, hi.out_nodup⟩, ?_, ?_, ?_⟩, rfl, hH.symm⟩
    · exact (hH ▸ hi.held_nodup :)
    · intro it hit
      rcases List.mem_cons.1 hit with rfl | hit
      · exact (hHmem _).1 hcH
      · exact (hHmem _).1 (hi.out_held it hit)
    · intro q hq
      replace hq := (hHmem q).2 hq
      by_cases hqc : q = c
      · subst hqc
        refine ⟨hpc.carved_le, ?_, ?_, ?_⟩
        · simpa [hc] using hpc.fresh
        · rw [outOf_cons_self rfl]
          simp only [Function.update_self]
          have := hpc.items
          rw [hnx] at this
          exact List.perm_middle.trans this
        · have := hpc.count
          rw [hnx] at this
          simp only [Function.update_self, List.length_cons] at this ⊢
          omega
      · exact (hi.page q hq).transfer (hfull q hq hqc) (by simp [hqc]) rfl
          (outOf_cons_of_ne rfl hqc)
    · intro q hq
      have hqc : q ≠ c := fun h => hcpart (h ▸ hq)
      simpa [hqc] using hi.partial_pos q hq

/-- `__slab_node_alloc` keeps the invariant; the item it returns, if any, was not out, and the
node holds no page but its own and the one `page_alloc_on_node` gave. -/
theorem SlabNode.Inv.alloc (hi : n.Inv cfg) (hfresh : ∀ p ∈ fresh, p ∉ n.held) :
    (slabNodeAlloc cfg n fresh).2.Inv cfg ∧
      (slabNodeAlloc cfg n fresh).2.out = (slabNodeAlloc cfg n fresh).1.toList ++ n.out ∧
      ∀ q ∈ (slabNodeAlloc cfg n fresh).2.held, q ∈ n.held ∨ fresh = some q := by
  unfold slabNodeAlloc
  by_cases hneed : n.needsPage = true
  · rw [if_pos hneed]
    obtain ⟨hr, hout, hpos, hsub⟩ := hi.refill hneed hfresh
    obtain ⟨ht, htout, hth⟩ := hr.take hpos
    exact ⟨ht, htout.trans (by rw [hout]), fun q hq => hsub q (hth ▸ hq)⟩
  · rw [if_neg hneed]
    have hpos : ∀ c, n.curPg = some c → 0 < (n.pg c).itemCount := by
      intro c hc
      have h0 : (n.pg c).itemCount ≠ 0 := by simpa [SlabNode.needsPage, hc] using hneed
      have := (hi.page c (by simp [SlabNode.held, hc])).count_nonneg
      omega
    obtain ⟨ht, htout, hth⟩ := hi.take hpos
    exact ⟨ht, htout, fun q hq => .inl (hth ▸ hq)⟩

end Refill

section Free

variable {P : Type*} [DecidableEq P] {cfg : SlabCfg} {n : SlabNode P} {it : P × Nat}

open SlabNode

/-- The first half of `slab_node_free`: the item goes back on its page's free list. -/
theorem SlabNode.Inv.push (hi : n.Inv cfg) (hit : it ∈ n.out) :
    ({ n with
      pg := Function.update n.pg it.1 ⟨(n.pg it.1).itemCount + 1, it.2 :: (n.pg it.1).next⟩
      out := n.out.erase it } : SlabNode P).Inv cfg := by
  obtain ⟨p, off⟩ := it
  refine ⟨hi.held_nodup, hi.out_nodup.erase _,
    fun it' hit' => hi.out_held it' (List.erase_subset hit'), ?_, ?_⟩
  · intro q hq
    by_cases hqp : q = p
    · subst hqp
      have hpc := hi.page q hq
      refine ⟨hpc.carved_le, hpc.fresh, ?_, ?_⟩
      · -- the offset moves from the items out to the free list
        simp only [Function.update_self, List.cons_append]
        exact List.perm_middle.symm.trans (((outOf_erase hit rfl).symm.append_left _).trans hpc.items)
      · have := hpc.count
        simp only [Function.update_self, List.length_cons]
        omega
    · exact (hi.page q hq).congr rfl rfl (by simp [hqp]) rfl (outOf_erase_of_ne rfl hqp)
  · intro q hq
    by_cases hqp : q = p
    · subst hqp
      have := (hi.page q (by simp [held, hq])).count_nonneg
      simp only [Function.update_self]
      omega
    · simpa [hqp] using hi.partial_pos q hq

/-- `slab_node_free` keeps the invariant, and `page_put` is only called on a page that is not
`cur_pg`, whose `nr_elems` items are all on its free list, none of them out, and that the node no
longer holds. -/
theorem SlabNode.Inv.free (hi : n.Inv cfg) (hit : it ∈ n.out) :
    (slabNodeFree cfg n it).1.Inv cfg ∧ (slabNodeFree cfg n it).1.out = n.out.erase it ∧
      (∀ q ∈ (slabNodeFree cfg n it).1.held, q ∈ n.held) ∧
      ∀ p, (slabNodeFree cfg n it).2 = some p → n.curPg ≠ some p ∧
        p ∉ (slabNodeFree cfg n it).1.held ∧
        ((slabNodeFree cfg n it).1.pg p).next.Perm (cfg.items cfg.nrElems) ∧
        ∀ it' ∈ (slabNodeFree cfg n it).1.out, it'.1 ≠ p := by
  have hi₁ := hi.push hit
  have hp : it.1 ∈ n.held := hi.out_held _ hit
  have hpc₁ := hi₁.page it.1 hp
  unfold slabNodeFree
  dsimp only
  split_ifs with hc hthr hall
  · exact ⟨hi₁, rfl, fun q hq => hq, by simp⟩
  · -- at `SLAB_PARTIAL_THRESH` the page moves to the head of the partial list
    have hperm : (n.curPg.toList ++ n.fullList.erase it.1 ++ it.1 :: n.partialList.erase it.1).Perm
        n.held := by
      refine List.perm_middle.trans ?_
      rw [held_erase hi.held_nodup hc]
      exact (List.perm_cons_erase hp).symm
    refine ⟨hi₁.relist_of_cur rfl rfl rfl rfl rfl (hperm.nodup_iff.2 hi.held_nodup)
      (fun q hq => hperm.mem_iff.1 hq) (fun it' hit' => hperm.mem_iff.2 (hi₁.out_held it' hit'))
      ?_, rfl, fun q hq => hperm.mem_iff.1 hq, by simp⟩
    intro q hq
    rcases List.mem_cons.1 hq with rfl | hq
    · simp only [Function.update_self, slabPartialThresh] at hthr ⊢
      omega
    · exact hi₁.partial_pos q (List.mem_of_mem_erase hq)
  · -- every item is free again: the page leaves the node for `page_put`
    have hnone : ∀ it' ∈ n.out.erase it, it'.1 ≠ it.1 := by
      have h0 := hpc₁.count_eq
      simp only [Function.update_self] at h0
      have hlen : (outOf { n with
          pg := Function.update n.pg it.1 ⟨(n.pg it.1).itemCount + 1, it.2 :: (n.pg it.1).next⟩
          out := n.out.erase it } it.1).length = 0 := by omega
      intro it' hit' h
      rw [List.length_eq_zero_iff, List.eq_nil_iff_forall_not_mem] at hlen
      exact hlen it'.2 (mem_outOf.2 (h ▸ hit'))
    -- the node holds what it held but the page
    have hheld := held_erase hi.held_nodup hc
    have hmem : ∀ q, q ∈ n.curPg.toList ++ n.fullList.erase it.1 ++ n.partialList.erase it.1 ↔
        q ∈ n.held.erase it.1 := fun q => by rw [hheld]
    refine ⟨hi₁.relist_of_cur rfl rfl rfl rfl rfl ?_ ?_ ?_ ?_, rfl, ?_, ?_⟩
    · exact (hheld ▸ hi.held_nodup.erase _ :)
    · intro q hq
      exact List.mem_of_mem_erase ((hmem q).1 hq)
    · intro it' hit'
      exact (hmem _).2 ((List.mem_erase_of_ne (hnone it' hit')).2 (hi₁.out_held it' hit'))
    · intro q hq
      exact hi₁.partial_pos q (List.mem_of_mem_erase hq)
    · intro q hq
      exact List.mem_of_mem_erase ((hmem q).1 hq)
    · rintro p ⟨⟩
      refine ⟨hc, fun h => hi.held_nodup.not_mem_erase ((hmem _).1 h), ?_, hnone⟩
      · have hitems := hpc₁.items
        rw [hpc₁.full_of_ne hc] at hitems
        have hnil : outOf { n with
            pg := Function.update n.pg it.1 ⟨(n.pg it.1).itemCount + 1, it.2 :: (n.pg it.1).next⟩
            out := n.out.erase it } it.1 = [] :=
          List.eq_nil_iff_forall_not_mem.2 fun off h => hnone _ (mem_outOf.1 h) rfl
        simpa [hnil] using hitems
  · exact ⟨hi₁, rfl, fun q hq => hq, by simp⟩

/-- The frees of a batch of distinct handed-out items, in order, keep the invariant. -/
theorem SlabNode.Inv.freeAll (hi : n.Inv cfg) {items : List (P × Nat)} (hnd : items.Nodup)
    (hsub : ∀ it ∈ items, it ∈ n.out) :
    (slabFreeAll cfg n items).Inv cfg ∧ (slabFreeAll cfg n items).out = n.out.diff items := by
  induction items generalizing n with
  | nil => exact ⟨hi, rfl⟩
  | cons it rest ih =>
    obtain ⟨hnit, hnd⟩ := List.nodup_cons.1 hnd
    obtain ⟨hi₁, hout₁, -, -⟩ := hi.free (hsub it (List.mem_cons_self ..))
    have hsub₁ : ∀ it' ∈ rest, it' ∈ (slabNodeFree cfg n it).1.out := by
      intro it' hit'
      have hne : it' ≠ it := fun h => hnit (h ▸ hit')
      rw [hout₁, List.mem_erase_of_ne hne]
      exact hsub it' (List.mem_cons_of_mem _ hit')
    obtain ⟨hi', hout'⟩ := ih hi₁ hnd hsub₁
    exact ⟨hi', by rw [slabFreeAll, List.foldl_cons, ← slabFreeAll, hout', hout₁, List.diff_cons]⟩

end Free

section TcacheAlloc

variable {P : Type*} [DecidableEq P] {cfg : SlabCfg}

/-- The loop of `slab_tcache_alloc`, its rollback included, keeps the invariant; when it succeeds
the items it returns are distinct and out. The pages `page_alloc_on_node` gives along it are
distinct and not held. -/
theorem SlabNode.Inv.tcacheAllocLoop {n : SlabNode P} (hi : n.Inv cfg) (fresh : List (Option P))
    {got : List (P × Nat)} (hgot : ∀ it ∈ got, it ∈ n.out) (hgnd : got.Nodup)
    (hfnd : (fresh.filterMap id).Nodup) (hfresh : ∀ p ∈ fresh.filterMap id, p ∉ n.held) :
    (slabTcacheAllocLoop cfg n fresh got).2.Inv cfg ∧
      ∀ its, (slabTcacheAllocLoop cfg n fresh got).1 = some its →
        its.Nodup ∧ ∀ it ∈ its, it ∈ (slabTcacheAllocLoop cfg n fresh got).2.out := by
  induction fresh generalizing n got with
  | nil =>
    refine ⟨hi, fun its h => ?_⟩
    obtain rfl := (Option.some.inj h).symm
    exact ⟨List.nodup_reverse.2 hgnd, fun it h => hgot it (List.mem_reverse.1 h)⟩
  | cons f rest ih =>
    have hcons : (f :: rest).filterMap id = f.toList ++ rest.filterMap id := by cases f <;> rfl
    rw [hcons] at hfnd hfresh
    have hf : ∀ p ∈ f, p ∉ n.held := fun p hp => hfresh p (List.mem_append_left _ (by simpa using hp))
    obtain ⟨ha, haout, haheld⟩ := hi.alloc hf
    rcases hr : slabNodeAlloc cfg n f with ⟨_ | it, n'⟩
    · -- out of memory: the items so far are freed again, the last first
      rw [hr] at ha haout
      dsimp only at ha haout
      simp only [slabTcacheAllocLoop, hr]
      have hsub : ∀ it ∈ got, it ∈ n'.out := by simpa [haout] using hgot
      exact ⟨(ha.freeAll hgnd hsub).1, by simp⟩
    · rw [hr] at ha haout haheld
      simp only [slabTcacheAllocLoop, hr]
      simp only [Option.toList_some, List.singleton_append] at haout
      have hnew : it ∉ n.out := by
        have := ha.out_nodup
        rw [haout] at this
        exact (List.nodup_cons.1 this).1
      have hrest : ∀ p ∈ rest.filterMap id, p ∉ n'.held := by
        intro p hp hp'
        rcases haheld p hp' with hp' | rfl
        · exact hfresh p (List.mem_append_right _ hp) hp'
        · exact (List.nodup_append.1 hfnd).2.2 p (by simp) p hp rfl
      refine ih ha ?_ (List.nodup_cons.2 ⟨fun h => hnew (hgot _ h), hgnd⟩)
        (List.nodup_append.1 hfnd).2.1 hrest
      intro it' hit'
      rw [haout]
      rcases List.mem_cons.1 hit' with rfl | hit'
      · exact List.mem_cons_self ..
      · exact List.mem_cons_of_mem _ (hgot it' hit')

end TcacheAlloc

/-- The calls on a slab node. -/
inductive SlabOp (P : Type*)
  /-- `slab_alloc_on_node`; `fresh` is what `page_alloc_on_node` returns should it be called. -/
  | allocOnNode (fresh : Option P)
  /-- `slab_free` of an item the caller was handed. -/
  | free (item : P × Nat)
  /-- `slab_tcache_alloc` of as many items as `fresh` has entries, one for each allocation. -/
  | tcacheAlloc (fresh : List (Option P))
  /-- `slab_tcache_free` of a magazine of items the caller was handed. -/
  | tcacheFree (items : List (P × Nat))

/-- One call on the node, or `none` where it cannot be made: `page_alloc_on_node` gives pages the
node does not hold, and only items handed out are freed. -/
def slabStep {P : Type*} [DecidableEq P] (cfg : SlabCfg) (n : SlabNode P) :
    SlabOp P → Option (SlabNode P)
  | .allocOnNode fresh =>
    if ∀ p ∈ fresh, p ∉ n.held then some (slabNodeAlloc cfg n fresh).2 else none
  | .free item => if item ∈ n.out then some (slabNodeFree cfg n item).1 else none
  | .tcacheAlloc fresh =>
    if (fresh.filterMap id).Nodup ∧ ∀ p ∈ fresh.filterMap id, p ∉ n.held then
      some (slabTcacheAllocLoop cfg n fresh []).2
    else none
  | .tcacheFree items =>
    if items.Nodup ∧ ∀ it ∈ items, it ∈ n.out then some (slabFreeAll cfg n items) else none

section Run

variable {P : Type*} [DecidableEq P] {cfg : SlabCfg}

theorem SlabNode.init_inv : (SlabNode.init : SlabNode P).Inv cfg where
  held_nodup := List.nodup_nil
  out_nodup := List.nodup_nil
  out_held _ h := absurd h List.not_mem_nil
  page _ h := absurd h List.not_mem_nil
  partial_pos _ h := absurd h List.not_mem_nil

theorem slabStep_invariant : StepRun.Invariant (slabStep cfg (P := P)) (SlabNode.Inv cfg) := by
  intro n op n' hi h
  cases op with
  | allocOnNode fresh =>
    obtain ⟨hf, ⟨⟩⟩ := Option.ite_none_right_eq_some.1 h
    exact (hi.alloc hf).1
  | free item =>
    obtain ⟨hit, ⟨⟩⟩ := Option.ite_none_right_eq_some.1 h
    exact (hi.free hit).1
  | tcacheAlloc fresh =>
    obtain ⟨⟨hfnd, hf⟩, ⟨⟩⟩ := Option.ite_none_right_eq_some.1 h
    exact (hi.tcacheAllocLoop fresh (fun _ h => absurd h List.not_mem_nil) List.nodup_nil hfnd hf).1
  | tcacheFree items =>
    obtain ⟨⟨hnd, hsub⟩, ⟨⟩⟩ := Option.ite_none_right_eq_some.1 h
    exact (hi.freeAll hnd hsub).1

/-- Along any calls on a slab node: the items handed out are distinct, each on a held page at
`offset + k * size` for some `k < nr_elems`; on every held page, `item_count` counts the items not
handed out, the free list and the items handed out are the items carved so far, every page other
than `cur_pg` is fully carved and `pg_off` is the next item of a partly carved one; every held
page is in one place only; and a free that calls `page_put` does so on a page that is not
`cur_pg`, whose `nr_elems` items are all on its free list with none handed out. -/
theorem slabRun_ok (cfg : SlabCfg) (ops : List (SlabOp P)) {n : SlabNode P}
    (hrun : StepRun.run (slabStep cfg) SlabNode.init ops = some n) :
    n.out.Nodup ∧
    (∀ it ∈ n.out, it.1 ∈ n.held ∧ ∃ k < cfg.nrElems, it.2 = cfg.offset + k * cfg.size) ∧
    (∀ p ∈ n.held, (n.pg p).itemCount = cfg.nrElems - (n.outOf p).length ∧
      ((n.pg p).next ++ n.outOf p).Perm (cfg.items (n.carved p)) ∧
      (n.curPg ≠ some p → n.carved p = cfg.nrElems) ∧
      (n.carved p < cfg.nrElems → n.pgOff = cfg.offset + n.carved p * cfg.size)) ∧
    n.held.Nodup ∧
    (∀ it ∈ n.out, ∀ p, (slabNodeFree cfg n it).2 = some p → n.curPg ≠ some p ∧
      ((slabNodeFree cfg n it).1.pg p).next.Perm (cfg.items cfg.nrElems) ∧
      ∀ it' ∈ (slabNodeFree cfg n it).1.out, it'.1 ≠ p) := by
  have hi := slabStep_invariant.run SlabNode.init_inv hrun
  refine ⟨hi.out_nodup, fun it hit => ⟨hi.out_held it hit, ?_⟩, fun p hp => ?_, hi.held_nodup,
    fun it hit p hput => ?_⟩
  · -- an item out is one of the carved items of its page
    have hpc := hi.page it.1 (hi.out_held it hit)
    have hmem : it.2 ∈ cfg.items (n.carved it.1) :=
      hpc.items.subset (List.mem_append_right _ (SlabNode.mem_outOf.2 hit))
    obtain ⟨k, hk, heq⟩ := (cfg.mem_items).1 hmem
    exact ⟨k, lt_of_lt_of_le hk hpc.carved_le, heq⟩
  · have hpc := hi.page p hp
    refine ⟨hpc.count_eq, hpc.items, hpc.full_of_ne, fun hlt => ?_⟩
    exact (hpc.fresh.resolve_left (Nat.ne_of_lt hlt)).2
  · obtain ⟨hc, -, hnext, hnone⟩ := (hi.free hit).2.2.2 p hput
    exact ⟨hc, hnext, hnone⟩

/-- The node `slab_create` makes for 64-byte items on 4 KB pages. -/
def slabCfg64 : SlabCfg := @SlabCfg.ofCreate 64 false false ⟨64, 0, 64, 4096⟩ (by decide)

/-- One item from a fresh page, two more in a batch, and all three freed again, one alone and two
in a batch. -/
theorem slabRun_ok_cfg64 : ∃ n : SlabNode Nat,
    StepRun.run (slabStep slabCfg64) SlabNode.init
      [.allocOnNode (some 0), .tcacheAlloc [none, none], .free (0, 64),
        .tcacheFree [(0, 0), (0, 128)]] = some n ∧
    (n.out.Nodup ∧
    (∀ it ∈ n.out, it.1 ∈ n.held ∧
      ∃ k < slabCfg64.nrElems, it.2 = slabCfg64.offset + k * slabCfg64.size) ∧
    (∀ p ∈ n.held, (n.pg p).itemCount = slabCfg64.nrElems - (n.outOf p).length ∧
      ((n.pg p).next ++ n.outOf p).Perm (slabCfg64.items (n.carved p)) ∧
      (n.curPg ≠ some p → n.carved p = slabCfg64.nrElems) ∧
      (n.carved p < slabCfg64.nrElems →
        n.pgOff = slabCfg64.offset + n.carved p * slabCfg64.size)) ∧
    n.held.Nodup ∧
    (∀ it ∈ n.out, ∀ p, (slabNodeFree slabCfg64 n it).2 = some p → n.curPg ≠ some p ∧
      ((slabNodeFree slabCfg64 n it).1.pg p).next.Perm (slabCfg64.items slabCfg64.nrElems) ∧
      ∀ it' ∈ (slabNodeFree slabCfg64 n it).1.out, it'.1 ≠ p)) :=
  ⟨_, rfl, slabRun_ok slabCfg64
    [.allocOnNode (some 0), .tcacheAlloc [none, none], .free (0, 64),
      .tcacheFree [(0, 0), (0, 128)]] rfl⟩

end Run

end Caladan
