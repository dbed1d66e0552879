import Mathlib
import Caladan.Lib.Run
import Caladan.Lib.FreeStack
import Caladan.Net.Tcp.Api

/-!
# Memory pools (`base/mempool.c`, `inc/base/mempool.h`)

A pool carves the region `[buf, buf + len)` into pages of `pgsize` bytes and each page into items
of `item_len` bytes, and keeps the addresses of its items in the array `free_items`. The items from
`allocated` up are free: `mempool_alloc` hands out `free_items[allocated++]`, and `mempool_free`
writes the item back to `free_items[--allocated]`. The tcache operations run these under the
pool's spinlock; a failed `mempool_tcache_alloc` drops the lock and then gives back, under the
lock again, the items it took. Each call is one step: another call that runs in the gap touches
no item the failed call holds.

Addresses and sizes are naturals. `calloc` succeeding is an input of `mempool_create`. Beside the
pool the model keeps, as ghost state, the items handed out and not given back.
-/

namespace Caladan

/-- `struct mempool` -/
structure Mempool where
  freeItems : List Nat
  allocated : Nat
  capacity : Nat
  buf : Nat
  len : Nat
  pgsize : Nat
  itemLen : Nat
deriving DecidableEq, Repr

/-- A zero-initialised `struct mempool`. -/
def Mempool.zero : Mempool := ⟨[], 0, 0, 0, 0, 0, 0⟩

/-- `m->free_items[m->capacity++] = item` -/
def Mempool.pushItem (m : Mempool) (item : Nat) : Mempool :=
  { m with freeItems := m.freeItems.set m.capacity item, capacity := m.capacity + 1 }

/-- `mempool_populate`: `calloc` of the array, then item `j` of page `i` at
`buf + pgsize * i + item_len * j`, page by page. -/
def mempoolPopulate (m : Mempool) (buf len pgsize itemLen : Nat) (callocOk : Bool) :
    Except Int Mempool :=
  let itemsPerPage := pgsize / itemLen
  let nrPages := len / pgsize
  if !callocOk then .error (-enomem)
  else
    .ok ((List.range nrPages).foldl (fun m i =>
      (List.range itemsPerPage).foldl (fun m j => m.pushItem (buf + pgsize * i + itemLen * j)) m)
      { m with freeItems := List.replicate (nrPages * itemsPerPage) 0 })

/-- `mempool_create` -/
def mempoolCreate (m : Mempool) (buf len pgsize itemLen : Nat) (callocOk : Bool) :
    Except Int Mempool :=
  -- `is_power_of_two(pgsize)` is `pgsize != 0 && !(pgsize & (pgsize - 1))`
  if itemLen == 0 || !(pgsize != 0 && pgsize &&& (pgsize - 1) == 0) || len % pgsize != 0 then
    .error (-einval)
  else
    mempoolPopulate
      { m with allocated := 0, buf := buf, len := len, pgsize := pgsize, itemLen := itemLen }
      buf len pgsize itemLen callocOk

/-- `mempool_alloc`: the item, or `none` for `NULL` when the pool is empty. -/
def mempoolAlloc (m : Mempool) : Option Nat × Mempool :=
  if m.allocated ≥ m.capacity then (none, m)
  else (some (m.freeItems.getD m.allocated 0), { m with allocated := m.allocated + 1 })

/-- `mempool_free` -/
def mempoolFree (m : Mempool) (item : Nat) : Mempool :=
  { m with freeItems := m.freeItems.set (m.allocated - 1) item, allocated := m.allocated - 1 }

/-- `mempool_tcache_free`: the items in order. -/
def mempoolTcacheFree (m : Mempool) (items : List Nat) : Mempool :=
  items.foldl mempoolFree m

/-- The loop of `mempool_tcache_alloc` for `nr` more items after `items`: whether every
`mempool_alloc` succeeded, the items taken, and the pool. -/
def mempoolTcacheAllocLoop : Nat → Mempool → List Nat → Bool × List Nat × Mempool
  | 0, m, items => (true, items, m)
  | nr + 1, m, items =>
    match mempoolAlloc m with
    | (none, m) => (false, items, m)
    | (some x, m) => mempoolTcacheAllocLoop nr m (items ++ [x])

/-- `mempool_tcache_alloc`: the `nr` items, or `-ENOMEM` once the items taken are given back. -/
def mempoolTcacheAlloc (m : Mempool) (nr : Nat) : Except Int (List Nat) × Mempool :=
  match mempoolTcacheAllocLoop nr m [] with
  | (true, items, m) => (.ok items, m)
  | (false, items, m) => (.error (-enomem), mempoolTcacheFree m items)

/-- A pool and the items it has handed out and not taken back. -/
structure MempoolSys where
  m : Mempool
  out : Multiset Nat

/-- The calls on a pool. A call gives back only items that are out. -/
inductive MempoolOp
  | alloc
  | free (item : Nat)
  | tcacheAlloc (nr : Nat)
  | tcacheFree (items : List Nat)
deriving DecidableEq, Repr

/-- One call, or `none` where it would give back an item that is not out. -/
def mempoolStep (s : MempoolSys) : MempoolOp → Option MempoolSys
  | .alloc =>
    match mempoolAlloc s.m with
    | (none, m) => some ⟨m, s.out⟩
    | (some x, m) => some ⟨m, x ::ₘ s.out⟩
  | .free item => if item ∈ s.out then some ⟨mempoolFree s.m item, s.out.erase item⟩ else none
  | .tcacheAlloc nr =>
    match mempoolTcacheAlloc s.m nr with
    | (.ok items, m) => some ⟨m, s.out + items⟩
    | (.error _, m) => some ⟨m, s.out⟩
  | .tcacheFree items =>
    if (items : Multiset Nat) ≤ s.out then
      some ⟨mempoolTcacheFree s.m items, s.out - items⟩
    else none

/-! ## The items of a pool -/

/-- The items of a pool over `[buf, buf + len)`: item `j` of page `i`, page by page. -/
def mempoolItems (buf len pgsize itemLen : Nat) : List Nat :=
  (List.range (len / pgsize)).flatMap fun i =>
    (List.range (pgsize / itemLen)).map fun j => buf + pgsize * i + itemLen * j

section Items

variable {buf len pgsize itemLen x : Nat}

theorem length_mempoolItems :
    (mempoolItems buf len pgsize itemLen).length = len / pgsize * (pgsize / itemLen) := by
  simp [mempoolItems, List.length_flatMap]

theorem mem_mempoolItems :
    x ∈ mempoolItems buf len pgsize itemLen ↔
      ∃ i < len / pgsize, ∃ j < pgsize / itemLen, x = buf + pgsize * i + itemLen * j := by
  simp only [mempoolItems, List.mem_flatMap, List.mem_range, List.mem_map]
  constructor
  · rintro ⟨i, hi, j, hj, rfl⟩
    exact ⟨i, hi, j, hj, rfl⟩
  · rintro ⟨i, hi, j, hj, rfl⟩
    exact ⟨i, hi, j, hj, rfl⟩

/-- Item `j` of a page ends within the page. -/
theorem item_end_le {j : Nat} (hj : j < pgsize / itemLen) : itemLen * j + itemLen ≤ pgsize :=
  calc itemLen * j + itemLen = itemLen * (j + 1) := (Nat.mul_succ _ _).symm
    _ ≤ itemLen * (pgsize / itemLen) := Nat.mul_le_mul_left _ hj
    _ ≤ pgsize := Nat.mul_div_le _ _

/-- Items of different pages, or of different offsets in a page, are at different addresses. -/
theorem mempoolItems_nodup (h : 0 < itemLen) : (mempoolItems buf len pgsize itemLen).Nodup := by
  rw [mempoolItems, List.nodup_flatMap]
  refine ⟨fun i _ => (List.nodup_range).map fun j₁ j₂ he => ?_, ?_⟩
  · exact Nat.eq_of_mul_eq_mul_left h (by omega)
  · refine List.pairwise_lt_range.imp_of_mem fun {i₁ i₂} _ _ hlt => ?_
    -- every item of page `i₁` lies below page `i₂`
    simp only [Function.onFun, List.disjoint_left, List.mem_map, List.mem_range]
    rintro _ ⟨j₁, hj₁, rfl⟩ ⟨j₂, _, he⟩
    have hend := item_end_le hj₁
    have hpage : pgsize * (i₁ + 1) ≤ pgsize * i₂ := Nat.mul_le_mul_left _ hlt
    rw [Nat.mul_succ] at hpage
    omega

end Items

/-! ## The invariant -/

section Build

variable {m : Mempool}

@[simp] theorem pushItem_allocated (m : Mempool) (x : Nat) : (m.pushItem x).allocated = m.allocated :=
  rfl

/-- The pushes of `mempool_populate` fill the slots from `capacity` on. -/
theorem foldl_pushItem (l : List Nat) : ∀ (pre rest : List Nat) (m : Mempool),
    m.freeItems = pre ++ rest → m.capacity = pre.length → l.length ≤ rest.length →
    (l.foldl Mempool.pushItem m).freeItems = pre ++ l ++ rest.drop l.length ∧
      (l.foldl Mempool.pushItem m).capacity = pre.length + l.length ∧
      (l.foldl Mempool.pushItem m).allocated = m.allocated := by
  induction l with
  | nil => intro pre rest m hf hc _; simp [hf, hc]
  | cons x l ih =>
    intro pre rest m hf hc hl
    obtain ⟨r, rest, rfl⟩ : ∃ r rest', rest = r :: rest' :=
      List.exists_cons_of_ne_nil (List.ne_nil_of_length_pos (by simp at hl; omega))
    have hpush : (m.pushItem x).freeItems = (pre ++ [x]) ++ rest := by
      rw [Mempool.pushItem, hf, hc, List.set_append_right _ _ (le_refl _), Nat.sub_self,
        List.set_cons_zero, List.append_assoc, List.singleton_append]
    obtain ⟨h1, h2, h3⟩ := ih (pre ++ [x]) rest (m.pushItem x) hpush
      (by simp [Mempool.pushItem, hc]) (by simp at hl; omega)
    refine ⟨?_, ?_, ?_⟩
    · rw [List.foldl_cons, h1]
      simp
    · rw [List.foldl_cons, h2]
      simp
      omega
    · rw [List.foldl_cons, h3, pushItem_allocated]

/-- The two loops of `mempool_populate` push the items of the pool in order. -/
theorem mempoolPopulate_loops (buf len pgsize itemLen : Nat) (m : Mempool) :
    (List.range (len / pgsize)).foldl (fun m i =>
      (List.range (pgsize / itemLen)).foldl (fun m j => m.pushItem (buf + pgsize * i + itemLen * j))
        m) m =
      (mempoolItems buf len pgsize itemLen).foldl Mempool.pushItem m := by
  rw [mempoolItems, List.foldl_flatMap]
  simp only [List.foldl_map]

end Build

namespace MempoolSys

/-- The pool keeps the items `all`: `free_items` has a slot for each, and its free slots and the
items out make them up. -/
structure Ok (all : List Nat) (s : MempoolSys) : Prop where
  capacity : s.m.capacity = all.length
  length : s.m.freeItems.length = all.length
  holds : FreeStack.Holds s.m.freeItems s.m.allocated s.out all

variable {all : List Nat} {s : MempoolSys} {m m' : Mempool} {out : Multiset Nat} {x : Nat}

theorem Ok.allocated_le (h : s.Ok all) : s.m.allocated ≤ s.m.capacity := by
  rw [h.holds.sp_eq, h.capacity, ← Multiset.coe_card]
  exact Multiset.card_le_card h.holds.out_le

theorem mempoolAlloc_none (ha : mempoolAlloc m = (none, m')) :
    m' = m ∧ m.capacity ≤ m.allocated := by
  unfold mempoolAlloc at ha
  split_ifs at ha with hfull
  · exact ⟨(Prod.mk.inj ha).2.symm, hfull⟩
  · simp at ha

theorem mempoolAlloc_some (ha : mempoolAlloc m = (some x, m')) :
    m.allocated < m.capacity ∧ x = m.freeItems.getD m.allocated 0 ∧
      m' = { m with allocated := m.allocated + 1 } := by
  unfold mempoolAlloc at ha
  split_ifs at ha with hfull
  · simp at ha
  · obtain ⟨hx, rfl⟩ := Prod.mk.inj ha
    exact ⟨not_le.mp hfull, (Option.some.inj hx).symm, rfl⟩

theorem Ok.alloc (h : s.Ok all) (ha : mempoolAlloc s.m = (some x, m')) :
    Ok all ⟨m', x ::ₘ s.out⟩ := by
  obtain ⟨hlt, rfl, rfl⟩ := mempoolAlloc_some ha
  have hlt' : s.m.allocated < s.m.freeItems.length := by rw [h.length, ← h.capacity]; exact hlt
  have hx : s.m.freeItems.getD s.m.allocated 0 = s.m.freeItems[s.m.allocated] := by
    simp [List.getD_eq_getElem?_getD, hlt']
  exact ⟨h.capacity, h.length, hx ▸ h.holds.take hlt'⟩

theorem Ok.free (h : s.Ok all) (hx : x ∈ s.out) : Ok all ⟨mempoolFree s.m x, s.out.erase x⟩ where
  capacity := h.capacity
  length := by simp [mempoolFree, h.length]
  holds := h.holds.give hx (by rw [h.length, ← h.capacity]; exact h.allocated_le)

/-- `mempool_tcache_free` of items that are out. -/
theorem Ok.tcacheFree : ∀ (items : List Nat) {m : Mempool} {out : Multiset Nat},
    Ok all ⟨m, out⟩ → (items : Multiset Nat) ≤ out →
      Ok all ⟨mempoolTcacheFree m items, out - items⟩
  | [], _, _, h, _ => by simpa [mempoolTcacheFree] using h
  | x :: items, m, out, h, hle => by
    have hx : x ∈ out := Multiset.mem_of_le hle (by simp)
    have hrest : (items : Multiset Nat) ≤ out.erase x := by
      simpa using Multiset.erase_le_erase x hle
    have h' := Ok.tcacheFree items (h.free hx) hrest
    rwa [← Multiset.cons_coe, Multiset.sub_cons]

/-- The loop of `mempool_tcache_alloc`: the items it takes are out. -/
theorem Ok.tcacheAllocLoop : ∀ (nr : Nat) {m : Mempool} {items : List Nat},
    Ok all ⟨m, out + items⟩ →
      Ok all ⟨(mempoolTcacheAllocLoop nr m items).2.2, out + (mempoolTcacheAllocLoop nr m items).2.1⟩
  | 0, _, _, h => h
  | nr + 1, m, items, h => by
    rw [mempoolTcacheAllocLoop]
    split
    · rename_i m' ha
      obtain ⟨rfl, -⟩ := mempoolAlloc_none ha
      exact h
    · rename_i x m' ha
      have hcoe : out + ((items ++ [x] : List Nat) : Multiset Nat) = x ::ₘ (out + items) := by
        rw [← Multiset.coe_add, Multiset.coe_singleton, ← add_assoc, add_comm _ ({x} : Multiset Nat),
          Multiset.singleton_add]
      exact Ok.tcacheAllocLoop nr (hcoe ▸ h.alloc ha)

theorem Ok.tcacheAllocLoop_nil (nr : Nat) (h : Ok all ⟨m, out⟩) :
    Ok all ⟨(mempoolTcacheAllocLoop nr m []).2.2, out + (mempoolTcacheAllocLoop nr m []).2.1⟩ :=
  Ok.tcacheAllocLoop nr (by simpa using h)

theorem Ok.tcacheAlloc_ok {nr : Nat} {items : List Nat} (h : Ok all ⟨m, out⟩)
    (ht : mempoolTcacheAlloc m nr = (.ok items, m')) : Ok all ⟨m', out + items⟩ := by
  have hl := h.tcacheAllocLoop_nil nr
  unfold mempoolTcacheAlloc at ht
  split at ht
  · rename_i items₀ m₀ heq
    obtain ⟨rfl, rfl⟩ := Prod.mk.inj ht |>.imp_left Except.ok.inj
    rwa [heq] at hl
  · cases ht

/-- A failed `mempool_tcache_alloc` gives back every item it took. -/
theorem Ok.tcacheAlloc_error {nr : Nat} {e : Int} (h : Ok all ⟨m, out⟩)
    (ht : mempoolTcacheAlloc m nr = (.error e, m')) : Ok all ⟨m', out⟩ := by
  have hl := h.tcacheAllocLoop_nil nr
  unfold mempoolTcacheAlloc at ht
  split at ht
  · cases ht
  · rename_i items₀ m₀ heq
    rw [heq] at hl
    obtain ⟨-, rfl⟩ := Prod.mk.inj ht
    simpa using Ok.tcacheFree items₀ hl (Multiset.le_add_left _ _)

end MempoolSys

open MempoolSys in
theorem mempoolStep_ok (all : List Nat) : StepRun.Invariant mempoolStep (MempoolSys.Ok all) := by
  intro s op s' h hs
  cases op with
  | alloc =>
    simp only [mempoolStep] at hs
    split at hs
    · rename_i m' ha
      cases hs
      obtain ⟨rfl, -⟩ := mempoolAlloc_none ha
      exact h
    · rename_i x m' ha
      cases hs
      exact h.alloc ha
  | free item =>
    simp only [mempoolStep] at hs
    obtain ⟨hx, hs⟩ := Option.ite_none_right_eq_some.mp hs
    cases hs
    exact h.free hx
  | tcacheAlloc nr =>
    simp only [mempoolStep] at hs
    split at hs
    · rename_i items m' ht
      cases hs
      exact h.tcacheAlloc_ok ht
    · rename_i e m' ht
      cases hs
      exact h.tcacheAlloc_error ht
  | tcacheFree items =>
    simp only [mempoolStep] at hs
    obtain ⟨hle, hs⟩ := Option.ite_none_right_eq_some.mp hs
    cases hs
    exact Ok.tcacheFree items h hle

/-- A successful `mempool_create` on a zero-initialised pool leaves every item free. -/
theorem mempoolCreate_ok {buf len pgsize itemLen : Nat} {c : Bool} {m : Mempool}
    (h : mempoolCreate Mempool.zero buf len pgsize itemLen c = .ok m) :
    0 < itemLen ∧ MempoolSys.Ok (mempoolItems buf len pgsize itemLen) ⟨m, 0⟩ := by
  unfold mempoolCreate at h
  split_ifs at h with hbad
  have hpos : 0 < itemLen := by
    rcases Nat.eq_zero_or_pos itemLen with h0 | h0
    · simp [h0] at hbad
    · exact h0
  unfold mempoolPopulate at h
  split_ifs at h with hc
  dsimp only [Mempool.zero] at h
  rw [mempoolPopulate_loops] at h
  cases h
  -- the pushes fill the `calloc`ed array with the items, from slot `0`
  obtain ⟨h1, h2, h3⟩ := foldl_pushItem (mempoolItems buf len pgsize itemLen) []
    (List.replicate (len / pgsize * (pgsize / itemLen)) 0)
    ⟨List.replicate (len / pgsize * (pgsize / itemLen)) 0, 0, 0, buf, len, pgsize, itemLen⟩ rfl rfl
    (by simp [length_mempoolItems])
  simp only [List.nil_append, length_mempoolItems, List.drop_replicate, Nat.sub_self,
    List.replicate_zero, List.append_nil, List.length_nil, Nat.zero_add] at h1 h2
  refine ⟨hpos, ⟨by rw [h2, length_mempoolItems], by rw [h1], ⟨by rw [h3]; rfl, ?_⟩⟩⟩
  simp [h1, h3]

/-- After a successful `mempool_create` on a zero-initialised pool, and any calls that give back
only items that are out: the items out are distinct, each is item `j` of page `i` of the region
and lies within that page, `allocated` counts them, and `mempool_alloc` fails only when every
item of the pool is out. -/
theorem mempoolRun_conservation {buf len pgsize itemLen : Nat} {callocOk : Bool} {m : Mempool}
    (hc : mempoolCreate Mempool.zero buf len pgsize itemLen callocOk = .ok m)
    (ops : List MempoolOp) {s : MempoolSys} (hs : StepRun.run mempoolStep ⟨m, 0⟩ ops = some s) :
    s.out.Nodup ∧
    (∀ x ∈ s.out, ∃ i < len / pgsize, ∃ j < pgsize / itemLen,
      x = buf + i * pgsize + j * itemLen ∧ x + itemLen ≤ buf + (i + 1) * pgsize ∧
        (i + 1) * pgsize ≤ len) ∧
    s.m.allocated = Multiset.card s.out ∧
    ((mempoolAlloc s.m).1 = none → Multiset.card s.out = len / pgsize * (pgsize / itemLen)) := by
  obtain ⟨hpos, h0⟩ := mempoolCreate_ok hc
  have h := (mempoolStep_ok _).run h0 hs
  refine ⟨h.holds.nodup (mempoolItems_nodup hpos), fun x hx => ?_, h.holds.sp_eq, fun hn => ?_⟩
  · obtain ⟨i, hi, j, hj, rfl⟩ := mem_mempoolItems.mp (h.holds.mem hx)
    have hend := item_end_le hj
    have hpage : (i + 1) * pgsize ≤ len :=
      (Nat.mul_le_mul_right _ hi).trans (Nat.div_mul_le_self len pgsize)
    refine ⟨i, hi, j, hj, by ring, ?_, hpage⟩
    rw [Nat.add_mul, Nat.one_mul]
    linarith
  · -- `mempool_alloc` fails only with `allocated` at `capacity`
    have hfull : s.m.capacity ≤ s.m.allocated := by
      unfold mempoolAlloc at hn
      split_ifs at hn with h'
      exact h'
    have hle := Multiset.card_le_card h.holds.out_le
    rw [Multiset.coe_card, length_mempoolItems] at hle
    rw [h.holds.sp_eq, h.capacity, length_mempoolItems] at hfull
    omega

/-- Two items out, a batch of three that fails and is rolled back, the two items given back, one
by `mempool_free` and one by the tcache, and one taken again. -/
def mempoolChurnTrace : List MempoolOp :=
  [.alloc, .alloc, .tcacheAlloc 3, .free 4096, .tcacheFree [4112], .alloc]

theorem mempoolRun_conservation_churn :
    ∃ m s, mempoolCreate Mempool.zero 4096 64 32 16 true = .ok m ∧
      StepRun.run mempoolStep ⟨m, 0⟩ mempoolChurnTrace = some s ∧
      (s.out.Nodup ∧
      (∀ x ∈ s.out, ∃ i < 64 / 32, ∃ j < 32 / 16,
        x = 4096 + i * 32 + j * 16 ∧ x + 16 ≤ 4096 + (i + 1) * 32 ∧ (i + 1) * 32 ≤ 64) ∧
      s.m.allocated = Multiset.card s.out ∧
      ((mempoolAlloc s.m).1 = none → Multiset.card s.out = 64 / 32 * (32 / 16))) := by
  refine ⟨_, _, rfl, rfl, ?_⟩
  exact @mempoolRun_conservation 4096 64 32 16 true _ rfl mempoolChurnTrace _ rfl

end Caladan
