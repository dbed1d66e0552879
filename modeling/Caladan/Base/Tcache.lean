import Mathlib
import Caladan.Lib.Run

/-!
# Thread-local magazine caches (`base/tcache.c`, `inc/base/tcache.h`)

A `tcache` caches items of a backing allocator (`ops->alloc`, `ops->free`) in magazines of
`mag_size` items. Each thread has a handle with a `loaded` magazine it allocates from and frees to
(`rounds` items) and a full `previous` magazine it swaps in when `loaded` runs empty or full; full
magazines beyond those two go to the cache's `shared_mags` pool, and `tcache_reclaim` gives the
pool back to the backing allocator.

The magazines are the lists of items their headers link through `next_item`, the empty list
standing for `NULL`; `shared_mags` is the list of magazines linked through `next_mag`. A handle is
touched only by its thread and the pool only under `tc->lock`, so each call of `tcache_alloc`,
`tcache_free` and `tcache_reclaim` is one step. What `ops->alloc` fills the array of
`tcache_alloc_mag` with is an input of the step; the backing allocator gives `mag_size` distinct
items it owns. A step where the code dereferences an empty magazine is not enabled.

Beside the cache, the model keeps as ghost state the items handed out by `tcache_alloc`, the
items given back to `ops->free`, and every item ever obtained from `ops->alloc`.
-/

namespace Caladan

section SumSet

variable {β M : Type*} [AddCommMonoid M]

/-- Writing one entry of a list changes the sum of an image by that entry. -/
theorem sum_map_set_add (f : β → M) :
    ∀ {L : List β} {i : Nat} (hi : i < L.length) (y : β),
      ((L.set i y).map f).sum + f L[i] = (L.map f).sum + f y
  | [], _, hi, _ => absurd hi (Nat.not_lt_zero _)
  | a :: L, 0, _, y => by
    simp only [List.set_cons_zero, List.map_cons, List.sum_cons, List.getElem_cons_zero]
    abel
  | a :: L, i + 1, hi, y => by
    simp only [List.set_cons_succ, List.map_cons, List.sum_cons, List.getElem_cons_succ]
    rw [add_assoc, sum_map_set_add f (i := i) (by simpa using hi) y, add_assoc]

end SumSet

section Multiset

variable {α : Type*} [DecidableEq α]

/-- Items `m` arriving partly from `R` and otherwise from outside `Q + R`, with no duplicates
anywhere, make up the union of what was there and what arrived. -/
theorem add_sub_add_eq {Q R m : Multiset α} (hG : (Q + R).Nodup) (hm : m.Nodup)
    (hmR : ∀ x ∈ m, x ∈ R ∨ x ∉ Q + R) :
    Q + (R - m) + m = Q + R + (m - (Q + R)) := by
  ext x
  have hG1 := (Multiset.nodup_iff_count_le_one.1 hG) x
  have hm1 := (Multiset.nodup_iff_count_le_one.1 hm) x
  simp only [Multiset.count_add, Multiset.count_sub] at hG1 ⊢
  by_cases hx : x ∈ m
  · have hmx := Multiset.count_pos.2 hx
    rcases hmR x hx with hR | hR
    · have := Multiset.count_pos.2 hR
      omega
    · have : Multiset.count x (Q + R) = 0 := Multiset.count_eq_zero.2 hR
      simp only [Multiset.count_add] at this
      omega
  · have : Multiset.count x m = 0 := Multiset.count_eq_zero.2 hx
    omega

end Multiset

section Unsigned

variable {a b : UInt32}

theorem toNat_pred (h : a ≠ 0) : (a - 1).toNat = a.toNat - 1 := by
  have h1 : a.toNat ≠ 0 := fun h0 => h (UInt32.toNat_inj.1 (by simpa using h0))
  rw [UInt32.toNat_sub_of_le _ _ (UInt32.le_iff_toNat_le.2 (by simp; omega))]
  simp

theorem toNat_succ_of_lt (h : a < b) : (a + 1).toNat = a.toNat + 1 := by
  have h1 := UInt32.lt_iff_toNat_lt.1 h
  have h2 := b.toNat_lt
  rw [UInt32.toNat_add, UInt32.toNat_one]
  omega

end Unsigned

variable {α : Type*}

/-- `struct tcache_perthread`. -/
structure TcachePerthread (α : Type*) where
  rounds : UInt32
  capacity : UInt32
  loaded : List α
  previous : List α
deriving DecidableEq, Repr

namespace TcachePerthread

/-- `tcache_init_perthread`. -/
def init (magSize : UInt32) : TcachePerthread α := ⟨0, magSize, [], []⟩

/-- The label `alloc:` of `__tcache_alloc`: load the magazine `m` and take its first item;
`none` where `m` is empty and the code dereferences `NULL`. -/
def reload (l : TcachePerthread α) (m : List α) : Option (α × TcachePerthread α) :=
  match m with
  | x :: rest => some (x, { l with rounds := l.capacity - 1, loaded := rest })
  | [] => none

/-- Whether `__tcache_alloc` gets to CASE 3 and calls `tcache_alloc_mag`. -/
def needsMag (l : TcachePerthread α) (shared : List (List α)) : Bool :=
  l.rounds == 0 && l.previous.isEmpty && shared.isEmpty

/-- The items a handle holds. -/
def items (l : TcachePerthread α) : Multiset α := (l.loaded : Multiset α) + l.previous

end TcachePerthread

/-- `__tcache_alloc` on the handle `l` and the pool `shared`: the item (`none` for `NULL`), and
the handle and the pool after it. `mag` is what `tcache_alloc_mag` gives if it is called. -/
def tcacheAllocSlow (l : TcachePerthread α) (shared : List (List α)) (mag : Option (List α)) :
    Option (Option α × TcachePerthread α × List (List α)) :=
  match l.previous, shared, mag with
  -- CASE 1: exchange empty loaded mag with full previous mag
  | p@(_ :: _), _, _ => (l.reload p).map fun r => (some r.1, { r.2 with previous := [] }, shared)
  -- CASE 2: grab a magazine from the shared pool
  | [], m :: ms, _ => (l.reload m).map fun r => (some r.1, r.2, ms)
  -- CASE 3: allocate a new magazine
  | [], [], some m => (l.reload m).map fun r => (some r.1, r.2, [])
  | [], [], none => some (none, { l with loaded := [] }, [])

/-- `tcache_alloc`. -/
def tcacheAlloc (l : TcachePerthread α) (shared : List (List α)) (mag : Option (List α)) :
    Option (Option α × TcachePerthread α × List (List α)) :=
  if l.rounds = 0 then tcacheAllocSlow l shared mag
  else
    match l.loaded with
    | x :: rest => some (some x, { l with rounds := l.rounds - 1, loaded := rest }, shared)
    | [] => none

/-- `__tcache_free`: the handle and the pool after it. -/
def tcacheFreeSlow (l : TcachePerthread α) (shared : List (List α)) (x : α) :
    TcachePerthread α × List (List α) :=
  match l.previous with
  -- CASE 1: exchange empty previous mag with full loaded mag
  | [] => ({ l with previous := l.loaded, rounds := 1, loaded := [x] }, shared)
  -- CASE 2: return a magazine to the shared pool
  | p@(_ :: _) => ({ l with previous := l.loaded, rounds := 1, loaded := [x] }, p :: shared)

/-- `tcache_free`. -/
def tcacheFree (l : TcachePerthread α) (shared : List (List α)) (x : α) :
    TcachePerthread α × List (List α) :=
  if l.rounds ≥ l.capacity then tcacheFreeSlow l shared x
  else ({ l with rounds := l.rounds + 1, loaded := x :: l.loaded }, shared)

/-- `struct tcache` with its handles, and the ghost places of the items outside it. -/
structure Tcache (α : Type*) where
  magSize : UInt32
  sharedMags : List (List α)
  ltcs : List (TcachePerthread α)
  /-- Handed out by `tcache_alloc` and not freed since. -/
  out : List α
  /-- Given to `ops->free` and not obtained again since. -/
  returned : List α
  /-- Obtained from `ops->alloc` at some point. -/
  got : List α
deriving DecidableEq, Repr

namespace Tcache

/-- `tcache_create`. -/
def init (magSize : UInt32) : Tcache α := ⟨magSize, [], [], [], [], []⟩

/-- Every place an item can be in, counted with multiplicity. -/
def places (tc : Tcache α) : Multiset α :=
  ((tc.out ++ tc.returned ++ tc.sharedMags.flatten : List α) : Multiset α) +
    (tc.ltcs.map TcachePerthread.items).sum

variable [DecidableEq α]

/-- What `ops->alloc` may fill a magazine with: `mag_size` distinct items that are neither in
the cache nor handed out. -/
def MagOk (tc : Tcache α) : Option (List α) → Prop
  | none => True
  | some m => m.length = tc.magSize.toNat ∧ m.Nodup ∧ ∀ x ∈ m, x ∈ tc.returned ∨ x ∉ tc.got

instance (tc : Tcache α) : DecidablePred tc.MagOk
  | none => inferInstanceAs (Decidable True)
  | some _ => inferInstanceAs (Decidable (_ ∧ _ ∧ _))

/-- The items of a new magazine leave the backing allocator. -/
def obtain (tc : Tcache α) (m : List α) : Tcache α :=
  { tc with returned := tc.returned.diff m, got := tc.got ++ m.diff tc.got }

/-- `tcache_reclaim`: each shared magazine goes through `tcache_free_mag` to `ops->free`. -/
def reclaim (tc : Tcache α) : Tcache α :=
  { tc with sharedMags := [], returned := tc.returned ++ tc.sharedMags.flatten }

end Tcache

/-- The calls on a cache; `h` is the index of a handle. -/
inductive TcacheOp (α : Type*)
  /-- `tcache_init_perthread` of a new handle. -/
  | initPerthread
  /-- `tcache_alloc`; `mag` is what `ops->alloc` gives should it be called. -/
  | alloc (h : Nat) (mag : Option (List α))
  /-- `tcache_free` of an item the caller was handed. -/
  | free (h : Nat) (x : α)
  | reclaim
deriving DecidableEq, Repr

/-- One call on the cache, or `none` where it cannot be made. -/
def tcacheStep [DecidableEq α] (tc : Tcache α) : TcacheOp α → Option (Tcache α)
  | .initPerthread => some { tc with ltcs := tc.ltcs ++ [.init tc.magSize] }
  | .alloc h mag =>
    if h < tc.ltcs.length ∧ tc.MagOk mag then
      let l := tc.ltcs.getD h (.init 0)
      let tc' := if l.needsMag tc.sharedMags then tc.obtain (mag.getD []) else tc
      (tcacheAlloc l tc.sharedMags mag).map fun r =>
        { tc' with ltcs := tc.ltcs.set h r.2.1, sharedMags := r.2.2, out := r.1.toList ++ tc.out }
    else none
  | .free h x =>
    if h < tc.ltcs.length ∧ x ∈ tc.out then
      let r := tcacheFree (tc.ltcs.getD h (.init 0)) tc.sharedMags x
      some { tc with ltcs := tc.ltcs.set h r.1, sharedMags := r.2, out := tc.out.erase x }
    else none
  | .reclaim => some tc.reclaim

namespace TcachePerthread

/-- The shape `tcache_alloc` and `tcache_free` keep: `loaded` holds `rounds` items, at most a
magazine, and `previous` is `NULL` or a full magazine. -/
structure Ok (l : TcachePerthread α) (magSize : UInt32) : Prop where
  capacity : l.capacity = magSize
  rounds_le : l.rounds ≤ l.capacity
  loaded : l.loaded.length = l.rounds.toNat
  previous : l.previous = [] ∨ l.previous.length = l.capacity.toNat

theorem Ok.init (s : UInt32) : (init s : TcachePerthread α).Ok s :=
  ⟨rfl, UInt32.le_iff_toNat_le.2 (Nat.zero_le _), rfl, .inl rfl⟩

/-- A handle reloaded with a full magazine `x :: rest`. -/
theorem Ok.reload {l : TcachePerthread α} {s : UInt32} (hl : l.Ok s) {x : α} {rest : List α}
    (hm : (x :: rest).length = s.toNat) {p : List α} (hp : p = [] ∨ p.length = s.toNat) :
    ({ l with rounds := l.capacity - 1, loaded := rest, previous := p } : TcachePerthread α).Ok s := by
  have hc : l.capacity.toNat = rest.length + 1 := by rw [hl.capacity, ← hm]; rfl
  have h0 : l.capacity ≠ 0 := fun h0 => by simp [h0] at hc
  refine ⟨hl.capacity, ?_, ?_, ?_⟩
  · exact UInt32.le_iff_toNat_le.2 (by dsimp only; rw [toNat_pred h0]; omega)
  · dsimp only
    rw [toNat_pred h0]
    omega
  · dsimp only
    rw [hl.capacity]
    exact hp

end TcachePerthread

section Handle

variable {l l' : TcachePerthread α} {s : UInt32} {shared shared' : List (List α)}
  {mag : Option (List α)} {r : Option α}

/-- `__tcache_alloc` keeps the shapes, and moves items between the handle, the pool, the new
magazine and the caller. -/
theorem tcacheAllocSlow_spec (hl : l.Ok s) (hnil : l.loaded = []) (h0 : l.rounds = 0)
    (hsh : ∀ m ∈ shared, m.length = s.toNat) (hmag : ∀ m, mag = some m → m.length = s.toNat)
    (h : tcacheAllocSlow l shared mag = some (r, l', shared')) :
    l'.Ok s ∧ (∀ m ∈ shared', m.length = s.toNat) ∧
      l.items + shared.flatten + (if l.needsMag shared then (mag.getD [] : Multiset α) else 0) =
        (r.toList : Multiset α) + l'.items + shared'.flatten := by
  unfold tcacheAllocSlow at h
  rcases hp : l.previous with _ | ⟨a, p⟩ <;> simp only [hp] at h
  · rcases shared with _ | ⟨m, ms⟩
    · rcases mag with _ | m
      · -- CASE 3, and `ops->alloc` failed
        simp only [Option.some.injEq, Prod.mk.injEq] at h
        obtain ⟨rfl, rfl, rfl⟩ := h
        refine ⟨⟨hl.capacity, hl.rounds_le, by simp [h0], .inl rfl⟩, by simp, ?_⟩
        simp [TcachePerthread.items, hnil, hp]
      · -- CASE 3: a new magazine
        rcases m with _ | ⟨x, rest⟩
        · simp [TcachePerthread.reload] at h
        simp only [TcachePerthread.reload, Option.map_some, Option.some.injEq,
          Prod.mk.injEq] at h
        obtain ⟨rfl, rfl, rfl⟩ := h
        refine ⟨hl.reload (hmag _ rfl) (.inl hp), by simp, ?_⟩
        simp [TcachePerthread.items, TcachePerthread.needsMag, hnil, hp, h0]
    · -- CASE 2: a magazine of the pool
      rcases m with _ | ⟨x, rest⟩
      · simp [TcachePerthread.reload] at h
      simp only [TcachePerthread.reload, Option.map_some, Option.some.injEq, Prod.mk.injEq] at h
      obtain ⟨rfl, rfl, rfl⟩ := h
      refine ⟨hl.reload (hsh _ List.mem_cons_self) (.inl hp),
        fun m hm => hsh m (List.mem_cons_of_mem _ hm), ?_⟩
      simp [TcachePerthread.items, TcachePerthread.needsMag, hnil, hp]
  · -- CASE 1: the previous magazine is full
    have hm : (a :: p).length = s.toNat := by
      rcases hl.previous with h' | h'
      · simp [hp] at h'
      · rw [← hp, h', hl.capacity]
    simp only [TcachePerthread.reload, Option.map_some, Option.some.injEq, Prod.mk.injEq] at h
    obtain ⟨rfl, rfl, rfl⟩ := h
    refine ⟨hl.reload hm (.inl rfl), hsh, ?_⟩
    simp [TcachePerthread.items, TcachePerthread.needsMag, hnil, hp]

/-- `tcache_alloc` keeps the shapes, and moves items between the handle, the pool, the new
magazine and the caller. -/
theorem tcacheAlloc_spec (hl : l.Ok s) (hsh : ∀ m ∈ shared, m.length = s.toNat)
    (hmag : ∀ m, mag = some m → m.length = s.toNat)
    (h : tcacheAlloc l shared mag = some (r, l', shared')) :
    l'.Ok s ∧ (∀ m ∈ shared', m.length = s.toNat) ∧
      l.items + shared.flatten + (if l.needsMag shared then (mag.getD [] : Multiset α) else 0) =
        (r.toList : Multiset α) + l'.items + shared'.flatten := by
  unfold tcacheAlloc at h
  split_ifs at h with h0
  · have hnil : l.loaded = [] := List.length_eq_zero_iff.1 (by rw [hl.loaded, h0]; rfl)
    exact tcacheAllocSlow_spec hl hnil h0 hsh hmag h
  · -- the fast path takes the first of the `rounds` loaded items
    rcases hld : l.loaded with _ | ⟨x, rest⟩ <;> simp only [hld] at h
    · simp at h
    simp only [Option.some.injEq, Prod.mk.injEq] at h
    obtain ⟨rfl, rfl, rfl⟩ := h
    have hr : l.rounds.toNat = rest.length + 1 := by rw [← hl.loaded, hld]; rfl
    have hle := UInt32.le_iff_toNat_le.1 hl.rounds_le
    refine ⟨⟨hl.capacity, ?_, ?_, hl.previous⟩, hsh, ?_⟩
    · exact UInt32.le_iff_toNat_le.2 (by dsimp only; rw [toNat_pred h0]; omega)
    · dsimp only
      rw [toNat_pred h0]
      omega
    · simp [TcachePerthread.items, TcachePerthread.needsMag, h0, hld]

/-- `tcache_free` keeps the shapes, and moves the freed item and magazines between the handle
and the pool. -/
theorem tcacheFree_spec (hl : l.Ok s) (hs : 0 < s) (hsh : ∀ m ∈ shared, m.length = s.toNat)
    (x : α) :
    (tcacheFree l shared x).1.Ok s ∧ (∀ m ∈ (tcacheFree l shared x).2, m.length = s.toNat) ∧
      l.items + {x} + shared.flatten =
        (tcacheFree l shared x).1.items + ((tcacheFree l shared x).2.flatten : Multiset α) := by
  have hle := UInt32.le_iff_toNat_le.1 hl.rounds_le
  have hs' : 0 < l.capacity.toNat := by
    rw [hl.capacity]
    simpa using UInt32.lt_iff_toNat_lt.1 hs
  unfold tcacheFree
  split_ifs with hfull
  · -- `loaded` is full: it becomes the previous magazine
    have hcap : l.loaded.length = l.capacity.toNat := by
      have := UInt32.le_iff_toNat_le.1 hfull
      rw [hl.loaded]
      omega
    have hok : ({ l with previous := l.loaded, rounds := 1, loaded := [x] } :
        TcachePerthread α).Ok s :=
      ⟨hl.capacity, UInt32.le_iff_toNat_le.2 (by simp; omega), rfl, .inr hcap⟩
    unfold tcacheFreeSlow
    rcases hp : l.previous with _ | ⟨a, p⟩
    · refine ⟨hok, hsh, ?_⟩
      simp only [TcachePerthread.items, hp, ← Multiset.singleton_add, Multiset.coe_nil,
        ← Multiset.cons_coe, add_zero]
      abel
    · have hpl : (a :: p).length = s.toNat := by
        rcases hl.previous with h' | h'
        · simp [hp] at h'
        · rw [← hp, h', hl.capacity]
      refine ⟨hok, ?_, ?_⟩
      · intro m hm
        rcases List.mem_cons.1 hm with rfl | hm
        · exact hpl
        · exact hsh m hm
      · simp only [TcachePerthread.items, hp, List.flatten_cons, ← Multiset.coe_add,
          ← Multiset.cons_coe, ← Multiset.singleton_add, Multiset.coe_nil, add_zero]
        abel
  · -- room in `loaded`
    have hlt : l.rounds < l.capacity := by
      have := UInt32.le_iff_toNat_le.not.1 hfull
      exact UInt32.lt_iff_toNat_lt.2 (by omega)
    have hlt' := UInt32.lt_iff_toNat_lt.1 hlt
    refine ⟨⟨hl.capacity, ?_, ?_, hl.previous⟩, hsh, ?_⟩
    · exact UInt32.le_iff_toNat_le.2 (by dsimp only; rw [toNat_succ_of_lt hlt]; omega)
    · dsimp only
      rw [toNat_succ_of_lt hlt, List.length_cons, hl.loaded]
    · simp only [TcachePerthread.items, ← Multiset.cons_coe, ← Multiset.singleton_add]
      abel

end Handle

namespace Tcache

/-- What every cache reached by the calls satisfies: the shapes of the magazines, and each item
ever obtained from `ops->alloc` in exactly one place. -/
structure Inv (tc : Tcache α) : Prop where
  ltcs : ∀ l ∈ tc.ltcs, l.Ok tc.magSize
  sharedMags : ∀ m ∈ tc.sharedMags, m.length = tc.magSize.toNat
  got_nodup : tc.got.Nodup
  places : tc.places = tc.got
  /-- Items only come in full magazines. -/
  magSize_pos : tc.got ≠ [] → 0 < tc.magSize

theorem init_inv (s : UInt32) : (init s : Tcache α).Inv :=
  ⟨by simp [init], by simp [init], List.nodup_nil, by simp [init, places], by simp [init]⟩

theorem places_eq (tc : Tcache α) :
    tc.places = (tc.out : Multiset α) + tc.returned + tc.sharedMags.flatten +
      (tc.ltcs.map TcachePerthread.items).sum := by
  simp [places]

variable [DecidableEq α]

/-- The ghost places after `tcache_alloc`, with `M` the items `ops->alloc` gave, if any. -/
theorem obtain_coe (tc : Tcache α) (c : Bool) (m : List α) :
    ((if c then tc.obtain m else tc).returned : Multiset α) =
        tc.returned - (if c then (m : Multiset α) else 0) ∧
      ((if c then tc.obtain m else tc).got : Multiset α) =
        tc.got + ((if c then (m : Multiset α) else 0) - tc.got) := by
  cases c <;> simp [obtain, Multiset.coe_sub]

theorem obtain_got_nodup {tc : Tcache α} (hg : tc.got.Nodup) (c : Bool) {m : List α}
    (hm : m.Nodup) : (if c then tc.obtain m else tc).got.Nodup := by
  cases c
  · exact hg
  · refine List.nodup_append.2 ⟨hg, hm.sublist (List.diff_sublist _ _), ?_⟩
    intro x hx y hy hxy
    subst hxy
    exact ((List.Nodup.mem_sdiff_iff hm).1 hy).2 hx

end Tcache

section Steps

variable [DecidableEq α] {tc tc' : Tcache α}

theorem tcacheStep_alloc {h : Nat} {mag : Option (List α)}
    (hs : tcacheStep tc (.alloc h mag) = some tc') :
    ∃ hh : h < tc.ltcs.length, tc.MagOk mag ∧ ∃ r l' shared',
      tcacheAlloc tc.ltcs[h] tc.sharedMags mag = some (r, l', shared') ∧
      tc' = { (if tc.ltcs[h].needsMag tc.sharedMags then tc.obtain (mag.getD []) else tc) with
        ltcs := tc.ltcs.set h l', sharedMags := shared', out := r.toList ++ tc.out } := by
  simp only [tcacheStep] at hs
  by_cases hc : h < tc.ltcs.length ∧ tc.MagOk mag
  · rw [if_pos hc, List.getD_eq_getElem _ _ hc.1] at hs
    obtain ⟨⟨r, l', shared'⟩, hr, rfl⟩ := Option.map_eq_some_iff.1 hs
    exact ⟨hc.1, hc.2, r, l', shared', hr, rfl⟩
  · rw [if_neg hc] at hs
    cases hs

theorem obtain_magSize (c : Bool) (m : List α) :
    (if c then tc.obtain m else tc).magSize = tc.magSize := by
  cases c <;> rfl

/-- `tcache_alloc` keeps the invariant. -/
theorem Tcache.Inv.alloc (hi : tc.Inv) {h : Nat} {mag : Option (List α)}
    (hs : tcacheStep tc (.alloc h mag) = some tc') : tc'.Inv := by
  obtain ⟨hh, hmag, r, l', shared', hr, rfl⟩ := tcacheStep_alloc hs
  have hlen : ∀ m, mag = some m → m.length = tc.magSize.toNat := by
    rintro m rfl
    exact hmag.1
  obtain ⟨hl', hsh', hitems⟩ :=
    tcacheAlloc_spec (hi.ltcs _ (List.getElem_mem hh)) hi.sharedMags hlen hr
  -- `M` is what `ops->alloc` gave, if `tcache_alloc_mag` ran
  generalize hc : tc.ltcs[h].needsMag tc.sharedMags = c at hitems
  generalize hM : (if c then ((mag.getD [] : List α) : Multiset α) else 0) = M at hitems
  have hMnodup : M.Nodup := by
    subst hM
    cases c
    · exact Multiset.nodup_zero
    · rcases mag with _ | m
      · exact Multiset.nodup_zero
      · exact Multiset.coe_nodup.2 hmag.2.1
  have hMfresh : ∀ x ∈ M, x ∈ (tc.returned : Multiset α) ∨ x ∉ (tc.got : Multiset α) := by
    subst hM
    cases c
    · simp
    · rcases mag with _ | m
      · simp
      · simpa using hmag.2.2
  obtain ⟨hret, hgot⟩ := Tcache.obtain_coe tc c (mag.getD [])
  rw [hM] at hret hgot
  refine ⟨?_, ?_, Tcache.obtain_got_nodup hi.got_nodup c ?_, ?_, ?_⟩
  · intro l hl
    rw [obtain_magSize]
    rcases List.mem_or_eq_of_mem_set hl with hl | rfl
    · exact hi.ltcs l hl
    · exact hl'
  · rw [obtain_magSize]
    exact hsh'
  · rcases mag with _ | m
    · exact List.nodup_nil
    · exact hmag.2.1
  · -- items only moved, and those of a new magazine arrived
    have hQ : ((tc.out : Multiset α) + tc.sharedMags.flatten +
        (tc.ltcs.map TcachePerthread.items).sum) + tc.returned = tc.got := by
      rw [← hi.places, Tcache.places_eq]
      abel
    have key := add_sub_add_eq (hQ ▸ Multiset.coe_nodup.2 hi.got_nodup) hMnodup (hQ ▸ hMfresh)
    rw [hQ] at key
    have hsum := sum_map_set_add TcachePerthread.items hh l'
    rw [Tcache.places_eq]
    dsimp only
    rw [hret, hgot, ← key]
    apply add_right_cancel (b := tc.ltcs[h].items)
    simp only [← Multiset.coe_add]
    -- what is left of `returned` does not move
    generalize (tc.returned : Multiset α) - M = D
    calc _ = ↑r.toList + ↑tc.out + D + ↑shared'.flatten +
          (((tc.ltcs.set h l').map TcachePerthread.items).sum + tc.ltcs[h].items) := by abel
      _ = ↑tc.out + D + (tc.ltcs.map TcachePerthread.items).sum +
          (↑r.toList + l'.items + ↑shared'.flatten) := by rw [hsum]; abel
      _ = _ := by rw [← hitems]; abel
  · rw [obtain_magSize]
    intro hne
    by_cases hg : tc.got = []
    · -- the first items arrive in a new magazine of `mag_size` items
      cases c
      · exact absurd hg (by simpa using hne)
      · rcases mag with _ | m
        · simp [Tcache.obtain, hg] at hne
        · have hm : m ≠ [] := by simpa [Tcache.obtain, hg] using hne
          have h1 : 0 < m.length := List.length_pos_iff.2 hm
          rw [hmag.1] at h1
          exact UInt32.lt_iff_toNat_lt.2 (by simpa using h1)
    · exact hi.magSize_pos hg

theorem tcacheStep_free {h : Nat} {x : α} (hs : tcacheStep tc (.free h x) = some tc') :
    ∃ hh : h < tc.ltcs.length, x ∈ tc.out ∧
      tc' = { tc with
        ltcs := tc.ltcs.set h (tcacheFree tc.ltcs[h] tc.sharedMags x).1
        sharedMags := (tcacheFree tc.ltcs[h] tc.sharedMags x).2, out := tc.out.erase x } := by
  simp only [tcacheStep] at hs
  by_cases hc : h < tc.ltcs.length ∧ x ∈ tc.out
  · rw [if_pos hc, List.getD_eq_getElem _ _ hc.1] at hs
    exact ⟨hc.1, hc.2, (Option.some.inj hs).symm⟩
  · rw [if_neg hc] at hs
    cases hs

omit [DecidableEq α] in
theorem Tcache.Inv.mem_got (hi : tc.Inv) {x : α} (hx : x ∈ tc.out) : x ∈ tc.got := by
  have : x ∈ tc.places := by
    rw [Tcache.places_eq]
    simp [hx]
  rw [hi.places] at this
  exact Multiset.mem_coe.1 this

omit [DecidableEq α] in
theorem Tcache.Inv.out_nodup (hi : tc.Inv) : tc.out.Nodup := by
  have hle : (tc.out : Multiset α) ≤ tc.places := by
    rw [Tcache.places_eq, add_assoc, add_assoc]
    exact Multiset.le_add_right _ _
  rw [hi.places] at hle
  exact Multiset.coe_nodup.1 (Multiset.nodup_of_le hle (Multiset.coe_nodup.2 hi.got_nodup))

/-- `tcache_free` keeps the invariant. -/
theorem Tcache.Inv.free (hi : tc.Inv) {h : Nat} {x : α}
    (hs : tcacheStep tc (.free h x) = some tc') : tc'.Inv := by
  obtain ⟨hh, hx, rfl⟩ := tcacheStep_free hs
  -- the item came out of a magazine, so magazines are not empty
  have hpos : 0 < tc.magSize := hi.magSize_pos (List.ne_nil_of_mem (hi.mem_got hx))
  obtain ⟨hl', hsh', hitems⟩ :=
    tcacheFree_spec (hi.ltcs _ (List.getElem_mem hh)) hpos hi.sharedMags x
  have hsum := sum_map_set_add TcachePerthread.items hh (tcacheFree tc.ltcs[h] tc.sharedMags x).1
  refine ⟨?_, hsh', hi.got_nodup, ?_, hi.magSize_pos⟩
  · intro l hl
    rcases List.mem_or_eq_of_mem_set hl with hl | rfl
    · exact hi.ltcs l hl
    · exact hl'
  · -- the item moved from the caller into the handle
    have hout : ((tc.out.erase x : List α) : Multiset α) + {x} = tc.out := by
      rw [← Multiset.coe_erase, add_comm, Multiset.singleton_add,
        Multiset.cons_erase (Multiset.mem_coe.2 hx)]
    rw [← hi.places, Tcache.places_eq, Tcache.places_eq]
    dsimp only
    apply add_right_cancel (b := tc.ltcs[h].items + {x})
    calc _ = (((tc.out.erase x : List α) : Multiset α) + {x}) + tc.returned +
          (tcacheFree tc.ltcs[h] tc.sharedMags x).2.flatten +
          (((tc.ltcs.set h (tcacheFree tc.ltcs[h] tc.sharedMags x).1).map
            TcachePerthread.items).sum + tc.ltcs[h].items) := by abel
      _ = tc.out + tc.returned + (tc.ltcs.map TcachePerthread.items).sum +
          ((tcacheFree tc.ltcs[h] tc.sharedMags x).1.items +
            (tcacheFree tc.ltcs[h] tc.sharedMags x).2.flatten) := by rw [hout, hsum]; abel
      _ = _ := by rw [← hitems]; abel

/-- Each call on the cache keeps the invariant. -/
theorem tcacheStep_invariant : StepRun.Invariant (tcacheStep (α := α)) Tcache.Inv := by
  intro tc op tc' hi hs
  cases op with
  | initPerthread =>
    obtain rfl := (Option.some.inj hs).symm
    refine ⟨?_, hi.sharedMags, hi.got_nodup, ?_, hi.magSize_pos⟩
    · intro l hl
      rcases List.mem_append.1 hl with hl | hl
      · exact hi.ltcs l hl
      · rw [List.mem_singleton.1 hl]
        exact .init _
    · rw [← hi.places, Tcache.places_eq, Tcache.places_eq]
      simp [TcachePerthread.items, TcachePerthread.init]
  | alloc h mag => exact hi.alloc hs
  | free h x => exact hi.free hs
  | reclaim =>
    obtain rfl := (Option.some.inj hs).symm
    refine ⟨hi.ltcs, by simp [Tcache.reclaim], hi.got_nodup, ?_, hi.magSize_pos⟩
    show tc.reclaim.places = tc.got
    rw [← hi.places]
    simp [Tcache.places, Tcache.reclaim]

theorem tcacheStep_magSize {op : TcacheOp α} (hs : tcacheStep tc op = some tc') :
    tc'.magSize = tc.magSize := by
  cases op with
  | alloc h mag =>
    obtain ⟨-, -, -, -, -, -, rfl⟩ := tcacheStep_alloc hs
    exact obtain_magSize _ _
  | free h x =>
    obtain ⟨-, -, rfl⟩ := tcacheStep_free hs
    rfl
  | _ =>
    obtain rfl := (Option.some.inj hs).symm
    rfl

/-- `tcache_alloc` hands out no item that is already out. -/
theorem Tcache.Inv.alloc_out (hi : tc.Inv) {h : Nat} {mag : Option (List α)}
    (hs : tcacheStep tc (.alloc h mag) = some tc') :
    tc'.out = tc.out ∨ ∃ x, x ∉ tc.out ∧ tc'.out = x :: tc.out := by
  have hnd := (hi.alloc hs).out_nodup
  obtain ⟨hh, -, r, l', sh', -, rfl⟩ := tcacheStep_alloc hs
  rcases r with _ | x
  · exact .inl rfl
  · exact .inr ⟨x, (List.nodup_cons.1 hnd).1, rfl⟩

end Steps

/-- Along any calls on a cache, each handle's `loaded` holds `rounds` items and its `previous`
is `NULL` or a full magazine, every shared magazine is full, every item obtained from `ops->alloc`
is in exactly one place (handed out, in a handle, in the pool, or given back to `ops->free`), and
`tcache_alloc` never hands out an item that is out. -/
theorem tcacheRun_ok [DecidableEq α] {tc : Tcache α} (magSize : UInt32) (ops : List (TcacheOp α))
    (hrun : StepRun.run tcacheStep (Tcache.init magSize) ops = some tc) :
    (∀ l ∈ tc.ltcs, l.loaded.length = l.rounds.toNat ∧
      (l.previous = [] ∨ l.previous.length = l.capacity.toNat) ∧ l.capacity = magSize) ∧
    (∀ m ∈ tc.sharedMags, m.length = magSize.toNat) ∧
    (∀ x ∈ tc.got, tc.places.count x = 1) ∧ (∀ x ∈ tc.places, x ∈ tc.got) ∧
    (∀ h mag tc', tcacheStep tc (.alloc h mag) = some tc' →
      tc'.out = tc.out ∨ ∃ x, x ∉ tc.out ∧ tc'.out = x :: tc.out) := by
  have hi := tcacheStep_invariant.run (Tcache.init_inv magSize) hrun
  have hs : tc.magSize = magSize :=
    StepRun.Invariant.run (I := fun t : Tcache α => t.magSize = magSize)
      (fun _ _ _ ht hst => (tcacheStep_magSize hst).trans ht) rfl hrun
  have hnd : (tc.got : Multiset α).Nodup := Multiset.coe_nodup.2 hi.got_nodup
  refine ⟨fun l hl => ?_, hs ▸ hi.sharedMags, fun x hx => ?_, fun x hx => ?_,
    fun h mag tc' hst => hi.alloc_out hst⟩
  · have hok := hi.ltcs l hl
    exact ⟨hok.loaded, hok.previous, hok.capacity.trans hs⟩
  · rw [hi.places]
    exact Multiset.count_eq_one_of_mem hnd (Multiset.mem_coe.2 hx)
  · rw [hi.places] at hx
    exact Multiset.mem_coe.1 hx

theorem tcacheRun_ok_two : ∃ tc : Tcache Nat,
    StepRun.run tcacheStep (Tcache.init 2)
      [.initPerthread, .alloc 0 (some [1, 2]), .alloc 0 none, .free 0 1, .free 0 2, .reclaim] =
        some tc ∧
    ((∀ l ∈ tc.ltcs, l.loaded.length = l.rounds.toNat ∧
      (l.previous = [] ∨ l.previous.length = l.capacity.toNat) ∧ l.capacity = 2) ∧
    (∀ m ∈ tc.sharedMags, m.length = (2 : UInt32).toNat) ∧
    (∀ x ∈ tc.got, tc.places.count x = 1) ∧ (∀ x ∈ tc.places, x ∈ tc.got) ∧
    (∀ h mag tc', tcacheStep tc (.alloc h mag) = some tc' →
      tc'.out = tc.out ∨ ∃ x, x ∉ tc.out ∧ tc'.out = x :: tc.out)) :=
  ⟨_, rfl, tcacheRun_ok 2
    [.initPerthread, .alloc 0 (some [1, 2]), .alloc 0 none, .free 0 1, .free 0 2, .reclaim] rfl⟩

end Caladan
