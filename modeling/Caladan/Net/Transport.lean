import Mathlib
import Caladan.Lib.Run

/-!
# The transport demultiplexing table (`runtime/net/transport.c`)

`trans_tbl` is a hash table of `TRANS_TBL_SIZE` buckets, each a list with the entry added last
first. An entry matches a 3-tuple (protocol and local address) or a 5-tuple (with the remote
address too) and sits in the bucket its key hashes to. The hash is CRC32C under the seed
`trans_seed`; the model takes the seed and the CRC step as parameters (`TransHash`), so what is
proved here holds for every seed, and for every hash function as well.

`trans_table_add` looks for a conflicting entry in one bucket only. Equal keys hash to one bucket,
so that keeps the keys unique over the whole table (`TransTable.Ok`), and `trans_lookup` finds the
entry of a key in that bucket (`TransTable.Ok.find?_eq_some`).

`trans_error` also looks its mbuf up with `trans_lookup`, for the errors `net_error` reports on
egress packets. That lookup reads the IP header at `network_off`, which only the receive path sets;
on a transmit buffer it still holds what the memory held, and the bytes there lie below every
header the egress path pushes, so the lookup finds no entry (`netError_txMbuf`).
-/

namespace Caladan

/-- `TRANS_TBL_SIZE` -/
def transTblSize : Nat := 16384
/-- `MIN_EPHEMERAL` -/
def minEphemeral : Nat := 49152
/-- `MAX_EPHEMERAL` -/
def maxEphemeral : Nat := 65535
/-- `num_ephemeral` -/
def numEphemeral : Nat := maxEphemeral - minEphemeral + 1

def einval : Int := 22
def eaddrinuse : Int := 98
def eaddrnotavail : Int := 99

/-- `IPPROTO_TCP` -/
def ipprotoTcp : UInt8 := 6
/-- `IPPROTO_UDP` -/
def ipprotoUdp : UInt8 := 17

/-- `struct netaddr` -/
@[ext] structure Netaddr where
  ip : UInt32
  port : UInt16
deriving DecidableEq, Repr

/-- `TRANS_MATCH_3TUPLE` and `TRANS_MATCH_5TUPLE` -/
inductive TransMatch
  | tuple3
  | tuple5
deriving DecidableEq, Repr

/-- The fields of `struct trans_entry` the table reads; `kind` is its `match`. -/
structure TransEntry where
  kind : TransMatch
  proto : UInt8
  laddr : Netaddr
  raddr : Netaddr
deriving DecidableEq, Repr

/-- The hash of the table: the seed `trans_seed` and the CRC32C step `__mm_crc32_u64`. -/
structure TransHash where
  seed : UInt32
  crc32cU64 : UInt32 → UInt64 → UInt32

/-- `hash_crc32c_one` -/
def TransHash.one (H : TransHash) (val : UInt64) : UInt32 := H.crc32cU64 H.seed val

/-- `hash_crc32c_two` -/
def TransHash.two (H : TransHash) (a b : UInt64) : UInt32 := H.crc32cU64 (H.crc32cU64 H.seed a) b

/-- `trans_hash_3tuple` -/
def transHash3tuple (H : TransHash) (proto : UInt8) (laddr : Netaddr) : UInt32 :=
  H.one (laddr.ip.toUInt64 ||| (laddr.port.toUInt64 <<< 32) ||| (proto.toUInt64 <<< 48))

/-- `trans_hash_5tuple` -/
def transHash5tuple (H : TransHash) (proto : UInt8) (laddr raddr : Netaddr) : UInt32 :=
  H.two (laddr.ip.toUInt64 ||| (laddr.port.toUInt64 <<< 32))
    (raddr.ip.toUInt64 ||| (raddr.port.toUInt64 <<< 32) ||| (proto.toUInt64 <<< 48))

/-- The hash of an entry, by its kind. -/
def TransEntry.hash (H : TransHash) (e : TransEntry) : UInt32 :=
  match e.kind with
  | .tuple3 => transHash3tuple H e.proto e.laddr
  | .tuple5 => transHash5tuple H e.proto e.laddr e.raddr

/-- The bucket of an entry. -/
def TransEntry.idx (H : TransHash) (e : TransEntry) : Nat := (e.hash H).toNat % transTblSize

/-- `trans_tbl`, bucket by bucket, with `ephemeral_offset`. -/
structure TransTable where
  tbl : Nat → List TransEntry
  ephemeralOffset : UInt32

/-- The table after `trans_init`. -/
def TransTable.init : TransTable := ⟨fun _ => [], 0⟩

/-- The test of the loop of `trans_table_add` on the entry `pos` of the bucket. -/
def transConflict (e pos : TransEntry) : Bool :=
  if pos.kind != e.kind then false
  else if e.kind == .tuple3 && e.proto == pos.proto && e.laddr.ip == pos.laddr.ip &&
      e.laddr.port == pos.laddr.port then true
  else e.proto == pos.proto && e.laddr.ip == pos.laddr.ip && e.laddr.port == pos.laddr.port &&
    e.raddr.ip == pos.raddr.ip && e.raddr.port == pos.raddr.port

/-- `trans_table_add` -/
def transTableAdd (H : TransHash) (t : TransTable) (e : TransEntry) : Int × TransTable :=
  if e.laddr.port = 0 then (-einval, t)
  else
    let idx := e.idx H
    if (t.tbl idx).any (transConflict e) then (-eaddrinuse, t)
    else (0, ⟨Function.update t.tbl idx (e :: t.tbl idx), t.ephemeralOffset + 1⟩)

/-- The entry with its local port set (`e->laddr.port = port`). -/
def TransEntry.setPort (e : TransEntry) (port : UInt16) : TransEntry :=
  { e with laddr := ⟨e.laddr.ip, port⟩ }

@[simp] theorem TransEntry.setPort_setPort (e : TransEntry) (p q : UInt16) :
    (e.setPort p).setPort q = e.setPort q :=
  rfl

/-- The port the search of `trans_table_add_with_ephemeral_port` tries at `next_ephemeral = n`. -/
def transEphemeralPort (offset : UInt16) (n : Nat) : UInt16 :=
  UInt16.ofNat (minEphemeral + (n + offset.toNat) % numEphemeral)

/-- The ports the search tries, in order: `offset` is the entry's hash (with port zero) plus
`ephemeral_offset`, cut to 16 bits. -/
def transEphemeralPorts (H : TransHash) (t : TransTable) (e : TransEntry) : List UInt16 :=
  let offset : UInt16 := ((e.setPort 0).hash H + t.ephemeralOffset).toUInt16
  (List.range numEphemeral).map (transEphemeralPort offset)

/-- The search loop over the ports still to try: the result, the entry with the port it was left
with, and the table. -/
def transEphemeralLoop (H : TransHash) :
    TransEntry → TransTable → List UInt16 → Int × TransEntry × TransTable
  | e, t, [] => (-eaddrnotavail, e, t)
  | e, t, port :: ports =>
    let e := e.setPort port
    let (ret, t) := transTableAdd H t e
    if ret = 0 then (0, e, t) else transEphemeralLoop H e t ports

theorem transEphemeralLoop_cons (H : TransHash) (e : TransEntry) (t : TransTable) (port : UInt16)
    (ports : List UInt16) :
    transEphemeralLoop H e t (port :: ports) =
      if (transTableAdd H t (e.setPort port)).1 = 0 then
        (0, e.setPort port, (transTableAdd H t (e.setPort port)).2)
      else transEphemeralLoop H (e.setPort port)
        (transTableAdd H t (e.setPort port)).2 ports :=
  rfl

/-- `trans_table_add_with_ephemeral_port` -/
def transTableAddWithEphemeralPort (H : TransHash) (t : TransTable) (e : TransEntry) :
    Int × TransEntry × TransTable :=
  transEphemeralLoop H (e.setPort 0) t (transEphemeralPorts H t e)

/-- `trans_table_remove`: the entry leaves its bucket. -/
def transTableRemove (H : TransHash) (t : TransTable) (e : TransEntry) : TransTable :=
  { t with tbl := Function.update t.tbl (e.idx H) ((t.tbl (e.idx H)).erase e) }

/-- An ingress packet as `trans_lookup` reads it: the IP protocol and addresses, and the bytes
from the transport header on. -/
structure TransPkt where
  proto : UInt8
  saddr : UInt32
  daddr : UInt32
  l4 : List UInt8
deriving DecidableEq, Repr

/-- The source and destination ports of `struct l4_hdr`, when the packet holds one. -/
def transL4Ports : List UInt8 → Option (UInt16 × UInt16)
  | s1 :: s0 :: d1 :: d0 :: _ =>
    some (s1.toUInt16 * 256 + s0.toUInt16, d1.toUInt16 * 256 + d0.toUInt16)
  | _ => none

/-- The test of the 5-tuple loop of `trans_lookup`. -/
def transMatch5 (proto : UInt8) (laddr raddr : Netaddr) (e : TransEntry) : Bool :=
  e.kind == .tuple5 && e.proto == proto && e.laddr == laddr && e.raddr == raddr

/-- The test of the 3-tuple loop of `trans_lookup`. -/
def transMatch3 (proto : UInt8) (laddr : Netaddr) (e : TransEntry) : Bool :=
  e.kind == .tuple3 && e.proto == proto && e.laddr == laddr

/-- `trans_lookup` -/
def transLookup (H : TransHash) (t : TransTable) (p : TransPkt) : Option TransEntry :=
  if p.proto ≠ ipprotoUdp ∧ p.proto ≠ ipprotoTcp then none
  else match transL4Ports p.l4 with
    | none => none
    | some (sport, dport) =>
      let laddr : Netaddr := ⟨p.daddr, dport⟩
      let raddr : Netaddr := ⟨p.saddr, sport⟩
      match (t.tbl ((transHash5tuple H p.proto laddr raddr).toNat % transTblSize)).find?
          (transMatch5 p.proto laddr raddr) with
      | some e => some e
      | none => (t.tbl ((transHash3tuple H p.proto laddr).toNat % transTblSize)).find?
          (transMatch3 p.proto laddr)

/-- The calls on the table. -/
inductive TransOp
  | add (e : TransEntry)
  | addWithEphemeralPort (e : TransEntry)
  | remove (e : TransEntry)
deriving DecidableEq, Repr

/-- A call, each taken under `trans_lock`. -/
def transStep (H : TransHash) (t : TransTable) : TransOp → Option TransTable
  | .add e => some (transTableAdd H t e).2
  | .addWithEphemeralPort e => some (transTableAddWithEphemeralPort H t e).2.2
  | .remove e => some (transTableRemove H t e)

/-! ## Keys -/

/-- Two entries of one kind with one key: protocol and local address, and for a 5-tuple the
remote address. -/
def TransEntry.SameKey (a b : TransEntry) : Prop :=
  a.kind = b.kind ∧ a.proto = b.proto ∧ a.laddr = b.laddr ∧ (a.kind = .tuple5 → a.raddr = b.raddr)

/-- `e` is in some bucket of the table. -/
def TransTable.Mem (t : TransTable) (e : TransEntry) : Prop := ∃ i, e ∈ t.tbl i

/-- Each entry sits in the bucket of its hash, and no bucket holds two entries with one key. -/
structure TransTable.Ok (H : TransHash) (t : TransTable) : Prop where
  placed : ∀ i, ∀ e ∈ t.tbl i, e.idx H = i
  unique : ∀ i, (t.tbl i).Pairwise fun a b => ¬a.SameKey b

section
variable {H : TransHash} {a b c e pos : TransEntry}

theorem TransEntry.SameKey.refl (a : TransEntry) : a.SameKey a := ⟨rfl, rfl, rfl, fun _ => rfl⟩

theorem TransEntry.SameKey.symm (h : a.SameKey b) : b.SameKey a :=
  ⟨h.1.symm, h.2.1.symm, h.2.2.1.symm, fun hk => (h.2.2.2 (h.1.trans hk)).symm⟩

theorem TransEntry.SameKey.trans (h₁ : a.SameKey b) (h₂ : b.SameKey c) : a.SameKey c :=
  ⟨h₁.1.trans h₂.1, h₁.2.1.trans h₂.2.1, h₁.2.2.1.trans h₂.2.2.1,
    fun hk => (h₁.2.2.2 hk).trans (h₂.2.2.2 (h₁.1.symm.trans hk))⟩

/-- Entries with one key hash to one bucket. -/
theorem TransEntry.SameKey.idx_eq (h : a.SameKey b) : a.idx H = b.idx H := by
  obtain ⟨hk, hp, hl, hr⟩ := h
  unfold TransEntry.idx TransEntry.hash
  cases ha : a.kind
  · rw [← hk, ha]; simp only [hp, hl]
  · rw [← hk, ha]; simp only [hp, hl, hr ha]

theorem transConflict_iff : transConflict e pos = true ↔ pos.SameKey e := by
  obtain ⟨k, p, ⟨li, lp⟩, ⟨ri, rp⟩⟩ := e
  obtain ⟨k', p', ⟨li', lp'⟩, ⟨ri', rp'⟩⟩ := pos
  -- the four pairs of kinds; fields compared one by one against `Netaddr` equality
  cases k <;> cases k' <;>
    simp only [transConflict, TransEntry.SameKey, Netaddr.mk.injEq, bne_iff_ne, ne_eq, beq_iff_eq,
      Bool.and_eq_true, reduceCtorEq, not_false_eq_true, not_true_eq_false, if_true, if_false,
      true_and, false_and, and_true, false_implies, Bool.false_eq_true] <;>
    grind

end

/-! ## The invariant -/

section
variable {H : TransHash} {t : TransTable} {e : TransEntry}

theorem TransTable.init_ok (H : TransHash) : TransTable.init.Ok H :=
  ⟨fun _ _ he => absurd he List.not_mem_nil, fun _ => .nil⟩

/-- Within a bucket, entries with one key are one entry. -/
theorem TransTable.Ok.eq_of_sameKey (ht : t.Ok H) {i : Nat} {a b : TransEntry} (ha : a ∈ t.tbl i)
    (hb : b ∈ t.tbl i) (h : a.SameKey b) : a = b := by
  have : Std.Symm fun x y : TransEntry => ¬x.SameKey y := ⟨fun _ _ h h' => h h'.symm⟩
  by_contra hne
  exact (ht.unique i).forall ha hb hne h

/-- An entry with the key of `q` is in the table exactly when one is in `q`'s bucket. -/
theorem TransTable.Ok.mem_sameKey (ht : t.Ok H) {q a : TransEntry} (h : a.SameKey q) :
    t.Mem a ↔ a ∈ t.tbl (q.idx H) := by
  refine ⟨fun ⟨i, hi⟩ => ?_, fun hi => ⟨_, hi⟩⟩
  rwa [← h.idx_eq, ht.placed i a hi]

/-- `trans_table_add` finds a conflict in the bucket exactly when the table holds the key. -/
theorem TransTable.Ok.any_conflict_iff (ht : t.Ok H) :
    (t.tbl (e.idx H)).any (transConflict e) = true ↔ ∃ pos, t.Mem pos ∧ pos.SameKey e := by
  rw [List.any_eq_true]
  constructor
  · rintro ⟨pos, hpos, hc⟩
    exact ⟨pos, ⟨_, hpos⟩, transConflict_iff.mp hc⟩
  · rintro ⟨pos, hmem, hk⟩
    exact ⟨pos, (ht.mem_sameKey hk).mp hmem, transConflict_iff.mpr hk⟩

theorem TransTable.Ok.insert (ht : t.Ok H) (hk : ¬∃ pos, t.Mem pos ∧ pos.SameKey e) (off : UInt32) :
    TransTable.Ok H ⟨Function.update t.tbl (e.idx H) (e :: t.tbl (e.idx H)), off⟩ := by
  constructor
  · intro i x hx
    simp only [Function.update_apply] at hx
    split_ifs at hx with hi
    · rcases List.mem_cons.mp hx with rfl | hx
      · exact hi.symm
      · exact ht.placed _ x hx ▸ hi.symm ▸ rfl
    · exact ht.placed i x hx
  · intro i
    simp only [Function.update_apply]
    split_ifs with hi
    · refine List.pairwise_cons.mpr ⟨fun pos hpos hke => hk ⟨pos, ⟨_, hpos⟩, hke.symm⟩, ht.unique _⟩
    · exact ht.unique i

/-- What `trans_table_add` does on a table that keeps its invariant, for a nonzero local port:
`-EADDRINUSE` leaving the table as it was when the key is taken, otherwise `0` with the entry
added at the head of its bucket. -/
theorem TransTable.Ok.add_spec (ht : t.Ok H) (hp : e.laddr.port ≠ 0) :
    ((∃ pos, t.Mem pos ∧ pos.SameKey e) ∧ transTableAdd H t e = (-eaddrinuse, t)) ∨
      ((¬∃ pos, t.Mem pos ∧ pos.SameKey e) ∧ transTableAdd H t e =
        (0, ⟨Function.update t.tbl (e.idx H) (e :: t.tbl (e.idx H)), t.ephemeralOffset + 1⟩)) := by
  unfold transTableAdd
  rw [if_neg hp]
  by_cases hc : (t.tbl (e.idx H)).any (transConflict e) = true
  · exact .inl ⟨ht.any_conflict_iff.mp hc, by simp only [hc, if_true]⟩
  · exact .inr ⟨fun h => hc (ht.any_conflict_iff.mpr h), by simp only [hc, Bool.false_eq_true, if_false]⟩

/-- The entries of the table after the insertion `trans_table_add` makes. -/
theorem TransTable.mem_insert_iff {x : TransEntry} (off : UInt32) :
    TransTable.Mem ⟨Function.update t.tbl (e.idx H) (e :: t.tbl (e.idx H)), off⟩ x ↔ x = e ∨ t.Mem x := by
  constructor
  · rintro ⟨i, hi⟩
    simp only [Function.update_apply] at hi
    split_ifs at hi with h
    · exact (List.mem_cons.mp hi).imp id fun hx => ⟨_, hx⟩
    · exact .inr ⟨i, hi⟩
  · rintro (rfl | ⟨i, hi⟩)
    · exact ⟨x.idx H, by simp⟩
    · by_cases h : i = e.idx H
      · exact ⟨i, by simp [h, List.mem_cons_of_mem _ (h ▸ hi)]⟩
      · exact ⟨i, by simp [Function.update_of_ne h, hi]⟩

/-- A call that does not return `0` leaves the table as it was. -/
theorem transTableAdd_of_ne_zero (h : (transTableAdd H t e).1 ≠ 0) : (transTableAdd H t e).2 = t := by
  unfold transTableAdd at h ⊢
  dsimp only at h ⊢
  split_ifs at h ⊢
  · rfl
  · rfl
  · exact absurd rfl h

theorem TransTable.Ok.add (ht : t.Ok H) : (transTableAdd H t e).2.Ok H := by
  by_cases hp : e.laddr.port = 0
  · simpa [transTableAdd, hp] using ht
  rcases ht.add_spec hp with ⟨-, h⟩ | ⟨hk, h⟩ <;> rw [h]
  · exact ht
  · exact ht.insert hk _

theorem TransTable.Ok.remove (ht : t.Ok H) : (transTableRemove H t e).Ok H := by
  constructor
  · intro i x hx
    simp only [transTableRemove, Function.update_apply] at hx
    split_ifs at hx with hi
    · exact hi ▸ ht.placed _ x (List.mem_of_mem_erase hx)
    · exact ht.placed i x hx
  · intro i
    simp only [transTableRemove, Function.update_apply]
    split_ifs
    · exact (ht.unique _).sublist List.erase_sublist
    · exact ht.unique i

theorem TransTable.Ok.ephemeralLoop :
    ∀ {e : TransEntry} {t : TransTable} (ports : List UInt16), t.Ok H →
      (transEphemeralLoop H e t ports).2.2.Ok H
  | _, _, [], ht => ht
  | e, t, port :: ports, ht => by
    have hadd := ht.add (e := e.setPort port)
    simp only [transEphemeralLoop]
    split_ifs
    · exact hadd
    · exact TransTable.Ok.ephemeralLoop ports hadd

theorem TransTable.Ok.addWithEphemeralPort (ht : t.Ok H) :
    (transTableAddWithEphemeralPort H t e).2.2.Ok H := by
  unfold transTableAddWithEphemeralPort
  exact ht.ephemeralLoop _

theorem transStep_ok (H : TransHash) : StepRun.Invariant (transStep H) (TransTable.Ok H) := by
  intro t op t' ht h
  cases op with
  | add e =>
    simp only [transStep, Option.some.injEq] at h
    subst h
    exact ht.add
  | addWithEphemeralPort e =>
    simp only [transStep, Option.some.injEq] at h
    subst h
    exact ht.addWithEphemeralPort
  | remove e =>
    simp only [transStep, Option.some.injEq] at h
    subst h
    exact ht.remove

end

/-! ## The ephemeral port search -/

/-- The search tries every port of `[MIN_EPHEMERAL, MAX_EPHEMERAL]` once. -/
theorem transEphemeralPorts_perm (H : TransHash) (t : TransTable) (e : TransEntry) :
    ((transEphemeralPorts H t e).map UInt16.toNat).Perm (List.range' minEphemeral numEphemeral) := by
  set o := ((e.setPort 0).hash H + t.ephemeralOffset).toUInt16.toNat
  -- every port is below 2^16, so the cut to 16 bits in the loop changes nothing
  have hmap : (transEphemeralPorts H t e).map UInt16.toNat =
      (List.range numEphemeral).map fun n => minEphemeral + (n + o) % numEphemeral := by
    simp only [transEphemeralPorts, List.map_map]
    refine List.map_congr_left fun n _ => ?_
    simp only [Function.comp_apply, transEphemeralPort, minEphemeral, numEphemeral, maxEphemeral]
    exact UInt16.toNat_ofNat_of_lt' (by rw [UInt16.size]; omega)
  rw [hmap]
  have hnd : ((List.range numEphemeral).map fun n => minEphemeral + (n + o) % numEphemeral).Nodup := by
    refine (List.nodup_range).map_on fun n hn m hm h => ?_
    simp only [List.mem_range, numEphemeral, maxEphemeral, minEphemeral] at hn hm h ⊢
    omega
  refine (List.perm_ext_iff_of_nodup hnd List.nodup_range').mpr fun x => ?_
  simp only [List.mem_map, List.mem_range, List.mem_range'_1, numEphemeral, maxEphemeral, minEphemeral]
  constructor
  · rintro ⟨n, hn, rfl⟩
    omega
  · intro hx
    -- the step that lands on port x
    exact ⟨(x - 49152 + 16384 - o % 16384) % 16384, by omega, by omega⟩

/-- A search that does not return `0` returns `-EADDRNOTAVAIL` and leaves the table as it was. -/
theorem transEphemeralLoop_of_ne_zero {H : TransHash} :
    ∀ {e : TransEntry} {t : TransTable} (ports : List UInt16), (transEphemeralLoop H e t ports).1 ≠ 0 →
      (transEphemeralLoop H e t ports).1 = -eaddrnotavail ∧ (transEphemeralLoop H e t ports).2.2 = t
  | _, _, [], _ => ⟨rfl, rfl⟩
  | e, t, port :: ports, h => by
    rw [transEphemeralLoop_cons] at h ⊢
    split_ifs at h ⊢ with hr
    · exact absurd rfl h
    · -- the failed add left the table as it was
      rw [transTableAdd_of_ne_zero hr] at h ⊢
      exact transEphemeralLoop_of_ne_zero ports h

/-- A search that returns `0` added the entry with one of its ports to the table it started
from. -/
theorem transEphemeralLoop_of_eq_zero {H : TransHash} :
    ∀ {e : TransEntry} {t : TransTable} (ports : List UInt16), (transEphemeralLoop H e t ports).1 = 0 →
      ∃ port ∈ ports, (transEphemeralLoop H e t ports).2.1 = e.setPort port ∧
        transTableAdd H t (e.setPort port) = (0, (transEphemeralLoop H e t ports).2.2)
  | _, _, [], h => absurd h (by simp [transEphemeralLoop, eaddrnotavail])
  | e, t, port :: ports, h => by
    rw [transEphemeralLoop_cons] at h ⊢
    split_ifs at h ⊢ with hr
    · exact ⟨port, List.mem_cons_self, rfl, Prod.ext hr rfl⟩
    · rw [transTableAdd_of_ne_zero hr] at h ⊢
      obtain ⟨q, hq, he, hadd⟩ := transEphemeralLoop_of_eq_zero ports h
      exact ⟨q, List.mem_cons_of_mem _ hq, he, hadd⟩

section
variable {H : TransHash} {t : TransTable} {e : TransEntry}

/-- For a nonzero port, `trans_table_add` returns `0` exactly when the key is free. -/
theorem TransTable.Ok.add_fst_eq_zero_iff (ht : t.Ok H) (hp : e.laddr.port ≠ 0) :
    (transTableAdd H t e).1 = 0 ↔ ¬∃ pos, t.Mem pos ∧ pos.SameKey e := by
  rcases ht.add_spec hp with ⟨hk, h⟩ | ⟨hk, h⟩ <;> rw [h]
  · exact iff_of_false (by simp [eaddrinuse]) (not_not.mpr hk)
  · exact iff_of_true rfl hk

/-- On a table that keeps its invariant, the search over nonzero ports returns `-EADDRNOTAVAIL`
exactly when the key is taken with every one of them. -/
theorem TransTable.Ok.ephemeralLoop_fst_iff (ht : t.Ok H) :
    ∀ {e : TransEntry} (ports : List UInt16), (∀ port ∈ ports, port ≠ 0) →
      ((transEphemeralLoop H e t ports).1 = -eaddrnotavail ↔
        ∀ port ∈ ports, ∃ pos, t.Mem pos ∧ pos.SameKey (e.setPort port))
  | _, [], _ => iff_of_true rfl fun _ h => absurd h List.not_mem_nil
  | e, port :: ports, hz => by
    have hp : port ≠ 0 := hz port List.mem_cons_self
    have hz' : ∀ q ∈ ports, q ≠ 0 := fun q hq => hz q (List.mem_cons_of_mem _ hq)
    rw [transEphemeralLoop_cons, List.forall_mem_cons]
    split_ifs with hr
    · -- the key is free with this port: the search stops here with `0`
      exact iff_of_false (by simp [eaddrnotavail]) fun h => (ht.add_fst_eq_zero_iff hp).mp hr h.1
    · have htaken : ∃ pos, t.Mem pos ∧ pos.SameKey (e.setPort port) := by
        by_contra hfree
        exact hr ((ht.add_fst_eq_zero_iff hp).mpr hfree)
      rw [transTableAdd_of_ne_zero hr, ht.ephemeralLoop_fst_iff ports hz']
      exact ⟨fun h => ⟨htaken, h⟩, fun h => h.2⟩

/-- The ports the search tries are those of `[MIN_EPHEMERAL, MAX_EPHEMERAL]`. -/
theorem mem_transEphemeralPorts {port : UInt16} (h : port ∈ transEphemeralPorts H t e) :
    minEphemeral ≤ port.toNat ∧ port.toNat ≤ maxEphemeral := by
  have hmem := (transEphemeralPorts_perm H t e).mem_iff.mp (List.mem_map_of_mem h)
  simp only [List.mem_range'_1, numEphemeral, maxEphemeral, minEphemeral] at hmem ⊢
  omega

theorem ne_zero_of_mem_transEphemeralPorts {port : UInt16} (h : port ∈ transEphemeralPorts H t e) :
    port ≠ 0 := by
  have hlo := (mem_transEphemeralPorts h).1
  intro h0
  rw [h0] at hlo
  exact absurd hlo (by decide)

/-- What `trans_table_add_with_ephemeral_port` does on a table that keeps its invariant. -/
theorem TransTable.Ok.addWithEphemeralPort_spec (ht : t.Ok H) :
    ((transTableAddWithEphemeralPort H t e).1 = -eaddrnotavail ↔
      ∀ port ∈ transEphemeralPorts H t e, ∃ pos, t.Mem pos ∧ pos.SameKey (e.setPort port)) ∧
    ((transTableAddWithEphemeralPort H t e).1 = -eaddrnotavail →
      (transTableAddWithEphemeralPort H t e).2.2 = t) ∧
    ((transTableAddWithEphemeralPort H t e).1 ≠ -eaddrnotavail →
      (transTableAddWithEphemeralPort H t e).1 = 0 ∧ ∃ port,
        (transTableAddWithEphemeralPort H t e).2.1 = e.setPort port ∧
        minEphemeral ≤ port.toNat ∧ port.toNat ≤ maxEphemeral ∧
        transTableAdd H t (e.setPort port) = (0, (transTableAddWithEphemeralPort H t e).2.2)) := by
  unfold transTableAddWithEphemeralPort
  refine ⟨ht.ephemeralLoop_fst_iff _ fun _ => ne_zero_of_mem_transEphemeralPorts, fun h => ?_, fun h => ?_⟩
  · exact (transEphemeralLoop_of_ne_zero _ (by rw [h]; decide)).2
  · -- a search that did not run out of ports returned `0`
    have h0 : (transEphemeralLoop H (e.setPort 0) t (transEphemeralPorts H t e)).1 = 0 := by
      by_contra hne
      exact h (transEphemeralLoop_of_ne_zero _ hne).1
    obtain ⟨port, hmem, he, hadd⟩ := transEphemeralLoop_of_eq_zero _ h0
    rw [TransEntry.setPort_setPort] at he hadd
    exact ⟨h0, port, he, (mem_transEphemeralPorts hmem).1, (mem_transEphemeralPorts hmem).2, hadd⟩

end

/-! ## Lookup -/

/-- `trans_lookup` returns `NULL` for a protocol other than UDP and TCP. -/
theorem transLookup_of_proto (H : TransHash) (t : TransTable) {p : TransPkt}
    (h : p.proto ≠ ipprotoUdp ∧ p.proto ≠ ipprotoTcp) : transLookup H t p = none := by
  rw [transLookup, if_pos h]

theorem transMatch5_iff {proto : UInt8} {laddr raddr : Netaddr} (y : TransEntry) :
    transMatch5 proto laddr raddr y = true ↔ y.SameKey ⟨.tuple5, proto, laddr, raddr⟩ := by
  simp only [transMatch5, TransEntry.SameKey, Bool.and_eq_true, beq_iff_eq]
  constructor
  · rintro ⟨⟨⟨hk, hp⟩, hl⟩, hr⟩
    exact ⟨hk, hp, hl, fun _ => hr⟩
  · rintro ⟨hk, hp, hl, hr⟩
    exact ⟨⟨⟨hk, hp⟩, hl⟩, hr hk⟩

theorem transMatch3_iff {proto : UInt8} {laddr : Netaddr} (raddr : Netaddr) (y : TransEntry) :
    transMatch3 proto laddr y = true ↔ y.SameKey ⟨.tuple3, proto, laddr, raddr⟩ := by
  simp only [transMatch3, TransEntry.SameKey, Bool.and_eq_true, beq_iff_eq]
  constructor
  · rintro ⟨⟨hk, hp⟩, hl⟩
    exact ⟨hk, hp, hl, fun h => absurd (hk.symm.trans h) (by decide)⟩
  · rintro ⟨hk, hp, hl, -⟩
    exact ⟨⟨hk, hp⟩, hl⟩

section
variable {H : TransHash} {t : TransTable} {q x : TransEntry} {f : TransEntry → Bool}

/-- In a table that keeps its invariant, a search of `q`'s bucket with a test that holds of the
entries with `q`'s key finds the entry of the table with that key. -/
theorem TransTable.Ok.find?_eq_some (ht : t.Ok H) (hf : ∀ y, f y = true ↔ y.SameKey q) :
    (t.tbl (q.idx H)).find? f = some x ↔ t.Mem x ∧ x.SameKey q := by
  constructor
  · intro h
    exact ⟨⟨_, List.mem_of_find?_eq_some h⟩, (hf x).mp (List.find?_some h)⟩
  · rintro ⟨hx, hk⟩
    have hxb : x ∈ t.tbl (q.idx H) := (ht.mem_sameKey hk).mp hx
    cases hfind : (t.tbl (q.idx H)).find? f with
    | none => exact absurd ((hf x).mpr hk) (List.find?_eq_none.mp hfind x hxb)
    | some y =>
      -- the entry found has the key too, and the bucket holds one entry of a key
      have hy := (hf y).mp (List.find?_some hfind)
      rw [ht.eq_of_sameKey (List.mem_of_find?_eq_some hfind) hxb (hy.trans hk.symm)]

theorem TransTable.Ok.find?_eq_none (ht : t.Ok H) (hf : ∀ y, f y = true ↔ y.SameKey q) :
    (t.tbl (q.idx H)).find? f = none ↔ ¬∃ x, t.Mem x ∧ x.SameKey q := by
  rw [Option.eq_none_iff_forall_ne_some]
  simp only [ne_eq, ht.find?_eq_some hf, not_exists]

end

section
variable {H : TransHash} {t : TransTable} {p : TransPkt} {sport dport : UInt16}

/-- `trans_lookup` on a UDP or TCP packet with the four bytes of its ports: the 5-tuple entry of
the packet's key if the table holds one, otherwise its 3-tuple entry. -/
theorem TransTable.Ok.lookup_eq_some (ht : t.Ok H) (hproto : p.proto = ipprotoUdp ∨ p.proto = ipprotoTcp)
    (hl4 : transL4Ports p.l4 = some (sport, dport)) (x : TransEntry) :
    transLookup H t p = some x ↔
      t.Mem x ∧ transMatch5 p.proto ⟨p.daddr, dport⟩ ⟨p.saddr, sport⟩ x ∨
      (¬∃ y, t.Mem y ∧ transMatch5 p.proto ⟨p.daddr, dport⟩ ⟨p.saddr, sport⟩ y) ∧
        t.Mem x ∧ transMatch3 p.proto ⟨p.daddr, dport⟩ x := by
  have hp : ¬(p.proto ≠ ipprotoUdp ∧ p.proto ≠ ipprotoTcp) := fun h => hproto.elim h.1 h.2
  -- the keys of the two searches, as entries: each search reads the bucket of its key
  let q5 : TransEntry := ⟨.tuple5, p.proto, ⟨p.daddr, dport⟩, ⟨p.saddr, sport⟩⟩
  let q3 : TransEntry := ⟨.tuple3, p.proto, ⟨p.daddr, dport⟩, ⟨p.saddr, sport⟩⟩
  have hf5 : ∀ y, transMatch5 p.proto ⟨p.daddr, dport⟩ ⟨p.saddr, sport⟩ y = true ↔ y.SameKey q5 :=
    transMatch5_iff
  have hf3 : ∀ y, transMatch3 p.proto ⟨p.daddr, dport⟩ y = true ↔ y.SameKey q3 := transMatch3_iff _
  have hlookup : transLookup H t p =
      match (t.tbl (q5.idx H)).find? (transMatch5 p.proto ⟨p.daddr, dport⟩ ⟨p.saddr, sport⟩) with
      | some e => some e
      | none => (t.tbl (q3.idx H)).find? (transMatch3 p.proto ⟨p.daddr, dport⟩) := by
    rw [transLookup, if_neg hp, hl4]
    rfl
  rw [hlookup]
  cases h5 : (t.tbl (q5.idx H)).find? (transMatch5 p.proto ⟨p.daddr, dport⟩ ⟨p.saddr, sport⟩) with
  | some y =>
    -- a 5-tuple entry of the key is the answer, and the only one
    obtain ⟨hy, hky⟩ := (ht.find?_eq_some hf5).mp h5
    constructor
    · intro hxy
      rw [← Option.some.inj hxy]
      exact .inl ⟨hy, (hf5 y).mpr hky⟩
    · rintro (⟨hx, hm⟩ | ⟨hno, -⟩)
      · rw [← h5, (ht.find?_eq_some hf5).mpr ⟨hx, (hf5 x).mp hm⟩]
      · exact absurd ⟨y, hy, (hf5 y).mpr hky⟩ hno
  | none =>
    have hno := (ht.find?_eq_none hf5).mp h5
    have hno' : ¬∃ y, t.Mem y ∧ transMatch5 p.proto ⟨p.daddr, dport⟩ ⟨p.saddr, sport⟩ y :=
      fun ⟨y, hy, hm⟩ => hno ⟨y, hy, (hf5 y).mp hm⟩
    dsimp only
    rw [ht.find?_eq_some hf3]
    constructor
    · rintro ⟨hx, hk⟩
      exact .inr ⟨hno', hx, (hf3 x).mpr hk⟩
    · rintro (⟨hx, hm⟩ | ⟨-, hx, hm⟩)
      · exact absurd ⟨x, hx, hm⟩ hno'
      · exact ⟨hx, (hf3 x).mp hm⟩

theorem TransTable.Ok.lookup_eq_none (ht : t.Ok H) (hproto : p.proto = ipprotoUdp ∨ p.proto = ipprotoTcp)
    (hl4 : transL4Ports p.l4 = some (sport, dport)) :
    transLookup H t p = none ↔
      (¬∃ y, t.Mem y ∧ transMatch5 p.proto ⟨p.daddr, dport⟩ ⟨p.saddr, sport⟩ y) ∧
        ¬∃ y, t.Mem y ∧ transMatch3 p.proto ⟨p.daddr, dport⟩ y := by
  rw [Option.eq_none_iff_forall_ne_some]
  simp only [ne_eq, ht.lookup_eq_some hproto hl4]
  constructor
  · intro h
    exact ⟨fun ⟨y, hy⟩ => h y (.inl hy), fun ⟨y, hy⟩ => h y (.inr ⟨fun ⟨z, hz⟩ => h z (.inl hz), hy⟩)⟩
  · rintro ⟨h5, h3⟩ y (hy | ⟨-, hy⟩)
    · exact h5 ⟨y, hy⟩
    · exact h3 ⟨y, hy⟩

end

/-! ## The table over every run -/

theorem transRun_ok (H : TransHash) {ops : List TransOp} {t : TransTable}
    (hrun : StepRun.run (transStep H) TransTable.init ops = some t) : t.Ok H :=
  (transStep_ok H).run (TransTable.init_ok H) hrun

/-- After any sequence of calls from `trans_init`, under any hash: keys are unique over the whole
table; `trans_table_add` with a nonzero port answers `-EADDRINUSE` exactly for a key the table
holds and otherwise adds the entry; the ephemeral search tries every port of
`[MIN_EPHEMERAL, MAX_EPHEMERAL]` once, fails only when all are taken and otherwise adds the
entry with one of them; and `trans_lookup` prefers the 5-tuple entry of a packet's key over its
3-tuple entry. -/
theorem transTable_run_spec (H : TransHash) {ops : List TransOp} {t : TransTable}
    (hrun : StepRun.run (transStep H) TransTable.init ops = some t) :
    ((∀ i j a b, a ∈ t.tbl i → b ∈ t.tbl j → a.SameKey b → i = j ∧ a = b) ∧ ∀ i, (t.tbl i).Nodup) ∧
    (∀ e : TransEntry, e.laddr.port ≠ 0 →
      ((∃ pos, t.Mem pos ∧ pos.SameKey e) → transTableAdd H t e = (-eaddrinuse, t)) ∧
      ((¬∃ pos, t.Mem pos ∧ pos.SameKey e) →
        (transTableAdd H t e).1 = 0 ∧ ∀ x, (transTableAdd H t e).2.Mem x ↔ x = e ∨ t.Mem x)) ∧
    (∀ e : TransEntry,
      ((transEphemeralPorts H t e).map UInt16.toNat).Perm (List.range' minEphemeral numEphemeral) ∧
      ((transTableAddWithEphemeralPort H t e).1 = -eaddrnotavail ↔
        ∀ port ∈ transEphemeralPorts H t e, ∃ pos, t.Mem pos ∧ pos.SameKey (e.setPort port)) ∧
      ((transTableAddWithEphemeralPort H t e).1 = -eaddrnotavail →
        (transTableAddWithEphemeralPort H t e).2.2 = t) ∧
      ((transTableAddWithEphemeralPort H t e).1 ≠ -eaddrnotavail →
        (transTableAddWithEphemeralPort H t e).1 = 0 ∧ ∃ port,
          (transTableAddWithEphemeralPort H t e).2.1 = e.setPort port ∧
          minEphemeral ≤ port.toNat ∧ port.toNat ≤ maxEphemeral ∧
          transTableAdd H t (e.setPort port) = (0, (transTableAddWithEphemeralPort H t e).2.2))) ∧
    (∀ (p : TransPkt) (sport dport : UInt16), (p.proto = ipprotoUdp ∨ p.proto = ipprotoTcp) →
      transL4Ports p.l4 = some (sport, dport) →
      (∀ x, transLookup H t p = some x ↔
        t.Mem x ∧ transMatch5 p.proto ⟨p.daddr, dport⟩ ⟨p.saddr, sport⟩ x ∨
        (¬∃ y, t.Mem y ∧ transMatch5 p.proto ⟨p.daddr, dport⟩ ⟨p.saddr, sport⟩ y) ∧
          t.Mem x ∧ transMatch3 p.proto ⟨p.daddr, dport⟩ x) ∧
      (transLookup H t p = none ↔
        (¬∃ y, t.Mem y ∧ transMatch5 p.proto ⟨p.daddr, dport⟩ ⟨p.saddr, sport⟩ y) ∧
          ¬∃ y, t.Mem y ∧ transMatch3 p.proto ⟨p.daddr, dport⟩ y)) := by
  have ht := transRun_ok H hrun
  refine ⟨⟨fun i j a b ha hb hk => ?_, fun i => ?_⟩, fun e hp => ?_, fun e => ?_,
    fun p sport dport hproto hl4 => ⟨ht.lookup_eq_some hproto hl4, ht.lookup_eq_none hproto hl4⟩⟩
  · -- (a) entries with one key sit in one bucket, where they are one entry
    have hij : i = j := by rw [← ht.placed i a ha, ← ht.placed j b hb, hk.idx_eq]
    subst hij
    exact ⟨rfl, ht.eq_of_sameKey ha hb hk⟩
  · refine (ht.unique i).imp fun {a b} hne hab => ?_
    subst hab
    exact hne (.refl a)
  · -- (b)
    rcases ht.add_spec hp with ⟨hk, h⟩ | ⟨hk, h⟩
    · exact ⟨fun _ => h, fun hno => absurd hk hno⟩
    · refine ⟨fun hyes => absurd hyes hk, fun _ => ?_⟩
      rw [h]
      exact ⟨rfl, fun x => TransTable.mem_insert_iff _⟩
  · -- (c)
    exact ⟨transEphemeralPorts_perm H t e, ht.addWithEphemeralPort_spec⟩

/-- The run that adds a UDP 3-tuple entry on port 80 and then one with an ephemeral port, with
the hash that ignores its input. -/
theorem transTable_run_spec_two :
    ∃ t, StepRun.run (transStep ⟨0, fun s _ => s⟩) TransTable.init
        [.add ⟨.tuple3, 17, ⟨1, 80⟩, ⟨0, 0⟩⟩, .addWithEphemeralPort ⟨.tuple3, 17, ⟨1, 0⟩, ⟨0, 0⟩⟩] = some t ∧
    ((∀ i j a b, a ∈ t.tbl i → b ∈ t.tbl j → a.SameKey b → i = j ∧ a = b) ∧ ∀ i, (t.tbl i).Nodup) ∧
    (∀ e : TransEntry, e.laddr.port ≠ 0 →
      ((∃ pos, t.Mem pos ∧ pos.SameKey e) → transTableAdd ⟨0, fun s _ => s⟩ t e = (-eaddrinuse, t)) ∧
      ((¬∃ pos, t.Mem pos ∧ pos.SameKey e) →
        (transTableAdd ⟨0, fun s _ => s⟩ t e).1 = 0 ∧
          ∀ x, (transTableAdd ⟨0, fun s _ => s⟩ t e).2.Mem x ↔ x = e ∨ t.Mem x)) ∧
    (∀ e : TransEntry,
      ((transEphemeralPorts ⟨0, fun s _ => s⟩ t e).map UInt16.toNat).Perm
        (List.range' minEphemeral numEphemeral) ∧
      ((transTableAddWithEphemeralPort ⟨0, fun s _ => s⟩ t e).1 = -eaddrnotavail ↔
        ∀ port ∈ transEphemeralPorts ⟨0, fun s _ => s⟩ t e, ∃ pos, t.Mem pos ∧ pos.SameKey (e.setPort port)) ∧
      ((transTableAddWithEphemeralPort ⟨0, fun s _ => s⟩ t e).1 = -eaddrnotavail →
        (transTableAddWithEphemeralPort ⟨0, fun s _ => s⟩ t e).2.2 = t) ∧
      ((transTableAddWithEphemeralPort ⟨0, fun s _ => s⟩ t e).1 ≠ -eaddrnotavail →
        (transTableAddWithEphemeralPort ⟨0, fun s _ => s⟩ t e).1 = 0 ∧ ∃ port,
          (transTableAddWithEphemeralPort ⟨0, fun s _ => s⟩ t e).2.1 = e.setPort port ∧
          minEphemeral ≤ port.toNat ∧ port.toNat ≤ maxEphemeral ∧
          transTableAdd ⟨0, fun s _ => s⟩ t (e.setPort port) =
            (0, (transTableAddWithEphemeralPort ⟨0, fun s _ => s⟩ t e).2.2))) ∧
    (∀ (p : TransPkt) (sport dport : UInt16), (p.proto = ipprotoUdp ∨ p.proto = ipprotoTcp) →
      transL4Ports p.l4 = some (sport, dport) →
      (∀ x, transLookup ⟨0, fun s _ => s⟩ t p = some x ↔
        t.Mem x ∧ transMatch5 p.proto ⟨p.daddr, dport⟩ ⟨p.saddr, sport⟩ x ∨
        (¬∃ y, t.Mem y ∧ transMatch5 p.proto ⟨p.daddr, dport⟩ ⟨p.saddr, sport⟩ y) ∧
          t.Mem x ∧ transMatch3 p.proto ⟨p.daddr, dport⟩ x) ∧
      (transLookup ⟨0, fun s _ => s⟩ t p = none ↔
        (¬∃ y, t.Mem y ∧ transMatch5 p.proto ⟨p.daddr, dport⟩ ⟨p.saddr, sport⟩ y) ∧
          ¬∃ y, t.Mem y ∧ transMatch3 p.proto ⟨p.daddr, dport⟩ y)) :=
  ⟨_, rfl, @transTable_run_spec ⟨0, fun s _ => s⟩
    [.add ⟨.tuple3, 17, ⟨1, 80⟩, ⟨0, 0⟩⟩, .addWithEphemeralPort ⟨.tuple3, 17, ⟨1, 0⟩, ⟨0, 0⟩⟩] _ rfl⟩

/-- Two limits of the table: `trans_table_add` refuses a local port of 0 with `-EINVAL` although no
entry has the key, and `trans_lookup` does not find an ICMP entry that the table holds and that
matches a packet's 3-tuple, since it only serves UDP and TCP. -/
theorem transTable_zero_port_other_proto :
    ((¬∃ pos, TransTable.init.Mem pos ∧ pos.SameKey ⟨.tuple3, ipprotoUdp, ⟨1, 0⟩, ⟨0, 0⟩⟩) ∧
      transTableAdd ⟨0, fun s _ => s⟩ TransTable.init ⟨.tuple3, ipprotoUdp, ⟨1, 0⟩, ⟨0, 0⟩⟩ =
        (-einval, TransTable.init)) ∧
    ((transTableAdd ⟨0, fun s _ => s⟩ TransTable.init ⟨.tuple3, 1, ⟨1, 7⟩, ⟨0, 0⟩⟩).2.Mem
        ⟨.tuple3, 1, ⟨1, 7⟩, ⟨0, 0⟩⟩ ∧
      transMatch3 1 ⟨1, 7⟩ ⟨.tuple3, 1, ⟨1, 7⟩, ⟨0, 0⟩⟩ = true ∧
      transLookup ⟨0, fun s _ => s⟩ (transTableAdd ⟨0, fun s _ => s⟩ TransTable.init
        ⟨.tuple3, 1, ⟨1, 7⟩, ⟨0, 0⟩⟩).2 ⟨1, 2, 1, [0, 9, 0, 7]⟩ = none) := by
  refine ⟨⟨fun ⟨_, ⟨_, hi⟩, _⟩ => absurd hi List.not_mem_nil, rfl⟩, ⟨0, by decide⟩, rfl, ?_⟩
  exact transLookup_of_proto _ _ (by decide)

/-! ## Errors on egress packets -/

/-- `sizeof(struct ip_hdr)` -/
def ipHdrLen : Nat := 20

/-- `IPVERSION` -/
def ipversion : UInt8 := 4

/-- `IP_MF` -/
def ipMf : UInt16 := 0x2000

/-- `MBUF_DEFAULT_HEADROOM` -/
def mbufDefaultHeadroom : Nat := 128

/-- A `struct mbuf` as `net_error` and `trans_lookup` read it: the memory of its buffer from
`head`, `head_len`, `network_off`, and the data window `[data, data + len)` as offsets from
`head`. -/
structure NetMbuf where
  buf : Nat → UInt8
  headLen : Nat
  networkOff : Nat
  data : Nat
  len : Nat

/-- The memory with `bytes` written from offset `i` on (a `memcpy` or a header's stores). -/
def writeBytes (buf : Nat → UInt8) (i : Nat) (bytes : List UInt8) : Nat → UInt8 :=
  fun j => if i ≤ j ∧ j < i + bytes.length then bytes.getD (j - i) 0 else buf j

/-- `mbuf_push` of a header, with the stores that fill it; `none` is the `BUG_ON` for a data
pointer before `head`. -/
def NetMbuf.push (m : NetMbuf) (hdr : List UInt8) : Option NetMbuf :=
  if m.data < hdr.length then none
  else
    some { m with
      buf := writeBytes m.buf (m.data - hdr.length) hdr
      data := m.data - hdr.length
      len := m.len + hdr.length }

/-- `mbuf_put` with the `memcpy` that fills it; `none` is the `BUG_ON` for a length past
`head_len`. -/
def NetMbuf.put (m : NetMbuf) (bytes : List UInt8) : Option NetMbuf :=
  if m.headLen < m.len + bytes.length then none
  else some { m with buf := writeBytes m.buf (m.data + m.len) bytes, len := m.len + bytes.length }

/-- What the egress path does to a transmit mbuf: the payload is put at the end of the window, and
the transport and IP headers are pushed before it. -/
inductive TxMbufOp
  | put (bytes : List UInt8)
  | push (hdr : List UInt8)

/-- One operation of the egress path. -/
def NetMbuf.txStep (m : NetMbuf) : TxMbufOp → Option NetMbuf
  | .put bytes => m.put bytes
  | .push hdr => m.push hdr

/-- `net_tx_alloc_mbuf` on a transmit buffer whose memory holds `mem` from `head` on and whose
`network_off` field holds `networkOff`: `mbuf_init` sets `head_len` to the MTU and the data pointer
`MBUF_DEFAULT_HEADROOM` bytes in, with an empty window, and writes neither offset. -/
def netTxAllocMbuf (mem : Nat → UInt8) (networkOff mtu : Nat) : NetMbuf :=
  ⟨mem, mtu, networkOff, mbufDefaultHeadroom, 0⟩

/-- The big-endian word of the four bytes at `i` (`ntoh32` of a stored word). -/
def be32At (buf : Nat → UInt8) (i : Nat) : UInt32 :=
  ((buf i).toUInt32 <<< 24) ||| ((buf (i + 1)).toUInt32 <<< 16) ||| ((buf (i + 2)).toUInt32 <<< 8) |||
    (buf (i + 3)).toUInt32

/-- The fields of the `struct ip_hdr` at offset `off` that the code reads, on a little-endian
machine: the bitfields `header_len` and `version` are the low and the high nibble of the first
byte, `off` is the word as stored (its test against `IP_MF` has no `ntoh16`), and the addresses
are taken through `ntoh32`. -/
structure IpHdr where
  headerLen : UInt8
  version : UInt8
  off : UInt16
  proto : UInt8
  saddr : UInt32
  daddr : UInt32

/-- The IP header at offset `off` of the memory. -/
def ipHdrAt (buf : Nat → UInt8) (off : Nat) : IpHdr where
  headerLen := buf off &&& 0x0f
  version := buf off >>> 4
  off := (buf (off + 6)).toUInt16 ||| ((buf (off + 7)).toUInt16 <<< 8)
  proto := buf (off + 9)
  saddr := be32At buf (off + 12)
  daddr := be32At buf (off + 16)

/-- `ip_hdr_supported` -/
def ipHdrSupported (h : IpHdr) : Bool :=
  h.version == ipversion && h.headerLen.toNat == ipHdrLen / 4 && (h.off &&& ipMf) == 0

/-- `trans_lookup` on an mbuf: `mbuf_mark_transport_offset` records the data pointer, the IP
header is read at `network_off` and the ports at the data pointer. -/
def transLookupMbuf (H : TransHash) (t : TransTable) (m : NetMbuf) : Option TransEntry :=
  let iph := ipHdrAt m.buf m.networkOff
  transLookup H t ⟨iph.proto, iph.saddr, iph.daddr, (List.range m.len).map fun k => m.buf (m.data + k)⟩

/-- `net_error` and the `trans_error` it calls: the entry whose `err` method runs, if any.
`mbuf_pull_hdr_or_null` takes the IP header off the front of the window. -/
def netError (H : TransHash) (t : TransTable) (m : NetMbuf) : Option TransEntry :=
  if m.len < ipHdrLen then none
  else
    let iph := ipHdrAt m.buf m.data
    let m := { m with data := m.data + ipHdrLen, len := m.len - ipHdrLen }
    if !ipHdrSupported iph then none
    else if iph.proto = ipprotoUdp ∨ iph.proto = ipprotoTcp then transLookupMbuf H t m
    else none

section
variable {m m' : NetMbuf}

theorem writeBytes_of_lt {buf : Nat → UInt8} {i j : Nat} (bytes : List UInt8) (h : j < i) :
    writeBytes buf i bytes j = buf j := by
  simp only [writeBytes]
  rw [if_neg (by omega)]

/-- An operation of the egress path leaves the memory below its data pointer as it was, and does
not move the pointer up; `network_off` stays. -/
theorem NetMbuf.txStep_below {op : TxMbufOp} (h : m.txStep op = some m') :
    m'.data ≤ m.data ∧ m'.networkOff = m.networkOff ∧ ∀ j < m'.data, m'.buf j = m.buf j := by
  cases op with
  | put bytes =>
    simp only [NetMbuf.txStep, NetMbuf.put] at h
    split at h
    · cases h
    · obtain rfl := Option.some.inj h
      exact ⟨le_rfl, rfl, fun j hj => writeBytes_of_lt bytes (Nat.lt_of_lt_of_le hj (Nat.le_add_right _ _))⟩
  | push hdr =>
    simp only [NetMbuf.txStep, NetMbuf.push] at h
    split at h
    · cases h
    · obtain rfl := Option.some.inj h
      exact ⟨Nat.sub_le _ _, rfl, fun j hj => writeBytes_of_lt hdr hj⟩

/-- `m` agrees with `m₀` below its data pointer, which is not above `m₀`'s, and has its
`network_off`. -/
def NetMbuf.KeepsBelow (m₀ m : NetMbuf) : Prop :=
  m.data ≤ m₀.data ∧ m.networkOff = m₀.networkOff ∧ ∀ j < m.data, m.buf j = m₀.buf j

theorem NetMbuf.txStep_keepsBelow (m₀ : NetMbuf) :
    StepRun.Invariant NetMbuf.txStep (NetMbuf.KeepsBelow m₀) := by
  intro m op m' ⟨hd, hn, hb⟩ h
  obtain ⟨hd', hn', hb'⟩ := NetMbuf.txStep_below h
  exact ⟨hd'.trans hd, hn'.trans hn, fun j hj => (hb' j hj).trans (hb j (by omega))⟩

end

/-- `net_error` on an mbuf whose `network_off` header has a protocol other than UDP and TCP reaches
no entry: `trans_lookup` gives up on the protocol before it reads the table. -/
theorem netError_of_networkOff_proto (H : TransHash) (t : TransTable) {m : NetMbuf}
    (h : (ipHdrAt m.buf m.networkOff).proto ≠ ipprotoUdp ∧
      (ipHdrAt m.buf m.networkOff).proto ≠ ipprotoTcp) :
    netError H t m = none := by
  unfold netError
  split
  · rfl
  · simp only [transLookupMbuf]
    rw [transLookup_of_proto H t h]
    simp

/-- `net_error` on a packet the egress path built reaches no transport entry, whatever the table
and its hash: the transmit buffer's `network_off` is never written, so it holds the zero of the
fresh shared memory, the bytes below the headroom that the headers leave are never written either,
and the protocol byte read there is zero. ARP's `delete_entry` therefore never calls a
connection's `err` method. -/
theorem netError_txMbuf (H : TransHash) (t : TransTable) {mem : Nat → UInt8}
    (hmem : ∀ j < ipHdrLen, mem j = 0) (mtu : Nat) {ops : List TxMbufOp} {m : NetMbuf}
    (hrun : StepRun.run NetMbuf.txStep (netTxAllocMbuf mem 0 mtu) ops = some m)
    (hroom : ipHdrLen ≤ m.data) :
    netError H t m = none := by
  obtain ⟨-, hoff, hbuf⟩ := (NetMbuf.txStep_keepsBelow _).run ⟨le_rfl, rfl, fun _ _ => rfl⟩ hrun
  -- the protocol byte of the header at `network_off`, nine bytes into the buffer
  have hproto : (ipHdrAt m.buf m.networkOff).proto = 0 := by
    have h9 : 9 < m.data := by unfold ipHdrLen at hroom; omega
    simp only [ipHdrAt, hoff, netTxAllocMbuf, zero_add]
    rw [hbuf 9 h9]
    exact hmem 9 (by decide)
  apply netError_of_networkOff_proto
  rw [hproto]
  exact ⟨by decide, by decide⟩

/-- A TCP segment of ten payload bytes, with a header of twenty and the IP header pushed before
it, on a buffer of zeroed memory. -/
theorem netError_txMbuf_tcp :
    (∀ j < ipHdrLen, (fun _ => 0 : Nat → UInt8) j = 0) ∧
    ∃ m, StepRun.run NetMbuf.txStep (netTxAllocMbuf (fun _ => 0) 0 1500)
        [.put (List.replicate 10 7), .push (List.replicate 20 0), .push (List.replicate 20 0x45)] =
        some m ∧ ipHdrLen ≤ m.data ∧ netError ⟨0, fun s _ => s⟩ TransTable.init m = none := by
  refine ⟨fun _ _ => rfl, _, rfl, by decide, ?_⟩
  exact @netError_txMbuf _ _ _ (fun _ _ => rfl) 1500
    [.put (List.replicate 10 7), .push (List.replicate 20 0), .push (List.replicate 20 0x45)] _ rfl
    (by decide)

end Caladan
