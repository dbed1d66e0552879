import Mathlib
import Caladan.Lib.Run

/-!
# The ARP table (`runtime/net/arp.c`)

`arp_tbl` maps an IP address to an entry with a state, a MAC and a queue of mbufs waiting for that
MAC. `arp_lookup` reads it under RCU, and on a miss or a `PROBING` entry takes `arp_lock`, looks
again, and queues its mbuf on the entry it finds or inserts (it returns `-EINPROGRESS`: ARP owns
the mbuf). `arp_update` makes the entry for a sender `VALID` and hands its queue to `net_tx_eth`.
The aging pass of `arp_worker` reprobes valid entries and deletes those that ran out of tries,
reporting `EHOSTUNREACH` on their queued mbufs. `arp_init_late` inserts the static entries of the
configuration. It runs after `thread_spawn_main`, when the other kthreads are already scheduling,
and it does not call `lookup_entry` first.

An entry for an IP is always in the bucket of that IP, so the table is one list in insertion
order, newest first, and `lookup_entry` finds the first entry for the IP. The timestamps are left
out: when an entry has timed out is the input of the aging step. Call `l` of `arp_lookup` passes
mbuf `l`. Each step is an RCU section, an `arp_lock` section, or one entry of the aging pass.
-/

namespace Caladan

/-- `ARP_RETRIES` -/
def arpRetries : Nat := 3

/-- `ARP_STATE_*` -/
inductive ArpState
  | probing
  | valid
  | validButReprobing
  | static
deriving DecidableEq, Repr

/-- `struct arp_entry` without `ts`. -/
structure ArpEntry where
  state : ArpState
  ip : Nat
  eth : Nat
  q : List Nat
  triesLeft : Nat
deriving DecidableEq, Repr

/-- `create_entry`; the MAC is written only when the entry leaves `ARP_STATE_PROBING`. -/
def createEntry (daddr : Nat) : ArpEntry := ⟨.probing, daddr, 0, [], arpRetries⟩

/-- `lookup_entry`: the first entry for `daddr`, with its position. -/
def lookupEntry : List ArpEntry → Nat → Option (Nat × ArpEntry)
  | [], _ => none
  | e :: es, daddr =>
    if e.ip = daddr then some (0, e) else (lookupEntry es daddr).map fun p => (p.1 + 1, p.2)

/-- What `arp_lookup` returns: `0` with the MAC in `dhost_out`, `-ENOMEM` or `-EINPROGRESS`. -/
inductive ArpRet
  | ok (eth : Nat)
  | enomem
  | einprogress
deriving DecidableEq, Repr

/-- Where one call of `arp_lookup` is. -/
inductive ArpLookupPc
  /-- before its RCU section -/
  | hot
  /-- before its `arp_lock` section; `newe` when it allocated a candidate entry -/
  | cold (newe : Bool)
  | done (ret : ArpRet)
deriving DecidableEq, Repr

/-- A call of `arp_lookup(daddr, &dhost, m)`. -/
structure ArpCall where
  daddr : Nat
  pc : ArpLookupPc
deriving DecidableEq, Repr

/-- The table, the calls of `arp_lookup` (call `l` passes mbuf `l`), the mbufs `arp_update` passed
to `net_tx_eth` with their MAC, the mbufs ARP freed with whether `net_error` ran first, the
targets of the ARP requests sent, and whether `arp_init_late` has run. -/
structure ArpSys where
  tbl : List ArpEntry
  calls : List ArpCall
  sent : List (Nat × Nat)
  freed : List (Nat × Bool)
  requests : List Nat
  late : Bool
deriving DecidableEq, Repr

/-- After `arp_init`. -/
def arpInit : ArpSys := ⟨[], [], [], [], [], false⟩

/-- The RCU section of call `l`, and on a miss the `arp_send` of a request and `create_entry`
(which succeeds when `ok`). -/
def arpLookupHot (s : ArpSys) (l : Nat) (ok : Bool) : Option ArpSys :=
  match s.calls[l]? with
  | some ⟨daddr, .hot⟩ =>
    match lookupEntry s.tbl daddr with
    | some (_, e) =>
      if e.state ≠ .probing then some { s with calls := s.calls.set l ⟨daddr, .done (.ok e.eth)⟩ }
      else some { s with calls := s.calls.set l ⟨daddr, .cold false⟩ }
    | none =>
      some { s with requests := s.requests ++ [daddr],
                    calls := s.calls.set l ⟨daddr, if ok then .cold true else .done .enomem⟩ }
  | _ => none

/-- The `arp_lock` section of call `l`, and the `mbuf_free` after it when no entry is left. -/
def arpLookupCold (s : ArpSys) (l : Nat) : Option ArpSys :=
  match s.calls[l]? with
  | some ⟨daddr, .cold newe⟩ =>
    match lookupEntry s.tbl daddr with
    | some (i, e) =>
      -- the candidate entry, if any, goes back with `sfree`
      if e.state ≠ .probing then some { s with calls := s.calls.set l ⟨daddr, .done (.ok e.eth)⟩ }
      else some { s with tbl := s.tbl.set i { e with q := e.q ++ [l] },
                         calls := s.calls.set l ⟨daddr, .done .einprogress⟩ }
    | none =>
      if newe then
        some { s with tbl := { createEntry daddr with q := [l] } :: s.tbl,
                      calls := s.calls.set l ⟨daddr, .done .einprogress⟩ }
      -- the entry seen under RCU was deleted meanwhile
      else some { s with freed := s.freed ++ [(l, false)],
                         calls := s.calls.set l ⟨daddr, .done .einprogress⟩ }
  | _ => none

/-- `arp_update(daddr, dhost)` from `net_rx_arp` (`create_entry` succeeds when `ok`), with the
drain of the taken queue after `arp_lock` is released. -/
def arpUpdate (s : ArpSys) (daddr dhost : Nat) (ok : Bool) : ArpSys :=
  match lookupEntry s.tbl daddr with
  | none =>
    if ok then { s with tbl := { createEntry daddr with eth := dhost, state := .valid } :: s.tbl }
    else s
  | some (i, e) =>
    if e.state = .static then s
    else { s with tbl := s.tbl.set i { e with eth := dhost, state := .valid, q := [] },
                  sent := s.sent ++ e.q.map (·, dhost) }

/-- `arp_age_entry` on the `i`-th entry once it has timed out. `delete_entry` reports
`EHOSTUNREACH` on each queued mbuf and frees it. -/
def arpAgeEntry (s : ArpSys) (i : Nat) : Option ArpSys :=
  match s.tbl[i]? with
  | none => none
  | some e =>
    match e.state with
    | .probing | .validButReprobing =>
      if e.triesLeft = 0 then
        some { s with tbl := s.tbl.eraseIdx i, freed := s.freed ++ e.q.map (·, true) }
      else some { s with tbl := s.tbl.set i { e with triesLeft := e.triesLeft - 1 },
                         requests := s.requests ++ [e.ip] }
    | .valid =>
      some { s with tbl := s.tbl.set i { e with state := .validButReprobing, triesLeft := arpRetries },
                    requests := s.requests ++ [e.ip] }
    | .static => some s

/-- The loop of `arp_init_late`: each static entry goes to the head of its bucket. -/
def insertStatics (tbl : List ArpEntry) (statics : List (Nat × Nat)) : List ArpEntry :=
  statics.foldl (fun tbl se => { createEntry se.1 with eth := se.2, state := .static } :: tbl) tbl

/-- `arp_init_late`, once, with the configured `static_arp` entries. -/
def arpInitLate (s : ArpSys) (statics : List (Nat × Nat)) : Option ArpSys :=
  if s.late then none else some { s with tbl := insertStatics s.tbl statics, late := true }

/-- The steps of the ARP layer. -/
inductive ArpOp
  /-- `arp_lookup` is called with a fresh mbuf -/
  | lookup (daddr : Nat)
  | lookupHot (l : Nat) (ok : Bool)
  | lookupCold (l : Nat)
  | update (daddr dhost : Nat) (ok : Bool)
  /-- the aging pass reaches the `i`-th entry after it timed out -/
  | age (i : Nat)
  | initLate (statics : List (Nat × Nat))
deriving DecidableEq, Repr

def arpStep (s : ArpSys) : ArpOp → Option ArpSys
  | .lookup daddr => some { s with calls := s.calls ++ [⟨daddr, .hot⟩] }
  | .lookupHot l ok => arpLookupHot s l ok
  | .lookupCold l => arpLookupCold s l
  | .update daddr dhost ok => some (arpUpdate s daddr dhost ok)
  | .age i => arpAgeEntry s i
  | .initLate statics => arpInitLate s statics

/-! ## One entry replaced or erased -/

section
variable {α β : Type*} {l : List α} {i : Nat}

theorem count_flatMap_set [BEq β] (h : i < l.length) (f : α → List β) (a : α) (x : β) :
    ((l.set i a).flatMap f).count x + (f l[i]).count x =
      (l.flatMap f).count x + (f a).count x := by
  have h₁ := ((List.set_perm_cons_eraseIdx h a).flatMap_right f).count_eq x
  have h₂ := ((List.getElem_cons_eraseIdx_perm h).flatMap_right f).count_eq x
  simp only [List.flatMap_cons, List.count_append] at h₁ h₂
  omega

theorem count_flatMap_eraseIdx [BEq β] (h : i < l.length) (f : α → List β) (x : β) :
    ((l.eraseIdx i).flatMap f).count x + (f l[i]).count x = (l.flatMap f).count x := by
  have h₂ := ((List.getElem_cons_eraseIdx_perm h).flatMap_right f).count_eq x
  simp only [List.flatMap_cons, List.count_append] at h₂
  omega

theorem mem_eraseIdx_of_ne {x : α} (h : i < l.length) (hx : x ∈ l) (hne : x ≠ l[i]) :
    x ∈ l.eraseIdx i := by
  rcases List.mem_cons.mp ((List.getElem_cons_eraseIdx_perm h).mem_iff.mpr hx) with hx | hx
  · exact absurd hx hne
  · exact hx

theorem mem_set_of_ne {x : α} (h : i < l.length) (hx : x ∈ l) (hne : x ≠ l[i]) (a : α) :
    x ∈ l.set i a :=
  (List.set_perm_cons_eraseIdx h a).mem_iff.mpr (List.mem_cons_of_mem a (mem_eraseIdx_of_ne h hx hne))

end

/-! ## The table -/

theorem lookupEntry_eq_some {tbl : List ArpEntry} {daddr i : Nat} {e : ArpEntry}
    (h : lookupEntry tbl daddr = some (i, e)) : tbl[i]? = some e ∧ e.ip = daddr := by
  induction tbl generalizing i with
  | nil => simp [lookupEntry] at h
  | cons a tbl ih =>
    rw [lookupEntry] at h
    split_ifs at h with ha
    · obtain ⟨rfl, rfl⟩ := Prod.mk.inj (Option.some.inj h)
      exact ⟨rfl, ha⟩
    · -- found further on, one position later
      obtain ⟨⟨j, e'⟩, hj, he⟩ := Option.map_eq_some_iff.mp h
      obtain ⟨rfl, rfl⟩ := Prod.mk.inj he
      exact ih hj

theorem lookupEntry_eq_none {tbl : List ArpEntry} {daddr : Nat}
    (h : lookupEntry tbl daddr = none) : ∀ e ∈ tbl, e.ip ≠ daddr := by
  induction tbl with
  | nil => simp
  | cons a tbl ih =>
    rw [lookupEntry] at h
    split_ifs at h with ha
    intro e he
    rcases List.mem_cons.mp he with rfl | he
    · exact ha
    · exact ih (Option.map_eq_none_iff.mp h) e he

theorem insertStatics_eq (tbl : List ArpEntry) (statics : List (Nat × Nat)) :
    insertStatics tbl statics =
      (statics.map fun se => { createEntry se.1 with eth := se.2, state := .static }).reverse ++
        tbl := by
  induction statics generalizing tbl with
  | nil => rfl
  | cons se statics ih =>
    rw [insertStatics, List.foldl_cons, ← insertStatics, ih]
    simp

/-! ## Where the mbufs are -/

/-- How often mbuf `m` is queued on an entry, was passed to `net_tx_eth`, or was freed. -/
def ArpSys.places (s : ArpSys) (m : Nat) : Nat :=
  (s.tbl.flatMap ArpEntry.q).count m + (s.sent.map Prod.fst).count m +
    (s.freed.map Prod.fst).count m

/-- `1` when call `m` returned `-EINPROGRESS`, so that ARP owns mbuf `m`. -/
def ownedBy (calls : List ArpCall) (m : Nat) : Nat :=
  if calls[m]?.map ArpCall.pc = some (.done .einprogress) then 1 else 0

section
variable {calls : List ArpCall} {l m : Nat} {c : ArpCall}

theorem ownedBy_append_hot (daddr : Nat) : ownedBy (calls ++ [⟨daddr, .hot⟩]) m = ownedBy calls m := by
  unfold ownedBy
  rcases Nat.lt_or_ge m calls.length with hm | hm
  · rw [List.getElem?_append_left hm]
  · -- the new call has not returned; past the end there is no call
    rw [List.getElem?_append_right hm, List.getElem?_eq_none hm]
    rcases Nat.lt_or_ge (m - calls.length) 1 with h1 | h1
    · simp [show m - calls.length = 0 by omega]
    · rw [List.getElem?_eq_none (by simp only [List.length_singleton]; omega)]

/-- A call that moves between two points other than the return of `-EINPROGRESS`. -/
theorem ownedBy_set_of_ne (hl : calls[l]? = some c) (hc : c.pc ≠ .done .einprogress)
    {c' : ArpCall} (hc' : c'.pc ≠ .done .einprogress) : ownedBy (calls.set l c') m = ownedBy calls m := by
  unfold ownedBy
  by_cases hlm : l = m
  · subst hlm
    rw [List.getElem?_set_self (List.getElem?_eq_some_iff.mp hl).1, hl]
    simp [hc, hc']
  · rw [List.getElem?_set_ne hlm]

/-- Call `l` returns `-EINPROGRESS`: ARP takes mbuf `l`. -/
theorem ownedBy_set_einprogress (hl : calls[l]? = some c) (hc : c.pc ≠ .done .einprogress)
    (daddr m : Nat) : ownedBy (calls.set l ⟨daddr, .done .einprogress⟩) m = ownedBy calls m + [l].count m := by
  unfold ownedBy
  rw [List.count_singleton]
  by_cases hlm : l = m
  · subst hlm
    rw [List.getElem?_set_self (List.getElem?_eq_some_iff.mp hl).1, hl]
    simp [hc]
  · rw [List.getElem?_set_ne hlm]
    simp [hlm]

theorem daddr_set (hl : calls[l]? = some c) (pc : ArpLookupPc) (m : Nat) :
    (calls.set l ⟨c.daddr, pc⟩)[m]?.map ArpCall.daddr = calls[m]?.map ArpCall.daddr := by
  by_cases hlm : l = m
  · subst hlm
    rw [List.getElem?_set_self (List.getElem?_eq_some_iff.mp hl).1, hl]
    rfl
  · rw [List.getElem?_set_ne hlm]

end

/-- Only a `PROBING` entry has a queue; every mbuf is in one place exactly when ARP owns it; and
an mbuf queued on an entry was passed by a call for that entry's IP. -/
structure ArpSys.Ok (s : ArpSys) : Prop where
  probing : ∀ e ∈ s.tbl, e.q ≠ [] → e.state = .probing
  places : ∀ m, s.places m = ownedBy s.calls m
  dest : ∀ e ∈ s.tbl, ∀ m ∈ e.q, s.calls[m]?.map ArpCall.daddr = some e.ip

theorem arpInit_ok : arpInit.Ok :=
  ⟨by simp [arpInit], fun m => by simp [arpInit, ArpSys.places, ownedBy], by simp [arpInit]⟩

namespace ArpSys.Ok
variable {s s' : ArpSys}

/-- A call moves to a point other than the return of `-EINPROGRESS`; the mbufs stay. -/
theorem of_set_call (hs : s.Ok) {l : Nat} {c : ArpCall} (hl : s.calls[l]? = some c)
    (hc : c.pc ≠ .done .einprogress) {pc : ArpLookupPc} (hpc : pc ≠ .done .einprogress)
    (htbl : s'.tbl = s.tbl) (hsent : s'.sent = s.sent) (hfreed : s'.freed = s.freed)
    (hcalls : s'.calls = s.calls.set l ⟨c.daddr, pc⟩) : s'.Ok := by
  refine ⟨?_, fun m => ?_, fun e he m hm => ?_⟩
  · rw [htbl]
    exact hs.probing
  · rw [hcalls, ownedBy_set_of_ne hl hc hpc, ← hs.places m]
    simp only [ArpSys.places, htbl, hsent, hfreed]
  · rw [htbl] at he
    rw [hcalls, daddr_set hl]
    exact hs.dest e he m hm

/-- Entry `i` is replaced by one with the same IP and queue, `PROBING` if that is not empty. -/
theorem of_set_entry (hs : s.Ok) {i : Nat} (hi : i < s.tbl.length) {e' : ArpEntry}
    (htbl : s'.tbl = s.tbl.set i e') (hcalls : s'.calls = s.calls) (hsent : s'.sent = s.sent)
    (hfreed : s'.freed = s.freed) (hq : e'.q = s.tbl[i].q) (hip : e'.ip = s.tbl[i].ip)
    (hst : e'.q ≠ [] → e'.state = .probing) : s'.Ok := by
  refine ⟨fun e he => ?_, fun m => ?_, fun e he m hm => ?_⟩
  · rw [htbl] at he
    rcases List.mem_or_eq_of_mem_set he with he | rfl
    · exact hs.probing e he
    · exact hst
  · have hc := count_flatMap_set hi ArpEntry.q e' m
    rw [hq] at hc
    rw [hcalls, ← hs.places m]
    simp only [ArpSys.places, htbl, hsent, hfreed]
    omega
  · rw [htbl] at he
    rw [hcalls]
    rcases List.mem_or_eq_of_mem_set he with he | rfl
    · exact hs.dest e he m hm
    · rw [hip]
      exact hs.dest _ (List.getElem_mem hi) m (hq ▸ hm)

theorem lookup (hs : s.Ok) (daddr : Nat) :
    ArpSys.Ok { s with calls := s.calls ++ [⟨daddr, .hot⟩] } := by
  refine ⟨hs.probing, fun m => ?_, fun e he m hm => ?_⟩
  · rw [ownedBy_append_hot]
    exact hs.places m
  · -- a queued mbuf belongs to an earlier call
    have h := hs.dest e he m hm
    obtain ⟨c, hc, -⟩ := Option.map_eq_some_iff.mp h
    show (s.calls ++ _)[m]?.map ArpCall.daddr = _
    rw [List.getElem?_append_left (List.getElem?_eq_some_iff.mp hc).1]
    exact h

theorem lookupHot (hs : s.Ok) {l : Nat} {ok : Bool} (h : arpLookupHot s l ok = some s') : s'.Ok := by
  unfold arpLookupHot at h
  split at h
  case h_2 => exact absurd h (by simp)
  rename_i daddr hl
  -- the call leaves `hot` for `cold` or for a return other than `-EINPROGRESS`
  split at h
  · split_ifs at h
    all_goals
      obtain rfl := Option.some.inj h
      exact hs.of_set_call hl (by simp) (by simp) rfl rfl rfl rfl
  · obtain rfl := Option.some.inj h
    exact hs.of_set_call hl (by simp) (by split <;> simp) rfl rfl rfl rfl

theorem lookupCold (hs : s.Ok) {l : Nat} (h : arpLookupCold s l = some s') : s'.Ok := by
  unfold arpLookupCold at h
  split at h
  case h_2 => exact absurd h (by simp)
  rename_i daddr newe hl
  have hown := fun m => ownedBy_set_einprogress hl (by simp) daddr m
  have hdaddr := daddr_set hl (.done .einprogress)
  have hself : (s.calls.set l ⟨daddr, .done .einprogress⟩)[l]?.map ArpCall.daddr = some daddr := by
    rw [List.getElem?_set_self (List.getElem?_eq_some_iff.mp hl).1]
    rfl
  split at h
  · rename_i i e hfound
    obtain ⟨hi, hip⟩ := lookupEntry_eq_some hfound
    obtain ⟨hlt, rfl⟩ := List.getElem?_eq_some_iff.mp hi
    split_ifs at h with hst
    · -- the entry resolved meanwhile: the mbuf stays with the caller
      obtain rfl := Option.some.inj h
      exact hs.of_set_call hl (by simp) (by simp) rfl rfl rfl rfl
    · -- queued on the `PROBING` entry
      obtain rfl := Option.some.inj h
      refine ⟨fun e he hq => ?_, fun m => ?_, fun e he m hm => ?_⟩
      · rcases List.mem_or_eq_of_mem_set he with he | rfl
        · exact hs.probing e he hq
        · exact not_not.mp hst
      · have hc := count_flatMap_set hlt ArpEntry.q { s.tbl[i] with q := s.tbl[i].q ++ [l] } m
        have hp := hs.places m
        simp only [ArpSys.places, List.count_append] at hc hp ⊢
        rw [hown]
        omega
      · rcases List.mem_or_eq_of_mem_set he with he | rfl
        · exact (hdaddr m).trans (hs.dest e he m hm)
        · rcases List.mem_append.mp hm with hm | hm
          · exact (hdaddr m).trans (hs.dest _ (List.getElem_mem hlt) m hm)
          · rw [List.mem_singleton.mp hm, hself, hip]
  · have hnone := lookupEntry_eq_none ‹_›
    split_ifs at h
    · -- a new `PROBING` entry holding the mbuf
      obtain rfl := Option.some.inj h
      refine ⟨fun e he hq => ?_, fun m => ?_, fun e he m hm => ?_⟩
      · rcases List.mem_cons.mp he with rfl | he
        · rfl
        · exact hs.probing e he hq
      · have hp := hs.places m
        simp only [ArpSys.places, List.flatMap_cons, List.count_append] at hp ⊢
        rw [hown]
        omega
      · rcases List.mem_cons.mp he with rfl | he
        · rw [List.mem_singleton.mp hm, hself]
          rfl
        · exact (hdaddr m).trans (hs.dest e he m hm)
    · -- no entry: the mbuf is freed at once
      obtain rfl := Option.some.inj h
      refine ⟨hs.probing, fun m => ?_, fun e he m hm => (hdaddr m).trans (hs.dest e he m hm)⟩
      have hp := hs.places m
      simp only [ArpSys.places, List.map_append, List.map_cons, List.map_nil,
        List.count_append] at hp ⊢
      rw [hown]
      omega

theorem update (hs : s.Ok) (daddr dhost : Nat) (ok : Bool) : (arpUpdate s daddr dhost ok).Ok := by
  unfold arpUpdate
  split
  · split_ifs
    · -- a new `VALID` entry, with an empty queue
      refine ⟨fun e he hq => ?_, fun m => ?_, fun e he m hm => ?_⟩
      · rcases List.mem_cons.mp he with rfl | he
        · exact absurd rfl hq
        · exact hs.probing e he hq
      · simpa [ArpSys.places, createEntry] using hs.places m
      · rcases List.mem_cons.mp he with rfl | he
        · simp [createEntry] at hm
        · exact hs.dest e he m hm
    · exact hs
  · rename_i i e hfound
    split_ifs
    · exact hs
    · -- the queue goes to `net_tx_eth`
      obtain ⟨hi, -⟩ := lookupEntry_eq_some hfound
      obtain ⟨hlt, rfl⟩ := List.getElem?_eq_some_iff.mp hi
      refine ⟨fun e he hq => ?_, fun m => ?_, fun e he m hm => ?_⟩
      · rcases List.mem_or_eq_of_mem_set he with he | rfl
        · exact hs.probing e he hq
        · exact absurd rfl hq
      · have hc := count_flatMap_set hlt ArpEntry.q { s.tbl[i] with eth := dhost, state := .valid, q := [] } m
        have hp := hs.places m
        simp only [ArpSys.places, List.map_append, List.map_map, Function.comp_def,
          List.map_id', List.count_append, List.count_nil] at hc hp ⊢
        omega
      · rcases List.mem_or_eq_of_mem_set he with he | rfl
        · exact hs.dest e he m hm
        · simp at hm

theorem age (hs : s.Ok) {i : Nat} (h : arpAgeEntry s i = some s') : s'.Ok := by
  unfold arpAgeEntry at h
  split at h
  case h_1 => exact absurd h (by simp)
  rename_i e hi
  obtain ⟨hlt, rfl⟩ := List.getElem?_eq_some_iff.mp hi
  split at h
  case h_1 | h_2 =>
    split_ifs at h
    · -- `delete_entry`: the queue is freed after `net_error`
      obtain rfl := Option.some.inj h
      refine ⟨fun e he => hs.probing e (List.mem_of_mem_eraseIdx he), fun m => ?_,
        fun e he => hs.dest e (List.mem_of_mem_eraseIdx he)⟩
      have hc := count_flatMap_eraseIdx hlt ArpEntry.q m
      have hp := hs.places m
      simp only [ArpSys.places, List.map_append, List.map_map, Function.comp_def,
        List.map_id', List.count_append] at hp ⊢
      omega
    · obtain rfl := Option.some.inj h
      exact hs.of_set_entry hlt rfl rfl rfl rfl rfl rfl
        (fun hq => hs.probing s.tbl[i] (List.getElem_mem hlt) hq)
  case h_3 hst =>
    -- a `VALID` entry has an empty queue
    obtain rfl := Option.some.inj h
    exact hs.of_set_entry hlt rfl rfl rfl rfl rfl rfl
      (fun hq => absurd (hs.probing _ (List.getElem_mem hlt) hq) (by rw [hst]; simp))
  case h_4 =>
    obtain rfl := Option.some.inj h
    exact hs

theorem initLate (hs : s.Ok) {statics : List (Nat × Nat)} (h : arpInitLate s statics = some s') :
    s'.Ok := by
  unfold arpInitLate at h
  split_ifs at h
  obtain rfl := Option.some.inj h
  -- the static entries come with empty queues
  have hnew : ∀ e ∈ (statics.map fun se => { createEntry se.1 with eth := se.2, state := .static }),
      e.q = [] := by
    intro e he
    obtain ⟨se, -, rfl⟩ := List.mem_map.mp he
    rfl
  refine ⟨fun e he hq => ?_, fun m => ?_, fun e he m hm => ?_⟩
  · rw [insertStatics_eq] at he
    rcases List.mem_append.mp he with he | he
    · exact absurd (hnew e (List.mem_reverse.mp he)) hq
    · exact hs.probing e he hq
  · have hp := hs.places m
    have hz : ((statics.map fun se => { createEntry se.1 with eth := se.2, state := .static }).reverse.flatMap ArpEntry.q) = [] :=
      List.flatMap_eq_nil_iff.mpr fun e he => hnew e (List.mem_reverse.mp he)
    simp only [ArpSys.places, insertStatics_eq, List.flatMap_append, hz, List.nil_append] at hp ⊢
    exact hp
  · rw [insertStatics_eq] at he
    rcases List.mem_append.mp he with he | he
    · rw [hnew e (List.mem_reverse.mp he)] at hm
      simp at hm
    · exact hs.dest e he m hm

end ArpSys.Ok

/-! ## The table's entries -/

/-- What a step other than `arp_init_late` does to the table: nothing, replace a non-static entry
by one for the same IP, insert a non-static entry for an IP that has none, or delete a non-static
entry. -/
inductive ArpTblMove (tbl : List ArpEntry) : List ArpEntry → Prop
  | same : ArpTblMove tbl tbl
  | set {i : Nat} (hi : i < tbl.length) (hst : tbl[i].state ≠ .static) (e' : ArpEntry)
      (hip : e'.ip = tbl[i].ip) : ArpTblMove tbl (tbl.set i e')
  | insert (e' : ArpEntry) (hnew : ∀ e ∈ tbl, e.ip ≠ e'.ip) (hst : e'.state ≠ .static) :
      ArpTblMove tbl (e' :: tbl)
  | erase {i : Nat} (hi : i < tbl.length) (hst : tbl[i].state ≠ .static) :
      ArpTblMove tbl (tbl.eraseIdx i)

theorem arpLookupHot_tbl {s s' : ArpSys} {l : Nat} {ok : Bool} (h : arpLookupHot s l ok = some s') :
    s'.tbl = s.tbl ∧ s'.late = s.late := by
  unfold arpLookupHot at h
  split at h
  case h_2 => exact absurd h (by simp)
  split at h
  · split_ifs at h <;> (obtain rfl := Option.some.inj h; exact ⟨rfl, rfl⟩)
  · obtain rfl := Option.some.inj h
    exact ⟨rfl, rfl⟩

theorem arpLookupCold_move {s s' : ArpSys} {l : Nat} (h : arpLookupCold s l = some s') :
    ArpTblMove s.tbl s'.tbl ∧ s'.late = s.late := by
  unfold arpLookupCold at h
  split at h
  case h_2 => exact absurd h (by simp)
  split at h
  · rename_i i e hfound
    obtain ⟨hi, hip⟩ := lookupEntry_eq_some hfound
    obtain ⟨hlt, rfl⟩ := List.getElem?_eq_some_iff.mp hi
    split_ifs at h with hst
    · obtain rfl := Option.some.inj h
      exact ⟨.same, rfl⟩
    · obtain rfl := Option.some.inj h
      exact ⟨.set hlt (by rw [not_not.mp hst]; simp) _ rfl, rfl⟩
  · rename_i hnone
    split_ifs at h
    · obtain rfl := Option.some.inj h
      exact ⟨.insert _ (lookupEntry_eq_none hnone) (by simp [createEntry]), rfl⟩
    · obtain rfl := Option.some.inj h
      exact ⟨.same, rfl⟩

theorem arpUpdate_move (s : ArpSys) (daddr dhost : Nat) (ok : Bool) :
    ArpTblMove s.tbl (arpUpdate s daddr dhost ok).tbl ∧ (arpUpdate s daddr dhost ok).late = s.late := by
  unfold arpUpdate
  split
  · rename_i hnone
    split_ifs
    · exact ⟨.insert _ (lookupEntry_eq_none hnone) (by simp), rfl⟩
    · exact ⟨.same, rfl⟩
  · rename_i i e hfound
    split_ifs with hst
    · exact ⟨.same, rfl⟩
    · obtain ⟨hi, -⟩ := lookupEntry_eq_some hfound
      obtain ⟨hlt, rfl⟩ := List.getElem?_eq_some_iff.mp hi
      exact ⟨.set hlt hst _ rfl, rfl⟩

theorem arpAgeEntry_move {s s' : ArpSys} {i : Nat} (h : arpAgeEntry s i = some s') :
    ArpTblMove s.tbl s'.tbl ∧ s'.late = s.late := by
  unfold arpAgeEntry at h
  split at h
  case h_1 => exact absurd h (by simp)
  rename_i e hi
  obtain ⟨hlt, rfl⟩ := List.getElem?_eq_some_iff.mp hi
  split at h
  case h_4 =>
    obtain rfl := Option.some.inj h
    exact ⟨.same, rfl⟩
  all_goals
    rename_i hst
    have hns : s.tbl[i].state ≠ .static := by rw [hst]; simp
    first
      | split_ifs at h
        · obtain rfl := Option.some.inj h
          exact ⟨.erase hlt hns, rfl⟩
        · obtain rfl := Option.some.inj h
          exact ⟨.set hlt hns _ rfl, rfl⟩
      | obtain rfl := Option.some.inj h
        exact ⟨.set hlt hns _ rfl, rfl⟩

/-- Every step but `arp_init_late` moves the table as `ArpTblMove` says; `arp_init_late` runs once
and puts the static entries in front. -/
theorem arpStep_move {s s' : ArpSys} {op : ArpOp} (h : arpStep s op = some s') :
    (ArpTblMove s.tbl s'.tbl ∧ s'.late = s.late) ∨
      ∃ statics, op = .initLate statics ∧ s.late = false ∧
        s'.tbl = insertStatics s.tbl statics ∧ s'.late = true := by
  cases op with
  | lookup daddr =>
    obtain rfl := Option.some.inj h
    exact .inl ⟨.same, rfl⟩
  | lookupHot l ok =>
    obtain ⟨htbl, hlate⟩ := arpLookupHot_tbl h
    exact .inl ⟨htbl ▸ .same, hlate⟩
  | lookupCold l => exact .inl (arpLookupCold_move h)
  | update daddr dhost ok =>
    obtain rfl := Option.some.inj h
    exact .inl (arpUpdate_move s daddr dhost ok)
  | age i => exact .inl (arpAgeEntry_move h)
  | initLate statics =>
    simp only [arpStep, arpInitLate] at h
    split_ifs at h with hlate
    obtain rfl := Option.some.inj h
    exact .inr ⟨statics, rfl, by simpa using hlate, rfl, rfl⟩

namespace ArpTblMove
variable {tbl tbl' : List ArpEntry}

theorem static_mem (hm : ArpTblMove tbl tbl') {e : ArpEntry} (he : e ∈ tbl)
    (hst : e.state = .static) : e ∈ tbl' := by
  cases hm with
  | same => exact he
  | set hi hst' e' => exact mem_set_of_ne hi he (fun h => hst' (h ▸ hst)) e'
  | insert e' => exact List.mem_cons_of_mem e' he
  | erase hi hst' => exact mem_eraseIdx_of_ne hi he (fun h => hst' (h ▸ hst))

theorem nodup (hm : ArpTblMove tbl tbl') (hn : (tbl.map ArpEntry.ip).Nodup) :
    (tbl'.map ArpEntry.ip).Nodup := by
  cases hm with
  | same => exact hn
  | @set i hi _ e' hip =>
    -- the IPs do not change
    have hi' : i < (tbl.map ArpEntry.ip).length := by rwa [List.length_map]
    have hki : (tbl.map ArpEntry.ip)[i] = e'.ip := by rw [List.getElem_map, hip]
    have : (tbl.set i e').map ArpEntry.ip = tbl.map ArpEntry.ip := by
      rw [List.map_set, ← hki, List.set_getElem_self]
    rw [this]
    exact hn
  | insert e' hnew =>
    rw [List.map_cons, List.nodup_cons]
    refine ⟨fun h => ?_, hn⟩
    obtain ⟨e, he, heq⟩ := List.mem_map.mp h
    exact hnew e he heq
  | erase hi => exact hn.sublist ((List.eraseIdx_sublist _ _).map _)

end ArpTblMove

/-- A static entry stays in the table through every step. -/
theorem arpStep_static_mem {s s' : ArpSys} {op : ArpOp} (h : arpStep s op = some s') {e : ArpEntry}
    (he : e ∈ s.tbl) (hst : e.state = .static) : e ∈ s'.tbl := by
  rcases arpStep_move h with ⟨hm, -⟩ | ⟨statics, -, -, htbl, -⟩
  · exact hm.static_mem he hst
  · rw [htbl, insertStatics_eq]
    exact List.mem_append_right _ he

theorem arpRun_static_mem {s s' : ArpSys} {ops : List ArpOp} (hrun : StepRun.run arpStep s ops = some s')
    {e : ArpEntry} (he : e ∈ s.tbl) (hst : e.state = .static) : e ∈ s'.tbl :=
  StepRun.Invariant.run (I := fun s : ArpSys => e ∈ s.tbl)
    (fun _ _ _ hs h => arpStep_static_mem h hs hst) he hrun

theorem insertStatics_nodup {tbl : List ArpEntry} {statics : List (Nat × Nat)}
    (hn : (tbl.map ArpEntry.ip).Nodup) (hs : (statics.map Prod.fst).Nodup)
    (hdisj : ∀ se ∈ statics, ∀ e ∈ tbl, e.ip ≠ se.1) :
    ((insertStatics tbl statics).map ArpEntry.ip).Nodup := by
  have hips : (statics.map fun se => { createEntry se.1 with eth := se.2, state := .static }).map
      ArpEntry.ip = statics.map Prod.fst := by
    simp [Function.comp_def, createEntry]
  rw [insertStatics_eq, List.map_append, List.map_reverse, hips, List.nodup_append]
  refine ⟨List.nodup_reverse.mpr hs, hn, fun a ha b hb hab => ?_⟩
  obtain ⟨se, hse, rfl⟩ := List.mem_map.mp (List.mem_reverse.mp ha)
  obtain ⟨e, he, rfl⟩ := List.mem_map.mp hb
  exact hdisj se hse e he hab.symm

theorem arpStep_ok {s s' : ArpSys} {op : ArpOp} (hs : s.Ok) (h : arpStep s op = some s') : s'.Ok := by
  cases op with
  | lookup daddr =>
    obtain rfl := Option.some.inj h
    exact hs.lookup daddr
  | lookupHot l ok => exact hs.lookupHot h
  | lookupCold l => exact hs.lookupCold h
  | update daddr dhost ok =>
    obtain rfl := Option.some.inj h
    exact hs.update daddr dhost ok
  | age i => exact hs.age h
  | initLate statics => exact hs.initLate h

theorem arpRun_ok {ops : List ArpOp} {s : ArpSys} (hrun : StepRun.run arpStep arpInit ops = some s) :
    s.Ok :=
  StepRun.Invariant.run (fun _ _ _ hs h => arpStep_ok hs h) arpInit_ok hrun

/-- Over every interleaving from `arp_init`: only a `PROBING` entry has queued mbufs; each mbuf
for which `arp_lookup` returned `-EINPROGRESS` is in exactly one place (queued on one entry,
passed to `net_tx_eth`, or freed) and no other mbuf is in any; a queued mbuf waits on an entry
for its own destination; and a static entry stays in the table through every continuation. -/
theorem arpRun_ownership {ops : List ArpOp} {s : ArpSys}
    (hrun : StepRun.run arpStep arpInit ops = some s) :
    (∀ e ∈ s.tbl, e.q ≠ [] → e.state = .probing) ∧
    (∀ m, s.places m = ownedBy s.calls m) ∧
    (∀ e ∈ s.tbl, ∀ m ∈ e.q, s.calls[m]?.map ArpCall.daddr = some e.ip) ∧
    (∀ e ∈ s.tbl, e.state = .static →
      ∀ ops' s', StepRun.run arpStep s ops' = some s' → e ∈ s'.tbl) := by
  have hs := arpRun_ok hrun
  exact ⟨hs.probing, hs.places, hs.dest, fun e he hst _ _ h => arpRun_static_mem h he hst⟩

theorem arpRun_ownership_three :
    ∃ s, StepRun.run arpStep arpInit [.initLate [(9, 1)], .lookup 5, .lookupHot 0 true,
        .lookupCold 0, .update 5 7 true] = some s ∧
      ((∀ e ∈ s.tbl, e.q ≠ [] → e.state = .probing) ∧
      (∀ m, s.places m = ownedBy s.calls m) ∧
      (∀ e ∈ s.tbl, ∀ m ∈ e.q, s.calls[m]?.map ArpCall.daddr = some e.ip) ∧
      (∀ e ∈ s.tbl, e.state = .static →
        ∀ ops' s', StepRun.run arpStep s ops' = some s' → e ∈ s'.tbl)) :=
  ⟨_, rfl, @arpRun_ownership [.initLate [(9, 1)], .lookup 5, .lookupHot 0 true, .lookupCold 0,
    .update 5 7 true] _ rfl⟩

/-- If `arp_init_late` runs before anything else, with distinct static IPs, the table keeps one
entry per IP over every interleaving that follows. -/
theorem arpRun_unique_of_late_first {statics : List (Nat × Nat)} {ops : List ArpOp} {s : ArpSys}
    (hstatics : (statics.map Prod.fst).Nodup)
    (hrun : StepRun.run arpStep arpInit (.initLate statics :: ops) = some s) :
    (s.tbl.map ArpEntry.ip).Nodup := by
  obtain ⟨s₁, h₁, hrun⟩ := StepRun.run_cons_eq_some.1 hrun
  -- afterwards `arp_init_late` is refused, and every other step is an `ArpTblMove`
  have hI : StepRun.Invariant arpStep
      (fun s : ArpSys => s.late = true ∧ (s.tbl.map ArpEntry.ip).Nodup) := by
    rintro s s' _ ⟨hlate, hn⟩ h
    rcases arpStep_move h with ⟨hm, hl⟩ | ⟨_, _, hl, _, _⟩
    · exact ⟨hl.trans hlate, hm.nodup hn⟩
    · exact absurd (hlate.symm.trans hl) (by simp)
  have h₁' : s₁.late = true ∧ (s₁.tbl.map ArpEntry.ip).Nodup := by
    simp only [arpStep, arpInitLate, arpInit, Bool.false_eq_true, if_false] at h₁
    obtain rfl := Option.some.inj h₁
    exact ⟨rfl, insertStatics_nodup List.nodup_nil hstatics (by simp)⟩
  exact (hI.run h₁' hrun).2

theorem arpRun_unique_of_late_first_two :
    ∃ s, ([(9, 1), (4, 2)].map Prod.fst).Nodup ∧
      StepRun.run arpStep arpInit [.initLate [(9, 1), (4, 2)], .lookup 5, .lookupHot 0 true,
        .lookupCold 0, .update 9 3 true, .update 5 7 true] = some s ∧
      (s.tbl.map ArpEntry.ip).Nodup :=
  ⟨_, by decide, rfl, @arpRun_unique_of_late_first [(9, 1), (4, 2)] [.lookup 5, .lookupHot 0 true,
    .lookupCold 0, .update 9 3 true, .update 5 7 true] _ (by decide) rfl⟩

/-- A lookup for `5` made while `arp_init_late` runs leaves a `PROBING` entry behind the static
entry for `5`: two entries for one IP. `lookup_entry` then always stops at the static one, so the
reply from `5` never reaches the queued mbuf, which the aging pass frees with `EHOSTUNREACH`.
Apart from that, an mbuf queued behind a `PROBING` entry that is deleted between the RCU read and
`arp_lock` is freed without `net_error`. -/
theorem arpInitLate_duplicate_entry :
    StepRun.run arpStep arpInit [.lookup 5, .lookupHot 0 true, .lookupCold 0, .initLate [(5, 7)]] =
      some ⟨[⟨.static, 5, 7, [], 3⟩, ⟨.probing, 5, 0, [0], 3⟩], [⟨5, .done .einprogress⟩], [], [],
        [5], true⟩ ∧
    StepRun.run arpStep ⟨[⟨.static, 5, 7, [], 3⟩, ⟨.probing, 5, 0, [0], 3⟩],
        [⟨5, .done .einprogress⟩], [], [], [5], true⟩
      [.update 5 7 true, .age 1, .age 1, .age 1, .age 1] =
      some ⟨[⟨.static, 5, 7, [], 3⟩], [⟨5, .done .einprogress⟩], [], [(0, true)], [5, 5, 5, 5],
        true⟩ ∧
    StepRun.run arpStep arpInit [.lookup 5, .lookupHot 0 true, .lookupCold 0, .lookup 5,
        .lookupHot 1 true, .age 0, .age 0, .age 0, .age 0, .lookupCold 1] =
      some ⟨[], [⟨5, .done .einprogress⟩, ⟨5, .done .einprogress⟩], [], [(0, true), (1, false)],
        [5, 5, 5, 5], false⟩ :=
  ⟨by decide, by decide, by decide⟩

end Caladan
