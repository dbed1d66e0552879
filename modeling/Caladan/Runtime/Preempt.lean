import Mathlib
import Caladan.Lib.Run
import Caladan.Lib.Bits

/-!
# The preemption counter of a kthread (`inc/runtime/preempt.h`, `runtime/preempt.c`)

`preempt_cnt` holds the nesting depth of `preempt_disable` in its low 31 bits and, in its top
bit, `PREEMPT_NOT_PENDING`, clear while a preemption request waits. The running uthread changes
the depth with single `addl` and `subl` instructions; `preempt_enable` keeps the zero flag of its
`subl` and calls `preempt()` on it. The iokernel's signals run their handlers on top of the
uthread: `SIGUSR2` may nest in itself, and `SIGUSR1` blocks both while it runs. The C
read-modify-writes of `preempt_cnt` (`set_preempt_needed`, `clear_preempt_needed`) are a load
and a store, with an instruction boundary between them.

`thread_cede` and `thread_yield` are one step, from their call to their return into the thread.
The thread comes back through `__jmp_thread`, whose `subl` calls `preempt()` while a request is
pending and the depth reaches zero, and `kthread_park` clears `preempt_cede`, so the thread
returns with depth zero and no request: `preempt_cnt = PREEMPT_NOT_PENDING` and `preempt_cede`
false. The nesting depth and the calls of `thread_cede` and `thread_yield` are ghost fields.
-/

namespace Caladan

/-- `PREEMPT_NOT_PENDING` -/
def preemptNotPending : UInt32 := (1 : UInt32) <<< 31

/-- `preempt_needed` -/
def preemptNeeded (cnt : UInt32) : Bool := cnt &&& preemptNotPending == 0

/-- `preempt_enabled` -/
def preemptEnabled (cnt : UInt32) : Bool := cnt &&& ~~~preemptNotPending == 0

/-- `preempt_cnt & ~PREEMPT_NOT_PENDING` -/
def preemptDepth (cnt : UInt32) : Nat := (cnt &&& ~~~preemptNotPending).toNat

/-- The value `set_preempt_needed` stores after loading `v`. -/
def setPreemptNeeded (v : UInt32) : UInt32 := v &&& ~~~preemptNotPending

/-- The value `clear_preempt_needed` stores after loading `v`. -/
def clearPreemptNeeded (v : UInt32) : UInt32 := v ||| preemptNotPending

theorem preemptNotPending_toNat : preemptNotPending.toNat = 2 ^ 31 := rfl

theorem toNat_and_not_preemptNotPending (c : UInt32) :
    (c &&& ~~~preemptNotPending).toNat = c.toNat % 2 ^ 31 := by
  rw [UInt32.toNat_and, UInt32.toNat_not, preemptNotPending_toNat,
    show UInt32.size - 1 - 2 ^ 31 = 2 ^ 31 - 1 from rfl, Nat.and_two_pow_sub_one_eq_mod]

@[simp] theorem preemptDepth_eq (c : UInt32) : preemptDepth c = c.toNat % 2 ^ 31 :=
  toNat_and_not_preemptNotPending c

@[simp] theorem setPreemptNeeded_toNat (v : UInt32) :
    (setPreemptNeeded v).toNat = v.toNat % 2 ^ 31 :=
  toNat_and_not_preemptNotPending v

@[simp] theorem clearPreemptNeeded_toNat (v : UInt32) :
    (clearPreemptNeeded v).toNat = 2 ^ 31 + v.toNat % 2 ^ 31 := by
  rw [clearPreemptNeeded, UInt32.toNat_or, preemptNotPending_toNat]
  exact Bits.or_two_pow_of_lt v.toNat_lt

@[simp] theorem preemptNeeded_iff (c : UInt32) : preemptNeeded c = true ↔ c.toNat < 2 ^ 31 := by
  rw [preemptNeeded, beq_iff_eq, ← UInt32.toNat_inj, UInt32.toNat_and, preemptNotPending_toNat,
    UInt32.toNat_zero]
  exact Bits.and_two_pow_eq_zero_iff c.toNat_lt

@[simp] theorem preemptEnabled_iff (c : UInt32) :
    preemptEnabled c = true ↔ c.toNat % 2 ^ 31 = 0 := by
  rw [preemptEnabled, beq_iff_eq, ← UInt32.toNat_inj, toNat_and_not_preemptNotPending,
    UInt32.toNat_zero]

/-- `thread_cede` or `thread_yield` -/
inductive PreemptCallKind
  | cede
  | yield
deriving DecidableEq, Repr

/-- The code that called `thread_cede` or `thread_yield`. -/
inductive PreemptCaller
  | handleSigusr1
  | handleSigusr2
  | preempt
deriving DecidableEq, Repr

/-- A call of `thread_cede` or `thread_yield`, with the uthread's nesting depth at the call. -/
structure PreemptCall where
  kind : PreemptCallKind
  caller : PreemptCaller
  depth : Nat
deriving DecidableEq, Repr

/-- Where the running uthread is. -/
inductive UthreadPc
  /-- between `preempt_disable` and `preempt_enable` calls -/
  | run
  /-- `preempt_enable` after its `subl`, at the test of the zero flag it set -/
  | enableTest (zero : Bool)
  /-- `preempt()` entered, at `clear_preempt_needed`'s load -/
  | preempt
  /-- `clear_preempt_needed`'s store of the loaded value -/
  | preemptStore (v : UInt32)
  /-- `preempt()`'s test of `preempt_cede` -/
  | preemptCede
deriving DecidableEq, Repr

/-- The places where the uthread's depth is zero: in `preempt()`, or at a test whose `subl` left
zero. -/
def UthreadPc.atZero : UthreadPc → Bool
  | .run => false
  | .enableTest zero => zero
  | _ => true

/-- The value a load of `clear_preempt_needed` holds. -/
def UthreadPc.saved : UthreadPc → Option UInt32
  | .preemptStore v => some v
  | _ => none

/-- Where `handle_sigusr1` is. -/
inductive Sigusr1Pc
  /-- `set_preempt_needed`'s load -/
  | load
  | store (v : UInt32)
  /-- `preempt_cede = true` -/
  | cede
  /-- `if (!preempt_enabled()) return; thread_cede();` -/
  | check
deriving DecidableEq, Repr

/-- Where `handle_sigusr2` is. -/
inductive Sigusr2Pc
  /-- `if (preempt_cede) return;` -/
  | cede
  /-- `if (!preempt_enabled())`, then `set_preempt_needed`, else `thread_yield` -/
  | check
  | load
  | store (v : UInt32)
deriving DecidableEq, Repr

/-- A signal handler running on the uthread's stack. -/
inductive Handler
  | sigusr1 (pc : Sigusr1Pc)
  | sigusr2 (pc : Sigusr2Pc)
deriving DecidableEq, Repr

/-- The value a load of `set_preempt_needed` holds. -/
def Handler.saved : Handler → Option UInt32
  | .sigusr1 (.store v) => some v
  | .sigusr2 (.store v) => some v
  | _ => none

/-- The signals the iokernel preempts a kthread with. -/
inductive PreemptSig
  | sigusr1
  | sigusr2
deriving DecidableEq, Repr

/-- The handler a delivered signal starts. -/
def PreemptSig.entry : PreemptSig → Handler
  | .sigusr1 => .sigusr1 .load
  | .sigusr2 => .sigusr2 .cede

/-- `SIGUSR1`'s `sa_mask` holds both signals while its handler runs. -/
def Handler.blocks : Handler → Bool
  | .sigusr1 _ => true
  | .sigusr2 _ => false

/-- A kthread's preemption state, with the uthread it runs and the handlers on top of it. -/
structure PreemptKthread where
  preemptCnt : UInt32
  preemptCede : Bool
  pc : UthreadPc
  /-- the running handlers, the innermost first -/
  handlers : List Handler
  /-- the uthread's `preempt_disable` calls not yet matched -/
  depth : Nat
  /-- the calls of `thread_cede` and `thread_yield` so far -/
  calls : List PreemptCall

namespace PreemptKthread

/-- `preempt_cnt = PREEMPT_NOT_PENDING`, with the uthread running outside any section. -/
def init : PreemptKthread := ⟨preemptNotPending, false, .run, [], 0, []⟩

/-- `preempt_disable` -/
def preemptDisable (k : PreemptKthread) : PreemptKthread :=
  { k with preemptCnt := k.preemptCnt + 1, depth := k.depth + 1 }

/-- `preempt_enable_nocheck` -/
def preemptEnableNocheck (k : PreemptKthread) : PreemptKthread :=
  { k with preemptCnt := k.preemptCnt - 1, depth := k.depth - 1 }

/-- `preempt_enable` up to its test: the `subl` and the zero flag it sets. -/
def preemptEnable (k : PreemptKthread) : PreemptKthread :=
  { k with
    preemptCnt := k.preemptCnt - 1
    depth := k.depth - 1
    pc := .enableTest (k.preemptCnt - 1 == 0) }

/-- `thread_cede` or `thread_yield`, from the call to the return into the thread. -/
def reschedule (k : PreemptKthread) (kind : PreemptCallKind) (caller : PreemptCaller) :
    PreemptKthread :=
  { k with
    preemptCnt := preemptNotPending
    preemptCede := false
    calls := k.calls ++ [⟨kind, caller, k.depth⟩] }

/-- `thread_cede` -/
def threadCede (k : PreemptKthread) (caller : PreemptCaller) : PreemptKthread :=
  k.reschedule .cede caller

/-- `thread_yield` -/
def threadYield (k : PreemptKthread) (caller : PreemptCaller) : PreemptKthread :=
  k.reschedule .yield caller

section Reschedule

variable (k : PreemptKthread) (kind : PreemptCallKind) (caller : PreemptCaller)

@[simp] theorem threadCede_eq : k.threadCede caller = k.reschedule .cede caller := rfl
@[simp] theorem threadYield_eq : k.threadYield caller = k.reschedule .yield caller := rfl
@[simp] theorem reschedule_preemptCnt : (k.reschedule kind caller).preemptCnt = preemptNotPending :=
  rfl
@[simp] theorem reschedule_preemptCede : (k.reschedule kind caller).preemptCede = false := rfl
@[simp] theorem reschedule_pc : (k.reschedule kind caller).pc = k.pc := rfl
@[simp] theorem reschedule_handlers : (k.reschedule kind caller).handlers = k.handlers := rfl
@[simp] theorem reschedule_depth : (k.reschedule kind caller).depth = k.depth := rfl
@[simp] theorem reschedule_calls :
    (k.reschedule kind caller).calls = k.calls ++ [⟨kind, caller, k.depth⟩] := rfl

end Reschedule

/-- The uthread's next instruction in `preempt_enable`'s test and in `preempt()`; `none` between
them, where it makes its own calls. -/
def uthreadNext (k : PreemptKthread) : Option PreemptKthread :=
  match k.pc with
  | .run => none
  | .enableTest zero => some { k with pc := if zero then .preempt else .run }
  | .preempt => some { k with pc := .preemptStore k.preemptCnt }
  | .preemptStore v => some { k with preemptCnt := clearPreemptNeeded v, pc := .preemptCede }
  | .preemptCede =>
    some { (if k.preemptCede then k.threadCede .preempt else k.threadYield .preempt) with
      pc := .run }

/-- The next instruction of `handle_sigusr1`, under the handlers `hs`. -/
def handleSigusr1 (k : PreemptKthread) (hs : List Handler) : Sigusr1Pc → PreemptKthread
  | .load => { k with handlers := .sigusr1 (.store k.preemptCnt) :: hs }
  | .store v => { k with preemptCnt := setPreemptNeeded v, handlers := .sigusr1 .cede :: hs }
  | .cede => { k with preemptCede := true, handlers := .sigusr1 .check :: hs }
  | .check =>
    if !preemptEnabled k.preemptCnt then { k with handlers := hs }
    else { k.threadCede .handleSigusr1 with handlers := hs }

/-- The next instruction of `handle_sigusr2`, under the handlers `hs`. -/
def handleSigusr2 (k : PreemptKthread) (hs : List Handler) : Sigusr2Pc → PreemptKthread
  | .cede => if k.preemptCede then { k with handlers := hs }
    else { k with handlers := .sigusr2 .check :: hs }
  | .check =>
    if !preemptEnabled k.preemptCnt then { k with handlers := .sigusr2 .load :: hs }
    else { k.threadYield .handleSigusr2 with handlers := hs }
  | .load => { k with handlers := .sigusr2 (.store k.preemptCnt) :: hs }
  | .store v => { k with preemptCnt := setPreemptNeeded v, handlers := hs }

end PreemptKthread

/-- What can happen next on the kthread: the uthread's own calls, the next instruction of the
innermost running code, or the delivery of a signal. -/
inductive PreemptOp
  | disable
  | enable
  | enableNocheck
  | next
  | deliver (sig : PreemptSig)

open PreemptKthread in
/-- One step. The uthread's calls are properly nested, with the depth below `2 ^ 31`. -/
def preemptStep (k : PreemptKthread) : PreemptOp → Option PreemptKthread
  | .disable =>
    if k.handlers = [] ∧ k.pc = .run ∧ k.depth + 1 < 2 ^ 31 then some k.preemptDisable else none
  | .enable => if k.handlers = [] ∧ k.pc = .run ∧ 0 < k.depth then some k.preemptEnable else none
  | .enableNocheck =>
    if k.handlers = [] ∧ k.pc = .run ∧ 0 < k.depth then some k.preemptEnableNocheck else none
  | .next =>
    match k.handlers with
    | [] => k.uthreadNext
    | .sigusr1 pc :: hs => some (k.handleSigusr1 hs pc)
    | .sigusr2 pc :: hs => some (k.handleSigusr2 hs pc)
  | .deliver sig =>
    if k.handlers.any Handler.blocks then none
    else some { k with handlers := sig.entry :: k.handlers }

namespace PreemptKthread

variable {k k' : PreemptKthread} {op : PreemptOp}

/-- The low bits of `preempt_cnt`, and of every value loaded and not yet stored back, are the
nesting depth; the depth is zero wherever `preempt()` runs, and at every call of `thread_cede`
and `thread_yield`. -/
structure Ok (k : PreemptKthread) : Prop where
  depth_eq : k.preemptCnt.toNat % 2 ^ 31 = k.depth
  depth_lt : k.depth < 2 ^ 31
  saved_pc : ∀ v, k.pc.saved = some v → v.toNat % 2 ^ 31 = k.depth
  saved_handlers : ∀ h ∈ k.handlers, ∀ v, h.saved = some v → v.toNat % 2 ^ 31 = k.depth
  zero : k.pc.atZero = true → k.depth = 0
  calls : ∀ c ∈ k.calls, c.depth = 0

theorem init_ok : init.Ok where
  depth_eq := rfl
  depth_lt := by decide
  saved_pc _ h := by simp [init, UthreadPc.saved] at h
  saved_handlers _ h := absurd h List.not_mem_nil
  zero h := by simp [init, UthreadPc.atZero] at h
  calls _ h := absurd h List.not_mem_nil

/-- The uthread's instruction: a word with the depth in its low bits, and a place whose loaded
value is the depth and which is at depth zero where `preempt()` runs. -/
theorem Ok.uthread (h : k.Ok) {c : UInt32} {p : UthreadPc} (hc : c.toNat % 2 ^ 31 = k.depth)
    (hp : ∀ v, p.saved = some v → v.toNat % 2 ^ 31 = k.depth) (hz : p.atZero = true → k.depth = 0) :
    Ok { k with preemptCnt := c, pc := p } :=
  ⟨hc, h.depth_lt, hp, h.saved_handlers, hz, h.calls⟩

/-- A handler's instruction: a word with the depth in its low bits, and handlers whose loaded
values are the depth. -/
theorem Ok.frame (h : k.Ok) {c : UInt32} {b : Bool} {hs : List Handler}
    (hc : c.toNat % 2 ^ 31 = k.depth)
    (hhs : ∀ x ∈ hs, ∀ v, x.saved = some v → v.toNat % 2 ^ 31 = k.depth) :
    Ok { k with preemptCnt := c, preemptCede := b, handlers := hs } :=
  ⟨hc, h.depth_lt, h.saved_pc, hhs, h.zero, h.calls⟩

theorem Ok.saved_head (h : k.Ok) {x : Handler} {hs : List Handler} (hk : k.handlers = x :: hs) :
    ∀ v, x.saved = some v → v.toNat % 2 ^ 31 = k.depth :=
  h.saved_handlers x (hk ▸ List.mem_cons_self)

theorem Ok.saved_tail (h : k.Ok) {x : Handler} {hs : List Handler} (hk : k.handlers = x :: hs) :
    ∀ y ∈ hs, ∀ v, y.saved = some v → v.toNat % 2 ^ 31 = k.depth :=
  fun y hy => h.saved_handlers y (hk ▸ List.mem_cons_of_mem x hy)

/-- A handler that holds no loaded value, or holds the word, on top of the others. -/
theorem saved_cons {d : Nat} {x : Handler} {hs : List Handler}
    (hx : ∀ v, x.saved = some v → v.toNat % 2 ^ 31 = d)
    (hhs : ∀ y ∈ hs, ∀ v, y.saved = some v → v.toNat % 2 ^ 31 = d) :
    ∀ y ∈ x :: hs, ∀ v, y.saved = some v → v.toNat % 2 ^ 31 = d :=
  List.forall_mem_cons.mpr ⟨hx, hhs⟩

/-- `thread_cede` and `thread_yield`, called at depth zero. -/
theorem Ok.reschedule (h : k.Ok) (h0 : k.depth = 0) (kind : PreemptCallKind)
    (caller : PreemptCaller) : (k.reschedule kind caller).Ok := by
  refine ⟨?_, h.depth_lt, h.saved_pc, h.saved_handlers, h.zero, fun c hc => ?_⟩
  · simp [preemptNotPending_toNat, h0]
  · rw [reschedule_calls] at hc
    rcases List.mem_append.mp hc with hc | hc
    · exact h.calls c hc
    · rw [List.mem_singleton.mp hc]
      exact h0

theorem Ok.preemptDisable (h : k.Ok) (hpc : k.pc = .run) (hk : k.handlers = [])
    (hd : k.depth + 1 < 2 ^ 31) : k.preemptDisable.Ok := by
  have hlt := k.preemptCnt.toNat_lt
  have heq := h.depth_eq
  refine ⟨?_, hd, fun v hv => ?_, fun _ hx => absurd hx (by simp [PreemptKthread.preemptDisable, hk]),
    fun hz => ?_, h.calls⟩
  · simp only [PreemptKthread.preemptDisable, UInt32.toNat_add, UInt32.toNat_one]
    omega
  · simp [PreemptKthread.preemptDisable, hpc, UthreadPc.saved] at hv
  · simp [PreemptKthread.preemptDisable, hpc, UthreadPc.atZero] at hz

/-- The `subl` of `preempt_enable` and `preempt_enable_nocheck` at a positive depth. -/
theorem toNat_sub_one_of_depth (h : k.Ok) (hd : 0 < k.depth) :
    (k.preemptCnt - 1).toNat = k.preemptCnt.toNat - 1 := by
  have heq := h.depth_eq
  rw [UInt32.toNat_sub_of_le _ _ (by rw [UInt32.le_iff_toNat_le, UInt32.toNat_one]; omega),
    UInt32.toNat_one]

theorem Ok.preemptEnableNocheck (h : k.Ok) (hpc : k.pc = .run) (hk : k.handlers = [])
    (hd : 0 < k.depth) : k.preemptEnableNocheck.Ok := by
  have heq := h.depth_eq
  have hsub := toNat_sub_one_of_depth h hd
  refine ⟨?_, by simp [PreemptKthread.preemptEnableNocheck]; omega, fun v hv => ?_,
    fun _ hx => absurd hx (by simp [PreemptKthread.preemptEnableNocheck, hk]), fun hz => ?_, h.calls⟩
  · simp only [PreemptKthread.preemptEnableNocheck, hsub]
    omega
  · simp [PreemptKthread.preemptEnableNocheck, hpc, UthreadPc.saved] at hv
  · simp [PreemptKthread.preemptEnableNocheck, hpc, UthreadPc.atZero] at hz

/-- The zero flag of `preempt_enable`'s `subl` is set exactly when the outermost section ends
with a request pending. -/
theorem Ok.enable_zero_iff (h : k.Ok) (hd : 0 < k.depth) :
    (k.preemptCnt - 1 == 0) = true ↔ k.depth = 1 ∧ preemptNeeded k.preemptCnt = true := by
  have heq := h.depth_eq
  have hsub := toNat_sub_one_of_depth h hd
  rw [beq_iff_eq, ← UInt32.toNat_inj, hsub, UInt32.toNat_zero, preemptNeeded_iff]
  omega

theorem Ok.preemptEnable (h : k.Ok) (hk : k.handlers = []) (hd : 0 < k.depth) :
    k.preemptEnable.Ok := by
  have heq := h.depth_eq
  have hsub := toNat_sub_one_of_depth h hd
  refine ⟨?_, by simp [PreemptKthread.preemptEnable]; omega, fun v hv => ?_,
    fun _ hx => absurd hx (by simp [PreemptKthread.preemptEnable, hk]), fun hz => ?_, h.calls⟩
  · simp only [PreemptKthread.preemptEnable, hsub]
    omega
  · simp [PreemptKthread.preemptEnable, UthreadPc.saved] at hv
  · -- the flag is set only when the depth reaches zero
    simp only [PreemptKthread.preemptEnable, UthreadPc.atZero] at hz ⊢
    have := ((h.enable_zero_iff hd).mp hz).1
    omega

theorem Ok.handleSigusr1 (h : k.Ok) {pc : Sigusr1Pc} {hs : List Handler}
    (hk : k.handlers = .sigusr1 pc :: hs) : (k.handleSigusr1 hs pc).Ok := by
  have htail := h.saved_tail hk
  cases pc with
  | load =>
    refine h.frame h.depth_eq (saved_cons (fun v hv => ?_) htail)
    cases hv
    exact h.depth_eq
  | store v =>
    refine h.frame ?_ (saved_cons (fun _ hv => by cases hv) htail)
    rw [setPreemptNeeded_toNat, Nat.mod_mod]
    exact h.saved_head hk v rfl
  | cede => exact h.frame h.depth_eq (saved_cons (fun _ hv => by cases hv) htail)
  | check =>
    simp only [PreemptKthread.handleSigusr1]
    split_ifs with hen
    · exact h.frame h.depth_eq htail
    · -- `thread_cede` runs at depth zero
      have h0 : k.depth = 0 := by
        have := (preemptEnabled_iff _).mp (by simpa using hen)
        rw [← h.depth_eq, this]
      exact (h.reschedule h0 _ _).frame (by simp [preemptNotPending_toNat, h0]) htail

theorem Ok.handleSigusr2 (h : k.Ok) {pc : Sigusr2Pc} {hs : List Handler}
    (hk : k.handlers = .sigusr2 pc :: hs) : (k.handleSigusr2 hs pc).Ok := by
  have htail := h.saved_tail hk
  cases pc with
  | cede =>
    simp only [PreemptKthread.handleSigusr2]
    split_ifs
    · exact h.frame h.depth_eq htail
    · exact h.frame h.depth_eq (saved_cons (fun _ hv => by cases hv) htail)
  | check =>
    simp only [PreemptKthread.handleSigusr2]
    split_ifs with hen
    · exact h.frame h.depth_eq (saved_cons (fun _ hv => by cases hv) htail)
    · -- `thread_yield` runs at depth zero
      have h0 : k.depth = 0 := by
        have := (preemptEnabled_iff _).mp (by simpa using hen)
        rw [← h.depth_eq, this]
      exact (h.reschedule h0 _ _).frame (by simp [preemptNotPending_toNat, h0]) htail
  | load =>
    refine h.frame h.depth_eq (saved_cons (fun v hv => ?_) htail)
    cases hv
    exact h.depth_eq
  | store v =>
    refine h.frame ?_ htail
    rw [setPreemptNeeded_toNat, Nat.mod_mod]
    exact h.saved_head hk v rfl

theorem Ok.uthreadNext (h : k.Ok) (hs : k.uthreadNext = some k') : k'.Ok := by
  have hz := h.zero
  cases hpc : k.pc with
  | run => simp [PreemptKthread.uthreadNext, hpc] at hs
  | enableTest zero =>
    simp only [PreemptKthread.uthreadNext, hpc, Option.some.injEq] at hs
    subst hs
    -- the test leads into `preempt()` only on a flag set at depth zero
    cases zero
    · exact h.uthread h.depth_eq (fun _ hv => by cases hv) (fun hz' => by cases hz')
    · exact h.uthread h.depth_eq (fun _ hv => by cases hv) (fun _ => hz (by rw [hpc]; rfl))
  | preempt =>
    simp only [PreemptKthread.uthreadNext, hpc, Option.some.injEq] at hs
    subst hs
    refine h.uthread h.depth_eq (fun v hv => ?_) (fun _ => hz (by rw [hpc]; rfl))
    cases hv
    exact h.depth_eq
  | preemptStore v =>
    simp only [PreemptKthread.uthreadNext, hpc, Option.some.injEq] at hs
    subst hs
    refine h.uthread ?_ (fun _ hv => by cases hv) (fun _ => hz (by rw [hpc]; rfl))
    have hv := h.saved_pc v (by rw [hpc]; rfl)
    simp only [clearPreemptNeeded_toNat]
    omega
  | preemptCede =>
    simp only [PreemptKthread.uthreadNext, hpc, Option.some.injEq] at hs
    subst hs
    have h0 : k.depth = 0 := hz (by rw [hpc]; rfl)
    -- `thread_cede` or `thread_yield`, at depth zero
    have hr : ∀ kind, (k.reschedule kind .preempt).Ok := fun kind => h.reschedule h0 kind _
    split_ifs
    · exact (hr .cede).uthread (by simp [preemptNotPending_toNat, h0]) (fun _ hv => by cases hv)
        (fun hz' => by cases hz')
    · exact (hr .yield).uthread (by simp [preemptNotPending_toNat, h0]) (fun _ hv => by cases hv)
        (fun hz' => by cases hz')

/-- A handler's instruction keeps a pending request, unless it calls `thread_cede` or
`thread_yield`. -/
theorem handleSigusr1_keeps {hs : List Handler} (pc : Sigusr1Pc) (hp : k.preemptCnt.toNat < 2 ^ 31) :
    (k.handleSigusr1 hs pc).preemptCnt.toNat < 2 ^ 31 ∨
      ∃ c, (k.handleSigusr1 hs pc).calls = k.calls ++ [c] := by
  cases pc with
  | load | cede => exact .inl hp
  | store v =>
    left
    simp only [PreemptKthread.handleSigusr1, setPreemptNeeded_toNat]
    omega
  | check =>
    simp only [PreemptKthread.handleSigusr1]
    split_ifs
    · exact .inl hp
    · exact .inr ⟨_, rfl⟩

theorem handleSigusr2_keeps {hs : List Handler} (pc : Sigusr2Pc) (hp : k.preemptCnt.toNat < 2 ^ 31) :
    (k.handleSigusr2 hs pc).preemptCnt.toNat < 2 ^ 31 ∨
      ∃ c, (k.handleSigusr2 hs pc).calls = k.calls ++ [c] := by
  cases pc with
  | load => exact .inl hp
  | cede =>
    simp only [PreemptKthread.handleSigusr2]
    split_ifs <;> exact .inl hp
  | store v =>
    left
    simp only [PreemptKthread.handleSigusr2, setPreemptNeeded_toNat]
    omega
  | check =>
    simp only [PreemptKthread.handleSigusr2]
    split_ifs
    · exact .inl hp
    · exact .inr ⟨_, rfl⟩

/-- The uthread's instruction keeps a pending request, unless it is `clear_preempt_needed`'s store
or a call of `thread_cede` or `thread_yield`. -/
theorem uthreadNext_keeps (hs : k.uthreadNext = some k') (hp : k.preemptCnt.toNat < 2 ^ 31) :
    k'.preemptCnt.toNat < 2 ^ 31 ∨ (∃ v, k.pc = .preemptStore v) ∨ ∃ c, k'.calls = k.calls ++ [c] := by
  cases hpc : k.pc with
  | run => simp [PreemptKthread.uthreadNext, hpc] at hs
  | enableTest zero | preempt =>
    simp only [PreemptKthread.uthreadNext, hpc, Option.some.injEq] at hs
    subst hs
    exact .inl hp
  | preemptStore v => exact .inr (.inl ⟨v, rfl⟩)
  | preemptCede =>
    simp only [PreemptKthread.uthreadNext, hpc, Option.some.injEq] at hs
    subst hs
    split_ifs <;> exact .inr (.inr ⟨_, rfl⟩)

theorem Ok.deliver (h : k.Ok) (sig : PreemptSig) :
    Ok { k with handlers := sig.entry :: k.handlers } :=
  h.frame h.depth_eq (saved_cons (fun _ hv => by cases sig <;> cases hv) h.saved_handlers)

end PreemptKthread

open PreemptKthread in
theorem preemptStep_ok : StepRun.Invariant preemptStep PreemptKthread.Ok := by
  intro k op k' h hs
  cases op with
  | disable =>
    obtain ⟨hg, hs⟩ := Option.ite_none_right_eq_some.mp hs
    cases hs
    exact h.preemptDisable hg.2.1 hg.1 hg.2.2
  | enable =>
    obtain ⟨hg, hs⟩ := Option.ite_none_right_eq_some.mp hs
    cases hs
    exact h.preemptEnable hg.1 hg.2.2
  | enableNocheck =>
    obtain ⟨hg, hs⟩ := Option.ite_none_right_eq_some.mp hs
    cases hs
    exact h.preemptEnableNocheck hg.2.1 hg.1 hg.2.2
  | next =>
    simp only [preemptStep] at hs
    split at hs
    · exact h.uthreadNext hs
    · rename_i hk
      cases hs
      exact h.handleSigusr1 hk
    · rename_i hk
      cases hs
      exact h.handleSigusr2 hk
  | deliver sig =>
    simp only [preemptStep] at hs
    split_ifs at hs
    cases hs
    exact h.deliver sig

namespace PreemptKthread

variable {k k' : PreemptKthread} {op : PreemptOp}

/-- A request that is pending stays pending, whatever the uthread and the handlers do, until
`clear_preempt_needed` in `preempt()` or a call of `thread_cede` or `thread_yield` takes it. -/
theorem Ok.pending_kept (h : k.Ok) (hs : preemptStep k op = some k')
    (hp : preemptNeeded k.preemptCnt = true) (hp' : preemptNeeded k'.preemptCnt = false) :
    (k.handlers = [] ∧ ∃ v, k.pc = .preemptStore v) ∨ ∃ c, k'.calls = k.calls ++ [c] := by
  rw [preemptNeeded_iff] at hp
  have hset : ¬ k'.preemptCnt.toNat < 2 ^ 31 := fun hlt => by
    rw [← preemptNeeded_iff] at hlt
    rw [hlt] at hp'
    cases hp'
  have heq := h.depth_eq
  cases op with
  | disable =>
    obtain ⟨hg, hs⟩ := Option.ite_none_right_eq_some.mp hs
    cases hs
    simp only [PreemptKthread.preemptDisable, UInt32.toNat_add, UInt32.toNat_one] at hset
    omega
  | enable =>
    obtain ⟨hg, hs⟩ := Option.ite_none_right_eq_some.mp hs
    cases hs
    simp only [PreemptKthread.preemptEnable, toNat_sub_one_of_depth h hg.2.2] at hset
    omega
  | enableNocheck =>
    obtain ⟨hg, hs⟩ := Option.ite_none_right_eq_some.mp hs
    cases hs
    simp only [PreemptKthread.preemptEnableNocheck, toNat_sub_one_of_depth h hg.2.2] at hset
    omega
  | next =>
    simp only [preemptStep] at hs
    split at hs
    · rename_i hk
      rcases uthreadNext_keeps hs hp with hlt | hv | hc
      · exact absurd hlt hset
      · exact .inl ⟨hk, hv⟩
      · exact .inr hc
    · cases hs
      exact (handleSigusr1_keeps _ hp).resolve_left hset |>.elim fun c hc => .inr ⟨c, hc⟩
    · cases hs
      exact (handleSigusr2_keeps _ hp).resolve_left hset |>.elim fun c hc => .inr ⟨c, hc⟩
  | deliver sig =>
    simp only [preemptStep] at hs
    split_ifs at hs
    cases hs
    exact absurd hp hset

end PreemptKthread

/-- Over every run of the uthread's sections and the signals: the low bits of `preempt_cnt` are
the nesting depth; `thread_cede` and `thread_yield` are called only at depth zero; the `subl` of
`preempt_enable` sets the zero flag exactly when the outermost section ends with a request
pending; and a pending request is taken only by `preempt()`'s `clear_preempt_needed` or by a call
of `thread_cede` or `thread_yield`. -/
theorem preemptRun_protocol {k : PreemptKthread} (ops : List PreemptOp)
    (hk : StepRun.run preemptStep PreemptKthread.init ops = some k) :
    preemptDepth k.preemptCnt = k.depth ∧ (∀ c ∈ k.calls, c.depth = 0) ∧
    (∀ k', preemptStep k .enable = some k' →
      (k'.pc = .enableTest true ↔ k.depth = 1 ∧ preemptNeeded k.preemptCnt = true)) ∧
    (∀ op k', preemptStep k op = some k' → preemptNeeded k.preemptCnt = true →
      preemptNeeded k'.preemptCnt = false →
        (k.handlers = [] ∧ ∃ v, k.pc = .preemptStore v) ∨ ∃ c, k'.calls = k.calls ++ [c]) := by
  have h := preemptStep_ok.run PreemptKthread.init_ok hk
  refine ⟨by rw [preemptDepth_eq]; exact h.depth_eq, h.calls, fun k' hs => ?_,
    fun _ _ hs hp hp' => h.pending_kept hs hp hp'⟩
  obtain ⟨hg, hs⟩ := Option.ite_none_right_eq_some.mp hs
  cases hs
  simp only [PreemptKthread.preemptEnable, UthreadPc.enableTest.injEq]
  exact h.enable_zero_iff hg.2.2

/-- A section with a `SIGUSR2` request pending, then its outermost `preempt_enable`. -/
theorem preemptRun_protocol_section : ∃ k,
    StepRun.run preemptStep PreemptKthread.init
      [.disable, .deliver .sigusr2, .next, .next, .next, .next, .enable] = some k ∧
    (preemptDepth k.preemptCnt = k.depth ∧ (∀ c ∈ k.calls, c.depth = 0) ∧
    (∀ k', preemptStep k .enable = some k' →
      (k'.pc = .enableTest true ↔ k.depth = 1 ∧ preemptNeeded k.preemptCnt = true)) ∧
    (∀ op k', preemptStep k op = some k' → preemptNeeded k.preemptCnt = true →
      preemptNeeded k'.preemptCnt = false →
        (k.handlers = [] ∧ ∃ v, k.pc = .preemptStore v) ∨ ∃ c, k'.calls = k.calls ++ [c])) :=
  ⟨_, rfl, preemptRun_protocol [.disable, .deliver .sigusr2, .next, .next, .next, .next, .enable] rfl⟩

/-- A `SIGUSR2` request pending in a section; the outermost `preempt_enable`'s `subl` sets the
zero flag; a second `SIGUSR2` lands before the test, and its handler yields; the test then calls
`preempt()`. -/
def preemptLateSignalTrace : List PreemptOp :=
  [.disable, .deliver .sigusr2, .next, .next, .next, .next,
    .enable, .deliver .sigusr2, .next, .next, .next]

theorem preempt_entered_without_request :
    ∃ k, StepRun.run preemptStep PreemptKthread.init preemptLateSignalTrace = some k ∧
      k.pc = .preempt ∧ k.handlers = [] ∧ preemptNeeded k.preemptCnt = false ∧
      k.calls = [⟨.yield, .handleSigusr2, 0⟩] ∧
      ∃ k', StepRun.run preemptStep k [.next, .next, .next] = some k' ∧
        k'.calls = [⟨.yield, .handleSigusr2, 0⟩, ⟨.yield, .preempt, 0⟩] :=
  ⟨_, rfl, rfl, rfl, rfl, rfl, _, rfl, rfl⟩

end Caladan
