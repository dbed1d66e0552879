import Mathlib
import Caladan.Net.Tcp.In

/-!
# TCP option parsing (`tcp_parse_options`, `runtime/net/tcp_in.c`)

The option loop reads a kind byte at `ptr` and, for every kind but `TCP_OPT_EOL` and
`TCP_OPT_NOP`, a length byte after it; it then moves `ptr` to `ptr + opsize` and takes `opsize`
off `len`. Nothing checks the length byte. The bytes are those of memory around the option
string, at offsets from `optp` (`b : Int → UInt8`); the string itself is `[0, optlen)`.

The loop is run with fuel. A pass either shortens `len` or reads a length byte of zero and leaves
the state as it was, from which the loop never ends.
-/

namespace Caladan

/-- `TCP_OPT_EOL` -/
def tcpOptEol : UInt8 := 0
/-- `TCP_OPT_NOP` -/
def tcpOptNop : UInt8 := 1
/-- `TCP_OPT_MSS` -/
def tcpOptMss : UInt8 := 2
/-- `TCP_OPT_WSCALE` -/
def tcpOptWscale : UInt8 := 3
/-- `TCP_OLEN_MSS` -/
def tcpOlenMss : UInt8 := 4
/-- `TCP_OLEN_WSCALE` -/
def tcpOlenWscale : UInt8 := 3

/-- The locals of the option loop: the read pointer as an offset from `optp`, the bytes left,
and what has been found. -/
structure TcpOptParse where
  ptr : Int
  len : Int
  opts : TcpOptions
deriving DecidableEq, Repr

/-- What an option of kind `opcode` and length byte `opsize` records, its value read from `p`
on (`ntoh16` for the MSS, the scale clamped to 14). -/
def tcpParseOption (b : Int → UInt8) (p : Int) (opcode opsize : UInt8) (o : TcpOptions) :
    TcpOptions :=
  if opcode = tcpOptMss then
    if opsize = tcpOlenMss then
      { o with mss := (b p).toUInt16 * 256 + (b (p + 1)).toUInt16, optEn := o.optEn ||| tcpOptionMss }
    else o
  else if opcode = tcpOptWscale then
    if opsize = tcpOlenWscale then
      { o with wscale := min (b p) 14, optEn := o.optEn ||| tcpOptionWscale }
    else o
  else o

/-- One pass of the loop body: `none` for `TCP_OPT_EOL` (`goto done`). -/
def tcpParseOptionsPass (b : Int → UInt8) (st : TcpOptParse) : Option TcpOptParse :=
  let opcode := b st.ptr
  if opcode = tcpOptEol then none
  else if opcode = tcpOptNop then some { st with ptr := st.ptr + 1, len := st.len - 1 }
  else
    let opsize := b (st.ptr + 1)
    some ⟨st.ptr + opsize.toNat, st.len - opsize.toNat,
      tcpParseOption b (st.ptr + 2) opcode opsize st.opts⟩

/-- The option loop with `fuel` passes; `none` when it has not ended. -/
def tcpParseOptionsLoop (b : Int → UInt8) : Nat → TcpOptParse → Option TcpOptions
  | 0, _ => none
  | fuel + 1, st =>
    if st.len ≤ 0 then some st.opts
    else match tcpParseOptionsPass b st with
      | none => some st.opts
      | some st' => tcpParseOptionsLoop b fuel st'

/-- `tcp_parse_options` over the `optlen` option bytes at `optp`: the options found and the
connection with its MSS and window scale set, or `none` when the loop has not ended within
`fuel` passes. -/
def tcpParseOptions (c : TcpConn) (b : Int → UInt8) (optlen : Nat) (fuel : Nat) :
    Option (UInt8 × TcpConn) :=
  (tcpParseOptionsLoop b fuel ⟨0, optlen, ⟨0, 0, 0⟩⟩).map fun o => (o.optEn, tcpParseOptionsDone c o)

/-- Memory holding the option string `opts` at `[0, optlen)` and `out` everywhere else. -/
def tcpOptMem (opts : List UInt8) (out : Int → UInt8) (p : Int) : UInt8 :=
  if h : 0 ≤ p ∧ p.toNat < opts.length then opts.get ⟨p.toNat, h.2⟩ else out p

/-- The passes the loop takes from `st`, each from a state with bytes left. -/
def TcpOptParse.Passes (b : Int → UInt8) : TcpOptParse → TcpOptParse → Prop :=
  Relation.ReflTransGen fun st st' => 0 < st.len ∧ tcpParseOptionsPass b st = some st'

section
variable {b : Int → UInt8} {st st' : TcpOptParse}

@[simp] theorem tcpParseOptionsLoop_zero (st : TcpOptParse) : tcpParseOptionsLoop b 0 st = none :=
  rfl

theorem tcpParseOptionsLoop_succ_of_pass (h0 : 0 < st.len) (h : tcpParseOptionsPass b st = some st')
    (fuel : Nat) : tcpParseOptionsLoop b (fuel + 1) st = tcpParseOptionsLoop b fuel st' := by
  rw [tcpParseOptionsLoop, if_neg (by omega), h]

/-- From a state with bytes left that a pass maps to itself, the loop never ends. -/
theorem tcpParseOptionsLoop_of_fixed (h0 : 0 < st.len) (h : tcpParseOptionsPass b st = some st) :
    ∀ fuel, tcpParseOptionsLoop b fuel st = none := by
  intro fuel
  induction fuel with
  | zero => rfl
  | succ n ih => rw [tcpParseOptionsLoop_succ_of_pass h0 h, ih]

end

/-- `tcp_parse_options` runs forever on the four option bytes `2 0 0 0` (an MSS option whose
length byte is zero), and on `1 1 1 2` (three NOPs and an MSS kind in the last byte) it reads the
bytes after the string: whether it ends, and the MSS it sets, depend on them. -/
theorem tcpParseOptions_unchecked_length (c : TcpConn) :
    (∀ out fuel, tcpParseOptions c (tcpOptMem [2, 0, 0, 0] out) 4 fuel = none) ∧
    (∀ fuel, tcpParseOptions c (tcpOptMem [1, 1, 1, 2] fun _ => 0) 4 fuel = none) ∧
    (tcpParseOptions c (tcpOptMem [1, 1, 1, 2] fun _ => 4) 4 5).map (·.2.pcb.sndMss) = some 1028 := by
  refine ⟨fun out fuel => ?_, fun fuel => ?_, rfl⟩
  · have h := @tcpParseOptionsLoop_of_fixed (tcpOptMem [2, 0, 0, 0] out) ⟨0, 4, ⟨0, 0, 0⟩⟩
      (by decide) rfl fuel
    simp [tcpParseOptions, h]
  · have hfix := @tcpParseOptionsLoop_of_fixed (tcpOptMem [1, 1, 1, 2] fun _ => 0) ⟨3, 1, ⟨0, 0, 0⟩⟩
      (by decide) rfl
    match fuel with
    | 0 | 1 | 2 | 3 => rfl
    | n + 4 =>
      have h : tcpParseOptionsLoop (tcpOptMem [1, 1, 1, 2] fun _ => 0) (n + 4) ⟨0, 4, ⟨0, 0, 0⟩⟩ =
          tcpParseOptionsLoop (tcpOptMem [1, 1, 1, 2] fun _ => 0) (n + 1) ⟨3, 1, ⟨0, 0, 0⟩⟩ := rfl
      simp [tcpParseOptions, h, hfix]

end Caladan
