import Mathlib
import Caladan.Lib.CString
import Caladan.Base.BitmapString
import Caladan.Net.Tcp.Api

/-!
# The configuration file (`runtime/cfg.c`)

`cfg_load` reads the runtime's configuration file with `fgets`, one line at a time. A line that
is not a comment is cut by `strtok` into a name and a value; the handler of that name in
`cfg_handlers` checks the value and stores it in a global, and the bitmap `parsed` records which
handlers ran. After the file, every required option must have been parsed and `guaranteedks` may
not exceed `maxks`.

The globals are the fields of `Cfg`; `cpu_count` and `numa_count` are set before `cfg_load` runs
and are the fields of `CfgEnv`. The build is the default one, in which `DIRECT_STORAGE`,
`DIRECTPATH` and `GC` are not defined, so no handler is registered at run time. A result `none`
is a call with undefined behaviour: `strlen` or `sscanf` of a `NULL` token, or a write past the
`MAX_ARP_STATIC_ENTRIES` entries of `static_entries`.
-/

namespace Caladan

open CString Bitmap

/-! ## The globals -/

/-- `struct eth_addr` -/
structure EthAddr where
  addr : List UInt8
  length_addr : addr.length = 6
  deriving DecidableEq

/-- The zero address a global `struct eth_addr` starts as. -/
def EthAddr.zero : EthAddr := ⟨List.replicate 6 0, rfl⟩

/-- The address after a `sscanf` into it has stored the bytes `vals` at its front. -/
def EthAddr.overwrite (a : EthAddr) (vals : List ℕ) : EthAddr :=
  ⟨(vals.take 6).map UInt8.ofNat ++ a.addr.drop (vals.take 6).length, by
    have h := a.length_addr
    have hle : (vals.take 6).length ≤ 6 := by simp
    simp only [List.length_append, List.length_map, List.length_drop, h]
    omega⟩

/-- The globals `cfg_load` writes: the addresses of `netcfg`, `eth_mtu`, `maxks`, `spinks`,
`guaranteedks`, `cfg_prio_is_lc`, `cfg_ht_punish_us`, `cfg_qdelay_us`, the first
`arp_static_count` entries of `static_entries`, `max_loglevel`, `disable_watchdog` and
`preferred_socket`. -/
structure Cfg where
  addr : UInt32
  netmask : UInt32
  gateway : UInt32
  mac : EthAddr
  ethMtu : UInt32
  maxks : UInt32
  spinks : UInt32
  guaranteedks : UInt32
  prioIsLc : Bool
  htPunishUs : UInt64
  qdelayUs : UInt64
  staticEntries : List (UInt32 × EthAddr)
  maxLoglevel : ℤ
  disableWatchdog : Bool
  preferredSocket : ℤ
  deriving DecidableEq

/-- `cpu_count` and `numa_count` -/
structure CfgEnv where
  cpuCount : ℤ
  numaCount : ℤ

/-- `ETH_MAX_MTU` -/
def ethMaxMtu : ℤ := 9000

/-- `MAX_ARP_STATIC_ENTRIES` -/
def maxArpStaticEntries : ℕ := 1024

/-- `LOG_EMERG` -/
def logEmerg : ℤ := 0

/-- `LOG_DEBUG` -/
def logDebug : ℤ := 6

/-- `BUFSIZ` -/
def bufsiz : ℕ := 8192

/-- The globals before `cfg_load`: `eth_mtu = ETH_DEFAULT_MTU`, `cfg_qdelay_us = 10`,
`max_loglevel = LOG_DEBUG`, and zero where C leaves them so. -/
def Cfg.init : Cfg where
  addr := 0
  netmask := 0
  gateway := 0
  mac := EthAddr.zero
  ethMtu := 1500
  maxks := 0
  spinks := 0
  guaranteedks := 0
  prioIsLc := false
  htPunishUs := 0
  qdelayUs := 10
  staticEntries := []
  maxLoglevel := logDebug
  disableWatchdog := false
  preferredSocket := 0

/-! ## Reading values -/

/-- `MAKE_IP_ADDR(a, b, c, d)` -/
def makeIpAddr (a b c d : UInt8) : UInt32 :=
  a.toUInt32 <<< 24 ||| b.toUInt32 <<< 16 ||| c.toUInt32 <<< 8 ||| d.toUInt32

/-- The format `"%hhu.%hhu.%hhu.%hhu"` of `str_to_ip`. -/
def ipFormat : List ScanItem :=
  [.conv 10, .lit '.', .conv 10, .lit '.', .conv 10, .lit '.', .conv 10]

/-- `str_to_ip`: the address, or `none` where it returns `-EINVAL`. `%hhu` keeps the low byte. -/
def strToIp (str : List Char) : Option UInt32 :=
  match sscanf ipFormat str with
  | [a, b, c, d] =>
    some (makeIpAddr (UInt8.ofNat a) (UInt8.ofNat b) (UInt8.ofNat c) (UInt8.ofNat d))
  | _ => none

/-- The six `%hhx` of a format of `str_to_mac`, separated by `sep` or run together. -/
def macFormat (sep : Option Char) : List ScanItem :=
  .conv 16 :: ((List.replicate 5 ()).flatMap fun _ => (sep.map ScanItem.lit).toList ++ [.conv 16])

/-- The formats `fmts` of `str_to_mac`, in the order it tries them. -/
def macFormats : List (List ScanItem) :=
  [macFormat (some ':'), macFormat (some '-'), macFormat none]

/-- The loop of `str_to_mac` over the formats left; each `sscanf` stores what it converts. -/
def strToMacLoop (str : List Char) : List (List ScanItem) → EthAddr → Bool × EthAddr
  | [], a => (false, a)
  | fmt :: fmts, a =>
    if (sscanf fmt str).length = 6 then (true, a.overwrite (sscanf fmt str))
    else strToMacLoop str fmts (a.overwrite (sscanf fmt str))

/-- `str_to_mac`: whether it returns `0`, and the address after it. -/
def strToMac (str : List Char) (a : EthAddr) : Bool × EthAddr :=
  strToMacLoop str macFormats a

/-- `str_to_long`: the value, or `none` where it returns `-EINVAL`. `errno` is read as this
`strtol` left it. -/
def strToLong (str : List Char) : Option ℤ :=
  let (v, e, erange) := strtol str
  if e.length = str.length || e.head?.any (· ≠ '\n') ||
      ((v == -2 ^ 63 || v == 2 ^ 63 - 1) && erange) then none
  else some v

/-! ## The handlers -/

/-- The `netcfg` address a `host_*` option names. -/
inductive HostField where
  | addr
  | netmask
  | gateway
  deriving DecidableEq

/-- The field `parse_host_ip` picks by the option's name. -/
def hostField (name : List Char) : Option HostField :=
  if name = "host_addr".toList then some .addr
  else if name = "host_netmask".toList then some .netmask
  else if name = "host_gateway".toList then some .gateway
  else none

/-- The option that sets the field. -/
def HostField.name : HostField → List Char
  | .addr => "host_addr".toList
  | .netmask => "host_netmask".toList
  | .gateway => "host_gateway".toList

def Cfg.setHostIp (cfg : Cfg) (ip : UInt32) : HostField → Cfg
  | .addr => { cfg with addr := ip }
  | .netmask => { cfg with netmask := ip }
  | .gateway => { cfg with gateway := ip }

/-- `parse_host_ip`. The address is stored before it is checked: a netmask that is zero or not
a run of leading ones, or an address in `127.0.0.0/8`, is refused after the store. -/
def parseHostIp (name val : List Char) (cfg : Cfg) : ℤ × Cfg :=
  match hostField name with
  | none => (-einval, cfg)
  | some f =>
    match strToIp val with
    | none => (-einval, cfg)
    | some ip =>
      let cfg := cfg.setHostIp ip f
      if name = "host_netmask".toList ∧ (ip = 0 ∨ (~~~ip + 1) &&& ~~~ip ≠ 0) then (-einval, cfg)
      else if ip >>> 24 = 127 then (-einval, cfg)
      else (0, cfg)

/-- The handlers that read a `long` with `str_to_long`, refuse it below `lo` or above `hi` where
the handler has that bound, and store it. -/
def parseLong (lo hi : Option ℤ) (store : ℤ → Cfg → Cfg) (val : List Char) (cfg : Cfg) :
    ℤ × Cfg :=
  match strToLong val with
  | none => (-einval, cfg)
  | some tmp => if lo.any (tmp < ·) || hi.any (· < tmp) then (-einval, cfg) else (0, store tmp cfg)

/-- `parse_runtime_kthreads` -/
def parseRuntimeKthreads (env : CfgEnv) : List Char → Cfg → ℤ × Cfg :=
  parseLong (some 1) (some (env.cpuCount - 1)) fun tmp cfg => { cfg with maxks := .ofInt tmp }

/-- `parse_runtime_spinning_kthreads`: `spinks` is an `unsigned int`, so a value of `2 ^ 32` or
more is stored modulo `2 ^ 32`. -/
def parseRuntimeSpinningKthreads : List Char → Cfg → ℤ × Cfg :=
  parseLong (some 0) none fun tmp cfg => { cfg with spinks := .ofInt tmp }

/-- `parse_runtime_guaranteed_kthreads`: there is no lower bound. -/
def parseRuntimeGuaranteedKthreads (env : CfgEnv) : List Char → Cfg → ℤ × Cfg :=
  parseLong none (some (env.cpuCount - 1)) fun tmp cfg => { cfg with guaranteedks := .ofInt tmp }

/-- `parse_runtime_priority` -/
def parseRuntimePriority (val : List Char) (cfg : Cfg) : ℤ × Cfg :=
  if val = "lc".toList then (0, { cfg with prioIsLc := true })
  else if val = "be".toList then (0, { cfg with prioIsLc := false })
  else (-einval, cfg)

/-- `parse_runtime_ht_punish_us` -/
def parseRuntimeHtPunishUs : List Char → Cfg → ℤ × Cfg :=
  parseLong (some 0) none fun tmp cfg => { cfg with htPunishUs := .ofInt tmp }

/-- `parse_runtime_qdelay_us` -/
def parseRuntimeQdelayUs : List Char → Cfg → ℤ × Cfg :=
  parseLong (some 0) none fun tmp cfg => { cfg with qdelayUs := .ofInt tmp }

/-- `parse_mac_address` -/
def parseMacAddress (val : List Char) (cfg : Cfg) : ℤ × Cfg :=
  let (ok, mac) := strToMac val cfg.mac
  (if ok then 0 else -einval, { cfg with mac := mac })

/-- `parse_mtu` -/
def parseMtu : List Char → Cfg → ℤ × Cfg :=
  parseLong (some 0) (some ethMaxMtu) fun tmp cfg => { cfg with ethMtu := .ofInt tmp }

/-- `parse_watchdog_flag` -/
def parseWatchdogFlag (cfg : Cfg) : ℤ × Cfg :=
  (0, { cfg with disableWatchdog := true })

/-- `parse_static_arp_entry`: the IP address is `val`, the MAC address the next token of the
line, which `strtok(NULL, " ")` takes from `rest`. The entry at `arp_static_count` is only counted
once both are read, and nothing checks that it lies inside `static_entries`. -/
def parseStaticArpEntry (val rest : List Char) (cfg : Cfg) : Option (ℤ × Cfg) :=
  match strToIp val with
  | none => some (-einval, cfg)
  | some ip =>
    if maxArpStaticEntries ≤ cfg.staticEntries.length then none
    else
      match strtokBlank rest with
      | none => none
      | some (tok, _) =>
        let (ok, mac) := strToMac tok EthAddr.zero
        if ok then some (0, { cfg with staticEntries := cfg.staticEntries ++ [(ip, mac)] })
        else some (-einval, cfg)

/-- `parse_log_level` -/
def parseLogLevel : List Char → Cfg → ℤ × Cfg :=
  parseLong (some logEmerg) (some logDebug) fun tmp cfg => { cfg with maxLoglevel := tmp }

/-- `parse_preferred_socket` -/
def parsePreferredSocket (env : CfgEnv) : List Char → Cfg → ℤ × Cfg :=
  parseLong (some 0) (some (env.numaCount - 1)) fun tmp cfg => { cfg with preferredSocket := tmp }

/-- `parse_enable_storage`, `parse_enable_directpath` and `parse_enable_gc` without the support
compiled in. -/
def parseEnableUnsupported (cfg : Cfg) : ℤ × Cfg := (-einval, cfg)

/-- `struct cfg_handler`: the option's name, its handler (given `cpu_count` and `numa_count`, the
name, the value, the rest of the line and the globals), and whether the option is required. -/
structure CfgHandler where
  name : List Char
  fn : CfgEnv → List Char → List Char → List Char → Cfg → Option (ℤ × Cfg)
  required : Bool

/-- `cfg_handlers` -/
def cfgHandlers : List CfgHandler :=
  [⟨"host_addr".toList, fun _ name val _ cfg => some (parseHostIp name val cfg), true⟩,
   ⟨"host_netmask".toList, fun _ name val _ cfg => some (parseHostIp name val cfg), true⟩,
   ⟨"host_gateway".toList, fun _ name val _ cfg => some (parseHostIp name val cfg), true⟩,
   ⟨"host_mac".toList, fun _ _ val _ cfg => some (parseMacAddress val cfg), false⟩,
   ⟨"host_mtu".toList, fun _ _ val _ cfg => some (parseMtu val cfg), false⟩,
   ⟨"runtime_kthreads".toList, fun env _ val _ cfg => some (parseRuntimeKthreads env val cfg),
     true⟩,
   ⟨"runtime_spinning_kthreads".toList,
     fun _ _ val _ cfg => some (parseRuntimeSpinningKthreads val cfg), false⟩,
   ⟨"runtime_guaranteed_kthreads".toList,
     fun env _ val _ cfg => some (parseRuntimeGuaranteedKthreads env val cfg), false⟩,
   ⟨"runtime_priority".toList, fun _ _ val _ cfg => some (parseRuntimePriority val cfg), false⟩,
   ⟨"runtime_ht_punish_us".toList, fun _ _ val _ cfg => some (parseRuntimeHtPunishUs val cfg),
     false⟩,
   ⟨"runtime_qdelay_us".toList, fun _ _ val _ cfg => some (parseRuntimeQdelayUs val cfg), false⟩,
   ⟨"static_arp".toList, fun _ _ val rest cfg => parseStaticArpEntry val rest cfg, false⟩,
   ⟨"log_level".toList, fun _ _ val _ cfg => some (parseLogLevel val cfg), false⟩,
   ⟨"disable_watchdog".toList, fun _ _ _ _ cfg => some (parseWatchdogFlag cfg), false⟩,
   ⟨"preferred_socket".toList, fun env _ val _ cfg => some (parsePreferredSocket env val cfg),
     false⟩,
   ⟨"enable_storage".toList, fun _ _ _ _ cfg => some (parseEnableUnsupported cfg), false⟩,
   ⟨"enable_directpath".toList, fun _ _ _ _ cfg => some (parseEnableUnsupported cfg), false⟩,
   ⟨"enable_gc".toList, fun _ _ _ _ cfg => some (parseEnableUnsupported cfg), false⟩]

/-! ## `cfg_load` -/

/-- Where the reading loop of `cfg_load` leaves: at `goto out` with a handler's error, or after
the file (or at a line with no token), with the bitmap `parsed`. -/
inductive CfgLoopEnd where
  | out (ret : ℤ) (cfg : Cfg)
  | done (parsed : List (BitVec 64)) (cfg : Cfg)

/-- The line loop of `cfg_load`, for at most `fuel` lines. A line that starts with `#` or is
empty is skipped; an option no handler has is ignored. -/
def cfgLoadLoop (env : CfgEnv) : ℕ → List Char → List (BitVec 64) → Cfg → Option CfgLoopEnd
  | 0, _, _, _ => none
  | fuel + 1, f, parsed, cfg =>
    match fgets bufsiz f with
    | none => some (.done parsed cfg)
    | some (buf, f) =>
      if buf.head? = some '#' ∨ buf.head? = some '\n' then cfgLoadLoop env fuel f parsed cfg
      else
        match strtokBlank buf with
        | none => some (.done parsed cfg)
        | some (name, r) =>
          match strtokBlank r with
          | none => none
          | some (val, rest) =>
            let val := if val.getLast? = some '\n' then val.dropLast else val
            match cfgHandlers.zipIdx.find? (·.1.name = name) with
            | none => cfgLoadLoop env fuel f parsed cfg
            | some (h, i) =>
              match h.fn env name val rest cfg with
              | none => none
              | some (ret, cfg) =>
                if ret = 0 then cfgLoadLoop env fuel f (bitmapSet parsed i) cfg
                else some (.out ret cfg)

/-- `cfg_load` on the text of the file: the return value and the globals. -/
def cfgLoad (env : CfgEnv) (file : List Char) (cfg : Cfg) : Option (ℤ × Cfg) :=
  match cfgLoadLoop env (file.length + 1) file (Bitmap.bitmapInit cfgHandlers.length false)
      cfg with
  | none => none
  | some (.out ret cfg) => some (ret, cfg)
  | some (.done parsed cfg) =>
    if cfgHandlers.zipIdx.any (fun hi => hi.1.required && !bitmapTest parsed hi.2) then
      some (-einval, cfg)
    else if cfg.maxks < cfg.guaranteedks then some (-einval, cfg)
    else some (0, cfg)

/-! ## One line of the loop -/

section Loop

variable {env : CfgEnv} {fuel : ℕ} {parsed : List (BitVec 64)} {cfg cfg' : Cfg}

theorem cfgHandlers_of_find? {name : List Char} {h : CfgHandler} {i : ℕ}
    (hfind : cfgHandlers.zipIdx.find? (·.1.name = name) = some (h, i)) :
    cfgHandlers[i]? = some h ∧ h.name = name :=
  ⟨List.mem_zipIdx_iff_getElem?.1 (List.mem_of_find?_eq_some hfind),
    by simpa using List.find?_some hfind⟩

/-- A line whose option a handler accepts sets its bit in `parsed`. -/
theorem cfgLoadLoop_accept {f₀ line f name r val rest : List Char} {h : CfgHandler} {i : ℕ}
    (hline : fgets bufsiz f₀ = some (line, f))
    (hhead : ¬(line.head? = some '#' ∨ line.head? = some '\n'))
    (hname : strtokBlank line = some (name, r)) (hval : strtokBlank r = some (val, rest))
    (hfind : cfgHandlers.zipIdx.find? (·.1.name = name) = some (h, i))
    (hfn : h.fn env name (if val.getLast? = some '\n' then val.dropLast else val) rest cfg =
      some (0, cfg')) :
    cfgLoadLoop env (fuel + 1) f₀ parsed cfg = cfgLoadLoop env fuel f (bitmapSet parsed i) cfg' := by
  simp only [cfgLoadLoop, hline, if_neg hhead, hname, hval, hfind, hfn, if_true]

/-- What one line can do: end the loop, leave the globals and `parsed` as they are, run a
handler that accepts and set its bit, or run a handler that refuses and leave. -/
theorem cfgLoadLoop_succ_cases {f : List Char} {e : CfgLoopEnd}
    (h : cfgLoadLoop env (fuel + 1) f parsed cfg = some e) :
    e = .done parsed cfg ∨ (∃ f', cfgLoadLoop env fuel f' parsed cfg = some e) ∨
    (∃ f', ∃ i : ℕ, ∃ hd : CfgHandler, ∃ val rest cfg', cfgHandlers[i]? = some hd ∧
      hd.fn env hd.name val rest cfg = some (0, cfg') ∧
      cfgLoadLoop env fuel f' (bitmapSet parsed i) cfg' = some e) ∨
    (∃ i : ℕ, ∃ hd : CfgHandler, ∃ val rest ret cfg', cfgHandlers[i]? = some hd ∧
      hd.fn env hd.name val rest cfg = some (ret, cfg') ∧ ret ≠ 0 ∧ e = .out ret cfg') := by
  simp only [cfgLoadLoop] at h
  split at h
  · exact .inl (Option.some.inj h).symm
  split_ifs at h
  · exact .inr (.inl ⟨_, h⟩)
  split at h
  · exact .inl (Option.some.inj h).symm
  split at h
  · cases h
  split at h
  · exact .inr (.inl ⟨_, h⟩)
  rename_i hd i hfind
  obtain ⟨hget, hname⟩ := cfgHandlers_of_find? hfind
  split at h
  · cases h
  rename_i ret cfg' hfn
  rw [← hname] at hfn
  split_ifs at h with hret
  · subst hret
    exact .inr (.inr (.inl ⟨_, i, hd, _, _, cfg', hget, hfn, h⟩))
  · exact .inr (.inr (.inr ⟨i, hd, _, _, ret, cfg', hget, hfn, hret, (Option.some.inj h).symm⟩))

end Loop

/-! ## What a handler does -/

/-- The check `parse_host_ip` makes of a netmask: nonzero and a run of leading ones. -/
def NetmaskOk (m : UInt32) : Prop := m ≠ 0 ∧ (~~~m + 1) &&& ~~~m = 0

instance : DecidablePred NetmaskOk := fun _ => inferInstanceAs (Decidable (_ ∧ _))

/-- What the handler at index `i` of `cfg_handlers` may have done to the globals when it returns
`0`: set its own global to a value its check accepts. The last three never return `0`. -/
def HandlerSpec (env : CfgEnv) : ℕ → Cfg → Cfg → Prop
  | 0, c, c' => ∃ ip, c' = { c with addr := ip } ∧ ip >>> 24 ≠ 127
  | 1, c, c' => ∃ ip, c' = { c with netmask := ip } ∧ NetmaskOk ip
  | 2, c, c' => ∃ ip, c' = { c with gateway := ip } ∧ ip >>> 24 ≠ 127
  | 3, c, c' => ∃ m, c' = { c with mac := m }
  | 4, c, c' => ∃ n : ℤ, c' = { c with ethMtu := .ofInt n } ∧ 0 ≤ n ∧ n ≤ ethMaxMtu
  | 5, c, c' => ∃ n : ℤ, c' = { c with maxks := .ofInt n } ∧ 1 ≤ n ∧ n ≤ env.cpuCount - 1
  | 6, c, c' => ∃ n : ℤ, c' = { c with spinks := .ofInt n } ∧ 0 ≤ n
  | 7, c, c' => ∃ n : ℤ, c' = { c with guaranteedks := .ofInt n } ∧ n ≤ env.cpuCount - 1
  | 8, c, c' => ∃ lc, c' = { c with prioIsLc := lc }
  | 9, c, c' => ∃ n : ℤ, c' = { c with htPunishUs := .ofInt n } ∧ 0 ≤ n
  | 10, c, c' => ∃ n : ℤ, c' = { c with qdelayUs := .ofInt n } ∧ 0 ≤ n
  | 11, c, c' => ∃ e, c' = { c with staticEntries := c.staticEntries ++ [e] } ∧
      c.staticEntries.length < maxArpStaticEntries
  | 12, c, c' => ∃ n : ℤ, c' = { c with maxLoglevel := n } ∧ logEmerg ≤ n ∧ n ≤ logDebug
  | 13, c, c' => c' = { c with disableWatchdog := true }
  | 14, c, c' => ∃ n : ℤ, c' = { c with preferredSocket := n } ∧ 0 ≤ n ∧ n ≤ env.numaCount - 1
  | _, _, _ => False

section Handlers

variable {env : CfgEnv} {cfg cfg' : Cfg} {ret : ℤ}

theorem hostField_name (f : HostField) : hostField f.name = some f := by
  cases f <;> decide +kernel

/-- A handler built on `parseLong` refuses with the globals unchanged, or stores a value inside
its bounds. -/
theorem parseLong_eq {lo hi : Option ℤ} {store : ℤ → Cfg → Cfg} {val : List Char}
    (h : parseLong lo hi store val cfg = (ret, cfg')) :
    ret = -einval ∧ cfg' = cfg ∨
      ret = 0 ∧ ∃ tmp, cfg' = store tmp cfg ∧ (∀ l ∈ lo, l ≤ tmp) ∧ (∀ u ∈ hi, tmp ≤ u) := by
  unfold parseLong at h
  split at h
  · obtain ⟨rfl, rfl⟩ := Prod.mk.inj h
    exact .inl ⟨rfl, rfl⟩
  rename_i tmp _
  split_ifs at h with hb
  · obtain ⟨rfl, rfl⟩ := Prod.mk.inj h
    exact .inl ⟨rfl, rfl⟩
  obtain ⟨rfl, rfl⟩ := Prod.mk.inj h
  simp only [Bool.or_eq_true, Option.any_eq_true, decide_eq_true_eq, not_or, not_exists,
    not_and, not_lt] at hb
  exact .inr ⟨rfl, tmp, rfl, fun l hl => hb.1 l hl, fun u hu => hb.2 u hu⟩

/-- `parse_host_ip` refuses, possibly after it has stored the address, or stores an address
outside `127.0.0.0/8`, which for the netmask is a nonzero run of leading ones. -/
theorem parseHostIp_eq {f : HostField} {val : List Char}
    (h : parseHostIp f.name val cfg = (ret, cfg')) :
    ret = -einval ∨ ret = 0 ∧ ∃ ip, cfg' = cfg.setHostIp ip f ∧ ip >>> 24 ≠ 127 ∧
      (f = .netmask → NetmaskOk ip) := by
  unfold parseHostIp at h
  rw [hostField_name] at h
  dsimp only at h
  split at h
  · exact .inl (Prod.mk.inj h).1.symm
  rename_i ip _
  split_ifs at h with hm h127
  · exact .inl (Prod.mk.inj h).1.symm
  · exact .inl (Prod.mk.inj h).1.symm
  obtain ⟨rfl, rfl⟩ := Prod.mk.inj h
  refine .inr ⟨rfl, ip, rfl, h127, fun hf => ?_⟩
  subst hf
  exact ⟨fun h0 => hm ⟨rfl, .inl h0⟩, not_not.1 fun hc => hm ⟨rfl, .inr hc⟩⟩

theorem parseMacAddress_eq {val : List Char} (h : parseMacAddress val cfg = (ret, cfg')) :
    ret = -einval ∨ ret = 0 ∧ ∃ m, cfg' = { cfg with mac := m } := by
  simp only [parseMacAddress, Prod.mk.injEq] at h
  obtain ⟨hret, rfl⟩ := h
  split_ifs at hret
  · exact .inr ⟨hret.symm, _, rfl⟩
  · exact .inl hret.symm

theorem parseRuntimePriority_eq {val : List Char}
    (h : parseRuntimePriority val cfg = (ret, cfg')) :
    ret = -einval ∨ ret = 0 ∧ ∃ lc, cfg' = { cfg with prioIsLc := lc } := by
  unfold parseRuntimePriority at h
  split_ifs at h
  · exact .inr ⟨(Prod.mk.inj h).1.symm, _, (Prod.mk.inj h).2.symm⟩
  · exact .inr ⟨(Prod.mk.inj h).1.symm, _, (Prod.mk.inj h).2.symm⟩
  · exact .inl (Prod.mk.inj h).1.symm

/-- `parse_static_arp_entry` refuses, or appends one entry while `static_entries` has room. -/
theorem parseStaticArpEntry_eq {val rest : List Char}
    (h : parseStaticArpEntry val rest cfg = some (ret, cfg')) :
    ret = -einval ∨ ret = 0 ∧ ∃ e, cfg' = { cfg with staticEntries := cfg.staticEntries ++ [e] } ∧
      cfg.staticEntries.length < maxArpStaticEntries := by
  unfold parseStaticArpEntry at h
  split at h
  · exact .inl (Prod.mk.inj (Option.some.inj h)).1.symm
  split_ifs at h with hfull
  split at h
  · cases h
  split at h
  split_ifs at h
  · obtain ⟨rfl, rfl⟩ := Prod.mk.inj (Option.some.inj h)
    exact .inr ⟨rfl, _, rfl, not_le.1 hfull⟩
  · exact .inl (Prod.mk.inj (Option.some.inj h)).1.symm

/-- Every handler of `cfg_handlers` returns `0` or `-EINVAL`; when it returns `0` it has done
what `HandlerSpec` says. -/
theorem cfgHandlers_cases {i : ℕ} {hd : CfgHandler} {val rest : List Char}
    (hi : cfgHandlers[i]? = some hd) (hfn : hd.fn env hd.name val rest cfg = some (ret, cfg')) :
    ret = -einval ∨ ret = 0 ∧ HandlerSpec env i cfg cfg' := by
  obtain ⟨hlt, rfl⟩ := List.getElem?_eq_some_iff.1 hi
  have hlen : cfgHandlers.length = 18 := rfl
  rw [hlen] at hlt
  interval_cases i <;> simp only [HandlerSpec]
  · obtain h | ⟨rfl, ip, rfl, h127, -⟩ := parseHostIp_eq (f := .addr) (Option.some.inj hfn)
    · exact .inl h
    · exact .inr ⟨rfl, ip, rfl, h127⟩
  · obtain h | ⟨rfl, ip, rfl, -, hm⟩ := parseHostIp_eq (f := .netmask) (Option.some.inj hfn)
    · exact .inl h
    · exact .inr ⟨rfl, ip, rfl, hm rfl⟩
  · obtain h | ⟨rfl, ip, rfl, h127, -⟩ := parseHostIp_eq (f := .gateway) (Option.some.inj hfn)
    · exact .inl h
    · exact .inr ⟨rfl, ip, rfl, h127⟩
  · obtain h | ⟨rfl, m, rfl⟩ := parseMacAddress_eq (Option.some.inj hfn)
    · exact .inl h
    · exact .inr ⟨rfl, m, rfl⟩
  · obtain ⟨h, -⟩ | ⟨rfl, n, rfl, hlo, hhi⟩ := parseLong_eq (Option.some.inj hfn)
    · exact .inl h
    · exact .inr ⟨rfl, n, rfl, hlo 0 rfl, hhi _ rfl⟩
  · obtain ⟨h, -⟩ | ⟨rfl, n, rfl, hlo, hhi⟩ := parseLong_eq (Option.some.inj hfn)
    · exact .inl h
    · exact .inr ⟨rfl, n, rfl, hlo 1 rfl, hhi _ rfl⟩
  · obtain ⟨h, -⟩ | ⟨rfl, n, rfl, hlo, -⟩ := parseLong_eq (Option.some.inj hfn)
    · exact .inl h
    · exact .inr ⟨rfl, n, rfl, hlo 0 rfl⟩
  · obtain ⟨h, -⟩ | ⟨rfl, n, rfl, -, hhi⟩ := parseLong_eq (Option.some.inj hfn)
    · exact .inl h
    · exact .inr ⟨rfl, n, rfl, hhi _ rfl⟩
  · obtain h | ⟨rfl, lc, rfl⟩ := parseRuntimePriority_eq (Option.some.inj hfn)
    · exact .inl h
    · exact .inr ⟨rfl, lc, rfl⟩
  · obtain ⟨h, -⟩ | ⟨rfl, n, rfl, hlo, -⟩ := parseLong_eq (Option.some.inj hfn)
    · exact .inl h
    · exact .inr ⟨rfl, n, rfl, hlo 0 rfl⟩
  · obtain ⟨h, -⟩ | ⟨rfl, n, rfl, hlo, -⟩ := parseLong_eq (Option.some.inj hfn)
    · exact .inl h
    · exact .inr ⟨rfl, n, rfl, hlo 0 rfl⟩
  · obtain h | ⟨rfl, e, rfl, hroom⟩ := parseStaticArpEntry_eq hfn
    · exact .inl h
    · exact .inr ⟨rfl, e, rfl, hroom⟩
  · obtain ⟨h, -⟩ | ⟨rfl, n, rfl, hlo, hhi⟩ := parseLong_eq (Option.some.inj hfn)
    · exact .inl h
    · exact .inr ⟨rfl, n, rfl, hlo _ rfl, hhi _ rfl⟩
  · obtain ⟨rfl, rfl⟩ := Prod.mk.inj (Option.some.inj hfn)
    exact .inr ⟨rfl, rfl⟩
  · obtain ⟨h, -⟩ | ⟨rfl, n, rfl, hlo, hhi⟩ := parseLong_eq (Option.some.inj hfn)
    · exact .inl h
    · exact .inr ⟨rfl, n, rfl, hlo 0 rfl, hhi _ rfl⟩
  all_goals exact .inl (Prod.mk.inj (Option.some.inj hfn)).1.symm

end Handlers

section Run

variable {env : CfgEnv} {fuel : ℕ} {f : List Char} {parsed parsed' : List (BitVec 64)}
  {cfg cfg' c c' : Cfg} {i : ℕ}

/-- A handler that returns `0` changes a required global only if it is that global's handler. -/
theorem HandlerSpec.frame (h : HandlerSpec env i c c') :
    (i ≠ 0 → c'.addr = c.addr) ∧ (i ≠ 1 → c'.netmask = c.netmask) ∧
      (i ≠ 2 → c'.gateway = c.gateway) ∧ (i ≠ 5 → c'.maxks = c.maxks) := by
  match i, c', h with
  | 0, _, ⟨_, rfl, _⟩ => simp
  | 1, _, ⟨_, rfl, _⟩ => simp
  | 2, _, ⟨_, rfl, _⟩ => simp
  | 3, _, ⟨_, rfl⟩ => simp
  | 4, _, ⟨_, rfl, _⟩ => simp
  | 5, _, ⟨_, rfl, _⟩ => simp
  | 6, _, ⟨_, rfl, _⟩ => simp
  | 7, _, ⟨_, rfl, _⟩ => simp
  | 8, _, ⟨_, rfl⟩ => simp
  | 9, _, ⟨_, rfl, _⟩ => simp
  | 10, _, ⟨_, rfl, _⟩ => simp
  | 11, _, ⟨_, rfl, _⟩ => simp
  | 12, _, ⟨_, rfl, _⟩ => simp
  | 13, _, rfl => simp
  | 14, _, ⟨_, rfl, _⟩ => simp

/-- The required globals as far as `parsed` has set them: each one whose handler has accepted a
value holds a value that handler's check accepts. -/
structure RequiredOk (env : CfgEnv) (parsed : List (BitVec 64)) (cfg : Cfg) : Prop where
  addr : bitmapTest parsed 0 = true → cfg.addr >>> 24 ≠ 127
  netmask : bitmapTest parsed 1 = true → NetmaskOk cfg.netmask
  gateway : bitmapTest parsed 2 = true → cfg.gateway >>> 24 ≠ 127
  maxks : bitmapTest parsed 5 = true → ∃ n : ℤ, cfg.maxks = .ofInt n ∧ 1 ≤ n ∧ n ≤ env.cpuCount - 1

theorem requiredOk_init (cfg : Cfg) :
    RequiredOk env (Bitmap.bitmapInit cfgHandlers.length false) cfg := by
  constructor <;> simp [bitmapTest_bitmapInit_false]

theorem RequiredOk.step (hinv : RequiredOk env parsed c) (hlen : 0 < parsed.length)
    (hi : i < cfgHandlers.length) (hs : HandlerSpec env i c c') :
    RequiredOk env (bitmapSet parsed i) c' := by
  have hbit : ∀ k, bitmapTest (bitmapSet parsed i) k = true ↔ k = i ∨ bitmapTest parsed k = true :=
    bitmapTest_bitmapSet_iff (by have : cfgHandlers.length = 18 := rfl; simp only [bitsPerLong]; omega)
  obtain ⟨ha, hn, hg, hm⟩ := hs.frame
  constructor
  · intro hk
    by_cases h0 : i = 0
    · subst h0
      obtain ⟨_, rfl, h⟩ := hs
      exact h
    · rw [ha h0]
      exact hinv.addr (((hbit 0).1 hk).resolve_left (Ne.symm h0))
  · intro hk
    by_cases h1 : i = 1
    · subst h1
      obtain ⟨_, rfl, h⟩ := hs
      exact h
    · rw [hn h1]
      exact hinv.netmask (((hbit 1).1 hk).resolve_left (Ne.symm h1))
  · intro hk
    by_cases h2 : i = 2
    · subst h2
      obtain ⟨_, rfl, h⟩ := hs
      exact h
    · rw [hg h2]
      exact hinv.gateway (((hbit 2).1 hk).resolve_left (Ne.symm h2))
  · intro hk
    by_cases h5 : i = 5
    · subst h5
      obtain ⟨n, rfl, h⟩ := hs
      exact ⟨n, rfl, h⟩
    · rw [hm h5]
      exact hinv.maxks (((hbit 5).1 hk).resolve_left (Ne.symm h5))

/-- The loop leaves early only with a handler's error, which is `-EINVAL`. -/
theorem cfgLoadLoop_out {ret : ℤ} (h : cfgLoadLoop env fuel f parsed cfg = some (.out ret cfg')) :
    ret = -einval := by
  induction fuel generalizing f parsed cfg with
  | zero => cases h
  | succ fuel ih =>
    rcases cfgLoadLoop_succ_cases h with he | ⟨_, h'⟩ | ⟨_, _, _, _, _, _, _, _, h'⟩ |
      ⟨_, _, _, _, _, _, hi, hfn, hr, he⟩
    · cases he
    · exact ih h'
    · exact ih h'
    · cases he
      obtain h | ⟨rfl, -⟩ := cfgHandlers_cases hi hfn
      · exact h
      · exact absurd rfl hr

/-- Whatever file the loop reads to its end, the required globals its bits mark stay accepted. -/
theorem cfgLoadLoop_requiredOk (hinv : RequiredOk env parsed cfg) (hlen : 0 < parsed.length)
    (h : cfgLoadLoop env fuel f parsed cfg = some (.done parsed' cfg')) :
    RequiredOk env parsed' cfg' ∧ 0 < parsed'.length := by
  induction fuel generalizing f parsed cfg with
  | zero => cases h
  | succ fuel ih =>
    rcases cfgLoadLoop_succ_cases h with he | ⟨_, h'⟩ | ⟨_, i, _, _, _, c', hi, hfn, h'⟩ |
      ⟨_, _, _, _, _, _, _, _, _, he⟩
    · cases he
      exact ⟨hinv, hlen⟩
    · exact ih hinv hlen h'
    · obtain h | ⟨-, hs⟩ := cfgHandlers_cases hi hfn
      · exact absurd h (by decide)
      · exact ih (hinv.step hlen (List.getElem?_eq_some_iff.1 hi).1 hs)
          (by rw [length_bitmapSet]; exact hlen) h'
    · cases he

/-- The check after the loop passes exactly when the bits of the four required handlers are set. -/
theorem cfgHandlers_required_iff {parsed : List (BitVec 64)} :
    cfgHandlers.zipIdx.any (fun hi => hi.1.required && !bitmapTest parsed hi.2) = false ↔
      bitmapTest parsed 0 = true ∧ bitmapTest parsed 1 = true ∧ bitmapTest parsed 2 = true ∧
        bitmapTest parsed 5 = true := by
  simp [cfgHandlers, List.zipIdx]

theorem uint32_toNat_ofInt_of_lt {n : ℤ} (h0 : 0 ≤ n) (h : n < 2 ^ 32) :
    ((UInt32.ofInt n).toNat : ℤ) = n := by
  simp only [UInt32.ofInt, UInt32.toNat_ofNat', Int.reducePow]
  omega

/-- What `cfg_load` promises of the globals when it returns `0`. -/
structure CfgSound (env : CfgEnv) (cfg : Cfg) : Prop where
  addr : cfg.addr >>> 24 ≠ 127
  gateway : cfg.gateway >>> 24 ≠ 127
  netmask : NetmaskOk cfg.netmask
  maxks_pos : 1 ≤ cfg.maxks.toNat
  maxks_lt : (cfg.maxks.toNat : ℤ) < env.cpuCount
  guaranteedks_le : cfg.guaranteedks ≤ cfg.maxks

/-- When `cfg_load` accepts a file, the host's address and gateway lie outside `127.0.0.0/8`, the
netmask is a nonzero run of leading ones, `maxks` counts at least one and fewer kthreads than
there are CPUs, and `guaranteedks` does not exceed it. -/
theorem cfgLoad_ok {file : List Char} (hcpu : env.cpuCount ≤ 2 ^ 32)
    (h : cfgLoad env file cfg = some (0, cfg')) : CfgSound env cfg' := by
  unfold cfgLoad at h
  split at h
  · cases h
  · rename_i hloop
    exact absurd ((Prod.mk.inj (Option.some.inj h)).1 ▸ cfgLoadLoop_out hloop) (by decide)
  rename_i parsed c hloop
  split_ifs at h with hreq hks
  · exact absurd (Prod.mk.inj (Option.some.inj h)).1 (by decide)
  · exact absurd (Prod.mk.inj (Option.some.inj h)).1 (by decide)
  obtain rfl := (Prod.mk.inj (Option.some.inj h)).2
  obtain ⟨hinv, -⟩ := cfgLoadLoop_requiredOk (requiredOk_init cfg) (by decide) hloop
  obtain ⟨h0, h1, h2, h5⟩ := cfgHandlers_required_iff.1 (Bool.not_eq_true _ ▸ hreq)
  obtain ⟨n, hn, hlo, hhi⟩ := hinv.maxks h5
  have hks' : ((c.maxks.toNat : ℕ) : ℤ) = n := by
    rw [hn]
    exact uint32_toNat_ofInt_of_lt (by omega) (by omega)
  exact ⟨hinv.addr h0, hinv.gateway h2, hinv.netmask h1, by omega, by omega, UInt32.not_lt.1 hks⟩

theorem cfgLoad_ok_required :
    (⟨8, 1⟩ : CfgEnv).cpuCount ≤ 2 ^ 32 ∧
      cfgLoad ⟨8, 1⟩ ("host_addr 10.0.0.2\nhost_netmask 255.255.255.0\nhost_gateway 10.0.0.1\n" ++
        "runtime_kthreads 4\n").toList Cfg.init =
        some (0, { Cfg.init with
          addr := 0x0a000002, netmask := 0xffffff00, gateway := 0x0a000001, maxks := 4 }) ∧
      CfgSound ⟨8, 1⟩ { Cfg.init with
        addr := 0x0a000002, netmask := 0xffffff00, gateway := 0x0a000001, maxks := 4 } := by
  have h : cfgLoad ⟨8, 1⟩ ("host_addr 10.0.0.2\nhost_netmask 255.255.255.0\n" ++
      "host_gateway 10.0.0.1\nruntime_kthreads 4\n").toList Cfg.init =
      some (0, { Cfg.init with
        addr := 0x0a000002, netmask := 0xffffff00, gateway := 0x0a000001, maxks := 4 }) := by
    decide +kernel
  exact ⟨by decide, h, cfgLoad_ok (by decide) h⟩

end Run

end Caladan
