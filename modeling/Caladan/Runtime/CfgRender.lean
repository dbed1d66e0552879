import Mathlib
import Caladan.Runtime.Cfg

/-!
# Reading back a printed configuration file

The file `cfg_load` is written for holds one option a line: its name, a blank and its value in
the form its handler reads. `CfgOption` says what such a line sets and `cfgRender` prints a list
of them. `cfgLoad_cfgRender` shows that `cfg_load` reads a printed file of valid options, the
required ones among them, back to exactly the globals those options set, in order.
-/

namespace Caladan

open CString Bitmap

/-! ## What a configuration file says -/

/-- The options whose value is a `long`. -/
inductive LongOption where
  | hostMtu
  | runtimeKthreads
  | runtimeSpinningKthreads
  | runtimeGuaranteedKthreads
  | runtimeHtPunishUs
  | runtimeQdelayUs
  | logLevel
  | preferredSocket
  deriving DecidableEq

/-- One line of a configuration file. -/
inductive CfgOption where
  | hostIp (f : HostField) (a b c d : UInt8)
  | hostMac (m : EthAddr)
  | long (o : LongOption) (n : ℕ)
  | runtimePriority (lc : Bool)
  | staticArp (a b c d : UInt8) (m : EthAddr)
  | disableWatchdog

def LongOption.name : LongOption → List Char
  | .hostMtu => "host_mtu".toList
  | .runtimeKthreads => "runtime_kthreads".toList
  | .runtimeSpinningKthreads => "runtime_spinning_kthreads".toList
  | .runtimeGuaranteedKthreads => "runtime_guaranteed_kthreads".toList
  | .runtimeHtPunishUs => "runtime_ht_punish_us".toList
  | .runtimeQdelayUs => "runtime_qdelay_us".toList
  | .logLevel => "log_level".toList
  | .preferredSocket => "preferred_socket".toList

/-- The values an option of a `long` may take. -/
def LongOption.Valid (env : CfgEnv) (o : LongOption) (n : ℕ) : Prop :=
  n < 2 ^ 63 ∧
    match o with
    | .hostMtu => n ≤ 9000
    | .runtimeKthreads => 1 ≤ n ∧ n ≤ env.cpuCount - 1
    | .runtimeGuaranteedKthreads => n ≤ env.cpuCount - 1
    | .logLevel => n ≤ 6
    | .preferredSocket => n ≤ env.numaCount - 1
    | _ => True

instance LongOption.decidableValid (env : CfgEnv) (o : LongOption) (n : ℕ) :
    Decidable (o.Valid env n) :=
  match o with
  | .hostMtu | .runtimeKthreads | .runtimeSpinningKthreads | .runtimeGuaranteedKthreads
  | .runtimeHtPunishUs | .runtimeQdelayUs | .logLevel | .preferredSocket =>
    inferInstanceAs (Decidable (_ ∧ _))

/-- What an option of a `long` sets. -/
def LongOption.apply (n : ℕ) (cfg : Cfg) : LongOption → Cfg
  | .hostMtu => { cfg with ethMtu := .ofNat n }
  | .runtimeKthreads => { cfg with maxks := .ofNat n }
  | .runtimeSpinningKthreads => { cfg with spinks := .ofNat n }
  | .runtimeGuaranteedKthreads => { cfg with guaranteedks := .ofNat n }
  | .runtimeHtPunishUs => { cfg with htPunishUs := .ofNat n }
  | .runtimeQdelayUs => { cfg with qdelayUs := .ofNat n }
  | .logLevel => { cfg with maxLoglevel := n }
  | .preferredSocket => { cfg with preferredSocket := n }

/-- An address as four decimal numbers separated by `.`. -/
def ipText (a b c d : UInt8) : List Char :=
  Nat.toDigits 10 a.toNat ++ '.' :: Nat.toDigits 10 b.toNat ++ '.' :: Nat.toDigits 10 c.toNat ++
    '.' :: Nat.toDigits 10 d.toNat

/-- A byte as two lowercase hex digits. -/
def hexByte (b : UInt8) : List Char :=
  [Nat.digitChar (b.toNat / 16), Nat.digitChar (b.toNat % 16)]

/-- An address as six bytes in hex separated by `:`. -/
def EthAddr.text (m : EthAddr) : List Char :=
  [':'].intercalate (m.addr.map hexByte)

namespace CfgOption

def name : CfgOption → List Char
  | hostIp f .. => f.name
  | hostMac _ => "host_mac".toList
  | long o _ => o.name
  | runtimePriority _ => "runtime_priority".toList
  | staticArp .. => "static_arp".toList
  | disableWatchdog => "disable_watchdog".toList

/-- The text after the name and a blank. -/
def valueText : CfgOption → List Char
  | hostIp _ a b c d => ipText a b c d
  | hostMac m => m.text
  | long _ n => Nat.toDigits 10 n
  | runtimePriority lc => if lc then "lc".toList else "be".toList
  | staticArp a b c d m => ipText a b c d ++ ' ' :: m.text
  | disableWatchdog => ['1']

/-- The line of the option. -/
def render (o : CfgOption) : List Char :=
  o.name ++ ' ' :: o.valueText ++ ['\n']

/-- A value the runtime takes: an address outside `127.0.0.0/8`, a netmask that is a nonzero run
of leading ones, a number in the range of its option. -/
def Valid (env : CfgEnv) : CfgOption → Prop
  | hostIp f a b c d =>
    makeIpAddr a b c d >>> 24 ≠ 127 ∧ (f = .netmask → NetmaskOk (makeIpAddr a b c d))
  | long o n => o.Valid env n
  | _ => True

instance decidableValid (env : CfgEnv) (o : CfgOption) : Decidable (o.Valid env) :=
  match o with
  | hostIp .. => inferInstanceAs (Decidable (_ ∧ _))
  | long .. => inferInstanceAs (Decidable (LongOption.Valid _ _ _))
  | hostMac _ | runtimePriority _ | staticArp .. | disableWatchdog => inferInstanceAs (Decidable True)

/-- What the option sets. -/
def apply (cfg : Cfg) : CfgOption → Cfg
  | hostIp f a b c d => cfg.setHostIp (makeIpAddr a b c d) f
  | hostMac m => { cfg with mac := m }
  | long o n => o.apply n cfg
  | runtimePriority lc => { cfg with prioIsLc := lc }
  | staticArp a b c d m => { cfg with staticEntries := cfg.staticEntries ++ [(makeIpAddr a b c d, m)] }
  | disableWatchdog => { cfg with disableWatchdog := true }

def isStaticArp : CfgOption → Bool
  | staticArp .. => true
  | _ => false

end CfgOption

/-- The options `cfg_load` requires. -/
def requiredOptions : List (List Char) :=
  ["host_addr".toList, "host_netmask".toList, "host_gateway".toList, "runtime_kthreads".toList]

/-- A file of option lines. -/
def cfgRender (os : List CfgOption) : List Char := os.flatMap CfgOption.render

/-! ## Reading back a printed value -/

theorem uint32_ofInt_natCast (n : ℕ) : UInt32.ofInt n = UInt32.ofNat n := by
  apply UInt32.toNat_inj.1
  simp [UInt32.ofInt, UInt32.toNat_ofNat']
  omega

theorem uint64_ofInt_natCast (n : ℕ) : UInt64.ofInt n = UInt64.ofNat n := by
  apply UInt64.toNat_inj.1
  simp [UInt64.ofInt, UInt64.toNat_ofNat']
  omega

theorem strToLong_toDigits {n : ℕ} (hn : n < 2 ^ 63) : strToLong (Nat.toDigits 10 n) = some (n : ℤ) := by
  have h := strtol_toDigits hn noDigitHead_nil
  rw [List.append_nil] at h
  obtain ⟨d, ds, hds, -⟩ := exists_toDigits_eq_cons n
  unfold strToLong
  rw [h]
  simp [hds]

theorem sscanf_ipText (a b c d : UInt8) {r : List Char} (hr : NoDigitHead r) :
    sscanf ipFormat (ipText a b c d ++ r) = [a.toNat, b.toNat, c.toNat, d.toNat] := by
  have hbyte : ∀ x : UInt8, (if 2 ^ 64 ≤ x.toNat then 2 ^ 64 - 1 else x.toNat) = x.toNat :=
    fun x => if_neg (by have := x.toNat_lt; omega)
  have hdot : ∀ t, NoDigitHead ('.' :: t) := noDigitHead_cons (by decide)
  simp only [ipText, ipFormat, List.append_assoc, List.cons_append]
  rw [sscanf_conv (scanUnsigned_toDigits _ (hdot _)), sscanf_lit,
    sscanf_conv (scanUnsigned_toDigits _ (hdot _)), sscanf_lit,
    sscanf_conv (scanUnsigned_toDigits _ (hdot _)), sscanf_lit,
    sscanf_conv (scanUnsigned_toDigits _ hr), hbyte, hbyte, hbyte, hbyte]
  rfl

theorem strToIp_ipText (a b c d : UInt8) {r : List Char} (hr : NoDigitHead r) :
    strToIp (ipText a b c d ++ r) = some (makeIpAddr a b c d) := by
  rw [strToIp, sscanf_ipText a b c d hr]
  simp only [UInt8.ofNat_toNat]

theorem eq_six_bytes (m : EthAddr) :
    ∃ b₀ b₁ b₂ b₃ b₄ b₅, m.addr = [b₀, b₁, b₂, b₃, b₄, b₅] := by
  obtain ⟨l, hl⟩ := m
  match l, hl with
  | [b₀, b₁, b₂, b₃, b₄, b₅], _ => exact ⟨b₀, b₁, b₂, b₃, b₄, b₅, rfl⟩

theorem scanUnsigned_hexByte (b : UInt8) {r : List Char}
    (hr : ∀ x ∈ r.head?, digitVal 16 x = none) :
    scanUnsigned 16 (hexByte b ++ r) = some (b.toNat, r) := by
  have hb := b.toNat_lt
  rw [hexByte, List.cons_append, List.cons_append, List.nil_append,
    scanUnsigned_hex (by omega) (by omega) hr, Nat.div_add_mod]

theorem sscanf_text (m : EthAddr) {r : List Char} (hr : ∀ x ∈ r.head?, digitVal 16 x = none) :
    sscanf (macFormat (some ':')) (m.text ++ r) = m.addr.map UInt8.toNat := by
  obtain ⟨b₀, b₁, b₂, b₃, b₄, b₅, hm⟩ := eq_six_bytes m
  have hcolon : ∀ t : List Char, ∀ x ∈ (':' :: t).head?, digitVal 16 x = none := by
    intro t x hx
    simp only [List.head?_cons, Option.mem_def, Option.some.injEq] at hx
    subst hx
    decide
  simp only [EthAddr.text, hm, List.map_cons, List.map_nil, List.intercalate_cons_cons,
    List.intercalate_singleton, List.append_assoc, List.cons_append, List.nil_append]
  rw [show macFormat (some ':') = [.conv 16, .lit ':', .conv 16, .lit ':', .conv 16, .lit ':',
    .conv 16, .lit ':', .conv 16, .lit ':', .conv 16] from rfl]
  rw [sscanf_conv (scanUnsigned_hexByte _ (hcolon _)), sscanf_lit,
    sscanf_conv (scanUnsigned_hexByte _ (hcolon _)), sscanf_lit,
    sscanf_conv (scanUnsigned_hexByte _ (hcolon _)), sscanf_lit,
    sscanf_conv (scanUnsigned_hexByte _ (hcolon _)), sscanf_lit,
    sscanf_conv (scanUnsigned_hexByte _ (hcolon _)), sscanf_lit,
    sscanf_conv (scanUnsigned_hexByte _ hr)]
  rfl

theorem strToMac_text (m : EthAddr) {r : List Char} (hr : ∀ x ∈ r.head?, digitVal 16 x = none)
    (a : EthAddr) : strToMac (m.text ++ r) a = (true, m) := by
  have hs := sscanf_text m hr
  have hlen : (sscanf (macFormat (some ':')) (m.text ++ r)).length = 6 := by
    rw [hs, List.length_map, m.length_addr]
  rw [strToMac, macFormats, strToMacLoop, if_pos hlen]
  congr 1
  obtain ⟨l, hl⟩ := m
  simp only [hs, EthAddr.overwrite]
  congr 1
  rw [List.take_of_length_le (by simp [hl]), List.map_map, List.length_map,
    List.drop_eq_nil_of_le (by rw [a.length_addr, hl]), List.append_nil]
  simp only [Function.comp_def, UInt8.ofNat_toNat, List.map_id']

/-! ## Rendered lines -/

/-- A token of a line: not empty, with no blank and no newline. -/
def Token (t : List Char) : Prop := t ≠ [] ∧ ' ' ∉ t ∧ '\n' ∉ t

instance : DecidablePred Token := fun _ => inferInstanceAs (Decidable (_ ∧ _ ∧ _))

theorem token_toDigits (n : ℕ) : Token (Nat.toDigits 10 n) :=
  ⟨Nat.toDigits_ne_nil, not_mem_toDigits (by decide) n, not_mem_toDigits (by decide) n⟩

theorem token_ipText (a b c d : UInt8) : Token (ipText a b c d) := by
  refine ⟨by simp [ipText], ?_, ?_⟩ <;>
  simp [ipText, not_mem_toDigits]

theorem hexByte_not_mem (b : UInt8) : ' ' ∉ hexByte b ∧ '\n' ∉ hexByte b := by
  have hd : ∀ d < 16, Nat.digitChar d ≠ ' ' ∧ Nat.digitChar d ≠ '\n' := by decide
  have hb := b.toNat_lt
  have h₁ := hd (b.toNat / 16) (by omega)
  have h₂ := hd (b.toNat % 16) (by omega)
  simp only [hexByte, List.mem_cons, List.not_mem_nil, or_false, not_or]
  exact ⟨⟨h₁.1.symm, h₂.1.symm⟩, h₁.2.symm, h₂.2.symm⟩

theorem token_text (m : EthAddr) : Token m.text := by
  obtain ⟨b₀, b₁, b₂, b₃, b₄, b₅, hm⟩ := eq_six_bytes m
  have h := hexByte_not_mem
  refine ⟨by simp [EthAddr.text, hm, hexByte], ?_, ?_⟩ <;>
  simp [EthAddr.text, hm, List.intercalate_cons_cons, h]

theorem length_ipText (a b c d : UInt8) : (ipText a b c d).length ≤ 15 := by
  have h : ∀ x : UInt8, (Nat.toDigits 10 x.toNat).length ≤ 3 := fun x =>
    Nat.toDigits_length 10 _ 3 (by decide) (by have := x.toNat_lt; omega)
  have ha := h a
  have hb := h b
  have hc := h c
  have hd := h d
  simp only [ipText, List.length_append, List.length_cons]
  omega

theorem length_text (m : EthAddr) : m.text.length = 17 := by
  obtain ⟨b₀, b₁, b₂, b₃, b₄, b₅, hm⟩ := eq_six_bytes m
  simp [EthAddr.text, hm, List.intercalate_cons_cons, hexByte]

theorem strtokBlank_last {t : List Char} (ht : Token t) :
    strtokBlank (t ++ ['\n']) = some (t ++ ['\n'], []) := by
  have h := @strtokBlank_token (t ++ ['\n']) [] (by simp) (by simpa using ht.2.1) (Or.inl rfl)
  simpa using h

namespace CfgOption

/-- The value `cfg_load` hands to the option's handler: the token after the name, without its
newline. -/
def value : CfgOption → List Char
  | .staticArp a b c d _ => ipText a b c d
  | o => o.valueText

/-- What is left of the line after the value, where `parse_static_arp_entry` reads its MAC. -/
def rest : CfgOption → List Char
  | .staticArp _ _ _ _ m => m.text ++ ['\n']
  | _ => []

theorem token_name (o : CfgOption) :
    Token o.name ∧ ¬(o.name.head? = some '#' ∨ o.name.head? = some '\n') ∧ o.name.length ≤ 27 := by
  rcases o with ⟨f⟩ | _ | ⟨o⟩ | _ | _ | _
  · cases f <;> dsimp only [name, HostField.name] <;> decide +kernel
  · dsimp only [name]; decide +kernel
  · cases o <;> dsimp only [name, LongOption.name] <;> decide +kernel
  all_goals dsimp only [name]; decide +kernel

theorem newline_not_mem_valueText (o : CfgOption) : '\n' ∉ o.valueText := by
  rcases o with ⟨_, a, b, c, d⟩ | m | ⟨_, n⟩ | lc | ⟨a, b, c, d, m⟩ | _
  · exact (token_ipText a b c d).2.2
  · exact (token_text m).2.2
  · exact (token_toDigits n).2.2
  · cases lc <;> decide
  · simp only [valueText, List.mem_append, List.mem_cons, not_or]
    exact ⟨(token_ipText a b c d).2.2, by decide, (token_text m).2.2⟩
  · decide

theorem length_valueText {env : CfgEnv} (o : CfgOption) (hv : o.Valid env) :
    o.valueText.length ≤ 33 := by
  rcases o with ⟨_, a, b, c, d⟩ | m | ⟨_, n⟩ | lc | ⟨a, b, c, d, m⟩ | _
  · have := length_ipText a b c d
    simp only [valueText]
    omega
  · simp [valueText, length_text]
  · exact (Nat.toDigits_length 10 n 19 (by decide) (by have := hv.1; omega)).trans (by decide)
  · cases lc <;> decide
  · have := length_ipText a b c d
    simp only [valueText, List.length_append, List.length_cons, length_text]
    omega
  · decide

theorem fgets_render {env : CfgEnv} (o : CfgOption) (hv : o.Valid env) (f : List Char) :
    fgets bufsiz (o.render ++ f) = some (o.render, f) := by
  have hl : '\n' ∉ o.name ++ ' ' :: o.valueText := by
    simp only [List.mem_append, List.mem_cons, not_or]
    exact ⟨o.token_name.1.2.2, by decide, o.newline_not_mem_valueText⟩
  have hlen : (o.name ++ ' ' :: o.valueText).length + 1 < bufsiz := by
    have := o.token_name.2.2
    have := o.length_valueText hv
    simp only [List.length_append, List.length_cons, bufsiz]
    omega
  simpa [render] using fgets_line hl hlen f

theorem strtokBlank_render (o : CfgOption) :
    strtokBlank o.render = some (o.name, o.valueText ++ ['\n']) := by
  have h := strtokBlank_token o.token_name.1.1 o.token_name.1.2.1
    (Or.inr ⟨o.valueText ++ ['\n'], rfl⟩)
  simpa [render] using h

theorem strtokBlank_valueText (o : CfgOption) :
    ∃ val, strtokBlank (o.valueText ++ ['\n']) = some (val, o.rest) ∧
      (if val.getLast? = some '\n' then val.dropLast else val) = o.value := by
  have hlast : ∀ {t}, Token t → strtokBlank (t ++ ['\n']) = some (t ++ ['\n'], []) ∧
      (if (t ++ ['\n']).getLast? = some '\n' then (t ++ ['\n']).dropLast else t ++ ['\n']) = t :=
    fun ht => ⟨strtokBlank_last ht, by simp⟩
  rcases o with ⟨_, a, b, c, d⟩ | m | ⟨_, n⟩ | lc | ⟨a, b, c, d, m⟩ | _
  · exact ⟨_, hlast (token_ipText a b c d)⟩
  · exact ⟨_, hlast (token_text m)⟩
  · exact ⟨_, hlast (token_toDigits n)⟩
  · cases lc
    · exact ⟨_, hlast (by decide)⟩
    · exact ⟨_, hlast (by decide)⟩
  · have ht := token_ipText a b c d
    refine ⟨ipText a b c d, ?_, ?_⟩
    · have h := strtokBlank_token ht.1 ht.2.1 (Or.inr ⟨m.text ++ ['\n'], rfl⟩)
      simpa [valueText, rest] using h
    · rw [if_neg fun h => ht.2.2 (List.mem_of_getLast? h)]
      rfl
  · exact ⟨_, hlast (by decide)⟩

end CfgOption

/-! ## The handlers on rendered values -/

section Handlers

variable {env : CfgEnv} {cfg : Cfg}

theorem parseHostIp_ipText {f : HostField} {a b c d : UInt8}
    (hv : (CfgOption.hostIp f a b c d).Valid env) (cfg : Cfg) :
    parseHostIp f.name (ipText a b c d) cfg = (0, cfg.setHostIp (makeIpAddr a b c d) f) := by
  obtain ⟨h127, hmask⟩ := hv
  have hip : strToIp (ipText a b c d) = some (makeIpAddr a b c d) := by
    simpa using strToIp_ipText a b c d noDigitHead_nil
  have hnm : ¬(f.name = "host_netmask".toList ∧ (makeIpAddr a b c d = 0 ∨
      (~~~makeIpAddr a b c d + 1) &&& ~~~makeIpAddr a b c d ≠ 0)) := by
    rintro ⟨hn, h⟩
    have hf : f = .netmask := by
      cases f
      · exact absurd hn (by decide +kernel)
      · rfl
      · exact absurd hn (by decide +kernel)
    obtain ⟨h0, hc⟩ := hmask hf
    tauto
  simp only [parseHostIp, hostField_name, hip, if_neg hnm, if_neg h127]

theorem parseLong_toDigits {lo hi : Option ℤ} {store : ℤ → Cfg → Cfg} {n : ℕ} (hn : n < 2 ^ 63)
    (hlo : ∀ l ∈ lo, l ≤ n) (hhi : ∀ u ∈ hi, (n : ℤ) ≤ u) (cfg : Cfg) :
    parseLong lo hi store (Nat.toDigits 10 n) cfg = (0, store n cfg) := by
  have hl : lo.any (fun l => decide ((n : ℤ) < l)) = false := by
    cases lo <;> simp_all
  have hh : hi.any (fun u => decide (u < (n : ℤ))) = false := by
    cases hi <;> simp_all
  simp only [parseLong, strToLong_toDigits hn, hl, hh, Bool.or_false, Bool.false_eq_true, if_false]

theorem parseMacAddress_text (m : EthAddr) (cfg : Cfg) :
    parseMacAddress m.text cfg = (0, { cfg with mac := m }) := by
  have h := strToMac_text m (r := []) (by simp) cfg.mac
  rw [List.append_nil] at h
  simp only [parseMacAddress, h, if_true]

theorem LongOption.handler (o : LongOption) {n : ℕ} (hv : o.Valid env n) :
    ∃ h i, cfgHandlers.zipIdx.find? (·.1.name = o.name) = some (h, i) ∧
      h.fn env o.name (Nat.toDigits 10 n) [] cfg = some (0, o.apply n cfg) := by
  obtain ⟨hn, hb⟩ := hv
  cases o
  · refine ⟨_, 4, rfl, congrArg some ?_⟩
    rw [LongOption.apply, ← uint32_ofInt_natCast]
    exact parseLong_toDigits hn (by simp) (by simpa [ethMaxMtu] using hb) cfg
  · refine ⟨_, 5, rfl, congrArg some ?_⟩
    rw [LongOption.apply, ← uint32_ofInt_natCast]
    exact parseLong_toDigits hn (by simpa using hb.1) (by simpa using hb.2) cfg
  · refine ⟨_, 6, rfl, congrArg some ?_⟩
    rw [LongOption.apply, ← uint32_ofInt_natCast]
    exact parseLong_toDigits hn (by simp) (by simp) cfg
  · refine ⟨_, 7, rfl, congrArg some ?_⟩
    rw [LongOption.apply, ← uint32_ofInt_natCast]
    exact parseLong_toDigits hn (by simp) (by simpa using hb) cfg
  · refine ⟨_, 9, rfl, congrArg some ?_⟩
    rw [LongOption.apply, ← uint64_ofInt_natCast]
    exact parseLong_toDigits hn (by simp) (by simp) cfg
  · refine ⟨_, 10, rfl, congrArg some ?_⟩
    rw [LongOption.apply, ← uint64_ofInt_natCast]
    exact parseLong_toDigits hn (by simp) (by simp) cfg
  · refine ⟨_, 12, rfl, congrArg some ?_⟩
    exact parseLong_toDigits hn (by simp [logEmerg]) (by simpa [logDebug] using hb) cfg
  · refine ⟨_, 14, rfl, congrArg some ?_⟩
    exact parseLong_toDigits hn (by simp) (by simpa using hb) cfg

theorem CfgOption.handler (o : CfgOption) (hv : o.Valid env)
    (harp : o.isStaticArp → cfg.staticEntries.length < maxArpStaticEntries) :
    ∃ h i, cfgHandlers.zipIdx.find? (·.1.name = o.name) = some (h, i) ∧
      h.fn env o.name o.value o.rest cfg = some (0, o.apply cfg) := by
  rcases o with ⟨f, a, b, c, d⟩ | m | ⟨o, n⟩ | lc | ⟨a, b, c, d, m⟩ | _
  · have h := congrArg some (parseHostIp_ipText hv cfg)
    cases f
    · exact ⟨_, 0, rfl, h⟩
    · exact ⟨_, 1, rfl, h⟩
    · exact ⟨_, 2, rfl, h⟩
  · exact ⟨_, 3, rfl, congrArg some (parseMacAddress_text m cfg)⟩
  · exact o.handler hv
  · cases lc
    · exact ⟨_, 8, rfl, rfl⟩
    · exact ⟨_, 8, rfl, rfl⟩
  · refine ⟨_, 11, rfl, ?_⟩
    have hip : strToIp (ipText a b c d) = some (makeIpAddr a b c d) := by
      simpa using strToIp_ipText a b c d noDigitHead_nil
    have hmac : strToMac (m.text ++ ['\n']) EthAddr.zero = (true, m) :=
      strToMac_text m (fun x hx => by
        simp only [List.head?_cons, Option.mem_def, Option.some.injEq] at hx
        subst hx
        decide) _
    show parseStaticArpEntry (ipText a b c d) (m.text ++ ['\n']) cfg = _
    simp only [parseStaticArpEntry, hip, if_neg (not_le.2 (harp rfl)),
      strtokBlank_last (token_text m), hmac, if_true]
    rfl
  · exact ⟨_, 13, rfl, rfl⟩

end Handlers

/-! ## Reading a rendered file -/

section Render

variable {env : CfgEnv} {fuel : ℕ} {parsed : List (BitVec 64)} {cfg : Cfg}

theorem CfgOption.length_staticEntries_apply (o : CfgOption) (cfg : Cfg) :
    (o.apply cfg).staticEntries.length =
      cfg.staticEntries.length + if o.isStaticArp then 1 else 0 := by
  rcases o with ⟨f⟩ | _ | ⟨o⟩ | _ | _ | _
  · cases f <;> rfl
  · rfl
  · cases o <;> rfl
  · rfl
  · simp [CfgOption.apply, CfgOption.isStaticArp]
  · rfl

/-- The line of an option runs its handler, which accepts it. -/
theorem cfgLoadLoop_render (o : CfgOption) (hv : o.Valid env)
    (harp : o.isStaticArp → cfg.staticEntries.length < maxArpStaticEntries) (f : List Char) :
    ∃ h i, cfgHandlers.zipIdx.find? (·.1.name = o.name) = some (h, i) ∧
      cfgLoadLoop env (fuel + 1) (o.render ++ f) parsed cfg =
        cfgLoadLoop env fuel f (bitmapSet parsed i) (o.apply cfg) := by
  obtain ⟨h, i, hfind, hfn⟩ := o.handler hv harp
  obtain ⟨val, hval, hstrip⟩ := o.strtokBlank_valueText
  have hhead : o.render.head? = o.name.head? := by
    rw [CfgOption.render, List.append_assoc]
    exact List.head?_append_of_ne_nil _ o.token_name.1.1
  refine ⟨h, i, hfind, cfgLoadLoop_accept (o.fgets_render hv f) ?_ o.strtokBlank_render hval
    hfind (hstrip ▸ hfn)⟩
  rw [hhead]
  exact o.token_name.2.1

theorem cfgRender_cons (o : CfgOption) (os : List CfgOption) :
    cfgRender (o :: os) = o.render ++ cfgRender os :=
  List.flatMap_cons ..

theorem length_le_cfgRender (os : List CfgOption) : os.length ≤ (cfgRender os).length := by
  induction os with
  | nil => simp
  | cons o os ih =>
    rw [cfgRender_cons, List.length_append, List.length_cons]
    have : 1 ≤ o.render.length := by
      simp only [CfgOption.render, List.length_append, List.length_cons]
      omega
    omega

/-- A file of valid option lines is read to its end, each line setting its option and the bit of
its handler. -/
theorem cfgLoadLoop_cfgRender (os : List CfgOption) (hv : ∀ o ∈ os, o.Valid env)
    (harp : cfg.staticEntries.length + (os.filter CfgOption.isStaticArp).length ≤
      maxArpStaticEntries)
    (hfuel : os.length < fuel) (hlen : 0 < parsed.length) :
    ∃ parsed', cfgLoadLoop env fuel (cfgRender os) parsed cfg =
        some (.done parsed' (os.foldl CfgOption.apply cfg)) ∧
      parsed'.length = parsed.length ∧ (∀ j, bitmapTest parsed j = true → bitmapTest parsed' j = true) ∧
      ∀ o ∈ os, ∀ h i, cfgHandlers.zipIdx.find? (·.1.name = o.name) = some (h, i) →
        bitmapTest parsed' i = true := by
  induction os generalizing fuel parsed cfg with
  | nil =>
    obtain ⟨k, rfl⟩ : ∃ k, fuel = k + 1 := ⟨fuel - 1, by simp at hfuel; omega⟩
    exact ⟨parsed, by simp [cfgRender, cfgLoadLoop, fgets], rfl, fun _ h => h, by simp⟩
  | cons o os ih =>
    obtain ⟨k, rfl⟩ : ∃ k, fuel = k + 1 := ⟨fuel - 1, by simp at hfuel; omega⟩
    have happ := o.length_staticEntries_apply cfg
    have hfilter : (List.filter CfgOption.isStaticArp (o :: os)).length =
        (if o.isStaticArp then 1 else 0) + (os.filter CfgOption.isStaticArp).length := by
      by_cases ho : o.isStaticArp <;> simp [ho, Nat.add_comm]
    obtain ⟨h, i, hfind, hstep⟩ := @cfgLoadLoop_render env k parsed cfg o
      (hv o (List.mem_cons_self ..)) (fun ho => by simp only [ho, if_true] at hfilter; omega)
      (cfgRender os)
    have hi : i / bitsPerLong < parsed.length := by
      have := (List.getElem?_eq_some_iff.1 (cfgHandlers_of_find? hfind).1).1
      simp only [bitsPerLong]
      have : cfgHandlers.length = 18 := rfl
      omega
    obtain ⟨parsed', hrun, hlen', hmono, hset⟩ := @ih (k) (bitmapSet parsed i) (o.apply cfg)
      (fun o ho => hv o (List.mem_cons_of_mem _ ho))
      (by rw [happ]; split_ifs at hfilter ⊢ <;> omega) (by simp at hfuel; omega)
      (by rw [length_bitmapSet]; exact hlen)
    refine ⟨parsed', ?_, by rw [hlen', length_bitmapSet], fun j hj => hmono j ?_, ?_⟩
    · rw [cfgRender_cons, hstep, List.foldl_cons]
      exact hrun
    · exact (bitmapTest_bitmapSet_iff hi j).2 (Or.inr hj)
    · intro o' ho' h' i' hfind'
      rcases List.mem_cons.1 ho' with rfl | ho'
      · rw [hfind] at hfind'
        cases hfind'
        exact hmono i ((bitmapTest_bitmapSet_iff hi i).2 (Or.inl rfl))
      · exact hset o' ho' h' i' hfind'

/-- `cfg_load` reads back a file of valid option lines that sets every required option and
leaves `guaranteedks` at most `maxks`: it returns `0` with every option applied in order. -/
theorem cfgLoad_cfgRender (os : List CfgOption) (hv : ∀ o ∈ os, o.Valid env)
    (hreq : ∀ n ∈ requiredOptions, ∃ o ∈ os, o.name = n)
    (harp : cfg.staticEntries.length + (os.filter CfgOption.isStaticArp).length ≤
      maxArpStaticEntries)
    (hks : (os.foldl CfgOption.apply cfg).guaranteedks ≤ (os.foldl CfgOption.apply cfg).maxks) :
    cfgLoad env (cfgRender os) cfg = some (0, os.foldl CfgOption.apply cfg) := by
  obtain ⟨parsed, hrun, -, -, hset⟩ := @cfgLoadLoop_cfgRender env ((cfgRender os).length + 1)
    (Bitmap.bitmapInit cfgHandlers.length false) cfg os hv harp
    (Nat.lt_succ_of_le (length_le_cfgRender os)) (by decide)
  have hbit : ∀ n ∈ requiredOptions, ∀ h i, cfgHandlers.zipIdx.find? (·.1.name = n) = some (h, i) →
      bitmapTest parsed i = true := by
    intro n hn h i hfind
    obtain ⟨o, ho, rfl⟩ := hreq n hn
    exact hset o ho h i hfind
  have hreq' := cfgHandlers_required_iff.2 ⟨
    hbit "host_addr".toList (by simp [requiredOptions]) _ 0 rfl,
    hbit "host_netmask".toList (by simp [requiredOptions]) _ 1 rfl,
    hbit "host_gateway".toList (by simp [requiredOptions]) _ 2 rfl,
    hbit "runtime_kthreads".toList (by simp [requiredOptions]) _ 5 rfl⟩
  simp only [cfgLoad, hrun, hreq', Bool.false_eq_true, if_false, if_neg (UInt32.not_lt.2 hks)]

theorem cfgLoad_cfgRender_required :
    (∀ o ∈ [CfgOption.hostIp .addr 10 0 0 2, .hostIp .netmask 255 255 255 0,
        .hostIp .gateway 10 0 0 1, .long .runtimeKthreads 4], o.Valid ⟨8, 1⟩) ∧
      (∀ n ∈ requiredOptions, ∃ o ∈ [CfgOption.hostIp .addr 10 0 0 2, .hostIp .netmask 255 255 255 0,
        .hostIp .gateway 10 0 0 1, .long .runtimeKthreads 4], o.name = n) ∧
      Cfg.init.staticEntries.length + (List.filter CfgOption.isStaticArp
        [CfgOption.hostIp .addr 10 0 0 2, .hostIp .netmask 255 255 255 0,
        .hostIp .gateway 10 0 0 1, .long .runtimeKthreads 4]).length ≤ maxArpStaticEntries ∧
      (List.foldl CfgOption.apply Cfg.init [CfgOption.hostIp .addr 10 0 0 2, .hostIp .netmask 255 255 255 0,
        .hostIp .gateway 10 0 0 1, .long .runtimeKthreads 4]).guaranteedks ≤
        (List.foldl CfgOption.apply Cfg.init [CfgOption.hostIp .addr 10 0 0 2, .hostIp .netmask 255 255 255 0,
        .hostIp .gateway 10 0 0 1, .long .runtimeKthreads 4]).maxks ∧
      cfgLoad ⟨8, 1⟩ (cfgRender [CfgOption.hostIp .addr 10 0 0 2, .hostIp .netmask 255 255 255 0,
        .hostIp .gateway 10 0 0 1, .long .runtimeKthreads 4]) Cfg.init =
        some (0, List.foldl CfgOption.apply Cfg.init [CfgOption.hostIp .addr 10 0 0 2, .hostIp .netmask 255 255 255 0,
        .hostIp .gateway 10 0 0 1, .long .runtimeKthreads 4]) := by
  have hv : ∀ o ∈ [CfgOption.hostIp .addr 10 0 0 2, .hostIp .netmask 255 255 255 0,
        .hostIp .gateway 10 0 0 1, .long .runtimeKthreads 4], o.Valid ⟨8, 1⟩ := by decide
  have hreq : ∀ n ∈ requiredOptions, ∃ o ∈ [CfgOption.hostIp .addr 10 0 0 2, .hostIp .netmask 255 255 255 0,
        .hostIp .gateway 10 0 0 1, .long .runtimeKthreads 4], o.name = n := by decide +kernel
  have harp : Cfg.init.staticEntries.length + (List.filter CfgOption.isStaticArp
      [CfgOption.hostIp .addr 10 0 0 2, .hostIp .netmask 255 255 255 0,
        .hostIp .gateway 10 0 0 1, .long .runtimeKthreads 4]).length ≤ maxArpStaticEntries := by decide
  have hks : (List.foldl CfgOption.apply Cfg.init [CfgOption.hostIp .addr 10 0 0 2, .hostIp .netmask 255 255 255 0,
        .hostIp .gateway 10 0 0 1, .long .runtimeKthreads 4]).guaranteedks ≤
      (List.foldl CfgOption.apply Cfg.init [CfgOption.hostIp .addr 10 0 0 2, .hostIp .netmask 255 255 255 0,
        .hostIp .gateway 10 0 0 1, .long .runtimeKthreads 4]).maxks := by decide
  exact ⟨hv, hreq, harp, hks, cfgLoad_cfgRender _ hv hreq harp hks⟩

end Render

end Caladan
