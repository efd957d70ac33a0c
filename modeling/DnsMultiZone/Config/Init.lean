import DnsMultiZone.Config.Accepted
import DnsMultiZone.Lib.Decimal

/-! # The command line

`Config::Init` goes through the options, and `LoadConfig` loads the configuration file and puts the port of
`-p` in place of the one it has. `getopt` is not modelled: an `Opt` is what a call of it returns.

* `portOverride_eq_some_iff`: what `-p` takes.
* `loadConfig_bind`: the port the server says it listens on is the one it listens on, and it is that of the
  last `-p`. -/

namespace DnsMultiZone.Config.Init

open DnsMultiZone.Lib.BigEndian DnsMultiZone.Lib.Decimal DnsMultiZone.Lib.Results
open DnsMultiZone.Config.Address DnsMultiZone.Config.LoadFile DnsMultiZone.Config.LoadConfig
open DnsMultiZone.Config.Priority DnsMultiZone.Config.Accepted
open DnsMultiZone.Config.Lookup (text)

/-! ### Options -/

/-- The two sizes of `long` that the program is built for. -/
inductive Abi
  | ilp32
  | lp64

def Abi.longMax : Abi → ℤ
  | .ilp32 => 2 ^ 31 - 1
  | .lp64 => 2 ^ 63 - 1

/-- What a call of `getopt` with `"b:l:c:p:v"` returns. The argument of an option is its bytes without the
one that ends it. -/
inductive Opt
  | b (optarg : Bytes)
  | l (optarg : Bytes)
  | c (optarg : Bytes)
  | p (optarg : Bytes)
  | v
  | unknown

/-- `gConfig`, and the flag of `SLog` that `-v` sets. -/
structure GConfig extends ConfigData where
  bIsBackMode : Bool := false
  sFileLog : Bytes := []
  nPortOverride : ℕ := 0
  bDebug : Bool := false

def strtolC (abi : Abi) (s : Bytes) : ℤ × Bytes := strtol isSpace (-abi.longMax - 1) abi.longMax s

/-- `atoi`: a `long` that is cut to an `int`. -/
def atoi (abi : Abi) (s : Bytes) : Int32 := Int32.ofInt (strtolC abi s).1

/-- The port of `-p`. -/
def portOverride (abi : Abi) (optarg : Bytes) : Option ℕ :=
  let (lPort, pEnd) := strtolC abi optarg
  if optarg = [] ∨ pEnd ≠ [] ∨ lPort ≤ 0 ∨ lPort > 65535 then none else some lPort.toNat

/-- The body of the loop of `Config::Init`. -/
def option (abi : Abi) (c : GConfig) : Opt → Option GConfig
  | .b optarg => some { c with bIsBackMode := atoi abi optarg ≠ 0 }
  | .l optarg => some { c with sFileLog := optarg }
  | .c optarg => some { c with sFileConfig := optarg }
  | .p optarg => (portOverride abi optarg).map fun nPortOverride => { c with nPortOverride }
  | .v => some { c with bDebug := true }
  | .unknown => some c

/-- `Config::Init`; `none` is `false`. -/
def init (abi : Abi) : List Opt → GConfig → Option GConfig
  | [], c => some c
  | o :: os, c => (option abi c o).bind (init abi os)

/-- The port of an address; without a family the field of an IPv4 address is written. -/
def setPort (nPort : ℕ) : SockAddr → SockAddr
  | .unspec _ => .unspec nPort
  | .inet a _ => .inet a nPort
  | .inet6 a _ scopeId => .inet6 a nPort scopeId

/-- `Config::LoadConfig`. -/
def loadConfig (env : Env) (c : GConfig) : Except LoadError GConfig := do
  let d ← loadConfigJson env c.toConfigData
  let c := { c with toConfigData := d }
  if c.nPortOverride ≠ 0 then
    let uServerPort := c.nPortOverride % 2 ^ 16
    return { c with uServerPort, ssBindAddress := setPort uServerPort c.ssBindAddress }
  else return c

/-! ### `-p` -/

theorem isSpace_sign (c : UInt8) (h : isSpace c) : c ≠ 0x2D ∧ c ≠ 0x2B ∧ ¬ isDigit c := by
  simp only [isSpace, isDigit, Bool.or_eq_true, Bool.and_eq_true, beq_iff_eq, decide_eq_true_eq,
    UInt8.le_iff_toNat_le] at h ⊢
  refine ⟨?_, ?_, ?_⟩
  · rintro rfl
    rcases h with h | ⟨-, h⟩
    · exact absurd h (by decide)
    · exact absurd h (by decide)
  · rintro rfl
    rcases h with h | ⟨-, h⟩
    · exact absurd h (by decide)
    · exact absurd h (by decide)
  · rintro ⟨h1, -⟩
    rcases h with rfl | ⟨-, h⟩
    · exact absurd h1 (by decide)
    · exact absurd (h1.trans h) (by decide)

/-- **`-p` takes** exactly the integers from 1 to 65535, with white space before them or a sign or not. -/
theorem portOverride_eq_some_iff (abi : Abi) (optarg : Bytes) (n : ℕ) :
    portOverride abi optarg = some n ↔ Integer isSpace optarg n ∧ 1 ≤ n ∧ n ≤ 65535 := by
  have hmax : 65535 < abi.longMax := by cases abi <;> decide
  constructor
  · intro h
    rcases hs : strtolC abi optarg with ⟨lPort, pEnd⟩
    simp only [portOverride, hs] at h
    split_ifs at h with hbad
    obtain ⟨hne, hend, hpos, hle⟩ := by simpa only [not_or, not_not] using hbad
    subst hend
    obtain ⟨v, hv, hl⟩ := (strtol_all_iff isSpace_sign hne).mp hs
    have hn := Option.some.inj h
    obtain rfl : v = n := by omega
    exact ⟨hv, by omega, by omega⟩
  · rintro ⟨hv, h1, h2⟩
    have hs : strtolC abi optarg = ((n : ℤ), []) :=
      (strtol_all_iff isSpace_sign hv.ne_nil).mpr ⟨n, hv, by omega⟩
    simp only [portOverride, hs]
    rw [if_neg, Int.toNat_natCast]
    simp only [not_or, not_not]
    exact ⟨hv.ne_nil, trivial, by omega, by omega⟩

/-! ### The options one after the other -/

/-- The arguments of `-p`. -/
def ports : List Opt → List Bytes
  | [] => []
  | .p optarg :: os => optarg :: ports os
  | _ :: os => ports os

/-- The arguments of `-c`. -/
def files : List Opt → List Bytes
  | [] => []
  | .c optarg :: os => optarg :: files os
  | _ :: os => files os

/-- The last of each option counts, and every `-p` is a port. -/
theorem init_eq_some {abi : Abi} {os : List Opt} {c c' : GConfig} (h : init abi os c = some c') :
    (∀ optarg ∈ ports os, (portOverride abi optarg).isSome) ∧
      some c'.nPortOverride = ((ports os).getLast?.elim (some c.nPortOverride) (portOverride abi)) ∧
      c'.sFileConfig = (files os).getLast?.getD c.sFileConfig ∧
      (c'.uServerPort, c'.ssBindAddress, c'.vsZoneInfos) = (c.uServerPort, c.ssBindAddress, c.vsZoneInfos) := by
  induction os generalizing c with
  | nil =>
    cases h
    exact ⟨fun _ h => (nomatch h), rfl, rfl, rfl⟩
  | cons o os ih =>
    obtain ⟨c₁, hc, h⟩ := Option.bind_eq_some_iff.mp h
    obtain ⟨hall, hport, hfile, hrest⟩ := ih h
    cases o with
    | b optarg =>
      cases hc
      exact ⟨hall, hport, hfile, hrest⟩
    | l optarg =>
      cases hc
      exact ⟨hall, hport, hfile, hrest⟩
    | v =>
      cases hc
      exact ⟨hall, hport, hfile, hrest⟩
    | unknown =>
      cases hc
      exact ⟨hall, hport, hfile, hrest⟩
    | c optarg =>
      cases hc
      refine ⟨hall, hport, ?_, hrest⟩
      rw [hfile, files, List.getLast?_cons]
      rcases (files os).getLast? with _ | f <;> rfl
    | p optarg =>
      obtain ⟨n, hn, rfl⟩ := Option.map_eq_some_iff.mp hc
      refine ⟨List.forall_mem_cons.mpr ⟨by rw [hn]; rfl, hall⟩, ?_, hfile, hrest⟩
      rw [hport, ports, List.getLast?_cons]
      rcases (ports os).getLast? with _ | f
      · exact hn.symm
      · rfl

/-! ### The address -/

theorem bindAddress_of_loadConfigJson {env : Env} {c c' : ConfigData} (h : loadConfigJson env c = .ok c') :
    ∃ cjMonitor sLocalIP nPort, readConfig env c = some cjMonitor ∧
      stringValue (member "bindIP" cjMonitor) = some sLocalIP ∧
      numberValue (member "serverPort" cjMonitor) = some nPort ∧ c'.uServerPort = toPort nPort ∧
      bindAddress env.inet sLocalIP c'.uServerPort = some (c'.ssBindAddress, c'.slBindAddressLen) := by
  unfold loadConfigJson at h
  rcases hjson : readConfig env c with _ | cjMonitor <;> rw [hjson] at h
  · exact nomatch h
  obtain ⟨cjLocalIP, hIP, h⟩ := ok_of_bind h
  obtain ⟨cjLocalPort, hPort, h⟩ := ok_of_bind h
  split at h
  swap
  · exact nomatch h
  rename_i sLocalIP nPort hs hn
  split at h
  · exact nomatch h
  rename_i addr len haddr
  obtain ⟨cjZones, -, h⟩ := ok_of_bind h
  obtain ⟨zs, -, h⟩ := ok_of_bind h
  obtain rfl := (Except.ok.inj h).symm
  exact ⟨cjMonitor, sLocalIP, nPort, rfl, by rw [member_eq hIP, hs], by rw [member_eq hPort, hn], rfl, haddr⟩

theorem bindAddress_setPort {inet : Inet} {sLocalIP : Bytes} {n m len : ℕ} {addr : SockAddr}
    (h : bindAddress inet sLocalIP n = some (addr, len)) :
    bindAddress inet sLocalIP m = some (setPort m addr, len) := by
  unfold bindAddress at h ⊢
  split_ifs at h ⊢
  · obtain ⟨a, ha, heq⟩ := Option.map_eq_some_iff.mp h
    cases heq
    rw [ha]
    rfl
  · obtain ⟨a, ha, heq⟩ := Option.map_eq_some_iff.mp h
    cases heq
    rw [ha]
    rfl

/-- **The address that is bound** is `bindIP` with the port in `m_uServerPort`. That port is the one of the
last `-p`, and without `-p` the last 16 bits of `serverPort`. -/
theorem loadConfig_bind (abi : Abi) (os : List Opt) (env : Env) (c c' : GConfig)
    (hinit : init abi os {} = some c) (hload : loadConfig env c = .ok c') :
    ∃ cjMonitor sLocalIP nPort, readConfig env c.toConfigData = some cjMonitor ∧
      c.sFileConfig = (files os).getLast?.getD (text "DNSMZConfig.json") ∧
      stringValue (member "bindIP" cjMonitor) = some sLocalIP ∧
      numberValue (member "serverPort" cjMonitor) = some nPort ∧
      bindAddress env.inet sLocalIP c'.uServerPort = some (c'.ssBindAddress, c'.slBindAddressLen) ∧
      (ports os = [] → c'.uServerPort = toPort nPort) ∧
      ∀ optarg, (ports os).getLast? = some optarg →
        1 ≤ c'.uServerPort ∧ c'.uServerPort ≤ 65535 ∧ Integer isSpace optarg c'.uServerPort := by
  obtain ⟨-, hport, hfile, -⟩ := init_eq_some hinit
  obtain ⟨d, hd, h⟩ := ok_of_bind hload
  obtain ⟨cjMonitor, sLocalIP, nPort, hjson, hs, hn, hp, haddr⟩ := bindAddress_of_loadConfigJson hd
  refine ⟨cjMonitor, sLocalIP, nPort, hjson, hfile, hs, hn, ?_⟩
  rcases hlast : (ports os).getLast? with _ | optarg <;> rw [hlast] at hport
  · have hno : c.nPortOverride = 0 := Option.some.inj hport
    rw [if_neg (not_not.mpr hno)] at h
    obtain rfl := (Except.ok.inj h).symm
    exact ⟨haddr, fun _ => hp, fun _ h => nomatch h⟩
  · obtain ⟨hv, h1, h2⟩ := (portOverride_eq_some_iff abi optarg c.nPortOverride).mp hport.symm
    have hne : c.nPortOverride ≠ 0 := by omega
    rw [if_pos hne] at h
    obtain rfl := (Except.ok.inj h).symm
    have hmod : c.nPortOverride % 2 ^ 16 = c.nPortOverride := Nat.mod_eq_of_lt (by omega)
    refine ⟨bindAddress_setPort haddr, fun hnil => ?_, ?_⟩
    · rw [hnil] at hlast
      exact nomatch hlast
    · rintro _ ⟨⟩
      dsimp only
      rw [hmod]
      exact ⟨h1, h2, hv⟩

/-- With `-v -p 0053 -p +5353`. -/
theorem loadConfig_bind_option : ∃ c c', init .lp64 [.v, .p (text "0053"), .p (text "+5353")] {} = some c ∧
    loadConfig listsEnv c = .ok c' ∧ Integer isSpace (text "+5353") c'.uServerPort := by
  obtain ⟨d, hd, -⟩ := lists_ok
  have hinit : init .lp64 [.v, .p (text "0053"), .p (text "+5353")] {} =
      some { nPortOverride := 5353, bDebug := true } := rfl
  have hload : loadConfig listsEnv { nPortOverride := 5353, bDebug := true } = .ok _ :=
    bind_of_ok hd _
  obtain ⟨_, _, _, -, -, -, -, -, -, hlast⟩ := loadConfig_bind _ _ _ _ _ hinit hload
  exact ⟨_, _, hinit, hload, (hlast _ rfl).2.2⟩

end DnsMultiZone.Config.Init
