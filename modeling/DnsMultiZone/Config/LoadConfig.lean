import DnsMultiZone.Config.Lookup
import DnsMultiZone.Config.Resolv

/-! # `Config::LoadConfigJson`

The configuration is a JSON text. `cJSON_Parse` is a parameter; the items it builds are `CJson`, and what
the program asks of them is here. `LoadConfigJson` checks the global fields, then reads each entry of
`zoneList` and, in an enabled one, each entry of its `ipList`; last it sorts the zones by priority.

The first entry that is not as required ends it (`LoadError`). Looking up a member in an array that is not
empty compares a name with the null pointer that an element has for its own: `LoadError.fault`. The length of
the file is an `int`; one that is negative is too large for a string: `LoadError.lengthError`. -/

namespace DnsMultiZone.Config.LoadConfig

open DnsMultiZone.Lib.BigEndian DnsMultiZone.Lib.Sorting
open DnsMultiZone.Config.Address DnsMultiZone.Config.ConfigType DnsMultiZone.Config.LoadFile
open DnsMultiZone.Config.Resolv
open DnsMultiZone.Config.Lookup (text)

/-! ### JSON items -/

/-- A `cJSON` item. Strings are what their `char *` shows, and a number is its `valueint`. -/
inductive CJson
  | null
  | bool (b : Bool)
  | number (valueint : Int32)
  | string (valuestring : Bytes)
  | array (items : List CJson)
  | object (members : List (Bytes × CJson))

/-- Why `LoadConfigJson` does not return `true`: it returns `false`, in two places with a line in the log, it
runs into a null pointer, or `std::string::resize` throws. -/
inductive LoadError
  | refused
  | needsFamily (sName sFileName : Bytes)
  | loadFailed (sFileName : Bytes)
  | fault
  | lengthError

/-- `cJSON_GetObjectItemCaseSensitive`: the first member with the name. -/
def getObjectItemCaseSensitive (name : String) : Option CJson → Except LoadError (Option CJson)
  | some (.object members) => .ok ((members.find? (·.1 = text name)).map (·.2))
  | some (.array (_ :: _)) => .error .fault
  | _ => .ok none

/-- What `cJSON_ArrayForEach` goes through: the elements of an array, or the members of an object. -/
def children : Option CJson → List CJson
  | some (.array items) => items
  | some (.object members) => members.map (·.2)
  | _ => []

/-- `cJSON_IsString`, and `valuestring`. -/
def stringValue : Option CJson → Option Bytes
  | some (.string valuestring) => some valuestring
  | _ => none

/-- `cJSON_IsNumber`, and `valueint`. -/
def numberValue : Option CJson → Option Int32
  | some (.number valueint) => some valueint
  | _ => none

/-- `cJSON_IsBool`, and `cJSON_IsTrue`. -/
def boolValue : Option CJson → Option Bool
  | some (.bool b) => some b
  | _ => none

/-- `cJSON_IsArray`, and the elements. -/
def arrayValue : Option CJson → Option (List CJson)
  | some (.array items) => some items
  | _ => none

/-- A `valueint` stored as `unsigned short`. -/
def toPort (valueint : Int32) : ℕ := valueint.toUInt32.toNat % 2 ^ 16

/-! ### Loading -/

/-- `ZoneInfoCompare`. -/
def zoneInfoCompare (a b : ZoneInfo) : Bool := a.nPriority < b.nPriority

/-- What `LoadConfigJson` uses of the C and C++ libraries: the address functions, the bytes of the files
that can be read, the parser, and the three sorts. -/
structure Env where
  inet : Inet
  files : Bytes → Option Bytes
  cJSON_Parse : Bytes → Option CJson
  sort4 : StdSort compareIPItemInfo
  sort6 : StdSort compareIPItemInfo6
  sortZones : StdSort zoneInfoCompare

/-- The members of `Config`, without the options of the command line. -/
structure ConfigData where
  sFileConfig : Bytes := text "DNSMZConfig.json"
  uServerPort : ℕ := 0
  ssBindAddress : SockAddr := .unspec 0
  slBindAddressLen : ℕ := 0
  vsZoneInfos : List ZoneInfo := []

/-- The length of a file as an `int`. -/
def fileLen (sBin : Bytes) : ℤ := (sBin.length : ℤ).bmod 4294967296

/-- `Util::GetBinByFile`: as many bytes as the `int` says. None are an error. -/
def getBinByFile (files : Bytes → Option Bytes) (cFile : Bytes) : Option Bytes :=
  match files cFile with
  | none => none
  | some sBin => if fileLen sBin ≤ 0 then none else some (sBin.take (fileLen sBin).toNat)

/-- How `GetBinByFile` fails. -/
def getBinError (files : Bytes → Option Bytes) (cFile : Bytes) : LoadError :=
  match files cFile with
  | none => .refused
  | some sBin => if fileLen sBin < 0 then .lengthError else .refused

/-- The JSON of the configuration file. -/
def readConfig (env : Env) (c : ConfigData) : Option CJson :=
  match getBinByFile env.files c.sFileConfig with
  | none => none
  | some sJson => env.cJSON_Parse (cStr sJson)

/-- A file of less than 2 GiB is parsed as it is. -/
theorem readConfig_eq {env : Env} {c : ConfigData} {sJson : Bytes} (h : env.files c.sFileConfig = some sJson)
    (h0 : sJson ≠ []) (hlen : sJson.length < 2147483648) :
    readConfig env c = env.cJSON_Parse (cStr sJson) := by
  have hpos := List.length_pos_iff.mpr h0
  have hn : fileLen sJson = sJson.length := Int.bmod_eq_of_le (by omega) (by omega)
  have hbin : getBinByFile env.files c.sFileConfig = some sJson := by
    unfold getBinByFile
    simp only [h, hn]
    rw [if_neg (by omega), Int.toNat_natCast, List.take_length]
  rw [readConfig, hbin]

/-- The address to listen on, and its length. -/
def bindAddress (inet : Inet) (sLocalIP : Bytes) (uServerPort : ℕ) : Option (SockAddr × ℕ) :=
  if 0x3A ∈ sLocalIP then (inet.pton6 sLocalIP).map fun a => (.inet6 a uServerPort 0, 28)
  else (inet.pton4 sLocalIP).map fun a => (.inet a uServerPort, 16)

/-- The body of the loop over `ipList`: the list of an entry that is enabled. -/
def loadIPInfo (env : Env) (sName : Bytes) (cjIP : CJson) : Except LoadError (Option IPInfo) := do
  let cjIPEnable ← getObjectItemCaseSensitive "enable" cjIP
  let cjDeny ← getObjectItemCaseSensitive "deny" cjIP
  let cjIPIsInverse ← getObjectItemCaseSensitive "inverseIPList" cjIP
  let cjIPFile ← getObjectItemCaseSensitive "file" cjIP
  let cjFamily ← getObjectItemCaseSensitive "family" cjIP
  match boolValue cjIPEnable, boolValue cjIPIsInverse, stringValue cjIPFile with
  | some bEnable, some bIsInverseIPList, some sFileName =>
    match numberValue cjFamily with
    | none => .error (.needsFamily sName sFileName)
    | some nFamily =>
      if nFamily ≠ 4 ∧ nFamily ≠ 6 then .error (.needsFamily sName sFileName)
      else if !bEnable then .ok none
      else
        match IPInfo.loadFile env.inet env.sort4 env.sort6 (env.files sFileName)
          { nFamily := nFamily.toInt, bIsDeny := (boolValue cjDeny).getD false, bIsInverseIPList, sFileName } with
        | none => .error (.loadFailed sFileName)
        | some info => .ok (some info)
  | _, _, _ => .error .refused

/-- The loop over `ipList`. -/
def loadIPInfos (env : Env) (sName : Bytes) : List CJson → ZoneInfo → Except LoadError ZoneInfo
  | [], z => .ok z
  | cjIP :: cjIPs, z => do
    match ← loadIPInfo env sName cjIP with
    | none => loadIPInfos env sName cjIPs z
    | some info =>
      loadIPInfos env sName cjIPs { z with
        bHasV4 := z.bHasV4 || info.nFamily == 4
        bHasV6 := z.bHasV6 || info.nFamily != 4
        siIPInfos := z.siIPInfos ++ [info] }

/-- The body of the loop over `zoneList`: the zone of an entry that is enabled. -/
def loadZone (env : Env) (cjZone : CJson) : Except LoadError (Option ZoneInfo) := do
  let cjName ← getObjectItemCaseSensitive "name" cjZone
  let cjEnable ← getObjectItemCaseSensitive "enable" cjZone
  let cjPriority ← getObjectItemCaseSensitive "priority" cjZone
  let cjResolvFile ← getObjectItemCaseSensitive "resolvFile" cjZone
  let cjDNSIP ← getObjectItemCaseSensitive "dnsIP" cjZone
  let cjDNSPort ← getObjectItemCaseSensitive "dnsPort" cjZone
  let cjDenyNX ← getObjectItemCaseSensitive "denyNXDomain" cjZone
  let cjDropIPv4 ← getObjectItemCaseSensitive "dropIPv4" cjZone
  let cjDropIPv6 ← getObjectItemCaseSensitive "dropIPv6" cjZone
  let cjIPs ← getObjectItemCaseSensitive "ipList" cjZone
  if stringValue cjResolvFile = none ∧ stringValue cjDNSIP = none then .error .refused
  else
    match stringValue cjName, boolValue cjEnable, numberValue cjPriority, numberValue cjDNSPort,
      arrayValue cjIPs with
    | some sName, some bEnable, some nPriority, some nDNSPort, some cjIPs =>
      if !bEnable then .ok none
      else
        match loadUpstream env.inet (stringValue cjResolvFile) (stringValue cjDNSIP) (toPort nDNSPort)
          { sName, nPriority := nPriority.toUInt32 } with
        | none => .error .refused
        | some z =>
          (loadIPInfos env sName cjIPs { z with
            bIsDenyNXDomain := (boolValue cjDenyNX).getD false
            bIsDropIPv4 := (boolValue cjDropIPv4).getD false
            bIsDropIPv6 := (boolValue cjDropIPv6).getD false }).map some
    | _, _, _, _, _ => .error .refused

/-- The loop over `zoneList`. -/
def loadZones (env : Env) : List CJson → List ZoneInfo → Except LoadError (List ZoneInfo)
  | [], vsZoneInfos => .ok vsZoneInfos
  | cjZone :: cjZones, vsZoneInfos => do
    match ← loadZone env cjZone with
    | none => loadZones env cjZones vsZoneInfos
    | some z => loadZones env cjZones (vsZoneInfos ++ [z])

/-- `Config::LoadConfigJson`. -/
def loadConfigJson (env : Env) (c : ConfigData) : Except LoadError ConfigData :=
  match readConfig env c with
  | none => .error (getBinError env.files c.sFileConfig)
  | some cjMonitor => do
    let cjLocalIP ← getObjectItemCaseSensitive "bindIP" cjMonitor
    let cjLocalPort ← getObjectItemCaseSensitive "serverPort" cjMonitor
    match stringValue cjLocalIP, numberValue cjLocalPort with
    | some sLocalIP, some nPort =>
      match bindAddress env.inet sLocalIP (toPort nPort) with
      | none => .error .refused
      | some (ssBindAddress, slBindAddressLen) =>
        let cjZones ← getObjectItemCaseSensitive "zoneList" cjMonitor
        let vsZoneInfos ← loadZones env (children cjZones) c.vsZoneInfos
        return { c with
          uServerPort := toPort nPort
          ssBindAddress
          slBindAddressLen
          vsZoneInfos := env.sortZones.sort vsZoneInfos }
    | _, _ => .error .refused

end DnsMultiZone.Config.LoadConfig
