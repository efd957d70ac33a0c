import DnsMultiZone.Config.LoadFile

/-! # `resolvFile`: `RefreshResolvConf` and `ReloadResolvConf`

A zone's upstream is an address of the configuration (`dnsIP`) or the first `nameserver` line of a
file that shows one. `RefreshResolvConf` reads the file of each zone again when its modification time
is not the one it stored at the last reading. A file is what `stat` and `fopen` see of it. -/

namespace DnsMultiZone.Config.Resolv

open DnsMultiZone.Lib.BigEndian
open DnsMultiZone.Config.Address DnsMultiZone.Config.ConfigType DnsMultiZone.Config.LoadFile

/-! ### A zone's address -/

/-- `ZoneInfo::SetDNSAddrFromString`: a text with a `:` is IPv6. -/
def setDNSAddrFromString (inet : Inet) (cAddr : Bytes) (z : ZoneInfo) : ZoneInfo × Bool :=
  if 0x3A ∈ cAddr then
    match inet.pton6 cAddr with
    | none => ({ z with ssDNSAddr := .unspec 0 }, false)
    | some sin6_addr => ({ z with ssDNSAddr := .inet6 sin6_addr 0 0 }, true)
  else
    match inet.pton4 cAddr with
    | none => ({ z with ssDNSAddr := .unspec 0 }, false)
    | some sin_addr => ({ z with ssDNSAddr := .inet sin_addr 0 }, true)

/-- `ZoneInfo::SetDNSPort`: without a family the field of an IPv4 address is written. -/
def setDNSPort (nPort : ℕ) (z : ZoneInfo) : ZoneInfo :=
  match z.ssDNSAddr with
  | .unspec _ => { z with ssDNSAddr := .unspec nPort }
  | .inet a _ => { z with ssDNSAddr := .inet a nPort }
  | .inet6 a _ scope => { z with ssDNSAddr := .inet6 a nPort scope }

/-- What `LoadConfigJson` does with `resolvFile`, `dnsIP` and `dnsPort` of an enabled zone. -/
def loadUpstream (inet : Inet) (cjResolvFile cjDNSIP : Option Bytes) (cjDNSPort : ℕ) (z : ZoneInfo) :
    Option ZoneInfo := do
  let z ← match cjResolvFile with
    | some sFile => some { z with rcfResolvConf := { z.rcfResolvConf with sResolvConfFile := sFile } }
    | none =>
      match cjDNSIP with
      | none => none
      | some sAddr =>
        match setDNSAddrFromString inet sAddr z with
        | (_, false) => none
        | (z, true) => some { z with bIsDNSAddrOK := true }
  return setDNSPort cjDNSPort { z with nDNSPort := cjDNSPort }

/-! ### Reading a file -/

/-- The strings `fgets` returns: up to a newline, which is kept, or `nMax` bytes. `nLeft` is the room
left for the one being read. -/
def fgets (nMax : ℕ) : ℕ → Bytes → List Bytes
  | _, [] => []
  | nLeft, c :: cs =>
    if c = 0x0A ∨ nLeft ≤ 1 then [c] :: fgets nMax nMax cs
    else
      match fgets nMax (nLeft - 1) cs with
      | [] => [[c]]
      | line :: lines => (c :: line) :: lines

/-- The separators `" \t\n\r"`. -/
def isSeparator (c : UInt8) : Bool := c == 0x20 || c == 0x09 || c == 0x0A || c == 0x0D

/-- `strtok`: the next token, and where the next call continues. -/
def strtok (s : Bytes) : Option (Bytes × Bytes) :=
  match s.dropWhile isSeparator with
  | [] => none
  | c :: cs =>
    some ((c :: cs).takeWhile (!isSeparator ·), ((c :: cs).dropWhile (!isSeparator ·)).drop 1)

/-- `"nameserver"`. -/
def nameserver : Bytes := [0x6E, 0x61, 0x6D, 0x65, 0x73, 0x65, 0x72, 0x76, 0x65, 0x72]

/-- The second token of a line whose first is `nameserver`. -/
def serverToken (line : Bytes) : Option Bytes :=
  match strtok (cStr line) with
  | none => none
  | some (token, rest) => if token ≠ nameserver then none else (strtok rest).map (·.1)

/-- The `while` loop of `ReloadResolvConf`, with `gotone`. -/
def reloadLoop (inet : Inet) : List Bytes → ZoneInfo → ZoneInfo × Bool
  | [], z => (z, false)
  | line :: lines, z =>
    match serverToken line with
    | none => reloadLoop inet lines z
    | some token =>
      match setDNSAddrFromString inet token z with
      | (z, false) => reloadLoop inet lines z
      | (z, true) => (z, true)

/-- `Config::ReloadResolvConf` of a file with the given bytes (`none` if it cannot be opened). The
buffer has 1024 bytes, one of them for the terminator. -/
def reloadResolvConf (inet : Inet) (file : Option Bytes) (z : ZoneInfo) : ZoneInfo × Bool :=
  match file with
  | none => (z, false)
  | some bytes =>
    match reloadLoop inet (fgets 1023 1023 bytes) z with
    | (z, false) => (z, false)
    | (z, true) => (setDNSPort z.nDNSPort z, true)

/-- What `stat` (the modification time) and `fopen` (the bytes) see of a file. -/
structure FileState where
  st_mtime : Option ℤ := none
  content : Option Bytes := none

/-- The body of the loop of `RefreshResolvConf`. -/
def refreshZone (inet : Inet) (f : FileState) (z : ZoneInfo) : ZoneInfo :=
  if z.rcfResolvConf.sResolvConfFile = [] then z
  else
    match f.st_mtime with
    | none => { z with bIsDNSAddrOK := false }
    | some st_mtime =>
      if st_mtime = z.rcfResolvConf.tResolvConfFileTime then { z with bIsDNSAddrOK := true }
      else
        match reloadResolvConf inet f.content { z with
            bIsDNSAddrOK := false
            ssDNSAddr := .unspec 0
            rcfResolvConf := { z.rcfResolvConf with tResolvConfFileTime := st_mtime } } with
        | (z, false) => z
        | (z, true) => { z with bIsDNSAddrOK := true }

/-- `Config::RefreshResolvConf`. -/
def refreshResolvConf (inet : Inet) (files : Bytes → FileState) (vsZoneInfos : List ZoneInfo) :
    List ZoneInfo :=
  vsZoneInfos.map fun z => refreshZone inet (files z.rcfResolvConf.sResolvConfFile) z

/-! ### Files and refreshes over time -/

/-- The files, and the zones as they were refreshed last. -/
structure Sys where
  files : Bytes → FileState
  vsZoneInfos : List ZoneInfo

/-- A file is put in a state, or `RefreshResolvConf` is called. -/
inductive Event
  | edit (sFile : Bytes) (f : FileState)
  | refresh

/-- One event. -/
def step (inet : Inet) : Event → Sys → Sys × Unit
  | .edit sFile f, s => ({ s with files := fun g => if g = sFile then f else s.files g }, ())
  | .refresh, s => ({ s with vsZoneInfos := refreshResolvConf inet s.files s.vsZoneInfos }, ())

/-- A zone as the configuration is loaded: made by `loadUpstream` from a fresh one. -/
def Loaded (inet : Inet) (z : ZoneInfo) : Prop :=
  ∃ cjResolvFile cjDNSIP cjDNSPort z₀, z₀.rcfResolvConf = {} ∧ z₀.bIsDNSAddrOK = false ∧
    z₀.ssDNSAddr = .unspec 0 ∧ loadUpstream inet cjResolvFile cjDNSIP cjDNSPort z₀ = some z

end DnsMultiZone.Config.Resolv
