import DnsMultiZone.Config.Address

/-! # The configuration's types

`IPItemInfo` and `IPItemInfo6` are one line of an IP list: a base address and its mask or prefix.
`IPInfo` is one list, `ZoneInfo` one zone. The two overloads of `IPInfo::CheckIsMatch` are one search
(`searchLoop`) over the sign of `MatchCompare`. Its ends are `int`: the sum of two ends past
`INT_MAX`, an index outside the vector, or a size that is not an `int` give no result (`none`). -/

namespace DnsMultiZone.Config.ConfigType

open DnsMultiZone.Lib.BigEndian DnsMultiZone.Config.Address

/-! ### One entry -/

/-- `IPItemInfo`: an IPv4 range. -/
structure IPItemInfo where
  nIP : UInt32 := 0
  nMask : UInt32 := 0xFFFFFFFF
  deriving DecidableEq

/-- `IPItemInfo::MatchCompare`. -/
def IPItemInfo.matchCompare (e : IPItemInfo) (nIP : UInt32) : ℤ :=
  let nMaskIP := nIP &&& e.nMask
  if nMaskIP = e.nIP then 0 else if nMaskIP > e.nIP then 1 else -1

/-- `memcmp` of two strings of one length. -/
def memcmp : Bytes → Bytes → ℤ
  | a :: as, b :: bs => if a = b then memcmp as bs else (a.toNat : ℤ) - b.toNat
  | _, _ => 0

/-- A byte with its first `nBitLeft` bits kept. -/
def maskByte (nBitLeft : ℕ) (c : UInt8) : UInt8 :=
  if nBitLeft ≥ 8 then c
  else if nBitLeft = 0 then 0
  else UInt8.ofNat (c.toNat &&& (0xFF <<< (8 - nBitLeft)))

/-- `ApplyMask`: byte `i` keeps what of the prefix reaches into it. -/
def applyMask (cIP : Bytes) (nPrefix : ℕ) : Bytes :=
  cIP.mapIdx fun i c => maskByte (if nPrefix > i * 8 then nPrefix - i * 8 else 0) c

theorem length_applyMask (cIP : Bytes) (n : ℕ) : (applyMask cIP n).length = cIP.length := by
  simp [applyMask]

/-- `IPItemInfo6`: an IPv6 range. -/
structure IPItemInfo6 where
  iaAddr : IPv6Addr := IPv6Addr.ofBytes []
  nPrefix : ℕ := 128
  deriving DecidableEq

/-- `IPItemInfo6::MatchCompare`. -/
def IPItemInfo6.matchCompare (e : IPItemInfo6) (ip : IPv6Addr) : ℤ :=
  memcmp (applyMask ip.cAddr e.nPrefix) e.iaAddr.cAddr

/-! ### The search -/

/-- `INT_MAX`. -/
def intMax : ℕ := 2 ^ 31 - 1

/-- The `do … while` loop of `CheckIsMatch`; `cmp i` is `MatchCompare` of entry `i`. -/
def searchLoop (cmp : ℕ → Option ℤ) (nBegin nEnd : ℕ) : Option Bool :=
  if nBegin + nEnd > intMax then none
  else
    match cmp ((nBegin + nEnd) / 2) with
    | none => none
    | some iCmpResult =>
      if iCmpResult < 0 then
        if nEnd ≠ (nBegin + nEnd) / 2 then
          if nBegin ≠ (nBegin + nEnd) / 2 then searchLoop cmp nBegin ((nBegin + nEnd) / 2)
          else some false
        else (cmp nBegin).map (· == 0)
      else if iCmpResult > 0 then
        if nBegin ≠ (nBegin + nEnd) / 2 then
          if nEnd ≠ (nBegin + nEnd) / 2 then searchLoop cmp ((nBegin + nEnd) / 2) nEnd
          else some false
        else (cmp nEnd).map (· == 0)
      else some true
termination_by (nEnd - nBegin) + (nBegin - nEnd)
decreasing_by all_goals omega

/-- The body both overloads of `CheckIsMatch` share, over a vector of any entries. -/
def checkEntries {α : Type} (items : List α) (matchCompare : α → ℤ) (bIsInverseIPList : Bool) :
    Option Bool :=
  if items.length = 0 then some bIsInverseIPList
  else if items.length > intMax then none
  else
    (searchLoop (fun i => (items[i]?).map matchCompare) 0 (items.length - 1)).map fun ret =>
      if bIsInverseIPList then !ret else ret

/-! ### Lists and zones -/

/-- `IPInfo`: one IP list, of one family. -/
structure IPInfo where
  nFamily : ℤ := 0
  bIsDeny : Bool := false
  bIsInverseIPList : Bool := false
  sFileName : Bytes := []
  siIPItems : List IPItemInfo := []
  siIPItems6 : List IPItemInfo6 := []
  deriving DecidableEq

/-- `IPInfo::CheckIsMatch` of an IPv4 address. -/
def IPInfo.checkIsMatch (info : IPInfo) (nIP : UInt32) : Option Bool :=
  checkEntries info.siIPItems (·.matchCompare nIP) info.bIsInverseIPList

/-- `IPInfo::CheckIsMatch` of an IPv6 address. -/
def IPInfo.checkIsMatch6 (info : IPInfo) (ip : IPv6Addr) : Option Bool :=
  checkEntries info.siIPItems6 (·.matchCompare ip) info.bIsInverseIPList

/-- The loop both overloads of `ZoneInfo::CheckIsMatch` share: the first list of the family that
matches decides. -/
def checkLists (nFamily : ℤ) (check : IPInfo → Option Bool) : List IPInfo → Option Bool
  | [] => some false
  | info :: infos =>
    if info.nFamily = nFamily then
      match check info with
      | none => none
      | some true => some !info.bIsDeny
      | some false => checkLists nFamily check infos
    else checkLists nFamily check infos

/-- `ResolvConf`: the file of a zone, and its modification time when it was last read. -/
structure ResolvConf where
  sResolvConfFile : Bytes := []
  tResolvConfFileTime : ℤ := 0

/-- `ZoneInfo`. -/
structure ZoneInfo where
  sName : Bytes := []
  nPriority : UInt32 := 0
  rcfResolvConf : ResolvConf := {}
  bIsDNSAddrOK : Bool := false
  bIsDenyNXDomain : Bool := false
  bIsDropIPv4 : Bool := false
  bIsDropIPv6 : Bool := false
  bHasV4 : Bool := false
  bHasV6 : Bool := false
  ssDNSAddr : SockAddr := .unspec 0
  nDNSPort : ℕ := 0
  siIPInfos : List IPInfo := []

/-- `ZoneInfo::CheckIsMatch` of an IPv4 address. -/
def ZoneInfo.checkIsMatch (z : ZoneInfo) (nIP : UInt32) : Option Bool :=
  checkLists 4 (·.checkIsMatch nIP) z.siIPInfos

/-- `ZoneInfo::CheckIsMatch` of an IPv6 address. -/
def ZoneInfo.checkIsMatch6 (z : ZoneInfo) (ip : IPv6Addr) : Option Bool :=
  checkLists 6 (·.checkIsMatch6 ip) z.siIPInfos

end DnsMultiZone.Config.ConfigType
