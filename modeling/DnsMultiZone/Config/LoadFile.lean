import DnsMultiZone.Config.ConfigType
import DnsMultiZone.Lib.Sorting

/-! # `IPInfo::LoadFile`

A file is cut into lines as `getline` does, each line is cut at its first `#` and freed of whitespace,
and what is left is read as an entry of either family. `inet_pton` and `std::sort` are parameters. -/

namespace DnsMultiZone.Config.LoadFile

open DnsMultiZone.Lib.BigEndian DnsMultiZone.Lib.Sorting
open DnsMultiZone.Config.Address DnsMultiZone.Config.ConfigType

/-- The string a `const char *` shows: up to the first zero byte. -/
def cStr (s : Bytes) : Bytes := s.takeWhile (· != 0)

/-- The loop of `ParsePrefix`, with the digits seen and their value. -/
def parsePrefixLoop : Bytes → ℕ → ℕ → Option (ℕ × ℕ)
  | [], i, n => some (i, n)
  | c :: cs, i, n =>
    if c < 0x30 ∨ c > 0x39 ∨ i = 3 then none
    else parsePrefixLoop cs (i + 1) (n * 10 + (c.toNat - 0x30))

/-- `ParsePrefix`: one to three digits, at most `nMax`. -/
def parsePrefix (cPrefix : Bytes) (nMax : ℕ) : Option ℕ :=
  match parsePrefixLoop cPrefix 0 0 with
  | none => none
  | some (i, n) => if i = 0 ∨ n > nMax then none else some n

/-- The text before the first `/`, and the prefix after it if there is one (`nFull` if not). -/
def splitPrefix (cIP : Bytes) (nFull : ℕ) : Option (Bytes × ℕ) :=
  match cIP.dropWhile (· != 0x2F) with
  | [] => some (cIP, nFull)
  | _ :: cPrefix => (parsePrefix cPrefix nFull).map fun n => (cIP.takeWhile (· != 0x2F), n)

/-- The mask of a prefix length. -/
def prefixMask (nPrefix : ℕ) : UInt32 :=
  if nPrefix = 0 then 0 else ~~~(UInt32.ofNat (1 <<< (32 - nPrefix)) - 1)

/-- `IPItemInfo::SetFromString`. -/
def IPItemInfo.setFromString (inet : Inet) (cIP : Bytes) : Option IPItemInfo := do
  let (sPureIP, nPrefix) ← splitPrefix cIP 32
  let iaAddr ← inet.pton4 sPureIP
  return ⟨iaAddr &&& prefixMask nPrefix, prefixMask nPrefix⟩

/-- `IPItemInfo6::SetFromString`. -/
def IPItemInfo6.setFromString (inet : Inet) (cIP : Bytes) : Option IPItemInfo6 := do
  let (sPureIP, nPrefix) ← splitPrefix cIP 128
  let iaAddr ← inet.pton6 sPureIP
  return ⟨IPv6Addr.ofBytes (applyMask iaAddr.cAddr nPrefix), nPrefix⟩

/-- The lines `getline` returns, each with its newline. -/
def getlines : Bytes → List Bytes
  | [] => []
  | c :: cs =>
    if c = 0x0A then [c] :: getlines cs
    else
      match getlines cs with
      | [] => [[c]]
      | line :: lines => (c :: line) :: lines

/-- `isspace` in the C locale. -/
def isSpace (c : UInt8) : Bool := c == 0x20 || (0x09 ≤ c && c ≤ 0x0D)

/-- The text of an entry: the line up to a `#`, without whitespace. -/
def entryText (cLine : Bytes) : Bytes := (cLine.takeWhile (· != 0x23)).filter (!isSpace ·)

/-- The loop of `LoadFile` over the lines, with the entries read so far. -/
def loadLines (inet : Inet) (nFamily : ℤ) :
    List Bytes → List IPItemInfo × List IPItemInfo6 → Option (List IPItemInfo × List IPItemInfo6)
  | [], items => some items
  | cLine :: lines, (items, items6) =>
    if entryText cLine = [] then loadLines inet nFamily lines (items, items6)
    else
      match IPItemInfo.setFromString inet (cStr (entryText cLine)) with
      | some iiItem =>
        if nFamily ≠ 4 then none else loadLines inet nFamily lines (items ++ [iiItem], items6)
      | none =>
        match IPItemInfo6.setFromString inet (cStr (entryText cLine)) with
        | some iiItem6 =>
          if nFamily ≠ 6 then none else loadLines inet nFamily lines (items, items6 ++ [iiItem6])
        | none => none

/-- `CompareIPItemInfo`. -/
def compareIPItemInfo (a b : IPItemInfo) : Bool := a.nIP < b.nIP

/-- `CompareIPItemInfo6`. -/
def compareIPItemInfo6 (a b : IPItemInfo6) : Bool := memcmp a.iaAddr.cAddr b.iaAddr.cAddr < 0

/-- `IPInfo::LoadFile` of a file with the given bytes (`none` if it cannot be opened): the list with
its entries, or `none` for `false`. -/
def IPInfo.loadFile (inet : Inet) (sort : StdSort compareIPItemInfo)
    (sort6 : StdSort compareIPItemInfo6) (file : Option Bytes) (info : IPInfo) : Option IPInfo := do
  let bytes ← file
  let (items, items6) ←
    loadLines inet info.nFamily (getlines bytes) (info.siIPItems, info.siIPItems6)
  return { info with siIPItems := sort.sort items, siIPItems6 := sort6.sort items6 }

end DnsMultiZone.Config.LoadFile
