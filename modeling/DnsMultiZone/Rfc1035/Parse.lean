import DnsMultiZone.Rfc1035.Reader
import DnsMultiZone.Config.Address

/-! # The parsers of `Rfc1035`

`ParseRequestA` reads the header and the question of a message, `ParseResponseA` also its answer
records, and collects the addresses they carry. The out-parameters are written as the bytes are read,
so a failed parse leaves in them what was read before the failure (`Header`); a reader that a caller
never uses again after a failure is `none`. -/

namespace DnsMultiZone.Rfc1035.Parse

open DnsMultiZone.Lib.BigEndian DnsMultiZone.Config.Address
open DnsMultiZone.Rfc1035.Reader

/-- `DEF_TYPE_A`. -/
def typeA : ℕ := 0x0001
/-- `DEF_TYPE_CNAME`. -/
def typeCNAME : ℕ := 0x0005
/-- `DEF_TYPE_AAAA`. -/
def typeAAAA : ℕ := 0x001C
/-- `DEF_TYPE_SVCB`. -/
def typeSVCB : ℕ := 0x0040
/-- `DEF_TYPE_HTTPS`. -/
def typeHTTPS : ℕ := 0x0041
/-- `DEF_SVCPARAM_IPV4HINT`. -/
def svcParamIPv4Hint : ℕ := 0x0004
/-- `DEF_SVCPARAM_IPV6HINT`. -/
def svcParamIPv6Hint : ℕ := 0x0006
/-- `DEF_RCODE_NXDOMAIN`. -/
def rcodeNXDomain : ℕ := 0x0003

/-- `GetRCode`: the low four bits of the flags. -/
def getRCode (uFlag : ℕ) : ℕ := uFlag &&& 0x000F

/-- `IsIPBearingType`. -/
def isIPBearingType (uQType : ℕ) : Bool :=
  uQType == typeA || uQType == typeAAAA || uQType == typeSVCB || uQType == typeHTTPS

/-- The out-parameters of the header and question. -/
structure Header where
  uID : ℕ := 0
  uFlag : ℕ := 0
  uAnswers : ℕ := 0
  sName : Bytes := []
  uQType : ℕ := 0
  deriving DecidableEq

/-- The two address lists a response fills. -/
structure Addresses where
  luIPs : List UInt32 := []
  luIP6s : List IPv6Addr := []
  deriving DecidableEq

/-! ### Names -/

/-- `std::string::resize`: cut, or padded with zero bytes. -/
def resize (s : Bytes) (n : ℕ) : Bytes := s.take n ++ List.replicate (n - s.length) 0

/-- The loop of `GetBufferName`. The read of a label is not checked: when it fails, the label is what
`sPartName` held, resized, and nothing is consumed. -/
def getBufferNameLoop (b : AutoBuffer) (sName sPartName : Bytes) : Option AutoBuffer × Bytes :=
  match _h : b.readUINT8 with
  | none => (none, sName)
  | some (cNextLen, b₁) =>
    if cNextLen &&& 0xC0 = 0xC0 then (none, sName)
    else if cNextLen = 0 then (some b₁, sName)
    else
      match _h' : b₁.readBuffer cNextLen with
      | some (d, b₂) => getBufferNameLoop b₂ (sName ++ (d ++ [0x2E])) d
      | none =>
        getBufferNameLoop b₁ (sName ++ (resize sPartName cNextLen ++ [0x2E])) (resize sPartName cNextLen)
termination_by b.unread
decreasing_by
  · have := AutoBuffer.readNumber_unread _h
    have := AutoBuffer.readBuffer_unread _h'
    omega
  · have := AutoBuffer.readNumber_unread _h
    omega

theorem getBufferNameLoop_eq (b : AutoBuffer) (sName sPartName : Bytes) :
    getBufferNameLoop b sName sPartName =
      match b.readUINT8 with
      | none => (none, sName)
      | some (cNextLen, b₁) =>
        if cNextLen &&& 0xC0 = 0xC0 then (none, sName)
        else if cNextLen = 0 then (some b₁, sName)
        else
          match b₁.readBuffer cNextLen with
          | some (d, b₂) => getBufferNameLoop b₂ (sName ++ (d ++ [0x2E])) d
          | none =>
            getBufferNameLoop b₁ (sName ++ (resize sPartName cNextLen ++ [0x2E]))
              (resize sPartName cNextLen) := by
  rw [getBufferNameLoop]
  split
  · next h => simp only [h]
  · next h =>
    simp only [h]
    split_ifs
    · rfl
    · rfl
    · split
      · next h' => simp only [h']
      · next h' => simp only [h']

/-- `GetBufferName`: the labels joined by dots; the trailing dot is cut on success. -/
def getBufferName (b : AutoBuffer) : Option AutoBuffer × Bytes :=
  match getBufferNameLoop b [] [] with
  | (none, sName) => (none, sName)
  | (some b', sName) => (some b', sName.take (sName.length - 1))

/-- `SkipBufferName`: like `GetBufferName`, but a compression pointer ends the name. -/
def skipBufferName (b : AutoBuffer) : Option AutoBuffer :=
  match _h : b.readUINT8 with
  | none => none
  | some (cNextLen, b₁) =>
    if cNextLen &&& 0xC0 = 0xC0 then b₁.readUINT8.map Prod.snd
    else if cNextLen = 0 then some b₁
    else
      match _h' : b₁.readBuffer cNextLen with
      | some (_, b₂) => skipBufferName b₂
      | none => skipBufferName b₁
termination_by b.unread
decreasing_by
  · have := AutoBuffer.readNumber_unread _h
    have := AutoBuffer.readBuffer_unread _h'
    omega
  · have := AutoBuffer.readNumber_unread _h
    omega

theorem skipBufferName_eq (b : AutoBuffer) :
    skipBufferName b =
      match b.readUINT8 with
      | none => none
      | some (cNextLen, b₁) =>
        if cNextLen &&& 0xC0 = 0xC0 then b₁.readUINT8.map Prod.snd
        else if cNextLen = 0 then some b₁
        else
          match b₁.readBuffer cNextLen with
          | some (_, b₂) => skipBufferName b₂
          | none => skipBufferName b₁ := by
  rw [skipBufferName]
  split
  · next h => simp only [h]
  · next h =>
    simp only [h]
    split_ifs
    · rfl
    · rfl
    · split
      · next h' => simp only [h']
      · next h' => simp only [h']

/-! ### Header and question -/

/-- The question's type and class; the type is written before the class is checked. -/
def parseTypeClass (b : AutoBuffer) (o : Header) : Option AutoBuffer × Header :=
  match b.readUINT16 with
  | none => (none, o)
  | some (uType, b) =>
    match b.readUINT16 with
    | none => (none, { o with uQType := uType })
    | some (uClass, b) => (if uClass = 0x0001 then some b else none, { o with uQType := uType })

/-- The counts after the flags. `uShortNumber` receives the last two and is not used. -/
def parseCounts (b : AutoBuffer) (o : Header) : Option AutoBuffer × Header :=
  match b.readUINT16 with
  | none => (none, o)
  | some (uQuestions, b) =>
    if uQuestions ≠ 1 then (none, o)
    else
      match b.readUINT16 with
      | none => (none, o)
      | some (uAnswers, b) =>
        match b.readUINT16 with
        | none => (none, { o with uAnswers })
        | some (_, b) =>
          match b.readUINT16 with
          | none => (none, { o with uAnswers })
          | some (_, b) => (some b, { o with uAnswers })

/-- `ParseRequestAAndAnswers`. -/
def parseRequestAAndAnswers (b : AutoBuffer) (o : Header) : Option AutoBuffer × Header :=
  match b.readUINT16 with
  | none => (none, o)
  | some (uID, b) =>
    match b.readUINT16 with
    | none => (none, { o with uID })
    | some (uFlag, b) =>
      match parseCounts b { o with uID, uFlag } with
      | (none, o) => (none, o)
      | (some b, o) =>
        match getBufferName b with
        | (none, sName) => (none, { o with sName })
        | (some b, sName) => parseTypeClass b { o with sName }

/-- `ParseRequestA`: whether it succeeds, and what it writes. The out-parameters start at zero, as both
callers initialise them. -/
def parseRequestA (sBuffer : Bytes) : Bool × Header :=
  let r := parseRequestAAndAnswers (assign sBuffer) {}
  (r.1.isSome, r.2)

/-! ### Answer records -/

/-- The addresses of an `ipv4hint`: every complete four bytes. -/
def ipv4Hint (sValue : Bytes) : List UInt32 := (wholeChunks 4 sValue).map ntohl

/-- The addresses of an `ipv6hint`: every complete 16 bytes. -/
def ipv6Hint (sValue : Bytes) : List IPv6Addr := (wholeChunks 16 sValue).map IPv6Addr.ofBytes

/-- What one SvcParam adds. -/
def svcParamHint (uKey : ℕ) (sValue : Bytes) (a : Addresses) : Addresses :=
  if uKey = svcParamIPv4Hint then { a with luIPs := a.luIPs ++ ipv4Hint sValue }
  else if uKey = svcParamIPv6Hint then { a with luIP6s := a.luIP6s ++ ipv6Hint sValue }
  else a

/-- The loop of `ParseSvcParamHint` over key, length and value. -/
def parseSvcParams (b : AutoBuffer) (a : Addresses) : Bool × Addresses :=
  if b.sBuffer.length - b.szOffset ≥ 2 * 2 then
    match _h : b.readUINT16 with
    | none => (false, a)
    | some (uKey, b₁) =>
      match _h₁ : b₁.readUINT16 with
      | none => (false, a)
      | some (uLen, b₂) =>
        match _h₂ : b₂.readBuffer uLen with
        | none => (false, a)
        | some (sValue, b₃) => parseSvcParams b₃ (svcParamHint uKey sValue a)
  else (true, a)
termination_by b.unread
decreasing_by
  have := AutoBuffer.readNumber_unread _h
  have := AutoBuffer.readNumber_unread _h₁
  have := AutoBuffer.readBuffer_unread _h₂
  omega

theorem parseSvcParams_eq (b : AutoBuffer) (a : Addresses) :
    parseSvcParams b a =
      if b.sBuffer.length - b.szOffset ≥ 2 * 2 then
        match b.readUINT16 with
        | none => (false, a)
        | some (uKey, b₁) =>
          match b₁.readUINT16 with
          | none => (false, a)
          | some (uLen, b₂) =>
            match b₂.readBuffer uLen with
            | none => (false, a)
            | some (sValue, b₃) => parseSvcParams b₃ (svcParamHint uKey sValue a)
      else (true, a) := by
  rw [parseSvcParams]
  split_ifs
  · split
    · next h => simp only [h]
    · next h =>
      simp only [h]
      split
      · next h' => simp only [h']
      · next h' =>
        simp only [h']
        split
        · next h'' => simp only [h'']
        · next h'' => simp only [h'']
  · rfl

/-- `ParseSvcParamHint`: SvcPriority, TargetName, then the parameters. -/
def parseSvcParamHint (sData : Bytes) (a : Addresses) : Bool × Addresses :=
  match (assign sData).readUINT16 with
  | none => (false, a)
  | some (_, b) =>
    match skipBufferName b with
    | none => (false, a)
    | some b => parseSvcParams b a

/-- One answer record: owner name, type, class, TTL, length and data. -/
def readRecord (b : AutoBuffer) : Option (ℕ × Bytes × AutoBuffer) := do
  let b ← skipBufferName b
  let (uType, b) ← b.readUINT16
  let (uClass, b) ← b.readUINT16
  if uClass ≠ 0x0001 then none
  let (_, b) ← b.readUINT32
  let (uDataLength, b) ← b.readUINT16
  let (sData, b) ← b.readBuffer uDataLength
  return (uType, sData, b)

/-- The `switch` over the type of a record with data. -/
def recordAddresses (uType : ℕ) (sData : Bytes) (a : Addresses) : Bool × Addresses :=
  if uType = typeCNAME then (true, a)
  else if uType = typeA then
    (true, if sData.length = 4 then { a with luIPs := a.luIPs ++ [ntohl sData] } else a)
  else if uType = typeAAAA then
    (true, if sData.length = 16 then { a with luIP6s := a.luIP6s ++ [IPv6Addr.ofBytes sData] } else a)
  else if uType = typeSVCB ∨ uType = typeHTTPS then parseSvcParamHint sData a
  else (false, a)

/-- The loop of `ParseResponseA` over the `n` records left. A record without data is passed over
before its type is looked at. -/
def parseAnswers : ℕ → AutoBuffer → Addresses → Bool × Addresses
  | 0, _, a => (true, a)
  | n + 1, b, a =>
    match readRecord b with
    | none => (false, a)
    | some (uType, sData, b) =>
      if sData.length ≠ 0 then
        match recordAddresses uType sData a with
        | (false, a) => (false, a)
        | (true, a) => parseAnswers n b a
      else parseAnswers n b a

/-- `ParseResponseA`: whether it succeeds, and what it writes. -/
def parseResponseA (sBuffer : Bytes) : Bool × Header × Addresses :=
  match parseRequestAAndAnswers (assign sBuffer) {} with
  | (none, o) => (false, o, {})
  | (some b, o) =>
    let r := parseAnswers o.uAnswers b {}
    (r.1, o, r.2)

end DnsMultiZone.Rfc1035.Parse
