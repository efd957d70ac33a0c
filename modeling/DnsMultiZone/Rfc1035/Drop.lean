import DnsMultiZone.Rfc1035.Parse

/-! # `Rfc1035::DropAddress`

The rewriter works on offsets into the message, so its model tells three outcomes apart: a result, the
source's `return false` (`Stop.refuse`), and an access outside a string (`Stop.fault`), which the
source does not guard against. `dropAddress` returns the source's result together with the caller's
buffer, which is only assigned when everything has succeeded. -/

namespace DnsMultiZone.Rfc1035.Drop

open DnsMultiZone.Lib.BigEndian
open DnsMultiZone.Rfc1035.Reader DnsMultiZone.Rfc1035.Parse

/-- Why a computation has no result: `return false`, or an access out of range. -/
inductive Stop
  | refuse
  | fault
  deriving DecidableEq

/-- A computation on strings. -/
abbrev Code (α : Type) := Except Stop α

/-- `s[p]`. -/
def byteAt (s : Bytes) (p : ℕ) : Code UInt8 :=
  match s[p]? with
  | some c => .ok c
  | none => .error .fault

/-- `ReadU16`. -/
def readU16 (sBuffer : Bytes) (p : ℕ) : Code ℕ := do
  let hi ← byteAt sBuffer p
  let lo ← byteAt sBuffer (p + 1)
  return 256 * hi.toNat + lo.toNat

/-- `WriteU16`; `n` is cut to an unsigned short by its two bytes. -/
def writeU16 (sBuffer : Bytes) (p n : ℕ) : Code Bytes :=
  if p + 1 < sBuffer.length then
    .ok ((sBuffer.set p (UInt8.ofNat (n / 256))).set (p + 1) (UInt8.ofNat n))
  else .error .fault

/-- The `n` bytes from `p` on, as `append(s, p, n)` takes them. -/
def substr (s : Bytes) (p n : ℕ) : Code Bytes :=
  if p + n ≤ s.length then .ok ((s.drop p).take n) else .error .fault

/-- The bytes removed before offset `t`: `vRemoved` holds offset and size of each removed piece. -/
def removedBefore (vRemoved : List (ℕ × ℕ)) (t : ℕ) : ℕ :=
  ((vRemoved.filter fun r => r.1 < t).map Prod.snd).sum

/-- `t -= d`, on a `size_t`. -/
def subSize (t d : ℕ) : ℕ := (t + 2 ^ 64 - d % 2 ^ 64) % 2 ^ 64

/-- The two bytes of a compression pointer; the first is cut to a `char`. -/
def pointerBytes (t : ℕ) : Bytes := [UInt8.ofNat (0xC0 ||| (t >>> 8)), UInt8.ofNat (t &&& 0xFF)]

/-- `CopyName`: the result, the offset and the output reached. -/
def copyName (sIn : Bytes) (p : ℕ) (sOut : Bytes) (vRemoved : List (ℕ × ℕ)) :
    Code (Bool × ℕ × Bytes) :=
  if h : p < sIn.length then
    if sIn[p] = 0 then .ok (true, p + 1, sOut ++ [sIn[p]])
    else if sIn[p] &&& 0xC0 = 0xC0 then
      if p + 1 ≥ sIn.length then .ok (false, p, sOut)
      else do
        let t := (← readU16 sIn p) &&& 0x3FFF
        return (true, p + 2, sOut ++ pointerBytes (subSize t (removedBefore vRemoved t)))
    else if sIn[p] &&& 0xC0 ≠ 0 ∨ p + 1 + sIn[p].toNat > sIn.length then .ok (false, p, sOut)
    else do
      let label ← substr sIn p (1 + sIn[p].toNat)
      copyName sIn (p + 1 + sIn[p].toNat) (sOut ++ label) vRemoved
  else .ok (false, p, sOut)
termination_by sIn.length - p
decreasing_by omega

/-- `QuestionEnd`: the offset after the question, and the number of answer records. -/
def questionEnd (sBuffer : Bytes) : Code (ℕ × ℕ) :=
  match parseRequestAAndAnswers (assign sBuffer) {} with
  | (none, _) => .error .refuse
  | (some b, o) => .ok (b.szOffset, o.uAnswers)

/-- `SetCounts`: `nAnswers` answers, nothing in the other two sections. -/
def setCounts (sBuffer : Bytes) (nAnswers : ℕ) : Code Bytes := do
  let s ← writeU16 sBuffer 6 nAnswers
  let s ← writeU16 s 8 0
  writeU16 s 10 0

/-- `EmptyResponse`: the header and the question are left. -/
def emptyResponse (sBuffer : Bytes) : Code Bytes := do
  let (p, _) ← questionEnd sBuffer
  setCounts (resize sBuffer p) 0

/-- Where the rewriter stands: the offset in the message, the output, the pieces removed. -/
structure Cursor where
  p : ℕ
  sOut : Bytes
  vRemoved : List (ℕ × ℕ)

/-- The parameters the flags remove. -/
def isDropped (uKey : ℕ) (bDropIPv4 bDropIPv6 : Bool) : Bool :=
  (uKey == svcParamIPv4Hint && bDropIPv4) || (uKey == svcParamIPv6Hint && bDropIPv6)

/-- The inner loop over the parameters of a record that ends at `stop`. -/
def dropParams (sBuffer : Bytes) (bDropIPv4 bDropIPv6 : Bool) (stop : ℕ) (c : Cursor) : Code Cursor :=
  if _h : c.p < stop then
    if c.p + 4 > stop then .error .refuse
    else do
      let uKey ← readU16 sBuffer c.p
      let len ← readU16 sBuffer (c.p + 2)
      let vlen := 4 + len
      if c.p + vlen > stop then .error .refuse
      else if isDropped uKey bDropIPv4 bDropIPv6 then
        dropParams sBuffer bDropIPv4 bDropIPv6 stop
          ⟨c.p + vlen, c.sOut, c.vRemoved ++ [(c.p, vlen)]⟩
      else do
        let s ← substr sBuffer c.p vlen
        dropParams sBuffer bDropIPv4 bDropIPv6 stop ⟨c.p + vlen, c.sOut ++ s, c.vRemoved⟩
  else .ok c
termination_by stop - c.p
decreasing_by all_goals omega

/-- The data of a record of the asked type: SvcPriority, TargetName, parameters. -/
def dropSvcData (sBuffer : Bytes) (bDropIPv4 bDropIPv6 : Bool) (stop : ℕ) (c : Cursor) :
    Code Cursor :=
  if c.p + 2 > stop then .error .refuse
  else do
    let prio ← substr sBuffer c.p 2
    let (ok, p, sOut) ← copyName sBuffer (c.p + 2) (c.sOut ++ prio) c.vRemoved
    if ok ≠ true ∨ p > stop then .error .refuse
    else dropParams sBuffer bDropIPv4 bDropIPv6 stop ⟨p, sOut, c.vRemoved⟩

/-- The data of a record that ends at `stop`: copied, or rewritten if the record is of the asked type. -/
def dropData (sBuffer : Bytes) (uType uQType : ℕ) (bDropIPv4 bDropIPv6 : Bool) (stop : ℕ)
    (c : Cursor) : Code Cursor :=
  if uType ≠ uQType then do
    let rdata ← substr sBuffer c.p (stop - c.p)
    return ⟨stop, c.sOut ++ rdata, c.vRemoved⟩
  else dropSvcData sBuffer bDropIPv4 bDropIPv6 stop c

/-- A record of type `uType`: the name, the fixed fields, the data, and the length of what was written
of the data. The result of copying the name is not looked at. -/
def copyRecord (sBuffer : Bytes) (uType uQType : ℕ) (bDropIPv4 bDropIPv6 : Bool) (c : Cursor) :
    Code Cursor := do
  let (_, p, sOut) ← copyName sBuffer c.p c.sOut c.vRemoved
  let len ← readU16 sBuffer (p + 8)
  if p + 10 + len > sBuffer.length then .error .refuse
  else
    let fixed ← substr sBuffer p 8
    let c' ← dropData sBuffer uType uQType bDropIPv4 bDropIPv6 (p + 10 + len)
      ⟨p + 10, sOut ++ fixed ++ [0, 0], c.vRemoved⟩
    let lenpos := (sOut ++ fixed).length
    let sOut ← writeU16 c'.sOut lenpos ((c'.sOut.length - lenpos - 2) % 65536)
    return ⟨p + 10 + len, sOut, c'.vRemoved⟩

/-- One answer record; `none` is the `break` at a record of another type after a removal. The name is
copied a first time only to find the type. -/
def dropRecord (sBuffer : Bytes) (uQType : ℕ) (bDropIPv4 bDropIPv6 : Bool) (c : Cursor) :
    Code (Option Cursor) := do
  let (ok, q, _) ← copyName sBuffer c.p [] c.vRemoved
  if ok ≠ true ∨ q + 10 > sBuffer.length then .error .refuse
  else
    let uType ← readU16 sBuffer q
    if uType ≠ uQType ∧ c.vRemoved.length > 0 then return none
    else return some (← copyRecord sBuffer uType uQType bDropIPv4 bDropIPv6 c)

/-- The loop over the `n` records left; `i` records are already written. -/
def dropRecords (sBuffer : Bytes) (uQType : ℕ) (bDropIPv4 bDropIPv6 : Bool) :
    ℕ → ℕ → Cursor → Code (ℕ × Bytes)
  | 0, i, c => .ok (i, c.sOut)
  | n + 1, i, c => do
    match ← dropRecord sBuffer uQType bDropIPv4 bDropIPv6 c with
    | none => return (i, c.sOut)
    | some c' => dropRecords sBuffer uQType bDropIPv4 bDropIPv6 n (i + 1) c'

/-- The rewriting of an SVCB or HTTPS response. -/
def dropHints (sBuffer : Bytes) (uQType : ℕ) (bDropIPv4 bDropIPv6 : Bool) : Code Bytes := do
  let (p, uAnswers) ← questionEnd sBuffer
  let question ← substr sBuffer 0 p
  let (i, sOut) ← dropRecords sBuffer uQType bDropIPv4 bDropIPv6 uAnswers 0 ⟨p, question, []⟩
  setCounts sOut i

/-- The new buffer of `DropAddress`, by the type of the query. -/
def dropped (sBuffer : Bytes) (uQType : ℕ) (bDropIPv4 bDropIPv6 : Bool) : Code Bytes :=
  if uQType = typeA then if bDropIPv4 then emptyResponse sBuffer else .ok sBuffer
  else if uQType = typeAAAA then if bDropIPv6 then emptyResponse sBuffer else .ok sBuffer
  else if uQType ≠ typeSVCB ∧ uQType ≠ typeHTTPS then .ok sBuffer
  else dropHints sBuffer uQType bDropIPv4 bDropIPv6

/-- `DropAddress`: the result, and the caller's buffer after the call. -/
def dropAddress (sBuffer : Bytes) (uQType : ℕ) (bDropIPv4 bDropIPv6 : Bool) : Code (Bool × Bytes) :=
  match dropped sBuffer uQType bDropIPv4 bDropIPv6 with
  | .ok s => .ok (true, s)
  | .error .refuse => .ok (false, sBuffer)
  | .error .fault => .error .fault

end DnsMultiZone.Rfc1035.Drop
