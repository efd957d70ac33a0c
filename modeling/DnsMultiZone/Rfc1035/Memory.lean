import DnsMultiZone.Rfc1035.Question

/-! # The parsers on memory

The reader and the parsers once more, with nothing taken for granted: the offset is any number, so
`size - offset` could go below zero, a copy could leave the string, and a loop could go on for ever. Each
of these is a `Danger`. A loop gets a number of turns that it must not use up.

* `readBuffer_toRaw`: on a reader whose offset is within its buffer a read meets no danger.
* `parseRequestA_eq`, `parseResponseA_eq`: so the parsers meet none, and their results are those of
  `Parse`, with one turn more than the message has bytes. -/

namespace DnsMultiZone.Rfc1035.Memory

open DnsMultiZone.Lib.BigEndian DnsMultiZone.Config.Address
open DnsMultiZone.Rfc1035.Reader DnsMultiZone.Rfc1035.Question
open DnsMultiZone.Rfc1035.Parse (Header Addresses resize svcParamIPv4Hint svcParamIPv6Hint typeA typeAAAA
  typeCNAME typeSVCB typeHTTPS)

/-- What must not happen: `size - offset` below zero, an access outside a string, a loop without end. -/
inductive Danger
  | wraps
  | outside
  | endless
  deriving DecidableEq

abbrev Raw (α : Type) := Except Danger α

/-! ### The reader -/

/-- `AutoBuffer`, with any offset. -/
structure RawBuffer where
  sBuffer : Bytes
  szOffset : ℕ

/-- `size - offset`, both unsigned. -/
def RawBuffer.left (b : RawBuffer) : Raw ℕ :=
  if b.szOffset ≤ b.sBuffer.length then .ok (b.sBuffer.length - b.szOffset) else .error .wraps

/-- `memcpy` of the `n` bytes of `s` from `p` on. -/
def memcpy (s : Bytes) (p n : ℕ) : Raw Bytes :=
  if p + n ≤ s.length then .ok ((s.drop p).take n) else .error .outside

def RawBuffer.readBuffer (b : RawBuffer) (szLen : ℕ) : Raw (Option (Bytes × RawBuffer)) := do
  let n ← b.left
  if n < szLen then return none
  else
    let d ← memcpy b.sBuffer b.szOffset szLen
    return some (d, ⟨b.sBuffer, b.szOffset + szLen⟩)

def RawBuffer.readNumber (b : RawBuffer) (szLen : ℕ) : Raw (Option (ℕ × RawBuffer)) := do
  let r ← b.readBuffer szLen
  return r.map fun r => (beNat r.1, r.2)

/-! ### Names -/

def getBufferNameLoop : ℕ → RawBuffer → Bytes → Bytes → Raw (Option RawBuffer × Bytes)
  | 0, _, _, _ => .error .endless
  | fuel + 1, b, sName, sPartName => do
    match ← b.readNumber 1 with
    | none => return (none, sName)
    | some (cNextLen, b₁) =>
      if cNextLen &&& 0xC0 = 0xC0 then
        let _ ← b₁.readNumber 1
        return (none, sName)
      else if cNextLen = 0 then return (some b₁, sName)
      else
        match ← b₁.readBuffer cNextLen with
        | some (d, b₂) => getBufferNameLoop fuel b₂ (sName ++ (d ++ [0x2E])) d
        | none =>
          getBufferNameLoop fuel b₁ (sName ++ (resize sPartName cNextLen ++ [0x2E]))
            (resize sPartName cNextLen)

def getBufferName (fuel : ℕ) (b : RawBuffer) : Raw (Option RawBuffer × Bytes) := do
  match ← getBufferNameLoop fuel b [] [] with
  | (none, sName) => return (none, sName)
  | (some b', sName) => return (some b', sName.take (sName.length - 1))

def skipBufferName : ℕ → RawBuffer → Raw (Option RawBuffer)
  | 0, _ => .error .endless
  | fuel + 1, b => do
    match ← b.readNumber 1 with
    | none => return none
    | some (cNextLen, b₁) =>
      if cNextLen &&& 0xC0 = 0xC0 then
        let r ← b₁.readNumber 1
        return r.map Prod.snd
      else if cNextLen = 0 then return some b₁
      else
        match ← b₁.readBuffer cNextLen with
        | some (_, b₂) => skipBufferName fuel b₂
        | none => skipBufferName fuel b₁

/-! ### Header and question -/

def parseTypeClass (b : RawBuffer) (o : Header) : Raw (Option RawBuffer × Header) := do
  match ← b.readNumber 2 with
  | none => return (none, o)
  | some (uType, b) =>
    match ← b.readNumber 2 with
    | none => return (none, { o with uQType := uType })
    | some (uClass, b) => return (if uClass = 0x0001 then some b else none, { o with uQType := uType })

def parseCounts (b : RawBuffer) (o : Header) : Raw (Option RawBuffer × Header) := do
  match ← b.readNumber 2 with
  | none => return (none, o)
  | some (uQuestions, b) =>
    if uQuestions ≠ 1 then return (none, o)
    else
      match ← b.readNumber 2 with
      | none => return (none, o)
      | some (uAnswers, b) =>
        match ← b.readNumber 2 with
        | none => return (none, { o with uAnswers })
        | some (_, b) =>
          match ← b.readNumber 2 with
          | none => return (none, { o with uAnswers })
          | some (_, b) => return (some b, { o with uAnswers })

def parseRequestAAndAnswers (fuel : ℕ) (b : RawBuffer) (o : Header) :
    Raw (Option RawBuffer × Header) := do
  match ← b.readNumber 2 with
  | none => return (none, o)
  | some (uID, b) =>
    match ← b.readNumber 2 with
    | none => return (none, { o with uID })
    | some (uFlag, b) =>
      match ← parseCounts b { o with uID, uFlag } with
      | (none, o) => return (none, o)
      | (some b, o) =>
        match ← getBufferName fuel b with
        | (none, sName) => return (none, { o with sName })
        | (some b, sName) => parseTypeClass b { o with sName }

def parseRequestA (fuel : ℕ) (sBuffer : Bytes) : Raw (Bool × Header) := do
  let r ← parseRequestAAndAnswers fuel ⟨sBuffer, 0⟩ {}
  return (r.1.isSome, r.2)

/-! ### Answer records -/

/-- The loop over an `ipv4hint`, with a reader of its own. -/
def ipv4HintLoop : ℕ → RawBuffer → List UInt32 → Raw (List UInt32)
  | 0, _, _ => .error .endless
  | fuel + 1, b, luIPs => do
    match ← b.readBuffer 4 with
    | none => return luIPs
    | some (d, b) => ipv4HintLoop fuel b (luIPs ++ [ntohl d])

/-- The loop over an `ipv6hint`, by position. -/
def ipv6HintLoop (sValue : Bytes) : ℕ → ℕ → List IPv6Addr → Raw (List IPv6Addr)
  | 0, _, _ => .error .endless
  | fuel + 1, szPos, luIP6s =>
    if szPos + 16 ≤ sValue.length then do
      let d ← memcpy sValue szPos 16
      ipv6HintLoop sValue fuel (szPos + 16) (luIP6s ++ [IPv6Addr.ofBytes d])
    else return luIP6s

def svcParamHint (fuel uKey : ℕ) (sValue : Bytes) (a : Addresses) : Raw Addresses := do
  if uKey = svcParamIPv4Hint then
    let luIPs ← ipv4HintLoop fuel ⟨sValue, 0⟩ a.luIPs
    return { a with luIPs }
  else if uKey = svcParamIPv6Hint then
    let luIP6s ← ipv6HintLoop sValue fuel 0 a.luIP6s
    return { a with luIP6s }
  else return a

/-- `if (uLen && ReadBuffer(...) != true)`: a value without bytes is not read. -/
def readValue (b : RawBuffer) (uLen : ℕ) : Raw (Option (Bytes × RawBuffer)) :=
  if uLen = 0 then return some ([], b) else b.readBuffer uLen

def parseSvcParams (hints : ℕ) : ℕ → RawBuffer → Addresses → Raw (Bool × Addresses)
  | 0, _, _ => .error .endless
  | fuel + 1, b, a => do
    let n ← b.left
    if n ≥ 2 * 2 then
      match ← b.readNumber 2 with
      | none => return (false, a)
      | some (uKey, b) =>
        match ← b.readNumber 2 with
        | none => return (false, a)
        | some (uLen, b) =>
          match ← readValue b uLen with
          | none => return (false, a)
          | some (sValue, b) =>
            let a ← svcParamHint hints uKey sValue a
            parseSvcParams hints fuel b a
    else return (true, a)

def parseSvcParamHint (fuel : ℕ) (sData : Bytes) (a : Addresses) : Raw (Bool × Addresses) := do
  match ← (⟨sData, 0⟩ : RawBuffer).readNumber 2 with
  | none => return (false, a)
  | some (_, b) =>
    match ← skipBufferName fuel b with
    | none => return (false, a)
    | some b => parseSvcParams fuel fuel b a

/-- One answer record, up to its data. -/
def readRecord (fuel : ℕ) (b : RawBuffer) : Raw (Option (ℕ × Bytes × RawBuffer)) := do
  match ← skipBufferName fuel b with
  | none => return none
  | some b =>
    match ← b.readNumber 2 with
    | none => return none
    | some (uType, b) =>
      match ← b.readNumber 2 with
      | none => return none
      | some (uClass, b) =>
        if uClass ≠ 0x0001 then return none
        else
          match ← b.readNumber 4 with
          | none => return none
          | some (_, b) =>
            match ← b.readNumber 2 with
            | none => return none
            | some (uDataLength, b) =>
              match ← readValue b uDataLength with
              | none => return none
              | some (sData, b) => return some (uType, sData, b)

/-- The `switch` over the type. -/
def recordAddresses (fuel uType : ℕ) (sData : Bytes) (a : Addresses) : Raw (Bool × Addresses) := do
  if uType = typeCNAME then return (true, a)
  else if uType = typeA then
    if sData.length = 4 then
      let d ← memcpy sData 0 4
      return (true, { a with luIPs := a.luIPs ++ [ntohl d] })
    else return (true, a)
  else if uType = typeAAAA then
    if sData.length = 16 then
      let d ← memcpy sData 0 16
      return (true, { a with luIP6s := a.luIP6s ++ [IPv6Addr.ofBytes d] })
    else return (true, a)
  else if uType = typeSVCB ∨ uType = typeHTTPS then parseSvcParamHint fuel sData a
  else return (false, a)

def parseAnswers (fuel : ℕ) : ℕ → RawBuffer → Addresses → Raw (Bool × Addresses)
  | 0, _, a => return (true, a)
  | n + 1, b, a => do
    match ← readRecord fuel b with
    | none => return (false, a)
    | some (uType, sData, b) =>
      if sData.length ≠ 0 then
        match ← recordAddresses fuel uType sData a with
        | (false, a) => return (false, a)
        | (true, a) => parseAnswers fuel n b a
      else parseAnswers fuel n b a

def parseResponseA (fuel : ℕ) (sBuffer : Bytes) : Raw (Bool × Header × Addresses) := do
  match ← parseRequestAAndAnswers fuel ⟨sBuffer, 0⟩ {} with
  | (none, o) => return (false, o, {})
  | (some b, o) =>
    let r ← parseAnswers fuel o.uAnswers b {}
    return (r.1, o, r.2)

/-! ### A reader whose offset is within its buffer -/

/-- The reader with its bound forgotten. -/
def toRaw (b : AutoBuffer) : RawBuffer := ⟨b.sBuffer, b.szOffset⟩

theorem left_toRaw (b : AutoBuffer) : (toRaw b).left = .ok (b.sBuffer.length - b.szOffset) :=
  if_pos b.offset_le

/-- **A read** meets no danger. -/
theorem readBuffer_toRaw (b : AutoBuffer) (n : ℕ) :
    (toRaw b).readBuffer n = .ok ((b.readBuffer n).map fun r => (r.1, toRaw r.2)) := by
  unfold RawBuffer.readBuffer AutoBuffer.readBuffer
  rw [left_toRaw]
  show (if b.sBuffer.length - b.szOffset < n then _ else _) = _
  by_cases hn : b.sBuffer.length - b.szOffset < n
  · rw [if_pos hn, dif_pos hn]
    rfl
  · have hle := b.offset_le
    have hcopy : memcpy b.sBuffer b.szOffset n = .ok ((b.sBuffer.drop b.szOffset).take n) :=
      if_pos (by omega)
    rw [if_neg hn, dif_neg hn]
    show (memcpy b.sBuffer b.szOffset n >>= _) = _
    rw [hcopy]
    rfl

theorem readNumber_toRaw (b : AutoBuffer) (n : ℕ) :
    (toRaw b).readNumber n = .ok ((b.readNumber n).map fun r => (r.1, toRaw r.2)) := by
  unfold RawBuffer.readNumber AutoBuffer.readNumber
  rw [readBuffer_toRaw]
  rcases b.readBuffer n with _ | r <;> rfl

/-! ### Names -/

/-- **The loop over labels** takes a byte in every turn. -/
theorem getBufferNameLoop_toRaw {fuel : ℕ} {b : AutoBuffer} (s part : Bytes) (h : b.unread < fuel) :
    getBufferNameLoop fuel (toRaw b) s part =
      .ok ((Parse.getBufferNameLoop b s part).1.map toRaw, (Parse.getBufferNameLoop b s part).2) := by
  induction fuel generalizing b s part with
  | zero => exact absurd h (Nat.not_lt_zero _)
  | succ fuel ih =>
    rw [getBufferNameLoop, readNumber_toRaw, Parse.getBufferNameLoop_eq]
    rcases h₁ : b.readNumber 1 with _ | ⟨v, b₁⟩
    · rw [show b.readUINT8 = none from h₁]
      rfl
    rw [show b.readUINT8 = some (v, b₁) from h₁]
    have hb₁ := AutoBuffer.readNumber_unread h₁
    show (if v &&& 0xC0 = 0xC0 then _ else if v = 0 then _ else _) = _
    dsimp only
    split_ifs with hp h0
    · show (toRaw b₁).readNumber 1 >>= _ = _
      rw [readNumber_toRaw]
      rfl
    · rfl
    · show (toRaw b₁).readBuffer v >>= _ = _
      rw [readBuffer_toRaw]
      rcases h₂ : b₁.readBuffer v with _ | ⟨d, b₂⟩
      · exact ih _ _ (by omega)
      · have hb₂ := AutoBuffer.readBuffer_unread h₂
        exact ih _ _ (show b₂.unread < fuel by omega)

theorem getBufferName_toRaw {fuel : ℕ} {b : AutoBuffer} (h : b.unread < fuel) :
    getBufferName fuel (toRaw b) =
      .ok ((Parse.getBufferName b).1.map toRaw, (Parse.getBufferName b).2) := by
  unfold getBufferName Parse.getBufferName
  rw [getBufferNameLoop_toRaw _ _ h]
  rcases Parse.getBufferNameLoop b [] [] with ⟨_ | b', s⟩ <;> rfl

theorem skipBufferName_toRaw {fuel : ℕ} {b : AutoBuffer} (h : b.unread < fuel) :
    skipBufferName fuel (toRaw b) = .ok ((Parse.skipBufferName b).map toRaw) := by
  induction fuel generalizing b with
  | zero => exact absurd h (Nat.not_lt_zero _)
  | succ fuel ih =>
    rw [skipBufferName, readNumber_toRaw, Parse.skipBufferName_eq]
    rcases h₁ : b.readNumber 1 with _ | ⟨v, b₁⟩
    · rw [show b.readUINT8 = none from h₁]
      rfl
    rw [show b.readUINT8 = some (v, b₁) from h₁]
    have hb₁ := AutoBuffer.readNumber_unread h₁
    show (if v &&& 0xC0 = 0xC0 then _ else if v = 0 then _ else _) = _
    dsimp only
    split_ifs with hp h0
    · show (toRaw b₁).readNumber 1 >>= _ = _
      rw [readNumber_toRaw]
      show _ = Except.ok (((b₁.readNumber 1).map Prod.snd).map toRaw)
      rcases b₁.readNumber 1 with _ | r <;> rfl
    · rfl
    · show (toRaw b₁).readBuffer v >>= _ = _
      rw [readBuffer_toRaw]
      rcases h₂ : b₁.readBuffer v with _ | ⟨d, b₂⟩
      · exact ih (by omega)
      · have hb₂ := AutoBuffer.readBuffer_unread h₂
        exact ih (show b₂.unread < fuel by omega)

theorem skipBufferName_unread {b b' : AutoBuffer} (h : Parse.skipBufferName b = some b') :
    b'.unread < b.unread := by
  fun_induction Parse.skipBufferName b with
  | case1 => cases h
  | case2 b v b₁ h₁ hp =>
    obtain ⟨⟨x, b₂⟩, h₂, rfl⟩ := Option.map_eq_some_iff.mp h
    have hb₁ := AutoBuffer.readNumber_unread h₁
    have hb₂ := AutoBuffer.readNumber_unread h₂
    dsimp only
    omega
  | case3 b b₁ h₁ hp =>
    cases h
    have hb₁ := AutoBuffer.readNumber_unread h₁
    omega
  | case4 b v b₁ h₁ hp h0 d b₂ h₂ ih =>
    have hb₁ := AutoBuffer.readNumber_unread h₁
    have hb₂ := AutoBuffer.readBuffer_unread h₂
    have hb := ih h
    omega
  | case5 b v b₁ h₁ hp h0 h₂ ih =>
    have hb₁ := AutoBuffer.readNumber_unread h₁
    have hb := ih h
    omega

/-! ### Header and question -/

theorem parseTypeClass_toRaw (b : AutoBuffer) (o : Header) :
    parseTypeClass (toRaw b) o =
      .ok ((Parse.parseTypeClass b o).1.map toRaw, (Parse.parseTypeClass b o).2) := by
  unfold parseTypeClass Parse.parseTypeClass AutoBuffer.readUINT16
  rw [readNumber_toRaw]
  rcases b.readNumber 2 with _ | ⟨uType, b₁⟩
  · rfl
  show (toRaw b₁).readNumber 2 >>= _ = _
  rw [readNumber_toRaw]
  dsimp only
  rcases b₁.readNumber 2 with _ | ⟨uClass, b₂⟩
  · rfl
  show Except.ok (if uClass = 1 then some (toRaw b₂) else none, _) = _
  dsimp only
  split_ifs <;> rfl

theorem parseCounts_toRaw (b : AutoBuffer) (o : Header) :
    parseCounts (toRaw b) o =
      .ok ((Parse.parseCounts b o).1.map toRaw, (Parse.parseCounts b o).2) := by
  unfold parseCounts Parse.parseCounts AutoBuffer.readUINT16
  rw [readNumber_toRaw]
  rcases b.readNumber 2 with _ | ⟨uQuestions, b₁⟩
  · rfl
  show (if uQuestions ≠ 1 then _ else _) = _
  dsimp only
  split_ifs with hq
  · rfl
  show (toRaw b₁).readNumber 2 >>= _ = _
  rw [readNumber_toRaw]
  rcases b₁.readNumber 2 with _ | ⟨uAnswers, b₂⟩
  · rfl
  show (toRaw b₂).readNumber 2 >>= _ = _
  rw [readNumber_toRaw]
  dsimp only
  rcases b₂.readNumber 2 with _ | ⟨x, b₃⟩
  · rfl
  show (toRaw b₃).readNumber 2 >>= _ = _
  rw [readNumber_toRaw]
  dsimp only
  rcases b₃.readNumber 2 with _ | ⟨y, b₄⟩ <;> rfl

theorem parseCounts_unread {b b' : AutoBuffer} {o o' : Header}
    (h : Parse.parseCounts b o = (some b', o')) : b'.unread ≤ b.unread := by
  unfold Parse.parseCounts AutoBuffer.readUINT16 at h
  rcases h₁ : b.readNumber 2 with _ | ⟨uQuestions, b₁⟩ <;> simp only [h₁] at h
  · cases h
  split_ifs at h
  · cases h
  rcases h₂ : b₁.readNumber 2 with _ | ⟨uAnswers, b₂⟩ <;> simp only [h₂] at h
  · cases h
  rcases h₃ : b₂.readNumber 2 with _ | ⟨x, b₃⟩ <;> simp only [h₃] at h
  · cases h
  rcases h₄ : b₃.readNumber 2 with _ | ⟨y, b₄⟩ <;> simp only [h₄] at h
  · cases h
  cases h
  have hb₁ := AutoBuffer.readNumber_unread h₁
  have hb₂ := AutoBuffer.readNumber_unread h₂
  have hb₃ := AutoBuffer.readNumber_unread h₃
  have hb₄ := AutoBuffer.readNumber_unread h₄
  omega

theorem parseRequestAAndAnswers_toRaw {fuel : ℕ} {b : AutoBuffer} (o : Header) (h : b.unread < fuel) :
    parseRequestAAndAnswers fuel (toRaw b) o = .ok ((Parse.parseRequestAAndAnswers b o).1.map toRaw,
      (Parse.parseRequestAAndAnswers b o).2) := by
  unfold parseRequestAAndAnswers Parse.parseRequestAAndAnswers AutoBuffer.readUINT16
  rw [readNumber_toRaw]
  rcases h₁ : b.readNumber 2 with _ | ⟨uID, b₁⟩
  · rfl
  show (toRaw b₁).readNumber 2 >>= _ = _
  rw [readNumber_toRaw]
  dsimp only
  rcases h₂ : b₁.readNumber 2 with _ | ⟨uFlag, b₂⟩
  · rfl
  show parseCounts (toRaw b₂) _ >>= _ = _
  rw [parseCounts_toRaw]
  dsimp only
  rcases h₃ : Parse.parseCounts b₂ { o with uID, uFlag } with ⟨_ | b₃, o₃⟩
  · rfl
  have hb₁ := AutoBuffer.readNumber_unread h₁
  have hb₂ := AutoBuffer.readNumber_unread h₂
  have hb₃ := parseCounts_unread h₃
  show getBufferName fuel (toRaw b₃) >>= _ = _
  rw [getBufferName_toRaw (show b₃.unread < fuel by omega)]
  dsimp only
  rcases Parse.getBufferName b₃ with ⟨_ | b₄, sName⟩
  · rfl
  · exact parseTypeClass_toRaw b₄ _

theorem toRaw_assign (d : Bytes) : toRaw (assign d) = ⟨d, 0⟩ := rfl

/-- **`ParseRequestA`** meets no danger. -/
theorem parseRequestA_eq (d : Bytes) :
    parseRequestA (d.length + 1) d = .ok (Parse.parseRequestA d) := by
  have hfuel : (assign d).unread < d.length + 1 := Nat.lt_succ_self _
  unfold parseRequestA Parse.parseRequestA
  rw [← toRaw_assign, parseRequestAAndAnswers_toRaw {} hfuel]
  rcases Parse.parseRequestAAndAnswers (assign d) {} with ⟨_ | b, o⟩ <;> rfl

/-! ### Answer records -/

/-- The loop over an `ipv4hint` gives its complete pieces. -/
theorem ipv4HintLoop_toRaw {fuel : ℕ} {b : AutoBuffer} (luIPs : List UInt32) (h : b.unread < fuel) :
    ipv4HintLoop fuel (toRaw b) luIPs = .ok (luIPs ++ Parse.ipv4Hint b.rest) := by
  induction fuel generalizing b luIPs with
  | zero => exact absurd h (Nat.not_lt_zero _)
  | succ fuel ih =>
    rw [ipv4HintLoop, readBuffer_toRaw]
    rcases h₁ : b.readBuffer 4 with _ | ⟨d, b₁⟩
    · have hlt := AutoBuffer.readBuffer_none h₁
      rw [← AutoBuffer.length_rest] at hlt
      unfold Parse.ipv4Hint
      rw [wholeChunks_of_lt hlt, List.map_nil, List.append_nil]
      rfl
    · obtain ⟨hd, hr, -, -⟩ := AutoBuffer.readBuffer_some h₁
      have hb₁ := AutoBuffer.readBuffer_unread h₁
      have hrec := ih (luIPs ++ [ntohl d]) (show b₁.unread < fuel by omega)
      unfold Parse.ipv4Hint at hrec ⊢
      rw [hr, wholeChunks_append hd (by decide), List.map_cons, ← List.singleton_append,
        ← List.append_assoc]
      exact hrec

theorem ipv6HintLoop_eq (sValue : Bytes) {fuel szPos : ℕ} (luIP6s : List IPv6Addr)
    (h : sValue.length - szPos < fuel) :
    ipv6HintLoop sValue fuel szPos luIP6s = .ok (luIP6s ++ Parse.ipv6Hint (sValue.drop szPos)) := by
  induction fuel generalizing szPos luIP6s with
  | zero => exact absurd h (Nat.not_lt_zero _)
  | succ fuel ih =>
    rw [ipv6HintLoop]
    by_cases hle : szPos + 16 ≤ sValue.length
    · have hcopy : memcpy sValue szPos 16 = .ok ((sValue.drop szPos).take 16) := if_pos hle
      have hrec := @ih (szPos + 16) (luIP6s ++ [IPv6Addr.ofBytes ((sValue.drop szPos).take 16)]) (by omega)
      have hlen : ((sValue.drop szPos).take 16).length = 16 := by
        rw [List.length_take, List.length_drop]
        omega
      have hsplit : sValue.drop szPos = (sValue.drop szPos).take 16 ++ sValue.drop (szPos + 16) := by
        rw [← List.drop_drop, List.take_append_drop]
      rw [if_pos hle, hcopy]
      refine hrec.trans ?_
      unfold Parse.ipv6Hint
      conv_rhs => rw [hsplit, wholeChunks_append hlen (by decide), List.map_cons, ← List.singleton_append,
        ← List.append_assoc]
    · have hlt : (sValue.drop szPos).length < 16 := by
        rw [List.length_drop]
        omega
      unfold Parse.ipv6Hint
      rw [if_neg hle, wholeChunks_of_lt hlt, List.map_nil, List.append_nil]
      rfl

theorem svcParamHint_eq {fuel : ℕ} {sValue : Bytes} (uKey : ℕ) (a : Addresses)
    (h : sValue.length < fuel) :
    svcParamHint fuel uKey sValue a = .ok (Parse.svcParamHint uKey sValue a) := by
  unfold svcParamHint Parse.svcParamHint
  split_ifs with h4 h6
  · rw [← toRaw_assign, ipv4HintLoop_toRaw _ h]
    rfl
  · rw [ipv6HintLoop_eq sValue _ h]
    rfl
  · rfl

theorem readValue_toRaw (b : AutoBuffer) (n : ℕ) :
    readValue (toRaw b) n = .ok ((b.readBuffer n).map fun r => (r.1, toRaw r.2)) := by
  unfold readValue
  split_ifs with h0
  · subst h0
    have hle := b.offset_le
    unfold AutoBuffer.readBuffer
    rw [dif_neg (by omega)]
    rfl
  · exact readBuffer_toRaw b n

/-- **The loop over parameters** takes four bytes at least in every turn. -/
theorem parseSvcParams_toRaw {hints fuel : ℕ} {b : AutoBuffer} (a : Addresses) (h : b.unread < fuel)
    (hh : b.unread < hints) :
    parseSvcParams hints fuel (toRaw b) a = .ok (Parse.parseSvcParams b a) := by
  induction fuel generalizing b a with
  | zero => exact absurd h (Nat.not_lt_zero _)
  | succ fuel ih =>
    rw [parseSvcParams, left_toRaw, Parse.parseSvcParams_eq]
    show (if b.sBuffer.length - b.szOffset ≥ 2 * 2 then _ else _) = _
    split_ifs with hn
    swap
    · rfl
    rw [readNumber_toRaw]
    unfold AutoBuffer.readUINT16
    rcases h₁ : b.readNumber 2 with _ | ⟨uKey, b₁⟩
    · rfl
    show (toRaw b₁).readNumber 2 >>= _ = _
    rw [readNumber_toRaw]
    dsimp only
    rcases h₂ : b₁.readNumber 2 with _ | ⟨uLen, b₂⟩
    · rfl
    show readValue (toRaw b₂) uLen >>= _ = _
    rw [readValue_toRaw]
    dsimp only
    rcases h₃ : b₂.readBuffer uLen with _ | ⟨sValue, b₃⟩
    · rfl
    have hb₁ := AutoBuffer.readNumber_unread h₁
    have hb₂ := AutoBuffer.readNumber_unread h₂
    have hb₃ := AutoBuffer.readBuffer_unread h₃
    have hlen := (AutoBuffer.readBuffer_some h₃).1
    show svcParamHint hints uKey sValue a >>= _ = _
    rw [svcParamHint_eq uKey a (by omega)]
    exact ih _ (show b₃.unread < fuel by omega) (show b₃.unread < hints by omega)

theorem parseSvcParamHint_eq {fuel : ℕ} {sData : Bytes} (a : Addresses) (h : sData.length < fuel) :
    parseSvcParamHint fuel sData a = .ok (Parse.parseSvcParamHint sData a) := by
  unfold parseSvcParamHint Parse.parseSvcParamHint AutoBuffer.readUINT16
  rw [← toRaw_assign, readNumber_toRaw]
  rcases h₁ : (assign sData).readNumber 2 with _ | ⟨x, b₁⟩
  · rfl
  have hb₁ := AutoBuffer.readNumber_unread h₁
  have hall : (assign sData).unread = sData.length := rfl
  show skipBufferName fuel (toRaw b₁) >>= _ = _
  rw [skipBufferName_toRaw (show b₁.unread < fuel by omega)]
  dsimp only
  rcases h₂ : Parse.skipBufferName b₁ with _ | b₂
  · rfl
  have hb₂ := skipBufferName_unread h₂
  exact parseSvcParams_toRaw a (show b₂.unread < fuel by omega) (show b₂.unread < fuel by omega)

theorem recordAddresses_eq {fuel : ℕ} {sData : Bytes} (uType : ℕ) (a : Addresses)
    (h : sData.length < fuel) :
    recordAddresses fuel uType sData a = .ok (Parse.recordAddresses uType sData a) := by
  unfold recordAddresses Parse.recordAddresses
  have hcopy : ∀ n, sData.length = n → memcpy sData 0 n = .ok sData := by
    rintro n rfl
    unfold memcpy
    rw [if_pos (by omega), List.drop_zero, List.take_length]
  split_ifs with hc ha h4 h6 h16 hs
  · rfl
  · rw [hcopy 4 h4]
    rfl
  · rfl
  · rw [hcopy 16 h16]
    rfl
  · rfl
  · exact parseSvcParamHint_eq a h
  · rfl

theorem readRecord_toRaw {fuel : ℕ} {b : AutoBuffer} (h : b.unread < fuel) :
    readRecord fuel (toRaw b) =
      .ok ((Parse.readRecord b).map fun r => (r.1, r.2.1, toRaw r.2.2)) := by
  unfold readRecord Parse.readRecord AutoBuffer.readUINT16 AutoBuffer.readUINT32
  rw [skipBufferName_toRaw h]
  rcases Parse.skipBufferName b with _ | b₁
  · rfl
  show (toRaw b₁).readNumber 2 >>= _ = Except.ok (Option.map _ (b₁.readNumber 2 >>= _))
  rw [readNumber_toRaw]
  rcases b₁.readNumber 2 with _ | ⟨uType, b₂⟩
  · rfl
  show (toRaw b₂).readNumber 2 >>= _ = Except.ok (Option.map _ (b₂.readNumber 2 >>= _))
  rw [readNumber_toRaw]
  rcases b₂.readNumber 2 with _ | ⟨uClass, b₃⟩
  · rfl
  show (if uClass ≠ 1 then _ else _) = Except.ok (Option.map _ (if uClass ≠ 1 then _ else _))
  by_cases hc : uClass ≠ 1
  · rw [if_pos hc, if_pos hc]
    rfl
  rw [if_neg hc, if_neg hc]
  show (toRaw b₃).readNumber 4 >>= _ = Except.ok (Option.map _ (b₃.readNumber 4 >>= _))
  rw [readNumber_toRaw]
  rcases b₃.readNumber 4 with _ | ⟨ttl, b₄⟩
  · rfl
  show (toRaw b₄).readNumber 2 >>= _ = Except.ok (Option.map _ (b₄.readNumber 2 >>= _))
  rw [readNumber_toRaw]
  rcases b₄.readNumber 2 with _ | ⟨uDataLength, b₅⟩
  · rfl
  show readValue (toRaw b₅) uDataLength >>= _ = Except.ok (Option.map _ (b₅.readBuffer uDataLength >>= _))
  rw [readValue_toRaw]
  rcases b₅.readBuffer uDataLength with _ | ⟨sData, b₆⟩ <;> rfl

theorem readRecord_unread {b b' : AutoBuffer} {t : ℕ} {x : Bytes}
    (h : Parse.readRecord b = some (t, x, b')) : b'.unread + x.length < b.unread := by
  obtain ⟨b₁, b₂, b₃, b₄, b₅, ttl, h₁, h₂, h₃, h₄, h₅, h₆⟩ := readRecord_some h
  have hb₁ := skipBufferName_unread h₁
  have hb₂ := AutoBuffer.readNumber_unread h₂
  have hb₃ := AutoBuffer.readNumber_unread h₃
  have hb₄ := AutoBuffer.readNumber_unread h₄
  have hb₅ := AutoBuffer.readNumber_unread h₅
  have hb₆ := AutoBuffer.readBuffer_unread h₆
  omega

theorem parseAnswers_toRaw {fuel n : ℕ} {b : AutoBuffer} (a : Addresses) (h : b.unread < fuel) :
    parseAnswers fuel n (toRaw b) a = .ok (Parse.parseAnswers n b a) := by
  induction n generalizing b a with
  | zero => rfl
  | succ n ih =>
    unfold parseAnswers Parse.parseAnswers
    rw [readRecord_toRaw h]
    rcases h₁ : Parse.readRecord b with _ | ⟨uType, sData, b₁⟩
    · rfl
    have hb₁ := readRecord_unread h₁
    have hrec : ∀ a, _ := fun a => @ih b₁ a (by omega)
    show (if sData.length ≠ 0 then _ else _) = Except.ok (if sData.length ≠ 0 then _ else _)
    by_cases h0 : sData.length ≠ 0
    · rw [if_pos h0, if_pos h0]
      show recordAddresses fuel uType sData a >>= _ = _
      rw [recordAddresses_eq uType a (by omega)]
      rcases Parse.recordAddresses uType sData a with ⟨_ | _, a'⟩
      · rfl
      · exact hrec a'
    · rw [if_neg h0, if_neg h0]
      exact hrec a

/-- **`ParseResponseA`** meets no danger. -/
theorem parseResponseA_eq (d : Bytes) :
    parseResponseA (d.length + 1) d = .ok (Parse.parseResponseA d) := by
  have hfuel : (assign d).unread < d.length + 1 := Nat.lt_succ_self _
  unfold parseResponseA Parse.parseResponseA
  rw [← toRaw_assign, parseRequestAAndAnswers_toRaw {} hfuel]
  rcases hp : Parse.parseRequestAAndAnswers (assign d) {} with ⟨_ | b, o⟩
  · rfl
  have hb : b.unread ≤ d.length := by
    have hs := (reader_of_parse hp).2
    unfold AutoBuffer.unread
    rw [hs]
    exact Nat.sub_le _ _
  show parseAnswers (d.length + 1) o.uAnswers (toRaw b) {} >>= _ = _
  rw [parseAnswers_toRaw {} (by omega)]
  rfl

end DnsMultiZone.Rfc1035.Memory
