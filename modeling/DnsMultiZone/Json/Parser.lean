import DnsMultiZone.Config.LoadConfig
import DnsMultiZone.Lib.Decimal

/-! # `cJSON_Parse`

The parser that comes with the program, on offsets into its buffer. `content` is the text and the zero byte
that ends it, as `cJSON_ParseWithOpts` measures it. A read outside `content`, a write outside what
`parse_string` allocated and an offset stepped back from zero are a `Stop.fault`. A function that returns
`false` is `Stop.refused`, which ends the whole parse: what it leaves in the buffer and in the error
position is not kept. Allocation succeeds.

The items are those of `LoadConfigJson`: a string is what its `char *` shows. The recursion is on a bound
that `cJSON_ParseWithOpts` sets at the nesting limit, and the loops over elements on the length of the text;
`Stop.fuel` is where one of them is not enough. -/

namespace DnsMultiZone.Json.Parser

open DnsMultiZone.Lib.BigEndian DnsMultiZone.Lib.Decimal DnsMultiZone.Lib.Double
open DnsMultiZone.Config.LoadFile (cStr)
open DnsMultiZone.Config.LoadConfig (CJson)
open DnsMultiZone.Config.Lookup (text)

/-- Why a function does not return an item. -/
inductive Stop
  | refused
  | fault
  | fuel
  deriving DecidableEq

/-- `parse_buffer`, without the text. -/
structure ParseBuffer where
  offset : ℕ
  depth : ℕ

/-- `CJSON_NESTING_LIMIT`. -/
def nestingLimit : ℕ := 1000

/-- `offset--`. -/
def ParseBuffer.back (b : ParseBuffer) : Except Stop ParseBuffer :=
  if b.offset = 0 then .error .fault else .ok { b with offset := b.offset - 1 }

variable (content : Bytes)

/-- `content[i]`. -/
def byteAt (i : ℕ) : Except Stop UInt8 :=
  match content[i]? with
  | none => .error .fault
  | some c => .ok c

/-- `can_access_at_index(b, 0)`, and the byte there is `c`. -/
def sees (b : ParseBuffer) (c : UInt8) : Bool := content[b.offset]? == some c

/-- `can_read`, and `strncmp` finds the word there. -/
def starts (b : ParseBuffer) (word : Bytes) : Bool := word.isPrefixOf (content.drop b.offset)

/-- `buffer_skip_whitespace`. -/
def bufferSkipWhitespace (b : ParseBuffer) : Except Stop ParseBuffer :=
  let offset := b.offset + ((content.drop b.offset).takeWhile (· ≤ 32)).length
  if offset = content.length then ParseBuffer.back { b with offset } else .ok { b with offset }

/-- `skip_utf8_bom`. -/
def skipUtf8Bom (b : ParseBuffer) : Except Stop ParseBuffer :=
  if b.offset ≠ 0 then .error .refused
  else if b.offset + 4 < content.length ∧ starts content b [0xEF, 0xBB, 0xBF] then
    .ok { b with offset := b.offset + 3 }
  else .ok b

/-! ### Numbers -/

/-- The bytes `parse_number` copies. -/
def isNumberByte (c : UInt8) : Bool :=
  isDigit c || c == 0x2B || c == 0x2D || c == 0x65 || c == 0x45 || c == 0x2E

/-- `valueint` for a `double`: saturated, else cut to an integer. -/
def valueint (number : ℚ) : Int32 :=
  if number ≥ 2147483647 then Int32.maxValue
  else if number ≤ -2147483648 then Int32.minValue
  else Int32.ofInt (number.num.tdiv number.den)

/-- `parse_number`. -/
def parseNumber (b : ParseBuffer) : Except Stop (CJson × ParseBuffer) :=
  let numberCString := ((content.drop b.offset).take 63).takeWhile isNumberByte
  match strtod numberCString with
  | none => .error .refused
  | some (number, rest) =>
    .ok (.number (valueint number), { b with offset := b.offset + (numberCString.length - rest.length) })

/-! ### Strings -/

def hexDigit (c : UInt8) : Option ℕ :=
  if 0x30 ≤ c ∧ c ≤ 0x39 then some (c.toNat - 0x30)
  else if 0x41 ≤ c ∧ c ≤ 0x46 then some (10 + c.toNat - 0x41)
  else if 0x61 ≤ c ∧ c ≤ 0x66 then some (10 + c.toNat - 0x61)
  else none

/-- The loop of `parse_hex4`: the digits to come, and the number so far. -/
def parseHex4Loop : ℕ → ℕ → ℕ → Except Stop ℕ
  | 0, _, h => .ok h
  | n + 1, input, h => do
    let c ← byteAt content input
    match hexDigit c with
    | none => .ok 0
    | some d => parseHex4Loop n (input + 1) (h * 16 + d)

/-- `parse_hex4`. -/
def parseHex4 (input : ℕ) : Except Stop ℕ := parseHex4Loop content 4 input 0

/-- The loop that encodes: the bytes before those written. -/
def encodeLoop (firstByteMark : ℕ) : ℕ → ℕ → Bytes → Bytes
  | 0, codepoint, out => UInt8.ofNat ((codepoint ||| firstByteMark) &&& 0xFF) :: out
  | n + 1, codepoint, out =>
    encodeLoop firstByteMark n (codepoint >>> 6) (UInt8.ofNat ((codepoint ||| 0x80) &&& 0xBF) :: out)

/-- The UTF-8 bytes of a code point, as `utf16_literal_to_utf8` writes them. -/
def encode (codepoint : ℕ) : Option Bytes :=
  if codepoint < 0x80 then some [UInt8.ofNat (codepoint &&& 0x7F)]
  else if codepoint < 0x800 then some (encodeLoop 0xC0 1 codepoint [])
  else if codepoint < 0x10000 then some (encodeLoop 0xE0 2 codepoint [])
  else if codepoint ≤ 0x10FFFF then some (encodeLoop 0xF0 3 codepoint [])
  else none

/-- The code point of a surrogate pair. -/
def surrogatePair (firstCode secondCode : ℕ) : ℕ :=
  0x10000 + ((firstCode &&& 0x3FF) <<< 10 ||| (secondCode &&& 0x3FF))

/-- `utf16_literal_to_utf8` up to the encoding: the code point, and the length of the sequence. -/
def utf16Literal (inputPointer inputEnd : ℕ) : Except Stop (ℕ × ℕ) := do
  if inputEnd < inputPointer + 6 then .error .refused
  else
    let firstCode ← parseHex4 content (inputPointer + 2)
    if 0xDC00 ≤ firstCode ∧ firstCode ≤ 0xDFFF then .error .refused
    else if 0xD800 ≤ firstCode ∧ firstCode ≤ 0xDBFF then
      if inputEnd < inputPointer + 12 then .error .refused
      else if (← byteAt content (inputPointer + 6)) ≠ 0x5C then .error .refused
      else if (← byteAt content (inputPointer + 7)) ≠ 0x75 then .error .refused
      else
        let secondCode ← parseHex4 content (inputPointer + 8)
        if secondCode < 0xDC00 ∨ secondCode > 0xDFFF then .error .refused
        else .ok (surrogatePair firstCode secondCode, 12)
    else .ok (firstCode, 6)

/-- `utf16_literal_to_utf8`. -/
def utf16LiteralToUtf8 (inputPointer inputEnd : ℕ) : Except Stop (Bytes × ℕ) := do
  let (codepoint, sequenceLength) ← utf16Literal content inputPointer inputEnd
  match encode codepoint with
  | none => .error .refused
  | some bytes => .ok (bytes, sequenceLength)

/-- The loop that looks for the closing quote, each byte read after a check that it is there: where it
stops, and how many escapes it passed. -/
def findEnd : Bytes → ℕ → ℕ → Option (ℕ × ℕ)
  | [], _, _ => none
  | c :: s, inputEnd, skippedBytes =>
    if c = 0x22 then some (inputEnd, skippedBytes)
    else if c = 0x5C then
      match s with
      | [] => none
      | _ :: s => findEnd s (inputEnd + 2) (skippedBytes + 1)
    else findEnd s (inputEnd + 1) skippedBytes

/-- What a byte after a backslash stands for. -/
def escaped (c : UInt8) : Option UInt8 :=
  if c = 0x62 then some 0x08
  else if c = 0x66 then some 0x0C
  else if c = 0x6E then some 0x0A
  else if c = 0x72 then some 0x0D
  else if c = 0x74 then some 0x09
  else if c = 0x22 ∨ c = 0x5C ∨ c = 0x2F then some c
  else none

/-- Bytes written behind what `output` holds. -/
def put (allocated : ℕ) (output bytes : Bytes) : Except Stop Bytes :=
  if output.length + bytes.length ≤ allocated then .ok (output ++ bytes) else .error .fault

/-- The loop through the string literal. -/
def unescape (allocated inputEnd : ℕ) : ℕ → ℕ → Bytes → Except Stop Bytes
  | 0, inputPointer, output => if inputEnd ≤ inputPointer then .ok output else .error .fuel
  | n + 1, inputPointer, output => do
    if inputEnd ≤ inputPointer then .ok output
    else
      let c ← byteAt content inputPointer
      if c ≠ 0x5C then unescape allocated inputEnd n (inputPointer + 1) (← put allocated output [c])
      else
        let c ← byteAt content (inputPointer + 1)
        if c = 0x75 then
          let (bytes, sequenceLength) ← utf16LiteralToUtf8 content inputPointer inputEnd
          unescape allocated inputEnd n (inputPointer + sequenceLength) (← put allocated output bytes)
        else
          match escaped c with
          | none => .error .refused
          | some d => unescape allocated inputEnd n (inputPointer + 2) (← put allocated output [d])

/-- `parse_string`: what the string shows. -/
def parseString (b : ParseBuffer) : Except Stop (Bytes × ParseBuffer) := do
  if (← byteAt content b.offset) ≠ 0x22 then .error .refused
  else
    match findEnd (content.drop (b.offset + 1)) (b.offset + 1) 0 with
    | none => .error .refused
    | some (inputEnd, skippedBytes) =>
      let allocated := inputEnd - b.offset - skippedBytes + 1
      let output ← unescape content allocated inputEnd (inputEnd - (b.offset + 1)) (b.offset + 1) []
      let output ← put allocated output [0]
      return (cStr output, { b with offset := inputEnd + 1 })

/-! ### Arrays and objects -/

section
variable {α : Type} (parseItem : ParseBuffer → Except Stop (α × ParseBuffer))

/-- The loop over what commas separate; the offset is in front of the next one. -/
def parseItems : ℕ → ParseBuffer → Except Stop (List α × ParseBuffer)
  | 0, _ => .error .fuel
  | n + 1, b => do
    let b ← bufferSkipWhitespace content { b with offset := b.offset + 1 }
    let (item, b) ← parseItem b
    let b ← bufferSkipWhitespace content b
    if sees content b 0x2C then
      let (items, b) ← parseItems n b
      return (item :: items, b)
    else return ([item], b)

/-- What `parse_array` and `parse_object` do after the opening bracket. -/
def parseChildren (closing : UInt8) (b : ParseBuffer) : Except Stop (List α × ParseBuffer) := do
  let b ← bufferSkipWhitespace content { b with offset := b.offset + 1 }
  if sees content b closing then
    return ([], { offset := b.offset + 1, depth := b.depth - 1 })
  else if content.length ≤ b.offset then .error .refused
  else
    let (items, b) ← parseItems content parseItem content.length (← b.back)
    if sees content b closing then
      return (items, { offset := b.offset + 1, depth := b.depth - 1 })
    else .error .refused

end

section
variable (parseValue : ParseBuffer → Except Stop (CJson × ParseBuffer))

/-- `parse_array`. -/
def parseArray (b : ParseBuffer) : Except Stop (CJson × ParseBuffer) := do
  if b.depth ≥ nestingLimit then .error .refused
  else if (← byteAt content b.offset) ≠ 0x5B then .error .refused
  else
    let (items, b) ← parseChildren content parseValue 0x5D { b with depth := b.depth + 1 }
    return (.array items, b)

/-- The body of the loop of `parse_object`: a name and a value. -/
def parseMember (b : ParseBuffer) : Except Stop ((Bytes × CJson) × ParseBuffer) := do
  let (string, b) ← parseString content b
  let b ← bufferSkipWhitespace content b
  if !sees content b 0x3A then .error .refused
  else
    let b ← bufferSkipWhitespace content { b with offset := b.offset + 1 }
    let (item, b) ← parseValue b
    return ((string, item), b)

/-- `parse_object`. -/
def parseObject (b : ParseBuffer) : Except Stop (CJson × ParseBuffer) := do
  if b.depth ≥ nestingLimit then .error .refused
  else if !sees content b 0x7B then .error .refused
  else
    let (members, b) ←
      parseChildren content (parseMember content parseValue) 0x7D { b with depth := b.depth + 1 }
    return (.object members, b)

end

/-! ### Values -/

/-- What a number starts with. -/
def startsNumber (b : ParseBuffer) : Bool :=
  match content[b.offset]? with
  | none => false
  | some c => c == 0x2D || isDigit c

/-- `parse_value`. -/
def parseValue : ℕ → ParseBuffer → Except Stop (CJson × ParseBuffer)
  | 0, _ => .error .fuel
  | n + 1, b =>
    if starts content b (text "null") then .ok (.null, { b with offset := b.offset + 4 })
    else if starts content b (text "false") then .ok (.bool false, { b with offset := b.offset + 5 })
    else if starts content b (text "true") then .ok (.bool true, { b with offset := b.offset + 4 })
    else if sees content b 0x22 then do
      let (valuestring, b) ← parseString content b
      return (.string valuestring, b)
    else if startsNumber content b then parseNumber content b
    else if sees content b 0x5B then parseArray content (parseValue n) b
    else if sees content b 0x7B then parseObject content (parseValue n) b
    else .error .refused

/-- `cJSON_ParseWithOpts`, without the end it can hand back. -/
def cJSON_ParseWithOpts (value : Bytes) (requireNullTerminated : Bool) : Except Stop CJson := do
  let content := cStr value ++ [0]
  let b ← skipUtf8Bom content ⟨0, 0⟩
  let b ← bufferSkipWhitespace content b
  let (item, b) ← parseValue content (nestingLimit + 1) b
  if requireNullTerminated then
    let b ← bufferSkipWhitespace content b
    if sees content b 0 then return item else .error .refused
  else return item

/-- `cJSON_Parse`. -/
def cJSON_Parse (value : Bytes) : Option CJson := (cJSON_ParseWithOpts value false).toOption

end DnsMultiZone.Json.Parser
