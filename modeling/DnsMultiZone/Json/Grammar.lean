import DnsMultiZone.Json.Parser

/-! # The texts `cJSON_Parse` takes

The language, said without the parser: `Value L n w item` says that the bytes `w` are a value nested at most
`n` deep, and that they mean `item`. How values are put together is JSON's; what white space, a string and a
number are is up to `L`. For the parser (`cJSON`) it is wider than in JSON. Every byte up to the space is
white space, any byte may stand in a string, a `\u` whose four bytes are not all hexadecimal digits is a
zero byte, and a number is what `strtod` reads, up to 63 bytes. -/

namespace DnsMultiZone.Json.Grammar

open DnsMultiZone.Lib.BigEndian DnsMultiZone.Lib.Decimal DnsMultiZone.Lib.Double
open DnsMultiZone.Config.LoadFile (cStr)
open DnsMultiZone.Config.LoadConfig (CJson)
open DnsMultiZone.Config.Lookup (text)
open DnsMultiZone.Json.Parser

/-- White space. -/
def Blank (w : Bytes) : Prop := ∀ c ∈ w, c ≤ 32

/-! ### Strings -/

/-- What stands between two quotes, so that the second one is not escaped. -/
inductive Quoted : Bytes → Prop
  | nil : Quoted []
  | plain {c : UInt8} {s : Bytes} (hq : c ≠ 0x22) (hb : c ≠ 0x5C) (h : Quoted s) : Quoted (c :: s)
  | escape {c : UInt8} {s : Bytes} (h : Quoted s) : Quoted (0x5C :: c :: s)

/-- The number that hexadecimal digits spell, or zero where one of them is none. -/
def hexCode : Bytes → ℕ → ℕ
  | [], h => h
  | c :: s, h =>
    match hexDigit c with
    | none => 0
    | some d => hexCode s (h * 16 + d)

/-- The escapes of UTF-16, and the character they mean: one code, or a high and a low surrogate. -/
inductive Utf16 : Bytes → Char → Prop
  | single {ds : Bytes} {c : Char} (hl : ds.length = 4) (hc : c.toNat = hexCode ds 0) :
      Utf16 (0x5C :: 0x75 :: ds) c
  | pair {ds es : Bytes} {c : Char} (hd : ds.length = 4) (he : es.length = 4)
      (hhigh : 0xD800 ≤ hexCode ds 0 ∧ hexCode ds 0 ≤ 0xDBFF)
      (hlow : 0xDC00 ≤ hexCode es 0 ∧ hexCode es 0 ≤ 0xDFFF)
      (hc : c.toNat = 0x10000 + (hexCode ds 0 - 0xD800) * 0x400 + (hexCode es 0 - 0xDC00)) :
      Utf16 (0x5C :: 0x75 :: ds ++ 0x5C :: 0x75 :: es) c

/-- What a string literal stands for. A backslash that `\u` has cut off from its escape can be the last
byte; it takes the closing quote. -/
inductive Unescaped : Bytes → Bytes → Prop
  | nil : Unescaped [] []
  | plain {c : UInt8} {s out : Bytes} (hc : c ≠ 0x5C) (h : Unescaped s out) :
      Unescaped (c :: s) (c :: out)
  | escape {c d : UInt8} {s out : Bytes} (hc : escaped c = some d) (h : Unescaped s out) :
      Unescaped (0x5C :: c :: s) (d :: out)
  | utf16 {w s out : Bytes} {c : Char} (hw : Utf16 w c) (h : Unescaped s out) :
      Unescaped (w ++ s) (String.utf8EncodeChar c ++ out)
  | closing : Unescaped [0x5C] [0x22]

/-- A string in quotes; its value ends at the first zero byte. -/
inductive Literal : Bytes → Bytes → Prop
  | mk {body out : Bytes} (hq : Quoted body) (hu : Unescaped body out) :
      Literal (0x22 :: body ++ [0x22]) (cStr out)

/-! ### Numbers -/

/-- A numeral short enough for the copy that `strtod` reads. -/
inductive Number : Bytes → Int32 → Prop
  | mk {w : Bytes} {x : ℚ} (hn : Numeral w x) (hl : w.length ≤ 63) : Number w (valueint (toDouble x))

/-- What decides that a value is a number. -/
def StartsNumber (w : Bytes) : Prop := ∃ c s, w = c :: s ∧ (c = 0x2D ∨ isDigit c)

/-! ### Values -/

/-- What the pieces of a text are. -/
structure Lexis where
  blank : Bytes → Prop
  literal : Bytes → Bytes → Prop
  number : Bytes → Int32 → Prop

/-- The pieces the parser takes. -/
def cJSON : Lexis where
  blank := Blank
  literal := Literal
  number w v := StartsNumber w ∧ Number w v

section
variable {α : Type} (B : Bytes → Prop) (P : Bytes → α → Prop)

/-- Items with commas between them and white space around them. -/
inductive Separated : Bytes → List α → Prop
  | one {a w b : Bytes} {x : α} (ha : B a) (hw : P w x) (hb : B b) : Separated (a ++ w ++ b) [x]
  | cons {a w b s : Bytes} {x : α} {xs : List α} (ha : B a) (hw : P w x) (hb : B b)
      (hs : Separated s xs) : Separated (a ++ w ++ b ++ 0x2C :: s) (x :: xs)

/-- What stands between brackets. -/
inductive Listed : Bytes → List α → Prop
  | nil {w : Bytes} (hw : B w) : Listed w []
  | items {w : Bytes} {xs : List α} (h : Separated B P w xs) : Listed w xs

end

section
variable (L : Lexis)

inductive Scalar : Bytes → CJson → Prop
  | null : Scalar (text "null") .null
  | false : Scalar (text "false") (.bool false)
  | true : Scalar (text "true") (.bool true)
  | string {w valuestring : Bytes} (h : L.literal w valuestring) : Scalar w (.string valuestring)
  | number {w : Bytes} {v : Int32} (h : L.number w v) : Scalar w (.number v)

variable (V : Bytes → CJson → Prop)

/-- A name and a value. -/
inductive Member : Bytes → Bytes × CJson → Prop
  | mk {k a b w string : Bytes} {item : CJson} (hk : L.literal k string) (ha : L.blank a)
      (hb : L.blank b) (hw : V w item) : Member (k ++ a ++ 0x3A :: b ++ w) (string, item)

inductive Container : Bytes → CJson → Prop
  | array {w : Bytes} {items : List CJson} (h : Listed L.blank V w items) :
      Container (0x5B :: w ++ [0x5D]) (.array items)
  | object {w : Bytes} {members : List (Bytes × CJson)} (h : Listed L.blank (Member L V) w members) :
      Container (0x7B :: w ++ [0x7D]) (.object members)

end

/-- A value nested at most `n` deep. -/
def Value (L : Lexis) : ℕ → Bytes → CJson → Prop
  | 0, w, item => Scalar L w item
  | n + 1, w, item => Scalar L w item ∨ Container L (Value L n) w item

/-- The text after a byte order mark; one is seen only in a text of four bytes or more. -/
def withoutBom (s : Bytes) : Bytes :=
  if [0xEF, 0xBB, 0xBF] <+: s ∧ 4 ≤ s.length then s.drop 3 else s

/-- The text starts with a value, and the value is as long as one there can be. What follows it is not
looked at. -/
def Accepts (s : Bytes) (item : CJson) : Prop :=
  ∃ a w r, withoutBom s = a ++ w ++ r ∧ Blank a ∧ Value cJSON nestingLimit w item ∧
    ∀ w' item', Value cJSON nestingLimit w' item' → w' <+: w ++ r → w'.length ≤ w.length

end DnsMultiZone.Json.Grammar
