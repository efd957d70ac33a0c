import DnsMultiZone.Json.Values

/-! # JSON texts

The grammar of RFC 8259, with the same way of putting values together and its own white space, strings and
numbers, within four limits. A number has 63 bytes at most and a value is nested 1000 deep at most; the RFC
lets a parser set such limits. A string is one of characters: an escaped surrogate is one of a pair. And what
it means ends at its first zero byte, which the program does not see past (`Str`). `cJSON_Parse` takes every
such text and gives the item it means, with whatever white space and whichever escapes it is written. -/

namespace DnsMultiZone.Json.Rfc8259

open DnsMultiZone.Lib.BigEndian DnsMultiZone.Lib.Decimal DnsMultiZone.Lib.Double
open DnsMultiZone.Config.LoadFile (cStr)
open DnsMultiZone.Config.LoadConfig (CJson)
open DnsMultiZone.Config.Lookup (text)
open DnsMultiZone.Json.Parser DnsMultiZone.Json.Grammar DnsMultiZone.Json.Buffer
open DnsMultiZone.Json.Values

/-! ### The grammar -/

/-- `ws`. -/
def Ws (w : Bytes) : Prop := ∀ c ∈ w, c = 0x20 ∨ c = 0x09 ∨ c = 0x0A ∨ c = 0x0D

/-- `4HEXDIG`. -/
def Hex4 (ds : Bytes) : Prop := ds.length = 4 ∧ ∀ c ∈ ds, (hexDigit c).isSome

/-- What may follow a backslash, with the code point it stands for. -/
def escapes : List (UInt8 × ℕ) :=
  [(0x22, 0x22), (0x5C, 0x5C), (0x2F, 0x2F), (0x62, 0x08), (0x66, 0x0C), (0x6E, 0x0A), (0x72, 0x0D),
    (0x74, 0x09)]

/-- `char`: a character of a string, as itself or escaped. An escaped surrogate that is alone is none. -/
inductive Ch : Bytes → Char → Prop
  | unescaped {c : Char} (h : 0x20 ≤ c.toNat) (hq : c.toNat ≠ 0x22) (hb : c.toNat ≠ 0x5C) :
      Ch (String.utf8EncodeChar c) c
  | escape {e : UInt8} {c : Char} (h : (e, c.toNat) ∈ escapes) : Ch [0x5C, e] c
  | code {ds : Bytes} {c : Char} (hd : Hex4 ds) (hc : c.toNat = hexCode ds 0) :
      Ch (0x5C :: 0x75 :: ds) c
  | pair {ds es : Bytes} {c : Char} (hd : Hex4 ds) (he : Hex4 es)
      (hhigh : 0xD800 ≤ hexCode ds 0 ∧ hexCode ds 0 ≤ 0xDBFF)
      (hlow : 0xDC00 ≤ hexCode es 0 ∧ hexCode es 0 ≤ 0xDFFF)
      (hc : c.toNat = 0x10000 + (hexCode ds 0 - 0xD800) * 0x400 + (hexCode es 0 - 0xDC00)) :
      Ch (0x5C :: 0x75 :: ds ++ 0x5C :: 0x75 :: es) c

inductive Chars : Bytes → List Char → Prop
  | nil : Chars [] []
  | cons {w s : Bytes} {c : Char} {cs : List Char} (hw : Ch w c) (hs : Chars s cs) :
      Chars (w ++ s) (c :: cs)

def utf8 (cs : List Char) : Bytes := cs.flatMap String.utf8EncodeChar

/-- `string`; the program sees it up to its first zero byte. -/
inductive Str : Bytes → Bytes → Prop
  | mk {w : Bytes} {cs : List Char} (h : Chars w cs) : Str (0x22 :: w ++ [0x22]) (cStr (utf8 cs))

/-- `[ minus ]`. -/
inductive Minus : Bytes → Bool → Prop
  | none : Minus [] false
  | minus : Minus [0x2D] true

/-- `int`. -/
inductive IntPart : Bytes → Prop
  | zero : IntPart [0x30]
  | pos {c : UInt8} {s : Bytes} (hc : isDigit c) (h0 : c ≠ 0x30) (hs : ∀ c ∈ s, isDigit c) :
      IntPart (c :: s)

/-- `[ frac ]`, and its digits. -/
inductive Frac : Bytes → Bytes → Prop
  | none : Frac [] []
  | some {d : Bytes} (hd : ∀ c ∈ d, isDigit c) (h : d ≠ []) : Frac (0x2E :: d) d

/-- `number`. -/
inductive Num : Bytes → Int32 → Prop
  | mk {sg i f x d : Bytes} {neg : Bool} {e : ℤ} (hs : Minus sg neg) (hi : IntPart i) (hf : Frac f d)
      (hx : Exponent x e) (hl : (sg ++ i ++ f ++ x).length ≤ 63) :
      Num (sg ++ i ++ f ++ x) (valueint (toDouble (value neg i d e)))

/-- The pieces of JSON. -/
def rfc8259 : Lexis where
  blank := Ws
  literal := Str
  number := Num

/-! ### Its pieces are pieces of the parser's language -/

theorem ws_blank {w : Bytes} (h : Ws w) : Blank w := fun c hc => by
  rcases h c hc with rfl | rfl | rfl | rfl <;> decide

theorem utf8_plain {c : Char} (h : 0x20 ≤ c.toNat) (hq : c.toNat ≠ 0x22) (hb : c.toNat ≠ 0x5C) :
    ∀ b ∈ String.utf8EncodeChar c, b ≠ 0x22 ∧ b ≠ 0x5C ∧ b ≠ 0 := by
  have hn : c.val.toNat = c.toNat := rfl
  have hbyte {n : ℕ} (hlt : n < 256) (h1 : n ≠ 0x22) (h2 : n ≠ 0x5C) (h3 : n ≠ 0) :
      UInt8.ofNat n ≠ 0x22 ∧ UInt8.ofNat n ≠ 0x5C ∧ UInt8.ofNat n ≠ 0 := by
    have ht : (UInt8.ofNat n).toNat = n := by rw [UInt8.toNat_ofNat', Nat.mod_eq_of_lt hlt]
    refine ⟨fun he => h1 ?_, fun he => h2 ?_, fun he => h3 ?_⟩ <;> rw [← ht, he] <;> rfl
  unfold String.utf8EncodeChar
  rw [hn]
  dsimp only
  split_ifs with h1 h2 h3 <;> simp only [List.forall_mem_cons, List.not_mem_nil, false_implies,
    implies_true, and_true]
  · exact hbyte (by omega) hq hb (by omega)
  · exact ⟨hbyte (by omega) (by omega) (by omega) (by omega),
      hbyte (by omega) (by omega) (by omega) (by omega)⟩
  · exact ⟨hbyte (by omega) (by omega) (by omega) (by omega),
      hbyte (by omega) (by omega) (by omega) (by omega),
      hbyte (by omega) (by omega) (by omega) (by omega)⟩
  · exact ⟨hbyte (by omega) (by omega) (by omega) (by omega),
      hbyte (by omega) (by omega) (by omega) (by omega),
      hbyte (by omega) (by omega) (by omega) (by omega),
      hbyte (by omega) (by omega) (by omega) (by omega)⟩

theorem hex_plain {c : UInt8} (h : (hexDigit c).isSome) : c ≠ 0x22 ∧ c ≠ 0x5C ∧ c ≠ 0 := by
  refine ⟨?_, ?_, ?_⟩ <;> rintro rfl <;> exact absurd h (by decide)

theorem quoted_plain {w s : Bytes} (hw : ∀ b ∈ w, b ≠ 0x22 ∧ b ≠ 0x5C) (hs : Quoted s) :
    Quoted (w ++ s) := by
  induction w with
  | nil => exact hs
  | cons b w ih =>
    obtain ⟨hq, hb⟩ := hw b List.mem_cons_self
    exact .plain hq hb (ih fun b hb => hw b (List.mem_cons_of_mem _ hb))

theorem unescaped_plain {w s out : Bytes} (hw : ∀ b ∈ w, b ≠ 0x5C) (hs : Unescaped s out) :
    Unescaped (w ++ s) (w ++ out) := by
  induction w with
  | nil => exact hs
  | cons b w ih =>
    exact .plain (hw b List.mem_cons_self) (ih fun b hb => hw b (List.mem_cons_of_mem _ hb))

theorem quoted_hex4 {ds s : Bytes} (hd : Hex4 ds) (hs : Quoted s) :
    Quoted (0x5C :: 0x75 :: ds ++ s) :=
  .escape (quoted_plain (fun b hb => ⟨(hex_plain (hd.2 b hb)).1, (hex_plain (hd.2 b hb)).2.1⟩) hs)

theorem ch_unescaped {w s out : Bytes} {c : Char} (h : Ch w c) (hq : Quoted s)
    (hu : Unescaped s out) : Quoted (w ++ s) ∧ Unescaped (w ++ s) (String.utf8EncodeChar c ++ out) := by
  cases h with
  | unescaped h hq' hb =>
    have hp := utf8_plain h hq' hb
    exact ⟨quoted_plain (fun b hb => ⟨(hp b hb).1, (hp b hb).2.1⟩) hq,
      unescaped_plain (fun b hb => (hp b hb).2.1) hu⟩
  | @escape e c h =>
    refine ⟨.escape hq, ?_⟩
    have hesc : ∀ p ∈ escapes, escaped p.1 = some (UInt8.ofNat p.2) ∧ p.2 < 0x80 := by decide
    obtain ⟨h1, h2⟩ := hesc _ h
    have hbyte : String.utf8EncodeChar c = [UInt8.ofNat c.toNat] := by
      have hn : c.val.toNat = c.toNat := rfl
      unfold String.utf8EncodeChar
      rw [hn]
      exact if_pos (by omega)
    rw [hbyte]
    exact .escape h1 hu
  | code hd hc => exact ⟨quoted_hex4 hd hq, .utf16 (.single hd.1 hc) hu⟩
  | pair hd he hhigh hlow hc =>
    refine ⟨?_, .utf16 (.pair hd.1 he.1 hhigh hlow hc) hu⟩
    rw [List.append_assoc]
    exact quoted_hex4 hd (quoted_hex4 he hq)

theorem chars_unescaped {w : Bytes} {cs : List Char} (h : Chars w cs) :
    Quoted w ∧ Unescaped w (utf8 cs) := by
  induction h with
  | nil => exact ⟨.nil, .nil⟩
  | cons hw _ ih => exact ch_unescaped hw ih.1 ih.2

theorem str_literal {w s : Bytes} (h : Str w s) : Literal w s := by
  obtain ⟨h⟩ := h
  exact .mk (chars_unescaped h).1 (chars_unescaped h).2

theorem num_number {w : Bytes} {v : Int32} (h : Num w v) : StartsNumber w ∧ Number w v := by
  obtain ⟨hs, hi, hf, hx, hl⟩ := h
  rename_i sg i f x d neg e
  have hi' : (∀ c ∈ i, isDigit c) ∧ i ≠ [] := by
    cases hi with
    | zero => simp [isDigit]
    | pos hc h0 hs => exact ⟨List.forall_mem_cons.mpr ⟨hc, hs⟩, List.cons_ne_nil _ _⟩
  have hs' : Sign sg neg := by
    cases hs with
    | none => exact .none
    | minus => exact .minus
  have hm : Mantissa (i ++ f) i d := by
    cases hf with
    | none =>
      rw [List.append_nil]
      exact .whole hi'.1 hi'.2
    | some hd h => exact .point hi'.1 hd (.inl hi'.2)
  have hn : Numeral (sg ++ i ++ f ++ x) (value neg i d e) := by
    rw [List.append_assoc sg]
    exact .mk hs' hm hx
  refine ⟨?_, .mk hn hl⟩
  obtain ⟨c, t, rfl⟩ := List.exists_cons_of_ne_nil hi'.2
  cases hs with
  | none => exact ⟨c, _, rfl, .inr (hi'.1 c List.mem_cons_self)⟩
  | minus => exact ⟨_, _, rfl, .inl rfl⟩

/-! ### Values over other pieces -/

section
variable {α : Type} {B B' : Bytes → Prop} {P P' : Bytes → α → Prop}

theorem separated_mono (hB : ∀ {w}, B w → B' w) (hP : ∀ {w x}, P w x → P' w x) {w : Bytes}
    {xs : List α} (h : Separated B P w xs) : Separated B' P' w xs := by
  induction h with
  | one ha hw hb => exact .one (hB ha) (hP hw) (hB hb)
  | cons ha hw hb _ ih => exact .cons (hB ha) (hP hw) (hB hb) ih

theorem listed_mono (hB : ∀ {w}, B w → B' w) (hP : ∀ {w x}, P w x → P' w x) {w : Bytes}
    {xs : List α} (h : Listed B P w xs) : Listed B' P' w xs := by
  cases h with
  | nil hw => exact .nil (hB hw)
  | items h => exact .items (separated_mono hB hP h)

theorem listed_bytes {p : UInt8 → Prop} (hcomma : p 0x2C) (hB : ∀ {w}, B w → ∀ c ∈ w, p c)
    (hP : ∀ {w x}, P w x → ∀ c ∈ w, p c) {w : Bytes} {xs : List α} (h : Listed B P w xs) :
    ∀ c ∈ w, p c := by
  cases h with
  | nil hw => exact hB hw
  | items h =>
    induction h with
    | one ha hw hb => simpa only [List.forall_mem_append] using ⟨⟨hB ha, hP hw⟩, hB hb⟩
    | cons ha hw hb _ ih =>
      simpa only [List.forall_mem_append, List.forall_mem_cons] using
        ⟨⟨⟨hB ha, hP hw⟩, hB hb⟩, hcomma, ih⟩

end

section
variable {L L' : Lexis}

theorem value_mono (hblank : ∀ {w}, L.blank w → L'.blank w)
    (hliteral : ∀ {w s}, L.literal w s → L'.literal w s)
    (hnumber : ∀ {w v}, L.number w v → L'.number w v) {n : ℕ} {w : Bytes} {item : CJson}
    (h : Value L n w item) : Value L' n w item := by
  have hscalar {w item} (h : Scalar L w item) : Scalar L' w item := by
    cases h with
    | null => exact .null
    | false => exact .false
    | true => exact .true
    | string h => exact .string (hliteral h)
    | number h => exact .number (hnumber h)
  induction n generalizing w item with
  | zero => exact hscalar h
  | succ n ih =>
    rcases h with h | h
    · exact .inl (hscalar h)
    · cases h with
      | array hl => exact .inr (.array (listed_mono hblank ih hl))
      | object hl =>
        refine .inr (.object (listed_mono hblank ?_ hl))
        rintro _ _ ⟨hk, ha, hb, hw⟩
        exact .mk (hliteral hk) (hblank ha) (hblank hb) (ih hw)

theorem value_bytes {p : UInt8 → Prop}
    (hown : ∀ c ∈ text "nullfalsetrue[]\x7b\x7d,:", p c)
    (hblank : ∀ {w}, L.blank w → ∀ c ∈ w, p c) (hliteral : ∀ {w s}, L.literal w s → ∀ c ∈ w, p c)
    (hnumber : ∀ {w v}, L.number w v → ∀ c ∈ w, p c) {n : ℕ} {w : Bytes} {item : CJson}
    (h : Value L n w item) : ∀ c ∈ w, p c := by
  have hown' {w : Bytes} (hw : w ⊆ text "nullfalsetrue[]\x7b\x7d,:") : ∀ c ∈ w, p c :=
    fun c hc => hown c (hw hc)
  have hscalar {w item} (h : Scalar L w item) : ∀ c ∈ w, p c := by
    cases h with
    | null => exact hown' (by decide)
    | false => exact hown' (by decide)
    | true => exact hown' (by decide)
    | string h => exact hliteral h
    | number h => exact hnumber h
  have hin {a b : UInt8} (ha : a ∈ text "nullfalsetrue[]\x7b\x7d,:")
      (hb : b ∈ text "nullfalsetrue[]\x7b\x7d,:") {w : Bytes} (hw : ∀ c ∈ w, p c) :
      ∀ c ∈ a :: w ++ [b], p c := by
    simpa only [List.forall_mem_append, List.forall_mem_cons, List.not_mem_nil, false_implies,
      implies_true, and_true] using ⟨⟨hown a ha, hw⟩, hown b hb⟩
  induction n generalizing w item with
  | zero => exact hscalar h
  | succ n ih =>
    rcases h with h | h
    · exact hscalar h
    · cases h with
      | array hl => exact hin (by decide) (by decide) (listed_bytes (hown _ (by decide)) hblank ih hl)
      | object hl =>
        refine hin (by decide) (by decide) (listed_bytes (hown _ (by decide)) hblank ?_ hl)
        rintro _ _ ⟨hk, ha, hb, hw⟩
        simpa only [List.forall_mem_append, List.forall_mem_cons] using
          ⟨⟨⟨hliteral hk, hblank ha⟩, hown 0x3A (by decide), hblank hb⟩, ih hw⟩

end

/-! ### No zero byte -/

theorem ch_nonzero {w : Bytes} {c : Char} (h : Ch w c) : ∀ b ∈ w, b ≠ 0 := by
  have hhex {ds : Bytes} (hd : Hex4 ds) : ∀ b ∈ ds, b ≠ 0 := fun b hb => (hex_plain (hd.2 b hb)).2.2
  cases h with
  | unescaped h hq hb => exact fun b hb' => (utf8_plain h hq hb b hb').2.2
  | @escape e c h =>
    have hesc : ∀ p ∈ escapes, p.1 ≠ 0 := by decide
    simpa using hesc _ h
  | code hd => simpa using hhex hd
  | pair hd he =>
    simp only [List.forall_mem_append, List.forall_mem_cons]
    exact ⟨⟨by decide, by decide, hhex hd⟩, by decide, by decide, hhex he⟩

theorem str_nonzero {w s : Bytes} (h : Str w s) : ∀ b ∈ w, b ≠ 0 := by
  obtain ⟨h⟩ := h
  rename_i w cs
  have hw : ∀ b ∈ w, b ≠ 0 := by
    induction h with
    | nil => simp
    | cons hw _ ih => exact List.forall_mem_append.mpr ⟨ch_nonzero hw, ih⟩
  simp only [List.forall_mem_append, List.forall_mem_cons]
  exact ⟨⟨by decide, hw⟩, by decide, by simp⟩

theorem value_nonzero {n : ℕ} {w : Bytes} {item : CJson} (h : Value rfc8259 n w item) :
    ∀ b ∈ w, b ≠ 0 := by
  refine value_bytes (by decide +kernel) ?_ str_nonzero ?_ h
  · rintro w hw c hc rfl
    exact absurd (hw 0 hc) (by decide)
  · rintro w v hw c hc rfl
    obtain ⟨hn, -⟩ := (num_number hw).2
    exact absurd (numeral_bytes hn 0 hc) (by decide)

/-! ### Every JSON text is taken -/

/-- A byte order mark, or none. -/
def Bom (w : Bytes) : Prop := w = [] ∨ w = [0xEF, 0xBB, 0xBF]

theorem withoutBom_append {bom s : Bytes} {c : UInt8} (hbom : Bom bom) (hc : c < 0x80) :
    withoutBom (bom ++ c :: s) = c :: s := by
  unfold withoutBom
  rcases hbom with rfl | rfl
  · refine if_neg fun h => ?_
    obtain rfl := (List.cons_prefix_cons.mp h.1).1
    exact absurd hc (by decide)
  · exact if_pos ⟨List.prefix_append _ _, by simp⟩

/-- Every JSON text, with or without a byte order mark, gives the item it means. -/
theorem cJSON_Parse_text {bom a w b : Bytes} {item : CJson} (hbom : Bom bom) (ha : Ws a)
    (hw : Value rfc8259 nestingLimit w item) (hb : Ws b) :
    cJSON_Parse (bom ++ a ++ w ++ b) = some item := by
  have hv : Value cJSON nestingLimit w item := value_mono ws_blank str_literal num_number hw
  have hws {a : Bytes} (ha : Ws a) : ∀ c ∈ a, c ≠ 0 := by
    rintro c hc rfl
    exact absurd (ha 0 hc) (by decide)
  have hstr : cStr (bom ++ a ++ w ++ b) = bom ++ a ++ w ++ b := by
    have hbom0 : ∀ c ∈ bom, c ≠ 0 := by rcases hbom with rfl | rfl <;> simp
    refine List.takeWhile_eq_self_iff.mpr fun c hc => ?_
    simp only [List.mem_append] at hc
    have hne : c ≠ 0 := by
      rcases hc with ((hc | hc) | hc) | hc
      · exact hbom0 c hc
      · exact hws ha c hc
      · exact value_nonzero hw c hc
      · exact hws hb c hc
    simpa using hne
  rw [cJSON_Parse_eq_some_iff, hstr]
  refine ⟨a, w, b, ?_, ws_blank ha, hv, fun w' item' hw' ⟨t, ht⟩ => ?_⟩
  · obtain ⟨c, t, rfl, hc, -⟩ := value_opens hv
    rcases a with _ | ⟨d, a⟩
    · simpa using withoutBom_append (s := t ++ b) hbom hc.2
    · have hd : d < 0x80 := by rcases ha d List.mem_cons_self with rfl | rfl | rfl | rfl <;> decide
      simpa using withoutBom_append (s := a ++ (c :: t ++ b)) hbom hd
  · -- what follows the value is no part of a number
    have hrest : Rest (w ++ b ++ [0]) 0 (w ++ b) := rfl
    have hd : 0 + nestingLimit = nestingLimit := by omega
    have hdel : Delimited b := by
      rintro c s rfl
      rcases hb c List.mem_cons_self with rfl | rfl | rfl | rfl <;> decide
    have hok := (reads_value nestingLimit 0 hd).complete hrest hv hdel
    have hrest' : Rest (w ++ b ++ [0]) 0 (w' ++ t) := by
      rw [ht]
      exact hrest
    have hle := parseValue_longest hd hrest' hw' hok
    omega

/-- `[ "\n",-1]` after a byte order mark. -/
theorem cJSON_Parse_text_array : cJSON_Parse ([0xEF, 0xBB, 0xBF] ++ [0x0D, 0x0A] ++
    [0x5B, 0x20, 0x22, 0x5C, 0x6E, 0x22, 0x2C, 0x2D, 0x31, 0x5D] ++ [0x0A]) =
      some (.array [.string [0x0A], .number (valueint (toDouble (value true [0x31] [] 0)))]) := by
  have hstr : Str [0x22, 0x5C, 0x6E, 0x22] [0x0A] :=
    .mk (.cons (c := '\n') (.escape (by decide)) .nil)
  have hint : IntPart [0x31] := .pos rfl (by decide) (by simp)
  have hnum : Num ([0x2D] ++ [0x31] ++ [] ++ []) _ := .mk .minus hint .none .none (by decide)
  have hnone : Ws [] := by simp [Ws]
  have hspace : Ws [0x20] := by simp [Ws]
  have hlist : Separated Ws (Value rfc8259 999)
      ([0x20] ++ [0x22, 0x5C, 0x6E, 0x22] ++ [] ++ 0x2C :: ([] ++ ([0x2D] ++ [0x31] ++ [] ++ []) ++ []))
      [.string [0x0A], .number _] :=
    .cons hspace (value_scalar (.string hstr) _) hnone
      (.one hnone (value_scalar (.number hnum) _) hnone)
  have harray := Container.array (L := rfc8259) (.items hlist)
  exact cJSON_Parse_text (.inr rfl) (by simp [Ws]) (.inr harray) (by simp [Ws])

/-! ### Integers -/

theorem valueint_of_ge {x : ℚ} (h : 2147483647 ≤ x) : valueint x = Int32.maxValue := if_pos h

theorem valueint_of_le {x : ℚ} (h : x ≤ -2147483648) : valueint x = Int32.minValue := by
  unfold valueint
  rw [if_neg (by linarith), if_pos h]

theorem valueint_intCast {n : ℤ} (h : -2147483648 < n ∧ n < 2147483647) :
    (valueint (n : ℚ)).toInt = n := by
  have h1 : ((-2147483648 : ℤ) : ℚ) < n := Int.cast_lt.mpr h.1
  have h2 : (n : ℚ) < ((2147483647 : ℤ) : ℚ) := Int.cast_lt.mpr h.2
  push_cast at h1 h2
  unfold valueint
  rw [if_neg (not_le.mpr h2), if_neg (not_le.mpr h1), Rat.num_intCast, Rat.den_intCast, Nat.cast_one,
    Int.tdiv_one, Int32.toInt_ofInt, Int.bmod_eq_of_le] <;> unfold Int32.size <;> omega

/-- An integer is kept as it is, or as the end of `int` it is beyond; the `double` in between does not
matter. -/
theorem valueint_toDouble (n : ℤ) :
    (valueint (toDouble n)).toInt = max (-2147483648) (min 2147483647 n) := by
  by_cases hn : |n| < 2 ^ 53
  · rw [toDouble_intCast hn]
    rcases lt_or_ge n 2147483647 with h1 | h1
    · rcases lt_or_ge (-2147483648) n with h2 | h2
      · rw [valueint_intCast ⟨h2, h1⟩]
        omega
      · rw [valueint_of_le (by exact_mod_cast h2)]
        change (-2147483648 : ℤ) = _
        omega
    · rw [valueint_of_ge (by exact_mod_cast h1)]
      change (2147483647 : ℤ) = _
      omega
  · -- beyond 53 bits the error is too small to come back
    have hq : (2 : ℚ) ^ 53 ≤ |(n : ℚ)| := by
      rw [← Int.cast_abs]
      exact_mod_cast not_lt.mp hn
    obtain ⟨hlow, hhigh⟩ := abs_le.mp (abs_toDouble_sub_le (x := n) (by linarith))
    have hhalf : |(n : ℚ)| / 2 ^ 53 ≤ |(n : ℚ)| / 2 :=
      div_le_div_of_nonneg_left (abs_nonneg _) (by norm_num) (by norm_num)
    rcases le_total 0 n with h0 | h0
    · have h0' : (0 : ℚ) ≤ n := by exact_mod_cast h0
      rw [abs_of_nonneg h0'] at hq hlow hhigh hhalf
      have hbig : (2147483647 : ℤ) ≤ n := by
        rw [abs_of_nonneg h0] at hn
        omega
      rw [valueint_of_ge (by linarith)]
      change (2147483647 : ℤ) = _
      omega
    · have h0' : (n : ℚ) ≤ 0 := by exact_mod_cast h0
      rw [abs_of_nonpos h0'] at hq hlow hhigh hhalf
      have hbig : n ≤ -2147483648 := by
        rw [abs_of_nonpos h0] at hn
        omega
      rw [valueint_of_le (by linarith)]
      change (-2147483648 : ℤ) = _
      omega

/-- An integer in the text is read as itself, or as the end of `int` it is beyond. -/
theorem integer_text {bom a sg i b : Bytes} {neg : Bool} (hbom : Bom bom) (ha : Ws a)
    (hs : Minus sg neg) (hi : IntPart i) (hl : (sg ++ i).length ≤ 63) (hb : Ws b) :
    ∃ v, cJSON_Parse (bom ++ a ++ (sg ++ i) ++ b) = some (.number v) ∧
      v.toInt = max (-2147483648) (min 2147483647 (signed neg (ofDigits i))) := by
  have hn : Num (sg ++ i ++ [] ++ []) (valueint (toDouble (value neg i [] 0))) :=
    .mk hs hi .none .none (by simpa using hl)
  rw [List.append_nil, List.append_nil] at hn
  refine ⟨_, cJSON_Parse_text hbom ha (value_scalar (.number hn) _) hb, ?_⟩
  rw [← valueint_toDouble]
  unfold value
  simp

/-- Beyond `int`. -/
theorem integer_text_saturated : ∃ v, cJSON_Parse ([] ++ [0x20] ++ ([0x2D] ++ text "4294967296") ++ []) =
    some (.number v) ∧
      v.toInt = max (-2147483648) (min 2147483647 (signed true (ofDigits (text "4294967296")))) :=
  integer_text (.inl rfl) (by simp [Ws]) .minus (.pos rfl (by decide) (by decide +kernel)) (by decide +kernel)
    (by simp [Ws])

end DnsMultiZone.Json.Rfc8259
