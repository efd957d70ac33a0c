import DnsMultiZone.Json.Buffer
import DnsMultiZone.Json.Utf8
import DnsMultiZone.Lib.Results

/-! # String literals

`parse_string` passes over a literal twice: once for its end and for how much to allocate, once to write
what it stands for. The two passes see different escapes where `\u` swallows a backslash, so what is
allocated is bounded by `room`, which is counted afresh from every place the second pass can be at. -/

namespace DnsMultiZone.Json.Strings

open DnsMultiZone.Lib.BigEndian DnsMultiZone.Lib.Results
open DnsMultiZone.Config.LoadFile (cStr)
open DnsMultiZone.Json.Parser DnsMultiZone.Json.Grammar DnsMultiZone.Json.Buffer DnsMultiZone.Json.Utf8

variable {content : Bytes}

/-! ### The closing quote -/

/-- The bytes of a literal, an escape counted as one. -/
def room : Bytes → ℕ
  | [] => 0
  | c :: s =>
    if c = 0x5C then
      match s with
      | [] => 1
      | _ :: s => room s + 1
    else room s + 1

theorem room_escape (c : UInt8) (s : Bytes) : room (0x5C :: c :: s) = room s + 1 := rfl

theorem room_plain {c : UInt8} (hc : c ≠ 0x5C) (s : Bytes) : room (c :: s) = room s + 1 := by
  rw [room.eq_def]
  exact if_neg hc

theorem room_cons (c : UInt8) (s : Bytes) : room s ≤ room (c :: s) ∧ room (c :: s) ≤ room s + 1 := by
  by_cases hc : c = 0x5C
  · subst hc
    induction s using List.twoStepInduction with
    | nil => decide
    | singleton a =>
      rw [room_escape]
      by_cases ha : a = 0x5C
      · subst ha
        decide
      · simp [room]
    | cons_cons a b s ih ih' =>
      have hb : room s ≤ room (b :: s) ∧ room (b :: s) ≤ room s + 1 := by
        by_cases hb : b = 0x5C
        · exact hb ▸ ih
        · rw [room_plain hb]
          omega
      by_cases ha : a = 0x5C
      · subst ha
        rw [room_escape, room_escape]
        omega
      · rw [room_escape, room_plain ha]
        omega
  · rw [room_plain hc]
    omega

theorem room_append_le (w s : Bytes) : room s ≤ room (w ++ s) := by
  induction w with
  | nil => exact le_rfl
  | cons c w ih => exact ih.trans (room_cons c (w ++ s)).1

theorem room_append_plain {w : Bytes} (hw : ∀ c ∈ w, c ≠ 0x5C) (s : Bytes) :
    room (w ++ s) = w.length + room s := by
  induction w with
  | nil => simp
  | cons c w ih =>
    rw [List.cons_append, room_plain (hw c List.mem_cons_self),
      ih fun c hc => hw c (List.mem_cons_of_mem _ hc), List.length_cons]
    omega

theorem quoted_unique {a b s t : Bytes} (ha : Quoted a) (hb : Quoted b)
    (h : a ++ 0x22 :: s = b ++ 0x22 :: t) : a = b ∧ s = t := by
  induction ha generalizing b with
  | nil =>
    cases hb with
    | nil => exact ⟨rfl, (List.cons.inj h).2⟩
    | plain hq => exact absurd (List.cons.inj h).1.symm hq
    | escape => exact absurd (List.cons.inj h).1 (by decide)
  | plain hq hc _ ih =>
    cases hb with
    | nil => exact absurd (List.cons.inj h).1 hq
    | plain _ _ hb =>
      obtain ⟨h1, h2⟩ := List.cons.inj h
      obtain ⟨h3, h4⟩ := ih hb h2
      exact ⟨by rw [h1, h3], h4⟩
    | escape => exact absurd (List.cons.inj h).1 hc
  | escape _ ih =>
    cases hb with
    | nil => exact absurd (List.cons.inj h).1 (by decide)
    | plain _ hc => exact absurd (List.cons.inj h).1.symm hc
    | escape hb =>
      obtain ⟨-, h1⟩ := List.cons.inj h
      obtain ⟨h2, h3⟩ := List.cons.inj h1
      obtain ⟨h4, h5⟩ := ih hb h3
      exact ⟨by rw [h2, h4], h5⟩

/-- The first pass stops at the closing quote, and has counted the escapes before it. -/
theorem findEnd_some {s : Bytes} {i k inputEnd skippedBytes : ℕ}
    (h : findEnd s i k = some (inputEnd, skippedBytes)) :
    ∃ body r, s = body ++ 0x22 :: r ∧ Quoted body ∧ inputEnd = i + body.length ∧
      skippedBytes + room body = k + body.length := by
  fun_induction findEnd s i k with
  | case1 => cases h
  | case2 r i k =>
    cases h
    exact ⟨[], r, rfl, .nil, rfl, rfl⟩
  | case3 => cases h
  | case4 i k a s _ ih =>
    obtain ⟨body, r, rfl, hq, h1, h2⟩ := ih h
    refine ⟨0x5C :: a :: body, r, rfl, .escape hq, ?_, ?_⟩
    · rw [h1, List.length_cons, List.length_cons]
      omega
    · rw [room_escape, List.length_cons, List.length_cons]
      omega
  | case5 c s i k hq hb ih =>
    obtain ⟨body, r, rfl, hq', h1, h2⟩ := ih h
    refine ⟨c :: body, r, rfl, .plain hq hb hq', ?_, ?_⟩
    · rw [h1, List.length_cons]
      omega
    · rw [room_plain hb, List.length_cons]
      omega

theorem findEnd_append {body : Bytes} (hq : Quoted body) (r : Bytes) (i k : ℕ) :
    findEnd (body ++ 0x22 :: r) i k ≠ none := by
  induction hq generalizing i k with
  | nil =>
    rw [List.nil_append, findEnd.eq_def]
    simp
  | plain hq hb _ ih =>
    rw [List.cons_append, findEnd.eq_def]
    dsimp only
    rw [if_neg hq, if_neg hb]
    exact ih _ _
  | escape _ ih => exact ih _ _

/-! ### Hexadecimal digits and surrogates -/

theorem parseHex4Loop_eq {ds t : Bytes} {i : ℕ} (h : content.drop i = ds ++ t) (n : ℕ) :
    parseHex4Loop content ds.length i n = .ok (hexCode ds n) := by
  induction ds generalizing i n with
  | nil => rfl
  | cons c ds ih =>
    have hc : content[i]? = some c := by
      rw [← List.head?_drop, h]
      rfl
    have hr : content.drop (i + 1) = ds ++ t := by
      rw [← List.drop_drop, h]
      rfl
    have hbyte : byteAt content i = .ok c := by rw [byteAt, hc]
    rw [List.length_cons, parseHex4Loop, bind_of_ok hbyte, hexCode]
    rcases hexDigit c with _ | d
    · rfl
    · exact ih hr _

theorem parseHex4_eq {ds t : Bytes} {i : ℕ} (h : content.drop i = ds ++ t) (hl : ds.length = 4) :
    parseHex4 content i = .ok (hexCode ds 0) := by
  rw [parseHex4, ← hl, parseHex4Loop_eq h]

theorem hexCode_pos {s : Bytes} {n : ℕ} (h : hexCode s n ≠ 0) : ∀ c ∈ s, c ≠ 0x5C := by
  induction s generalizing n with
  | nil => simp
  | cons c s ih =>
    rw [hexCode] at h
    rcases hd : hexDigit c with _ | d
    · rw [hd] at h
      exact absurd rfl h
    · rw [hd] at h
      rintro a ha
      rcases List.mem_cons.mp ha with rfl | ha
      · rintro rfl
        rw [show hexDigit 0x5C = none by decide] at hd
        cases hd
      · exact ih h a ha

theorem utf16_length {w : Bytes} {c : Char} (h : Utf16 w c) : w.length = 6 ∨ w.length = 12 := by
  cases h with
  | single hl => exact .inl (by simp [hl])
  | pair hd he => exact .inr (by simp [hd, he])

private theorem hex4_unique {ds es s t : Bytes} (hd : ds.length = 4) (he : es.length = 4)
    (h : 0x5C :: 0x75 :: ds ++ s = 0x5C :: 0x75 :: es ++ t) : ds = es ∧ s = t :=
  List.append_inj (List.cons.inj (List.cons.inj h).2).2 (by rw [hd, he])

theorem utf16_unique {w w' s s' : Bytes} {c c' : Char} (h : Utf16 w c) (h' : Utf16 w' c')
    (hs : w ++ s = w' ++ s') : w = w' ∧ c = c' := by
  have hsur := not_surrogate
  cases h with
  | single hl hc =>
    cases h' with
    | single hl' hc' =>
      obtain ⟨rfl, -⟩ := hex4_unique hl hl' hs
      exact ⟨rfl, Char.toNat_inj.mp (by rw [hc, hc'])⟩
    | pair hd' he' hh hlow hc' =>
      rw [List.append_assoc] at hs
      obtain ⟨rfl, -⟩ := hex4_unique hl hd' hs
      have := hsur c
      omega
  | pair hd he hh hlow hc =>
    rw [List.append_assoc] at hs
    cases h' with
    | single hl' hc' =>
      obtain ⟨rfl, -⟩ := hex4_unique hd hl' hs
      have := hsur c'
      omega
    | pair hd' he' hh' hlow' hc' =>
      rw [List.append_assoc] at hs
      obtain ⟨rfl, h1⟩ := hex4_unique hd hd' hs
      obtain ⟨rfl, -⟩ := hex4_unique he he' h1
      exact ⟨rfl, Char.toNat_inj.mp (by rw [hc, hc'])⟩

theorem utf8_length (c : Char) : (String.utf8EncodeChar c).length ≤ 4 ∧
    (c.toNat < 0x10000 → (String.utf8EncodeChar c).length ≤ 3) ∧
    (c.toNat = 0 → (String.utf8EncodeChar c).length ≤ 1) := by
  have hn : c.val.toNat = c.toNat := rfl
  unfold String.utf8EncodeChar
  rw [hn]
  dsimp only
  split_ifs with h1 h2 h3 <;> simp only [List.length_cons, List.length_nil] <;> omega

/-- The bytes of the character have room where its escape stood. -/
theorem utf16_room {w : Bytes} {c : Char} (h : Utf16 w c) (s : Bytes) :
    (String.utf8EncodeChar c).length + room s ≤ room (w ++ s) := by
  obtain ⟨h4, h3, h1⟩ := utf8_length c
  have hplain {ds : Bytes} (hl : ds.length = 4) (hne : hexCode ds 0 ≠ 0) (t : Bytes) :
      room (0x5C :: 0x75 :: ds ++ t) = 5 + room t := by
    rw [List.cons_append, List.cons_append, room_escape, room_append_plain (hexCode_pos hne), hl]
    omega
  cases h with
  | @single ds _ hl hc =>
    by_cases h0 : hexCode ds 0 = 0
    · have hle := room_append_le ds s
      have hone := h1 (by rw [hc, h0])
      rw [List.cons_append, List.cons_append, room_escape]
      omega
    · have hlt := hexCode_lt ds 0
      rw [hl] at hlt
      have hthree := h3 (by omega)
      rw [hplain hl h0]
      omega
  | @pair ds es _ hd he hh hlow hc =>
    rw [List.append_assoc, hplain hd (by omega), hplain he (by omega)]
    omega

/-! ### UTF-16 escapes -/

theorem utf16_cases {ds s1 w s' : Bytes} {c : Char} (hd : ds.length = 4) (h : Utf16 w c)
    (hs : 0x5C :: 0x75 :: ds ++ s1 = w ++ s') :
    (w = 0x5C :: 0x75 :: ds ∧ c.toNat = hexCode ds 0) ∨
      ∃ es s2, s1 = 0x5C :: 0x75 :: es ++ s2 ∧ es.length = 4 ∧
        (0xD800 ≤ hexCode ds 0 ∧ hexCode ds 0 ≤ 0xDBFF) ∧
        (0xDC00 ≤ hexCode es 0 ∧ hexCode es 0 ≤ 0xDFFF) := by
  cases h with
  | single hl hc =>
    obtain ⟨rfl, -⟩ := hex4_unique hd hl hs
    exact .inl ⟨rfl, hc⟩
  | pair hd' he hh hlow hc =>
    rw [List.append_assoc] at hs
    obtain ⟨rfl, h1⟩ := hex4_unique hd hd' hs
    exact .inr ⟨_, _, h1, he, hh, hlow⟩

private theorem exists_split {s : Bytes} (h : 4 ≤ s.length) : ∃ ds t, s = ds ++ t ∧ ds.length = 4 :=
  ⟨s.take 4, s.drop 4, (List.take_append_drop 4 s).symm, by rw [List.length_take]; omega⟩

theorem utf16Literal_spec {s tl : Bytes} {p inputEnd : ℕ}
    (h : content.drop p = 0x5C :: 0x75 :: s ++ 0x22 :: tl) (hend : p + 2 + s.length = inputEnd) :
    (∃ w c s', 0x5C :: 0x75 :: s = w ++ s' ∧ Utf16 w c ∧
        utf16Literal content p inputEnd = .ok (c.toNat, w.length)) ∨
      (∀ w c s', 0x5C :: 0x75 :: s = w ++ s' → ¬ Utf16 w c) ∧
        utf16Literal content p inputEnd = .error .refused := by
  have hsur := not_surrogate
  unfold utf16Literal
  by_cases hlen : inputEnd < p + 6
  · rw [if_pos hlen]
    refine .inr ⟨fun w c s' hs hw => ?_, rfl⟩
    have h1 := congrArg List.length hs
    simp only [List.length_cons, List.length_append] at h1
    rcases utf16_length hw with h2 | h2 <;> omega
  rw [if_neg hlen]
  obtain ⟨ds, s1, rfl, hd⟩ := exists_split (s := s) (by omega)
  rw [List.length_append, hd] at hend
  have h2 : content.drop (p + 2) = ds ++ (s1 ++ 0x22 :: tl) := by
    rw [← List.drop_drop, h]
    simp
  rw [bind_of_ok (parseHex4_eq h2 hd)]
  have hlt := hexCode_lt ds 0
  rw [hd] at hlt
  by_cases hlow : 0xDC00 ≤ hexCode ds 0 ∧ hexCode ds 0 ≤ 0xDFFF
  · -- a low surrogate first
    rw [if_pos hlow]
    refine .inr ⟨fun w c s' hs hw => ?_, rfl⟩
    have := hsur c
    rcases utf16_cases hd hw hs with ⟨-, hc⟩ | ⟨es, s2, -, -, hh, -⟩ <;> omega
  rw [if_neg hlow]
  by_cases hhigh : 0xD800 ≤ hexCode ds 0 ∧ hexCode ds 0 ≤ 0xDBFF
  · rw [if_pos hhigh]
    -- only a pair is left
    have hpair {w s' : Bytes} {c : Char} (hs : 0x5C :: 0x75 :: (ds ++ s1) = w ++ s') (hw : Utf16 w c) :
        ∃ es s2, s1 = 0x5C :: 0x75 :: es ++ s2 ∧ es.length = 4 ∧
          (0xDC00 ≤ hexCode es 0 ∧ hexCode es 0 ≤ 0xDFFF) := by
      have := hsur c
      rcases utf16_cases hd hw hs with ⟨-, hc⟩ | ⟨es, s2, h3, h4, -, h5⟩
      · omega
      · exact ⟨es, s2, h3, h4, h5⟩
    by_cases hlen2 : inputEnd < p + 12
    · rw [if_pos hlen2]
      refine .inr ⟨fun w c s' hs hw => ?_, rfl⟩
      obtain ⟨es, s2, rfl, he, -⟩ := hpair hs hw
      simp only [List.length_cons, List.length_append] at hend
      omega
    rw [if_neg hlen2]
    obtain ⟨a, s1, rfl⟩ := List.exists_cons_of_length_pos (l := s1) (by omega)
    rw [List.length_cons] at hend
    obtain ⟨b, s1, rfl⟩ := List.exists_cons_of_length_pos (l := s1) (by omega)
    rw [List.length_cons] at hend
    obtain ⟨es, s2, rfl, he⟩ := exists_split (s := s1) (by omega)
    have h6 : content.drop (p + 6) = a :: b :: (es ++ (s2 ++ 0x22 :: tl)) := by
      rw [show p + 6 = p + 2 + 4 by rfl, ← List.drop_drop, h2, ← hd, List.drop_left]
      simp
    have h8 : content.drop (p + 8) = es ++ (s2 ++ 0x22 :: tl) := by
      rw [show p + 8 = p + 6 + 2 by rfl, ← List.drop_drop, h6]
      rfl
    have ha : byteAt content (p + 6) = .ok a := by rw [byteAt, ← List.head?_drop, h6]; rfl
    have hb : byteAt content (p + 7) = .ok b := by
      rw [byteAt, show p + 7 = p + 6 + 1 by rfl, ← List.head?_drop, ← List.drop_drop, h6]
      rfl
    rw [bind_of_ok ha]
    by_cases ha' : a = 0x5C
    swap
    · rw [if_pos ha']
      refine .inr ⟨fun w c s' hs hw => ?_, rfl⟩
      obtain ⟨es', s2', h7, -⟩ := hpair hs hw
      exact ha' (List.cons.inj h7).1
    subst ha'
    rw [if_neg (by simp), bind_of_ok hb]
    by_cases hb' : b = 0x75
    swap
    · rw [if_pos hb']
      refine .inr ⟨fun w c s' hs hw => ?_, rfl⟩
      obtain ⟨es', s2', h7, -⟩ := hpair hs hw
      exact hb' (List.cons.inj (List.cons.inj h7).2).1
    subst hb'
    rw [if_neg (by simp), bind_of_ok (parseHex4_eq h8 he)]
    by_cases hsec : hexCode es 0 < 0xDC00 ∨ hexCode es 0 > 0xDFFF
    · rw [if_pos hsec]
      refine .inr ⟨fun w c s' hs hw => ?_, rfl⟩
      obtain ⟨es', s2', h7, he', h9⟩ := hpair hs hw
      obtain ⟨rfl, -⟩ := hex4_unique he he' h7
      omega
    rw [if_neg hsec]
    have hes : 0xDC00 ≤ hexCode es 0 ∧ hexCode es 0 ≤ 0xDFFF := by omega
    obtain ⟨c, hc⟩ := exists_char (n := surrogatePair (hexCode ds 0) (hexCode es 0)) (by
      rw [surrogatePair_eq hhigh hes]
      omega)
    refine .inl ⟨_, c, s2, ?_, .pair hd he hhigh hes (by rw [hc, surrogatePair_eq hhigh hes]), ?_⟩
    · simp
    · rw [hc]
      simp [hd, he]
  · -- a code point of its own
    rw [if_neg hhigh]
    obtain ⟨c, hc⟩ := exists_char (n := hexCode ds 0) (by omega)
    refine .inl ⟨_, c, s1, rfl, .single hd hc, ?_⟩
    rw [hc]
    simp [hd]

theorem utf16LiteralToUtf8_spec {s tl : Bytes} {p inputEnd : ℕ}
    (h : content.drop p = 0x5C :: 0x75 :: s ++ 0x22 :: tl) (hend : p + 2 + s.length = inputEnd) :
    (∃ w c s', 0x5C :: 0x75 :: s = w ++ s' ∧ Utf16 w c ∧
        utf16LiteralToUtf8 content p inputEnd = .ok (String.utf8EncodeChar c, w.length)) ∨
      (∀ w c s', 0x5C :: 0x75 :: s = w ++ s' → ¬ Utf16 w c) ∧
        utf16LiteralToUtf8 content p inputEnd = .error .refused := by
  unfold utf16LiteralToUtf8
  rcases utf16Literal_spec h hend with ⟨w, c, s', hs, hw, hok⟩ | ⟨hno, herr⟩
  · refine .inl ⟨w, c, s', hs, hw, ?_⟩
    rw [bind_of_ok hok]
    dsimp only
    rw [encode_toNat]
  · exact .inr ⟨hno, by rw [herr]; rfl⟩

/-! ### The second pass -/

theorem utf16_cons {w : Bytes} {c : Char} (h : Utf16 w c) : ∃ t, w = 0x5C :: 0x75 :: t := by
  cases h with
  | single => exact ⟨_, rfl⟩
  | pair => exact ⟨_, rfl⟩

theorem unescaped_plain {c : UInt8} {s out : Bytes} (hc : c ≠ 0x5C) (h : Unescaped (c :: s) out) :
    ∃ out', out = c :: out' ∧ Unescaped s out' := by
  generalize hs : c :: s = t at h
  cases h with
  | nil => cases hs
  | plain _ h =>
    cases hs
    exact ⟨_, rfl, h⟩
  | escape => exact absurd (List.cons.inj hs).1 hc
  | utf16 hw =>
    obtain ⟨t, rfl⟩ := utf16_cons hw
    exact absurd (List.cons.inj hs).1 hc
  | closing => exact absurd (List.cons.inj hs).1 hc

theorem unescaped_escape {c : UInt8} {s out : Bytes} (hc : c ≠ 0x75)
    (h : Unescaped (0x5C :: c :: s) out) :
    ∃ d out', escaped c = some d ∧ out = d :: out' ∧ Unescaped s out' := by
  generalize hs : 0x5C :: c :: s = t at h
  cases h with
  | nil => cases hs
  | plain hne => exact absurd (List.cons.inj hs).1.symm hne
  | escape hd h =>
    cases hs
    exact ⟨_, _, hd, rfl, h⟩
  | utf16 hw =>
    obtain ⟨t, rfl⟩ := utf16_cons hw
    exact absurd (List.cons.inj (List.cons.inj hs).2).1 hc
  | closing => cases hs

theorem unescaped_utf16 {s out : Bytes} (h : Unescaped (0x5C :: 0x75 :: s) out) :
    ∃ w c s' out', 0x5C :: 0x75 :: s = w ++ s' ∧ Utf16 w c ∧ Unescaped s' out' ∧
      out = String.utf8EncodeChar c ++ out' := by
  generalize hs : 0x5C :: 0x75 :: s = t at h
  cases h with
  | nil => cases hs
  | plain hne => exact absurd (List.cons.inj hs).1.symm hne
  | escape hd =>
    cases hs
    rw [show escaped 0x75 = none by decide] at hd
    cases hd
  | utf16 hw h => exact ⟨_, _, _, _, rfl, hw, h, rfl⟩
  | closing => cases hs

theorem unescaped_backslash {out : Bytes} (h : Unescaped [0x5C] out) : out = [0x22] := by
  generalize hs : [(0x5C : UInt8)] = t at h
  cases h with
  | nil => cases hs
  | plain hne => exact absurd (List.cons.inj hs).1.symm hne
  | escape => cases hs
  | utf16 hw =>
    obtain ⟨t, rfl⟩ := utf16_cons hw
    cases hs
  | closing => rfl

/-- A literal stands for one string. -/
theorem unescaped_unique {s out out' : Bytes} (h : Unescaped s out) (h' : Unescaped s out') :
    out = out' := by
  induction h generalizing out' with
  | nil =>
    generalize hs : ([] : Bytes) = t at h'
    cases h' with
    | nil => rfl
    | plain => cases hs
    | escape => cases hs
    | utf16 hw =>
      obtain ⟨t, rfl⟩ := utf16_cons hw
      cases hs
    | closing => cases hs
  | plain hc _ ih =>
    obtain ⟨o, rfl, ho⟩ := unescaped_plain hc h'
    rw [ih ho]
  | @escape c d s o hc _ ih =>
    have hu : c ≠ 0x75 := by
      rintro rfl
      rw [show escaped 0x75 = none by decide] at hc
      cases hc
    obtain ⟨d', o', hd', rfl, ho⟩ := unescaped_escape hu h'
    rw [hc] at hd'
    cases hd'
    rw [ih ho]
  | utf16 hw _ ih =>
    obtain ⟨t, rfl⟩ := utf16_cons hw
    obtain ⟨w', c', s', o, hs, hw', ho, rfl⟩ := unescaped_utf16 h'
    obtain ⟨rfl, rfl⟩ := utf16_unique hw hw' hs
    rw [ih ((List.append_right_inj (0x5C :: 0x75 :: t)).mp hs ▸ ho)]
  | closing => rw [unescaped_backslash h']

theorem put_ok {allocated : ℕ} {output bytes : Bytes} (h : output.length + bytes.length ≤ allocated) :
    put allocated output bytes = .ok (output ++ bytes) := if_pos h

theorem unescape_end {allocated inputEnd p : ℕ} (h : inputEnd ≤ p) (n : ℕ) (output : Bytes) :
    unescape content allocated inputEnd n p output = .ok output := by
  rcases n with _ | n <;> exact if_pos h

/-- The second pass writes what the literal stands for, where there is room for it. -/
theorem unescape_spec {allocated inputEnd : ℕ} {tl : Bytes} (n : ℕ) {p : ℕ} {s : Bytes} (output : Bytes)
    (h : content.drop p = s ++ 0x22 :: tl) (hend : p + s.length = inputEnd) (hn : s.length ≤ n)
    (hroom : output.length + room s ≤ allocated) :
    (∃ out, Unescaped s out ∧ out.length ≤ room s ∧
        unescape content allocated inputEnd n p output = .ok (output ++ out)) ∨
      (∀ out, ¬ Unescaped s out) ∧
        unescape content allocated inputEnd n p output = .error .refused := by
  induction n generalizing p s output with
  | zero =>
    obtain rfl := List.length_eq_zero_iff.mp (Nat.le_zero.mp hn)
    exact .inl ⟨[], .nil, le_rfl, by rw [unescape_end (by simpa using hend.ge), List.append_nil]⟩
  | succ n ih =>
  rcases s with _ | ⟨c, s⟩
  · exact .inl ⟨[], .nil, le_rfl, by rw [unescape_end (by simpa using hend.ge), List.append_nil]⟩
  rw [List.length_cons] at hn hend
  have h1 : content.drop (p + 1) = s ++ 0x22 :: tl := by
    rw [← List.drop_drop, h]
    rfl
  have hc : byteAt content p = .ok c := by rw [byteAt, ← List.head?_drop, h]; rfl
  rw [unescape, if_neg (by omega), bind_of_ok hc]
  by_cases hb : c = 0x5C
  swap
  · -- a byte that stands for itself
    rw [room_plain hb] at hroom ⊢
    rw [if_pos hb, bind_of_ok (put_ok (by simpa using by omega))]
    rcases ih (output ++ [c]) h1 (by omega) (by omega) (by simpa using by omega) with
      ⟨out, hu, hlen, hok⟩ | ⟨hno, herr⟩
    · exact .inl ⟨c :: out, .plain hb hu, by simpa using hlen, by rw [hok]; simp⟩
    · refine .inr ⟨fun out hu => ?_, herr⟩
      obtain ⟨out', -, hu'⟩ := unescaped_plain hb hu
      exact hno out' hu'
  subst hb
  rw [if_neg (by simp)]
  rcases s with _ | ⟨e, s⟩
  · -- the byte after it is the closing quote
    have he : byteAt content (p + 1) = .ok 0x22 := by rw [byteAt, ← List.head?_drop, h1]; rfl
    have hroom' : output.length + 1 ≤ allocated := hroom
    rw [bind_of_ok he, if_neg (by decide), show escaped 0x22 = some 0x22 by decide]
    dsimp only
    rw [bind_of_ok (put_ok (by simpa using hroom')), unescape_end (by simp at hend; omega)]
    exact .inl ⟨[0x22], .closing, le_rfl, rfl⟩
  rw [List.length_cons] at hn hend
  have h2 : content.drop (p + 2) = s ++ 0x22 :: tl := by
    rw [show p + 2 = p + 1 + 1 by rfl, ← List.drop_drop, h1]
    rfl
  have he : byteAt content (p + 1) = .ok e := by rw [byteAt, ← List.head?_drop, h1]; rfl
  rw [bind_of_ok he]
  by_cases hu : e = 0x75
  · -- an escape of UTF-16
    subst hu
    have hend' : p + 2 + s.length = inputEnd := by omega
    rw [if_pos rfl]
    rcases utf16LiteralToUtf8_spec h hend' with ⟨w, c, s', hs, hw, hok⟩ | ⟨hno, herr⟩
    · rw [hs] at hroom h ⊢
      have hr := utf16_room hw s'
      have hl := congrArg List.length hs
      rw [List.length_cons, List.length_cons, List.length_append] at hl
      have h3 : content.drop (p + w.length) = s' ++ 0x22 :: tl := by
        rw [← List.drop_drop, h, List.append_assoc, List.drop_left]
      have hwl : 0 < w.length := by rcases utf16_length hw with h | h <;> omega
      have hput : output.length + (String.utf8EncodeChar c).length ≤ allocated := by omega
      rw [bind_of_ok hok]
      dsimp only
      rw [bind_of_ok (put_ok hput)]
      rcases ih (output ++ String.utf8EncodeChar c) h3 (by omega) (by omega)
          (by rw [List.length_append]; omega) with ⟨out, hu, hlen, hok'⟩ | ⟨hno, herr⟩
      · refine .inl ⟨String.utf8EncodeChar c ++ out, .utf16 hw hu, ?_, by rw [hok']; simp⟩
        rw [List.length_append]
        omega
      · refine .inr ⟨fun out hu => ?_, herr⟩
        rw [← hs] at hu
        obtain ⟨w', c', s'', out', hs', hw', hu', -⟩ := unescaped_utf16 hu
        rw [hs] at hs'
        obtain ⟨rfl, rfl⟩ := utf16_unique hw hw' hs'
        exact hno out' (List.append_cancel_left hs' ▸ hu')
    · refine .inr ⟨fun out hu => ?_, by rw [herr]; rfl⟩
      obtain ⟨w, c, s', -, hs, hw, -⟩ := unescaped_utf16 hu
      exact hno w c s' hs hw
  · -- an escape of one byte
    rw [room_escape] at hroom ⊢
    rw [if_neg hu]
    rcases hd : escaped e with _ | d
    · refine .inr ⟨fun out ho => ?_, rfl⟩
      obtain ⟨d, out', hd', -⟩ := unescaped_escape hu ho
      rw [hd] at hd'
      cases hd'
    · dsimp only
      rw [bind_of_ok (put_ok (by simpa using by omega))]
      rcases ih (output ++ [d]) h2 (by omega) (by omega) (by simpa using by omega) with
        ⟨out, hu', hlen, hok⟩ | ⟨hno, herr⟩
      · exact .inl ⟨d :: out, .escape hd hu', by simpa using hlen, by rw [hok]; simp⟩
      · refine .inr ⟨fun out ho => ?_, herr⟩
        obtain ⟨d', out', -, -, hu'⟩ := unescaped_escape hu ho
        exact hno out' hu'

/-! ### The literal -/

theorem literal_cons {w s : Bytes} (h : Literal w s) :
    ∃ body out, w = 0x22 :: (body ++ [0x22]) ∧ Quoted body ∧ Unescaped body out ∧ s = cStr out := by
  obtain ⟨hq, hu⟩ := h
  exact ⟨_, _, rfl, hq, hu, rfl⟩

theorem literal_unique {w w' s s' r r' : Bytes} (h : Literal w s) (h' : Literal w' s')
    (hr : w ++ r = w' ++ r') : w = w' ∧ s = s' := by
  obtain ⟨body, out, rfl, hq, hu, rfl⟩ := literal_cons h
  obtain ⟨body', out', rfl, hq', hu', rfl⟩ := literal_cons h'
  simp only [List.cons_append, List.append_assoc] at hr
  obtain ⟨rfl, -⟩ := quoted_unique hq hq' (List.cons.inj hr).2
  rw [unescaped_unique hu hu']
  exact ⟨rfl, rfl⟩

/-- `parse_string` takes a string literal, and never leaves what it allocated. -/
theorem parseString_spec {o d : ℕ} {r : Bytes} (h : Rest content o r) :
    (∃ w s r', r = w ++ r' ∧ Literal w s ∧
        parseString content ⟨o, d⟩ = .ok (s, ⟨o + w.length, d⟩)) ∨
      (∀ w s r', r = w ++ r' → ¬ Literal w s) ∧ parseString content ⟨o, d⟩ = .error .refused := by
  unfold parseString
  rcases r with _ | ⟨c, r⟩
  · rw [bind_of_ok h.byteAt_nil, if_pos (by decide)]
    refine .inr ⟨fun w s r' hr hl => ?_, rfl⟩
    obtain ⟨body, -, rfl, -⟩ := literal_cons hl
    cases hr
  rw [bind_of_ok h.byteAt_cons]
  by_cases hc : c = 0x22
  swap
  · rw [if_pos hc]
    refine .inr ⟨fun w s r' hr hl => ?_, rfl⟩
    obtain ⟨body, -, rfl, -⟩ := literal_cons hl
    exact hc (List.cons.inj hr).1
  subst hc
  rw [if_neg (by simp)]
  have h1 : content.drop (o + 1) = r ++ [0] := h.tail
  rw [h1]
  rcases hf : findEnd (r ++ [0]) (o + 1) 0 with _ | ⟨inputEnd, skippedBytes⟩
  · refine .inr ⟨fun w s r' hr hl => ?_, rfl⟩
    obtain ⟨body, -, rfl, hq, -⟩ := literal_cons hl
    have hr' : r = body ++ 0x22 :: r' := by simpa using (List.cons.inj hr).2
    apply findEnd_append hq (r' ++ [0]) (o + 1) 0
    rw [← hf, hr']
    simp
  obtain ⟨body, t, hr, hq, hend, hroom⟩ := findEnd_some hf
  -- the quote is not the zero byte at the end
  obtain ⟨r', rfl⟩ : ∃ r', r = body ++ 0x22 :: r' := by
    rcases List.eq_nil_or_concat t with rfl | ⟨t, a, rfl⟩
    · obtain ⟨-, h2⟩ := List.append_inj' hr rfl
      cases h2
    · rw [List.concat_eq_append, ← List.cons_append, ← List.append_assoc] at hr
      exact ⟨t, (List.append_inj' hr rfl).1⟩
  have h1' : content.drop (o + 1) = body ++ 0x22 :: (r' ++ [0]) := by
    rw [h1]
    simp
  dsimp only
  have hroom' : ([] : Bytes).length + room body ≤ inputEnd - o - skippedBytes + 1 := by
    rw [List.length_nil]
    omega
  rcases unescape_spec (inputEnd - (o + 1)) [] h1' hend.symm (by omega) hroom' with
    ⟨out, hu, hlen, hok⟩ | ⟨hno, herr⟩
  · refine .inl ⟨0x22 :: body ++ [0x22], cStr out, r', by simp, .mk hq hu, ?_⟩
    have hput : out.length + [(0 : UInt8)].length ≤ inputEnd - o - skippedBytes + 1 := by
      rw [List.length_singleton]
      omega
    rw [bind_of_ok hok, List.nil_append, bind_of_ok (put_ok hput)]
    have hstr : cStr (out ++ [0]) = cStr out := by
      unfold cStr
      rw [List.takeWhile_append]
      split_ifs with hl
      · rw [(List.takeWhile_prefix _).eq_of_length hl]
        simp
      · rfl
    rw [hstr, hend]
    simp [pure, Except.pure]
    omega
  · refine .inr ⟨fun w s r'' hr' hl => ?_, by rw [herr]; rfl⟩
    obtain ⟨body', out, rfl, hq', hu', -⟩ := literal_cons hl
    rw [List.cons_append, List.append_assoc] at hr'
    obtain ⟨rfl, -⟩ := quoted_unique hq hq' (List.cons.inj hr').2
    exact hno _ hu'

theorem parseString_append {o d : ℕ} {w s r : Bytes} (h : Rest content o (w ++ r))
    (hl : Literal w s) : parseString content ⟨o, d⟩ = .ok (s, ⟨o + w.length, d⟩) := by
  rcases parseString_spec (d := d) h with ⟨w', s', r', hr, hl', hok⟩ | ⟨hno, -⟩
  · obtain ⟨rfl, rfl⟩ := literal_unique hl hl' hr
    exact hok
  · exact absurd hl (hno w s r rfl)

end DnsMultiZone.Json.Strings
