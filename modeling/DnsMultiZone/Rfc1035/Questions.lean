import DnsMultiZone.Rfc1035.Accept

/-! # What a message asks

The questions of a message as they stand on the wire, apart from how the server reads them: as many as the
header counts, each a name of labels that ends in a zero byte or a pointer, with its type. The server reads
the type of a single question whose name has no pointer, and takes every other message for one of type 0.

* `nameOf_eq_some`: names are read off the bytes they are written as.
* `asks_dropAddress`: `DropAddress` keeps the ID and the questions.
* `uQType_of_question`, `uQType_of_not_plain`: the type `ParseRequestA` returns. -/

namespace DnsMultiZone.Rfc1035.Questions

open DnsMultiZone.Lib.BigEndian
open DnsMultiZone.Rfc1035.Reader DnsMultiZone.Rfc1035.Parse DnsMultiZone.Rfc1035.Drop
open DnsMultiZone.Rfc1035.Question DnsMultiZone.Rfc1035.Wire DnsMultiZone.Rfc1035.Accept

/-- A pointer of two bytes. -/
def pointerOf (c c' : UInt8) : NameEnd :=
  .ptr ((256 * c.toNat + c'.toNat) % 0x4000) (Nat.mod_lt _ (by decide))

theorem length_take_pos {n : ℕ} {s : Bytes} (h : 0 < n ∧ n < 64 ∧ n ≤ s.length) : 0 < (s.take n).length := by
  rw [List.length_take_of_le h.2.2]
  exact h.1

theorem length_take_lt {n : ℕ} {s : Bytes} (h : 0 < n ∧ n < 64 ∧ n ≤ s.length) : (s.take n).length < 64 := by
  rw [List.length_take_of_le h.2.2]
  exact h.2.1

theorem length_drop_lt (n : ℕ) (c : UInt8) (s : Bytes) : (s.drop n).length < (c :: s).length := by
  rw [List.length_drop, List.length_cons]
  omega

/-- The name some bytes start with, and the bytes after it. -/
def nameOf : Bytes → Option (WireName × Bytes)
  | [] => none
  | c :: s =>
    if c = 0 then some (⟨[], .root⟩, s)
    else if 0xC0 ≤ c.toNat then
      match s with
      | [] => none
      | c' :: s => some (⟨[], pointerOf c c'⟩, s)
    else if h : 0 < c.toNat ∧ c.toNat < 64 ∧ c.toNat ≤ s.length then
      (nameOf (s.drop c.toNat)).map fun r =>
        (⟨⟨s.take c.toNat, length_take_pos h, length_take_lt h⟩ :: r.1.labels, r.1.stop⟩, r.2)
    else none
termination_by s => s.length
decreasing_by exact length_drop_lt _ _ _

/-- A question: its name and type. -/
structure Question where
  name : WireName
  uQType : ℕ
  deriving DecidableEq

/-- The next `n` questions, as far as they are there. -/
def questionsOf : ℕ → Bytes → List Question
  | 0, _ => []
  | n + 1, s =>
    match nameOf s with
    | none => []
    | some (name, s) =>
      if s.length < 2 then [] else ⟨name, beNat (s.take 2)⟩ :: questionsOf n (s.drop 4)

/-- The questions the header counts. -/
def questions (d : Bytes) : List Question := questionsOf (u16At d 4) (d.drop 12)

/-- **What a message asks**: its ID, which is zero in less than two bytes, and its questions. -/
def asks (d : Bytes) : ℕ × List Question := ((parseRequestA d).2.uID, questions d)

/-- A message that does not count several questions, nor asks for a name that ends in a pointer. -/
def Plain (d : Bytes) : Prop := u16At d 4 = 1 ∧ ∀ q ∈ questions d, q.name.stop = .root

instance (d : Bytes) : Decidable (Plain d) := by unfold Plain; infer_instance

/-! ### Names -/

theorem nameOf_zero (s : Bytes) : nameOf (0 :: s) = some (⟨[], .root⟩, s) := by
  rw [nameOf.eq_def]
  rfl

theorem nameOf_ptr {t : ℕ} (lt : t < 0x4000) (s : Bytes) :
    nameOf ((NameEnd.ptr t lt).encode ++ s) = some (⟨[], .ptr t lt⟩, s) := by
  have hhi : (UInt8.ofNat ((0xC000 + t) / 256)).toNat = (0xC000 + t) / 256 := by
    rw [UInt8.toNat_ofNat']
    omega
  have hlo : (UInt8.ofNat (0xC000 + t)).toNat = (0xC000 + t) % 256 := UInt8.toNat_ofNat'
  show nameOf (UInt8.ofNat ((0xC000 + t) / 256) :: UInt8.ofNat (0xC000 + t) :: s) = _
  rw [nameOf.eq_def]
  dsimp only
  rw [if_neg, if_pos (by omega)]
  · have hp : (256 * ((0xC000 + t) / 256) + (0xC000 + t) % 256) % 0x4000 = t := by omega
    simp only [pointerOf, hhi, hlo, hp]
  · intro h
    have := congrArg UInt8.toNat h
    rw [hhi] at this
    have h0 : (0 : UInt8).toNat = 0 := rfl
    omega

theorem nameOf_label (l : Label) (s : Bytes) : nameOf (l.encode ++ s) =
    (nameOf s).map fun r => (⟨l :: r.1.labels, r.1.stop⟩, r.2) := by
  have hn := l.toNat_length
  have hpos := l.pos
  have hlt := l.lt
  show nameOf (UInt8.ofNat l.bytes.length :: (l.bytes ++ s)) = _
  have h0 : UInt8.ofNat l.bytes.length ≠ 0 := by
    intro h
    have := congrArg UInt8.toNat h
    rw [hn] at this
    exact absurd this (by rw [UInt8.toNat_zero]; omega)
  rw [nameOf.eq_def]
  dsimp only
  rw [if_neg h0, if_neg (by omega), dif_pos ⟨by omega, by omega, by rw [List.length_append]; omega⟩]
  simp only [hn, List.take_left, List.drop_left]

/-- **Names** are what they are written as. -/
theorem nameOf_eq_some {s r : Bytes} {n : WireName} : nameOf s = some (n, r) ↔ s = n.encode ++ r := by
  constructor
  · intro h
    fun_induction nameOf s generalizing n with
    | case1 => cases h
    | case2 s =>
      cases h
      rfl
    | case3 => cases h
    | case4 c h0 hc c' s =>
      cases h
      have hlt := c.toNat_lt
      have hlt' := c'.toNat_lt
      show c :: c' :: r = be16 (0xC000 + (256 * c.toNat + c'.toNat) % 0x4000) ++ r
      have he : 0xC000 + (256 * c.toNat + c'.toNat) % 0x4000 = beNat [c, c'] := by
        rw [beNat_cons, beNat_singleton, List.length_singleton]
        omega
      rw [he, be16_beNat rfl]
      rfl
    | case5 c s h0 hc hl ih =>
      obtain ⟨⟨n', r'⟩, hn, he⟩ := Option.map_eq_some_iff.mp h
      cases he
      have hs := ih hn
      rw [WireName.encode, List.append_assoc] at hs
      rw [WireName.encode, encodeLabels, Label.encode]
      simp only [List.length_take, min_eq_left hl.2.2, UInt8.ofNat_toNat, List.cons_append, List.append_assoc]
      rw [← hs, List.take_append_drop]
    | case6 => cases h
  · rintro rfl
    obtain ⟨ls, stop⟩ := n
    induction ls with
    | nil =>
      rcases stop with _ | ⟨t, lt⟩
      · exact nameOf_zero r
      · exact nameOf_ptr lt r
    | cons l ls ih =>
      have h : (WireName.mk (l :: ls) stop).encode ++ r = l.encode ++ ((WireName.mk ls stop).encode ++ r) := by
        simp [WireName.encode, encodeLabels]
      rw [h, nameOf_label, ih]
      rfl

theorem whole_of_nameOf {s r : Bytes} {n : WireName} (h : nameOf s = some (n, r)) : WholeLabels s :=
  nameOf_eq_some.mp h ▸ wholeLabels_encode n r

/-! ### One question -/

theorem mem_questions {d : Bytes} {q : Question} (h1 : u16At d 4 = 1) (h : q ∈ questions d) :
    ∃ r, d.drop 12 = q.name.encode ++ (be16 q.uQType ++ r) ∧ q.uQType < 65536 := by
  unfold questions at h
  rw [h1] at h
  unfold questionsOf at h
  rcases hn : nameOf (d.drop 12) with _ | ⟨n, s⟩ <;> simp only [hn] at h
  · cases h
  split_ifs at h with hl
  · cases h
  obtain rfl := List.mem_singleton.mp h
  have h2 : (s.take 2).length = 2 := by
    rw [List.length_take]
    omega
  have hlt := beNat_lt (s.take 2)
  rw [h2] at hlt
  refine ⟨s.drop 2, ?_, hlt⟩
  rw [nameOf_eq_some.mp hn]
  dsimp only
  rw [be16_beNat h2, List.take_append_drop]

theorem questions_of_asked {d s : Bytes} {ls : List Label} {t : ℕ} (h1 : u16At d 4 = 1) (ht : t < 65536)
    (h : Asked d ls t s) : questions d = [⟨⟨ls, .root⟩, t⟩] := by
  have hname : nameOf (d.drop 12) = some (⟨ls, .root⟩, be16 t ++ (be16 1 ++ s)) := by
    refine nameOf_eq_some.mpr ?_
    rw [asked_iff.mp h, WireName.encode, List.append_assoc]
    rfl
  unfold questions
  rw [h1]
  unfold questionsOf
  rw [hname]
  dsimp only
  rw [if_neg (by simp [be16])]
  have htake : (be16 t ++ (be16 1 ++ s)).take 2 = be16 t := rfl
  rw [htake, beNat_be16 ht]
  rfl

theorem questions_of_not_whole {d : Bytes} (h1 : u16At d 4 = 1) (h : ¬ WholeRequest d) : questions d = [] := by
  have hname : nameOf (d.drop 12) = none := Option.eq_none_iff_forall_ne_some.mpr
    fun x hx => h (whole_of_nameOf (r := x.2) (n := x.1) hx)
  unfold questions
  rw [h1]
  unfold questionsOf
  rw [hname]

/-- **The question that is read**: if it is of whole labels it is what the message asks, and if not the
message asks nothing. -/
theorem questions_of_parse {d : Bytes} {b : AutoBuffer} {o : Header}
    (h : parseRequestAAndAnswers (assign d) {} = (some b, o)) :
    (∃ ls, Asked d ls o.uQType b.rest ∧ questions d = [⟨⟨ls, .root⟩, o.uQType⟩]) ∨
      (¬ WholeRequest d ∧ questions d = []) := by
  obtain ⟨-, b₁, s, h1, -, ht⟩ := reads_of_parse h
  by_cases hw : WholeRequest d
  · obtain ⟨ls, hls, -⟩ := (question_of_parse h hw).1.asked
    obtain ⟨uType, b₂, h₂, -, rfl⟩ := reads_of_parseTypeClass ht
    exact Or.inl ⟨ls, hls, questions_of_asked h1 (rest_of_readUINT16 h₂).2 hls⟩
  · exact Or.inr ⟨hw, questions_of_not_whole h1 hw⟩

/-! ### Rewritten messages -/

theorem asked_iff_take {d : Bytes} {p t : ℕ} {ls : List Label} (h12 : 12 ≤ p) (hp : p ≤ d.length) :
    Asked d ls t (d.drop p) ↔ (d.take p).drop 12 = encodeLabels ls ++ [0] ++ be16 t ++ be16 1 := by
  have hd : d.drop 12 = (d.take p).drop 12 ++ d.drop p := by
    rw [← List.drop_append_of_le_length (by rw [List.length_take]; omega), List.take_append_drop]
  unfold Asked
  rw [hd]
  exact List.append_left_inj _

/-- A rewritten message asks the same. -/
theorem questions_rewritten {d out : Bytes} {b : AutoBuffer} {o : Header} (h : Rewritten d out b o) :
    questions out = questions d := by
  obtain ⟨c, hc, hco⟩ := parse_stable h.parses h.header h.question h.le h.length_le
  obtain ⟨h12, hle⟩ := szOffset_of_parse h.parses
  have hasked : ∀ ls, Asked out ls o.uQType c.rest ↔ Asked d ls o.uQType b.rest := by
    intro ls
    have hb : b.rest = d.drop b.szOffset := by rw [AutoBuffer.rest, (reader_of_parse h.parses).2]
    have hcr : c.rest = out.drop b.szOffset := by rw [AutoBuffer.rest, (reader_of_parse hc).2, hco]
    rw [hb, hcr, asked_iff_take h12 h.le, asked_iff_take h12 hle, h.question_eq]
  have hwhole : ∀ {x ls s}, Asked x ls o.uQType s → WholeRequest x := by
    intro x ls s hx
    unfold WholeRequest
    rw [asked_iff.mp hx, ← List.append_assoc]
    exact wholeLabels_encode ⟨ls, .root⟩ _
  rcases questions_of_parse h.parses with ⟨ls, hls, hq⟩ | ⟨hw, hq⟩ <;>
    rcases questions_of_parse hc with ⟨ls', hls', hq'⟩ | ⟨hw', hq'⟩
  · rw [hq, ← questions_of_asked (header_of_parse hc).2 ?_ ((hasked ls).mpr hls)]
    obtain ⟨r, -, hlt⟩ := mem_questions (header_of_parse h.parses).2 (hq ▸ List.mem_singleton_self _)
    exact hlt
  · exact absurd (hwhole ((hasked ls).mpr hls)) hw'
  · exact absurd (hwhole ((hasked ls').mp hls')) hw
  · rw [hq, hq']

/-- **`DropAddress` keeps the ID and the questions.** -/
theorem asks_dropAddress {d out : Bytes} {q : ℕ} {v4 v6 : Bool}
    (h : dropAddress d q v4 v6 = .ok (true, out)) : asks out = asks d := by
  rcases rewritten_of_dropAddress h with rfl | ⟨b, o, hr⟩
  · rfl
  · obtain ⟨c, hc, -⟩ := parse_stable hr.parses hr.header hr.question hr.le hr.length_le
    have hid : (parseRequestA out).2.uID = (parseRequestA d).2.uID := by
      unfold parseRequestA
      rw [hc, hr.parses]
    unfold asks
    rw [hid, questions_rewritten hr]

/-! ### The type that is returned -/

theorem uQType_of_count {d : Bytes} (h : u16At d 4 ≠ 1) : (parseRequestA d).2.uQType = 0 := by
  unfold parseRequestA parseRequestAAndAnswers parseCounts assign
  simp only [readUINT16_mk]
  by_cases h2 : 0 + 2 ≤ d.length
  · by_cases h4 : 0 + 2 + 2 ≤ d.length
    · by_cases h6 : 0 + 2 + 2 + 2 ≤ d.length
      · have hq : u16At d (0 + 2 + 2) ≠ 1 := h
        simp only [dif_pos h2, dif_pos h4, dif_pos h6, readUINT16_mk, if_pos hq]
      · simp only [dif_pos h2, dif_pos h4, dif_neg h6, readUINT16_mk]
    · simp only [dif_pos h2, dif_neg h4, readUINT16_mk]
  · simp only [dif_neg h2]

theorem getBufferNameLoop_ptr {ls : List Label} {t : ℕ} {lt : t < 0x4000} {b : AutoBuffer} {r : Bytes}
    (h : b.rest = encodeLabels ls ++ ((NameEnd.ptr t lt).encode ++ r)) (sName part : Bytes) :
    (getBufferNameLoop b sName part).1 = none := by
  induction ls generalizing b sName part with
  | nil =>
    obtain ⟨b', hb, -, -⟩ := readUINT8_cons (r := UInt8.ofNat (0xC000 + t) :: r) h
    have hptr : (UInt8.ofNat ((0xC000 + t) / 256)).toNat &&& 0xC0 = 0xC0 :=
      congrArg UInt8.toNat (ptr_byte lt)
    rw [getBufferNameLoop_eq]
    simp only [hb, if_pos hptr]
  | cons l ls ih =>
    rw [encodeLabels, List.append_assoc] at h
    obtain ⟨b₁, b₂, hb₁, hb₂, hr₂, -⟩ := Label.read h
    rw [getBufferNameLoop_eq]
    simp only [hb₁, if_neg l.not_ptr, if_neg l.length_ne_zero, hb₂]
    exact ih hr₂ _ _

/-- **The type of a single question** is read if its name has no pointer, and stays zero if it has one. -/
theorem uQType_of_question {d : Bytes} {q : Question} (h1 : u16At d 4 = 1) (hq : q ∈ questions d) :
    (parseRequestA d).2.uQType = if q.name.stop = .root then q.uQType else 0 := by
  obtain ⟨r, hd, hlt⟩ := mem_questions h1 hq
  have h12 : 12 ≤ d.length := by
    by_contra hn
    rw [List.drop_eq_nil_of_le (by omega)] at hd
    have hl := congrArg List.length hd
    simp only [List.length_nil, List.length_append, length_be16] at hl
    omega
  obtain ⟨⟨ls, stop⟩, t⟩ := q
  have hrest : (AutoBuffer.mk d 12 h12).rest = encodeLabels ls ++ (stop.encode ++ (be16 t ++ r)) := by
    show d.drop 12 = _
    rw [hd, WireName.encode, List.append_assoc]
  unfold parseRequestA
  rw [parse_eq h12 h1]
  unfold parseQuestion getBufferName
  rcases stop with _ | ⟨o, lt⟩
  · obtain ⟨b', hn, hr', -⟩ := getBufferNameLoop_encode hrest [] []
    obtain ⟨b'', ht, -⟩ := AutoBuffer.readNumber_of_rest hr'
    rw [beNat_be16 hlt] at ht
    have ht : b'.readUINT16 = some (t, b'') := ht
    have htype : ∀ o, (parseTypeClass b' o).2.uQType = t := by
      intro o
      unfold parseTypeClass
      rcases hc : b''.readUINT16 with _ | ⟨c, b₃⟩ <;> simp only [ht, hc]
    rw [hn, if_pos rfl]
    exact htype _
  · have hn := getBufferNameLoop_ptr hrest [] []
    rw [if_neg (by simp)]
    rcases hl : getBufferNameLoop ⟨d, 12, h12⟩ [] [] with ⟨_ | b', s⟩
    · rfl
    · rw [hl] at hn
      cases hn

theorem uQType_of_plain {d : Bytes} {q : Question} (h : Plain d) (hq : q ∈ questions d) :
    (parseRequestA d).2.uQType = q.uQType := by
  rw [uQType_of_question h.1 hq, if_pos (h.2 q hq)]

/-- In every other message that asks something it is zero. -/
theorem uQType_of_not_plain {d : Bytes} (h : ¬ Plain d) : (parseRequestA d).2.uQType = 0 := by
  by_cases h1 : u16At d 4 = 1
  · have hex : ∃ q ∈ questions d, q.name.stop ≠ .root := by
      by_contra hn
      exact h ⟨h1, fun q hq => by_contra fun hs => hn ⟨q, hq, hs⟩⟩
    obtain ⟨q, hq, hs⟩ := hex
    rw [uQType_of_question h1 hq, if_neg hs]
  · exact uQType_of_count h1

end DnsMultiZone.Rfc1035.Questions
