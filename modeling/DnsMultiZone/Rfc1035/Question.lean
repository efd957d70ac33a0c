import DnsMultiZone.Rfc1035.Append

/-! # Header and question under rewriting

What `ParseRequestAAndAnswers` reads of a message depends only on the bytes up to the end of the
question, as long as the rest does not get longer: a label that reaches past the end of the message is
not consumed, so the length matters too. `DropAddress` keeps those bytes, the counts apart, and never
makes a message longer, so it keeps what the server reads (`rewritten_of_dropAddress`).

* `parse_eq`: the header at its fixed offsets, then the question.
* `parse_stable`: two messages that agree up to the end of the question are read alike. -/

namespace DnsMultiZone.Rfc1035.Question

open DnsMultiZone.Lib.BigEndian DnsMultiZone.Lib.Results
open DnsMultiZone.Rfc1035.Reader DnsMultiZone.Rfc1035.Parse DnsMultiZone.Rfc1035.Drop
open DnsMultiZone.Rfc1035.Append

/-- The 16-bit number at offset `i`. -/
def u16At (d : Bytes) (i : ℕ) : ℕ := beNat ((d.drop i).take 2)

/-! ### The header -/

theorem readUINT16_mk {d : Bytes} {i : ℕ} (hi : i ≤ d.length) :
    (AutoBuffer.mk d i hi).readUINT16 =
      if h : i + 2 ≤ d.length then some (u16At d i, ⟨d, i + 2, h⟩) else none := by
  unfold AutoBuffer.readUINT16 AutoBuffer.readNumber AutoBuffer.readBuffer
  by_cases h : i + 2 ≤ d.length
  · rw [dif_pos h, dif_neg (by simp only; omega)]
    rfl
  · rw [dif_neg h, dif_pos (by simp only; omega)]
    rfl

/-- The question, read at an offset. -/
def parseQuestion (b : AutoBuffer) (o : Header) : Option AutoBuffer × Header :=
  match getBufferName b with
  | (none, sName) => (none, { o with sName })
  | (some b, sName) => parseTypeClass b { o with sName }

/-- **The header and question** of a message that is read: the fields at their offsets, then the name. -/
theorem parse_eq {d : Bytes} (h : 12 ≤ d.length) (hq : u16At d 4 = 1) :
    parseRequestAAndAnswers (assign d) {} =
      parseQuestion ⟨d, 12, h⟩ { uID := u16At d 0, uFlag := u16At d 2, uAnswers := u16At d 6 } := by
  unfold parseRequestAAndAnswers parseCounts assign
  simp only [readUINT16_mk, show 0 + 2 ≤ d.length by omega, show 0 + 2 + 2 ≤ d.length by omega,
    show 0 + 2 + 2 + 2 ≤ d.length by omega, show 0 + 2 + 2 + 2 + 2 ≤ d.length by omega,
    show 0 + 2 + 2 + 2 + 2 + 2 ≤ d.length by omega,
    show 0 + 2 + 2 + 2 + 2 + 2 + 2 ≤ d.length by omega, dif_pos]
  rw [if_neg (by simpa using hq)]
  rfl

theorem header_of_parse {d : Bytes} {b : AutoBuffer} {o : Header}
    (h : parseRequestAAndAnswers (assign d) {} = (some b, o)) : 12 ≤ d.length ∧ u16At d 4 = 1 := by
  unfold parseRequestAAndAnswers parseCounts assign at h
  simp only [readUINT16_mk] at h
  by_cases h2 : 0 + 2 ≤ d.length
  · simp only [dif_pos h2, readUINT16_mk] at h
    by_cases h4 : 0 + 2 + 2 ≤ d.length
    · simp only [dif_pos h4, readUINT16_mk] at h
      by_cases h6 : 0 + 2 + 2 + 2 ≤ d.length
      · simp only [dif_pos h6] at h
        by_cases hq : u16At d 4 = 1
        · refine ⟨?_, hq⟩
          have hq' : ¬ u16At d (0 + 2 + 2) ≠ 1 := by simpa using hq
          simp only [if_neg hq', readUINT16_mk] at h
          by_contra h12
          by_cases h8 : 0 + 2 + 2 + 2 + 2 ≤ d.length
          · simp only [dif_pos h8, readUINT16_mk] at h
            by_cases h10 : 0 + 2 + 2 + 2 + 2 + 2 ≤ d.length
            · simp only [dif_pos h10, readUINT16_mk] at h
              rw [dif_neg (by omega)] at h
              cases h
            · simp only [dif_neg h10] at h
              cases h
          · simp only [dif_neg h8] at h
            cases h
        · have hq' : u16At d (0 + 2 + 2) ≠ 1 := by simpa using hq
          simp only [if_pos hq'] at h
          cases h
      · simp only [dif_neg h6] at h
        cases h
    · simp only [dif_neg h4] at h
      cases h
  · simp only [dif_neg h2] at h
    cases h

/-! ### Two messages that agree -/

/-- Two readers at one offset, whose buffers agree up to `p`; the second is at most as long. -/
structure Agree (p : ℕ) (b c : AutoBuffer) : Prop where
  szOffset : c.szOffset = b.szOffset
  bytes : ∀ i, b.szOffset ≤ i → i < p → c.sBuffer[i]? = b.sBuffer[i]?
  le : p ≤ c.sBuffer.length
  length_le : c.sBuffer.length ≤ b.sBuffer.length

theorem Agree.readBuffer_some {p n : ℕ} {b c b' : AutoBuffer} {x : Bytes} (h : Agree p b c)
    (hb : b.readBuffer n = some (x, b')) (hp : b'.szOffset ≤ p) :
    ∃ c', c.readBuffer n = some (x, c') ∧ Agree p b' c' := by
  obtain ⟨hx, hr, hs, ho⟩ := AutoBuffer.readBuffer_some hb
  have hle := h.le
  have hoff := h.szOffset
  have hxb : (b.sBuffer.drop b.szOffset).take n = x := by
    have hr' : b.sBuffer.drop b.szOffset = x ++ b'.rest := hr
    rw [hr', ← hx, List.take_left]
  have hxc : (c.sBuffer.drop c.szOffset).take n = x := by
    rw [← hxb]
    refine List.ext_getElem? fun i => ?_
    by_cases hi : i < n
    · rw [List.getElem?_take_of_lt hi, List.getElem?_take_of_lt hi, List.getElem?_drop,
        List.getElem?_drop, hoff]
      exact h.bytes _ (by omega) (by omega)
    · rw [List.getElem?_eq_none (by simp; omega), List.getElem?_eq_none (by simp; omega)]
  refine ⟨⟨c.sBuffer, c.szOffset + n, by omega⟩, ?_, ?_, ?_, ?_, ?_⟩
  · unfold AutoBuffer.readBuffer
    rw [dif_neg (by omega), hxc]
  · show c.szOffset + n = b'.szOffset
    omega
  · intro i hi hip
    rw [hs]
    exact h.bytes i (by omega) hip
  · exact hle
  · rw [hs]
    exact h.length_le

theorem Agree.readBuffer_none {p n : ℕ} {b c : AutoBuffer} (h : Agree p b c)
    (hb : b.readBuffer n = none) : c.readBuffer n = none := by
  have hn := AutoBuffer.readBuffer_none hb
  have hl := h.length_le
  have ho := h.szOffset
  unfold AutoBuffer.unread at hn
  unfold AutoBuffer.readBuffer
  rw [dif_pos (by omega)]

theorem Agree.readNumber_some {p n v : ℕ} {b c b' : AutoBuffer} (h : Agree p b c)
    (hb : b.readNumber n = some (v, b')) (hp : b'.szOffset ≤ p) :
    ∃ c', c.readNumber n = some (v, c') ∧ Agree p b' c' := by
  obtain ⟨x, hx, rfl⟩ := AutoBuffer.readNumber_some hb
  obtain ⟨c', hc, ha⟩ := h.readBuffer_some hx hp
  exact ⟨c', by simp [AutoBuffer.readNumber, hc], ha⟩

theorem szOffset_readNumber {n v : ℕ} {b b' : AutoBuffer} (h : b.readNumber n = some (v, b')) :
    b'.szOffset = b.szOffset + n ∧ b'.sBuffer = b.sBuffer := by
  obtain ⟨x, hx, -⟩ := AutoBuffer.readNumber_some h
  obtain ⟨-, -, hs, ho⟩ := AutoBuffer.readBuffer_some hx
  exact ⟨ho, hs⟩

theorem getBufferNameLoop_some {b b' : AutoBuffer} {s part s' : Bytes}
    (h : getBufferNameLoop b s part = (some b', s')) :
    b.szOffset ≤ b'.szOffset ∧ b'.sBuffer = b.sBuffer := by
  fun_induction getBufferNameLoop b s part with
  | case1 => cases h
  | case2 => cases h
  | case3 b s part b₁ h₁ _ =>
    cases h
    obtain ⟨ho, hs⟩ := szOffset_readNumber h₁
    exact ⟨by omega, hs⟩
  | case4 b s part v b₁ h₁ _ _ x b₂ h₂ ih =>
    obtain ⟨ho₁, hs₁⟩ := szOffset_readNumber h₁
    obtain ⟨-, -, hs₂, ho₂⟩ := AutoBuffer.readBuffer_some h₂
    obtain ⟨ho, hs⟩ := ih h
    exact ⟨by omega, by rw [hs, hs₂, hs₁]⟩
  | case5 b s part v b₁ h₁ _ _ h₂ ih =>
    obtain ⟨ho₁, hs₁⟩ := szOffset_readNumber h₁
    obtain ⟨ho, hs⟩ := ih h
    exact ⟨by omega, by rw [hs, hs₁]⟩

theorem reads_of_parseTypeClass {b b' : AutoBuffer} {o o' : Header}
    (h : parseTypeClass b o = (some b', o')) :
    ∃ uType b₁, b.readUINT16 = some (uType, b₁) ∧ b₁.readUINT16 = some (1, b') ∧
      o' = { o with uQType := uType } := by
  unfold parseTypeClass at h
  rcases h₁ : b.readUINT16 with _ | ⟨uType, b₁⟩ <;> simp only [h₁] at h
  · cases h
  rcases h₂ : b₁.readUINT16 with _ | ⟨uClass, b₂⟩ <;> simp only [h₂] at h
  · cases h
  obtain ⟨hb, rfl⟩ := Prod.mk.inj h
  split_ifs at hb with hc
  cases hb
  subst hc
  exact ⟨uType, b₁, rfl, h₂, rfl⟩

theorem parseTypeClass_some {b b' : AutoBuffer} {o o' : Header}
    (h : parseTypeClass b o = (some b', o')) :
    b.szOffset + 4 = b'.szOffset ∧ b'.sBuffer = b.sBuffer := by
  obtain ⟨uType, b₁, h₁, h₂, -⟩ := reads_of_parseTypeClass h
  obtain ⟨ho₁, hs₁⟩ := szOffset_readNumber h₁
  obtain ⟨ho₂, hs₂⟩ := szOffset_readNumber h₂
  exact ⟨by omega, by rw [hs₂, hs₁]⟩

/-- A message that is read: its header at fixed offsets, then the name, the type and the class. -/
theorem reads_of_parse {d : Bytes} {b : AutoBuffer} {o : Header}
    (h : parseRequestAAndAnswers (assign d) {} = (some b, o)) :
    ∃ (h12 : 12 ≤ d.length) (b₁ : AutoBuffer) (s : Bytes), u16At d 4 = 1 ∧
      getBufferNameLoop ⟨d, 12, h12⟩ [] [] = (some b₁, s) ∧
      parseTypeClass b₁ ⟨u16At d 0, u16At d 2, u16At d 6, s.take (s.length - 1), 0⟩ = (some b, o) := by
  obtain ⟨h12, hq⟩ := header_of_parse h
  rw [parse_eq h12 hq] at h
  unfold parseQuestion getBufferName at h
  rcases hn : getBufferNameLoop ⟨d, 12, h12⟩ [] [] with ⟨_ | b₁, s⟩ <;> simp only [hn] at h
  · cases h
  exact ⟨h12, b₁, s, hq, hn, h⟩

theorem reader_of_parse {d : Bytes} {b : AutoBuffer} {o : Header}
    (h : parseRequestAAndAnswers (assign d) {} = (some b, o)) :
    12 ≤ b.szOffset ∧ b.sBuffer = d := by
  obtain ⟨h12, b₁, s, -, hn, h⟩ := reads_of_parse h
  obtain ⟨ho₁, hs₁⟩ := getBufferNameLoop_some hn
  obtain ⟨ho₂, hs₂⟩ := parseTypeClass_some h
  exact ⟨by dsimp only at ho₁; omega, by rw [hs₂, hs₁]⟩

theorem szOffset_of_parse {d : Bytes} {b : AutoBuffer} {o : Header}
    (h : parseRequestAAndAnswers (assign d) {} = (some b, o)) :
    12 ≤ b.szOffset ∧ b.szOffset ≤ d.length := by
  obtain ⟨h12, hs⟩ := reader_of_parse h
  exact ⟨h12, hs ▸ b.offset_le⟩

theorem uAnswers_of_parse {d : Bytes} {b : AutoBuffer} {o : Header}
    (h : parseRequestAAndAnswers (assign d) {} = (some b, o)) : o.uAnswers = u16At d 6 := by
  obtain ⟨-, b₁, s, -, -, h⟩ := reads_of_parse h
  obtain ⟨uType, b₂, -, -, rfl⟩ := reads_of_parseTypeClass h
  rfl

theorem readRecord_some {b b' : AutoBuffer} {t : ℕ} {x : Bytes} (h : readRecord b = some (t, x, b')) :
    ∃ b₁ b₂ b₃ b₄ b₅ ttl, skipBufferName b = some b₁ ∧ b₁.readUINT16 = some (t, b₂) ∧
      b₂.readUINT16 = some (1, b₃) ∧ b₃.readUINT32 = some (ttl, b₄) ∧
      b₄.readUINT16 = some (x.length, b₅) ∧ b₅.readBuffer x.length = some (x, b') := by
  unfold readRecord at h
  obtain ⟨b₁, h₁, h⟩ := Option.bind_eq_some_iff.mp h
  obtain ⟨⟨uType, b₂⟩, h₂, h⟩ := Option.bind_eq_some_iff.mp h
  obtain ⟨⟨uClass, b₃⟩, h₃, h⟩ := Option.bind_eq_some_iff.mp h
  dsimp only at h
  split_ifs at h with hc
  · cases h
  rw [not_ne_iff] at hc
  subst hc
  obtain ⟨⟨ttl, b₄⟩, h₄, h⟩ := Option.bind_eq_some_iff.mp h
  obtain ⟨⟨len, b₅⟩, h₅, h⟩ := Option.bind_eq_some_iff.mp h
  obtain ⟨⟨sData, b₆⟩, h₆, h⟩ := Option.bind_eq_some_iff.mp h
  cases h
  obtain ⟨rfl, -⟩ := AutoBuffer.readBuffer_some h₆
  exact ⟨b₁, b₂, b₃, b₄, b₅, ttl, h₁, h₂, h₃, h₄, h₅, h₆⟩

/-- A name is read alike from two buffers that agree up to its end. -/
theorem Agree.name {p : ℕ} {b c b' : AutoBuffer} {s part s' : Bytes} (ha : Agree p b c)
    (h : getBufferNameLoop b s part = (some b', s')) (hp : b'.szOffset ≤ p) :
    ∃ c', getBufferNameLoop c s part = (some c', s') ∧ Agree p b' c' := by
  fun_induction getBufferNameLoop b s part generalizing c with
  | case1 => cases h
  | case2 => cases h
  | case3 b s part b₁ h₁ hv =>
    cases h
    obtain ⟨c₁, hc₁, ha₁⟩ := ha.readNumber_some h₁ hp
    refine ⟨c₁, ?_, ha₁⟩
    have hc₁ : c.readUINT8 = some (0, c₁) := hc₁
    rw [getBufferNameLoop_eq]
    simp only [hc₁, if_neg hv, if_true]
  | case4 b s part v b₁ h₁ hv h0 x b₂ h₂ ih =>
    have h2p : b₂.szOffset ≤ p := (getBufferNameLoop_some h).1.trans hp
    have h3 := (AutoBuffer.readBuffer_some h₂).2.2.2
    obtain ⟨c₁, hc₁, ha₁⟩ := ha.readNumber_some h₁ (by omega)
    obtain ⟨c₂, hc₂, ha₂⟩ := ha₁.readBuffer_some h₂ h2p
    obtain ⟨c', hc', ha'⟩ := ih ha₂ h
    refine ⟨c', ?_, ha'⟩
    have hc₁ : c.readUINT8 = some (v, c₁) := hc₁
    rw [getBufferNameLoop_eq]
    simp only [hc₁, if_neg hv, if_neg h0, hc₂]
    exact hc'
  | case5 b s part v b₁ h₁ hv h0 h₂ ih =>
    have h1p : b₁.szOffset ≤ p := (getBufferNameLoop_some h).1.trans hp
    obtain ⟨c₁, hc₁, ha₁⟩ := ha.readNumber_some h₁ h1p
    obtain ⟨c', hc', ha'⟩ := ih ha₁ h
    refine ⟨c', ?_, ha'⟩
    have hc₁ : c.readUINT8 = some (v, c₁) := hc₁
    rw [getBufferNameLoop_eq]
    simp only [hc₁, if_neg hv, if_neg h0, ha₁.readBuffer_none h₂]
    exact hc'

theorem Agree.typeClass {p : ℕ} {b c b' : AutoBuffer} {o o' : Header} (ha : Agree p b c)
    (h : parseTypeClass b o = (some b', o')) (hp : b'.szOffset ≤ p) (o₁ : Header) :
    ∃ c', parseTypeClass c o₁ = (some c', { o₁ with uQType := o'.uQType }) ∧
      c'.szOffset = b'.szOffset ∧ o' = { o with uQType := o'.uQType } := by
  obtain ⟨uType, b₁, h₁, h₂, rfl⟩ := reads_of_parseTypeClass h
  have h3 := (szOffset_readNumber h₂).1
  obtain ⟨c₁, hc₁, ha₁⟩ := ha.readNumber_some h₁ (by omega)
  obtain ⟨c₂, hc₂, ha₂⟩ := ha₁.readNumber_some h₂ hp
  have hc₁ : c.readUINT16 = some (uType, c₁) := hc₁
  have hc₂ : c₁.readUINT16 = some (1, c₂) := hc₂
  refine ⟨c₂, ?_, ha₂.szOffset, rfl⟩
  unfold parseTypeClass
  simp only [hc₁, hc₂, if_true]

/-- **Messages are read alike** if they agree up to the end of the question, the counts of records
apart, and the second is not longer. -/
theorem parse_stable {d out : Bytes} {b : AutoBuffer} {o : Header}
    (h : parseRequestAAndAnswers (assign d) {} = (some b, o)) (h6 : out.take 6 = d.take 6)
    (hrest : ∀ i, 12 ≤ i → i < b.szOffset → out[i]? = d[i]?) (hp : b.szOffset ≤ out.length)
    (hle : out.length ≤ d.length) :
    ∃ c, parseRequestAAndAnswers (assign out) {} = (some c, { o with uAnswers := u16At out 6 }) ∧
      c.szOffset = b.szOffset := by
  have hb12 := (szOffset_of_parse h).1
  obtain ⟨h12, b₁, s, hq, hn, h⟩ := reads_of_parse h
  have h2 : b₁.szOffset ≤ b.szOffset := by
    have := (parseTypeClass_some h).1
    omega
  have ho12 : 12 ≤ out.length := by omega
  have hsame : ∀ i, i + 2 ≤ 6 → u16At out i = u16At d i := by
    intro i hi
    have hs : ∀ s : Bytes, (s.drop i).take 2 = ((s.take 6).drop i).take 2 := fun s => by
      rw [List.drop_take, List.take_take, min_eq_left (by omega)]
    unfold u16At
    rw [hs out, hs d, h6]
  have ha : Agree b.szOffset ⟨d, 12, h12⟩ ⟨out, 12, ho12⟩ := ⟨rfl, hrest, hp, hle⟩
  obtain ⟨c₁, hc₁, ha₁⟩ := ha.name hn h2
  obtain ⟨c, hc, hco, hoo⟩ := ha₁.typeClass h le_rfl
    { uID := u16At out 0, uFlag := u16At out 2, uAnswers := u16At out 6,
      sName := s.take (s.length - 1) }
  refine ⟨c, ?_, hco⟩
  rw [parse_eq ho12 (by rw [hsame 4 (by omega), hq])]
  unfold parseQuestion getBufferName
  simp only [hc₁]
  rw [hc, hoo, hsame 0 (by omega), hsame 2 (by omega)]

/-! ### Rewritten messages -/

/-- **A rewritten message** starts with the header, the counts apart, and the question of the message,
and is not longer. -/
structure Rewritten (d out : Bytes) (b : AutoBuffer) (o : Header) : Prop where
  parses : parseRequestAAndAnswers (assign d) {} = (some b, o)
  header : out.take 6 = d.take 6
  question : ∀ i, 12 ≤ i → i < b.szOffset → out[i]? = d[i]?
  le : b.szOffset ≤ out.length
  length_le : out.length ≤ d.length

theorem Rewritten.question_eq {d out : Bytes} {b : AutoBuffer} {o : Header} (h : Rewritten d out b o) :
    (out.take b.szOffset).drop 12 = (d.take b.szOffset).drop 12 := by
  have hle := (szOffset_of_parse h.parses).2
  refine List.ext_getElem? fun i => ?_
  rw [List.getElem?_drop, List.getElem?_drop]
  by_cases hi : 12 + i < b.szOffset
  · rw [List.getElem?_take_of_lt hi, List.getElem?_take_of_lt hi, h.question _ (Nat.le_add_right _ _) hi]
  · rw [List.getElem?_eq_none (by rw [List.length_take]; omega),
      List.getElem?_eq_none (by rw [List.length_take]; omega)]

theorem questionEnd_ok {d : Bytes} {p n : ℕ} (h : questionEnd d = .ok (p, n)) :
    ∃ b o, parseRequestAAndAnswers (assign d) {} = (some b, o) ∧ b.szOffset = p ∧ o.uAnswers = n := by
  unfold questionEnd at h
  rcases hp : parseRequestAAndAnswers (assign d) {} with ⟨_ | b, o⟩ <;> simp only [hp] at h
  · cases h
  · cases h
    exact ⟨b, o, rfl, rfl, rfl⟩

theorem questionEnd_of_parse {d : Bytes} {b : AutoBuffer} {o : Header}
    (h : parseRequestAAndAnswers (assign d) {} = (some b, o)) :
    questionEnd d = .ok (b.szOffset, o.uAnswers) := by
  unfold questionEnd
  rw [h]

theorem exists_setCounts {d : Bytes} {b : AutoBuffer} {o : Header}
    (h : parseRequestAAndAnswers (assign d) {} = (some b, o)) (y : Bytes) (n : ℕ) :
    ∃ out, setCounts (d.take b.szOffset ++ y) n = .ok out := by
  obtain ⟨h12, hle⟩ := szOffset_of_parse h
  exact ⟨_, setCounts_of_le n (by rw [List.length_append, List.length_take]; omega)⟩

/-- Setting the counts of the question and anything after it, within the message's length. -/
theorem rewritten_of_setCounts {d y out : Bytes} {n : ℕ} {b : AutoBuffer} {o : Header}
    (hp : parseRequestAAndAnswers (assign d) {} = (some b, o))
    (h : setCounts (d.take b.szOffset ++ y) n = .ok out) (hy : y.length ≤ d.length - b.szOffset) :
    Rewritten d out b o := by
  obtain ⟨-, rfl⟩ := setCounts_ok h
  obtain ⟨h12, hle⟩ := szOffset_of_parse hp
  have hlen : (d.take b.szOffset ++ y).length = b.szOffset + y.length := by
    rw [List.length_append, List.length_take, min_eq_left hle]
  have h6 : ((d.take b.szOffset ++ y).take 6).length = 6 := by
    rw [List.length_take]
    omega
  have hout : ((d.take b.szOffset ++ y).take 6 ++ be16 n ++ [0, 0, 0, 0] ++
      (d.take b.szOffset ++ y).drop 12).length = b.szOffset + y.length := by
    simp only [List.length_append, h6, length_be16, List.length_drop, List.length_take,
      List.length_cons, List.length_nil]
    omega
  refine ⟨hp, ?_, fun i hi hib => ?_, by omega, by omega⟩
  · rw [List.append_assoc, List.append_assoc, List.take_left' h6,
      List.take_append_of_le_length (by simp; omega), List.take_take, min_eq_left (by omega)]
  · rw [List.getElem?_append_right (by simp; omega), List.getElem?_drop,
      show 12 + (i - _) = i by simp; omega, List.getElem?_append_left (by simp; omega),
      List.getElem?_take_of_lt hib]

theorem resize_of_le {d : Bytes} {p : ℕ} (h : p ≤ d.length) : resize d p = d.take p ++ [] := by
  unfold resize
  rw [Nat.sub_eq_zero_of_le h]
  rfl

theorem emptyResponse_of_parse {d : Bytes} {b : AutoBuffer} {o : Header}
    (h : parseRequestAAndAnswers (assign d) {} = (some b, o)) :
    emptyResponse d = setCounts (d.take b.szOffset ++ []) 0 := by
  unfold emptyResponse
  refine (bind_of_ok (questionEnd_of_parse h) _).trans ?_
  dsimp only
  rw [resize_of_le (szOffset_of_parse h).2]

theorem emptyResponse_steps {d out : Bytes} (h : emptyResponse d = .ok out) :
    ∃ b o, parseRequestAAndAnswers (assign d) {} = (some b, o) ∧
      setCounts (d.take b.szOffset ++ []) 0 = .ok out := by
  have hstep := h
  unfold emptyResponse at hstep
  obtain ⟨⟨p, n⟩, hq, -⟩ := ok_of_bind hstep
  obtain ⟨b, o, hp, -, -⟩ := questionEnd_ok hq
  exact ⟨b, o, hp, (emptyResponse_of_parse hp).symm.trans h⟩

theorem dropHints_steps {d out : Bytes} {q : ℕ} {v4 v6 : Bool} (h : dropHints d q v4 v6 = .ok out) :
    ∃ b o i sOut, parseRequestAAndAnswers (assign d) {} = (some b, o) ∧
      dropRecords d q v4 v6 o.uAnswers 0 ⟨b.szOffset, d.take b.szOffset, []⟩ = .ok (i, sOut) ∧
      setCounts sOut i = .ok out := by
  unfold dropHints at h
  obtain ⟨⟨p, n⟩, hq, h⟩ := ok_of_bind h
  obtain ⟨b, o, hp, rfl, rfl⟩ := questionEnd_ok hq
  obtain ⟨question, hs, h⟩ := ok_of_bind h
  obtain ⟨-, rfl⟩ := substr_ok.mp hs
  rw [List.drop_zero] at h
  obtain ⟨⟨i, sOut⟩, hr, h⟩ := ok_of_bind h
  exact ⟨b, o, i, sOut, hp, hr, h⟩

theorem dropHints_of_records {d x : Bytes} {q p n k : ℕ} {v4 v6 : Bool}
    (hq : questionEnd d = .ok (p, n)) (hp : p ≤ d.length)
    (hr : dropRecords d q v4 v6 n 0 ⟨p, d.take p, []⟩ = .ok (k, x)) :
    dropHints d q v4 v6 = setCounts x k := by
  have hsub : substr d 0 p = .ok (d.take p) :=
    substr_ok.mpr ⟨by omega, by rw [List.drop_zero]⟩
  unfold dropHints
  exact (bind_of_ok hq _).trans ((bind_of_ok hsub _).trans (bind_of_ok hr _))

theorem dropAddress_ok {d out : Bytes} {q : ℕ} {v4 v6 : Bool} :
    dropAddress d q v4 v6 = .ok (true, out) ↔ dropped d q v4 v6 = .ok out := by
  unfold dropAddress
  rcases dropped d q v4 v6 with (_ | _) | x <;> simp

theorem dropped_svc {d : Bytes} {q : ℕ} {v4 v6 : Bool} (hq : q = typeSVCB ∨ q = typeHTTPS) :
    dropped d q v4 v6 = dropHints d q v4 v6 := by
  have hA : q ≠ typeA := by rcases hq with rfl | rfl <;> decide
  have hAAAA : q ≠ typeAAAA := by rcases hq with rfl | rfl <;> decide
  unfold dropped
  rw [if_neg hA, if_neg hAAAA, if_neg fun hn => hq.elim hn.1 hn.2]

theorem setCounts_rewritten {d out : Bytes} {b : AutoBuffer} {o : Header} (h : Rewritten d out b o)
    (y : Bytes) (n : ℕ) :
    setCounts (out.take b.szOffset ++ y) n = setCounts (d.take b.szOffset ++ y) n := by
  obtain ⟨h12, hle⟩ := szOffset_of_parse h.parses
  have hlen : ∀ x : Bytes, b.szOffset ≤ x.length → (x.take b.szOffset).length = b.szOffset :=
    fun x hx => by rw [List.length_take, min_eq_left hx]
  have hset : ∀ x : Bytes, b.szOffset ≤ x.length → setCounts (x.take b.szOffset ++ y) n =
      .ok (x.take 6 ++ be16 n ++ [0, 0, 0, 0] ++ ((x.take b.szOffset).drop 12 ++ y)) := fun x hx => by
    have hx' := hlen x hx
    rw [setCounts_of_le n (by rw [List.length_append]; omega),
      List.take_append_of_le_length (by omega), List.drop_append_of_le_length (by omega),
      List.take_take, min_eq_left (by omega)]
  rw [hset out h.le, hset d hle, h.question_eq, h.header]

/-- **What `DropAddress` returns** on success: the message, or a rewritten one. -/
theorem rewritten_of_dropAddress {d out : Bytes} {q : ℕ} {v4 v6 : Bool}
    (h : dropAddress d q v4 v6 = .ok (true, out)) : out = d ∨ ∃ b o, Rewritten d out b o := by
  have hd := dropAddress_ok.mp h
  have hempty : ∀ {out}, emptyResponse d = .ok out → ∃ b o, Rewritten d out b o := by
    intro out he
    obtain ⟨b, o, hp, he⟩ := emptyResponse_steps he
    exact ⟨b, o, rewritten_of_setCounts hp he (by simp)⟩
  unfold dropped at hd
  split_ifs at hd
  · exact Or.inr (hempty hd)
  · exact Or.inl (Except.ok.inj hd).symm
  · exact Or.inr (hempty hd)
  · exact Or.inl (Except.ok.inj hd).symm
  · exact Or.inl (Except.ok.inj hd).symm
  · obtain ⟨b, o, i, sOut, hp, hr, hd⟩ := dropHints_steps hd
    obtain ⟨y, rfl, hyl⟩ := dropRecords_ok hr (szOffset_of_parse hp).2
    exact Or.inr ⟨b, o, rewritten_of_setCounts hp hd hyl⟩

end DnsMultiZone.Rfc1035.Question
