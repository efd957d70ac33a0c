import DnsMultiZone.Rfc1035.Records

/-! # What an accepted message looks like

`ReadBuffer` is checked everywhere but in `GetBufferName` and `SkipBufferName`, where a label that
reaches past the end of the buffer is read as bytes that are not there and nothing is consumed. The two
also take a length byte of 64 to 191 for a length. A name that meets neither is `WholeLabels`. And an SVCB
or HTTPS record without data is not looked into, though it has no target name. For an accepted message this
is all that can be missing.

* `labels_of_getBufferName`, `name_of_skipBufferName`: what the readers of names have read.
* `records_of_parseAnswers`: the records that have been read.
* `form_iff_whole`: an accepted message has the form it was read as if and only if its names are of whole
  labels, and no record is without the data its target name is in. -/

namespace DnsMultiZone.Rfc1035.Accept

open DnsMultiZone.Lib.BigEndian
open DnsMultiZone.Rfc1035.Reader DnsMultiZone.Rfc1035.Parse DnsMultiZone.Rfc1035.Question
open DnsMultiZone.Rfc1035.Wire DnsMultiZone.Rfc1035.Records

/-! ### The form of a message -/

/-- After the header comes a question of class IN, and then `s`. -/
def Asked (d : Bytes) (ls : List Label) (uQType : ℕ) (s : Bytes) : Prop :=
  d.drop 12 = encodeLabels ls ++ [0] ++ be16 uQType ++ be16 1 ++ s

/-- A header that counts one question, and the question that was read. -/
structure QuestionForm (d : Bytes) (o : Header) (s : Bytes) : Prop where
  header : 12 ≤ d.length
  one : u16At d 4 = 1
  asked : ∃ ls, Asked d ls o.uQType s ∧ o.sName = joined ls

/-- An SVCB or HTTPS record has a target name. -/
def HasTarget (r : Record) : Prop :=
  r.uType = typeSVCB ∨ r.uType = typeHTTPS →
    ∃ (uPriority : ℕ) (target : WireName) (params : Bytes),
      r.data.encode = be16 uPriority ++ target.encode ++ params

/-- The form in which `ParseRequestA` reads a message. -/
def RequestForm (d : Bytes) (o : Header) : Prop := ∃ s, QuestionForm d o s

/-- The form in which `ParseResponseA` reads a message: as many records of class IN as are counted come
after the question. -/
def ResponseForm (d : Bytes) (o : Header) : Prop :=
  ∃ (rs : List Record) (s : Bytes), QuestionForm d o (rs.flatMap Record.encode ++ s) ∧
    rs.length = u16At d 6 ∧ ∀ r ∈ rs, r.uClass = 1 ∧ HasTarget r

/-! ### Whole labels -/

/-- After any labels, the next byte starts a pointer, or is a length of at most 63 and no more than there
are bytes after it. -/
def WholeLabels (s : Bytes) : Prop :=
  ∀ ls c x, s = encodeLabels ls ++ c :: x → 0xC0 ≤ c.toNat ∨ c.toNat < 64 ∧ c.toNat ≤ x.length

/-- The target name of an SVCB or HTTPS record is of whole labels. -/
def WholeTarget (r : Record) : Prop :=
  r.uType = typeSVCB ∨ r.uType = typeHTTPS → WholeLabels (r.data.encode.drop 2)

/-- The names of the next `n` records are of whole labels, as far as there are records. -/
def WholeRecords : ℕ → Bytes → Prop
  | 0, _ => True
  | n + 1, s => WholeLabels s ∧
      ∀ (r : Record) (s' : Bytes), s = r.encode ++ s' → WholeTarget r ∧ WholeRecords n s'

/-- The next `n` records have data if they are SVCB or HTTPS, as far as there are records. -/
def DataRecords : ℕ → Bytes → Prop
  | 0, _ => True
  | n + 1, s => ∀ (r : Record) (s' : Bytes), s = r.encode ++ s' →
      (r.uType = typeSVCB ∨ r.uType = typeHTTPS → r.data.encode ≠ []) ∧ DataRecords n s'

/-- The name of the question is of whole labels. -/
def WholeRequest (d : Bytes) : Prop := WholeLabels (d.drop 12)

/-- The names of the question and of the records are of whole labels. -/
def WholeResponse (d : Bytes) : Prop :=
  WholeRequest d ∧ ∀ ls uQType s, Asked d ls uQType s → WholeRecords (u16At d 6) s

/-- No counted SVCB or HTTPS record is without data. -/
def DataResponse (d : Bytes) : Prop := ∀ ls uQType s, Asked d ls uQType s → DataRecords (u16At d 6) s

theorem asked_iff {d s : Bytes} {ls : List Label} {t : ℕ} :
    Asked d ls t s ↔ d.drop 12 = encodeLabels ls ++ ([0] ++ (be16 t ++ (be16 1 ++ s))) := by
  unfold Asked
  simp only [List.append_assoc]

/-! ### What has been read -/

theorem rest_of_readUINT8 {b b' : AutoBuffer} {n : ℕ} (h : b.readUINT8 = some (n, b')) :
    ∃ c : UInt8, n = c.toNat ∧ b.rest = c :: b'.rest := by
  obtain ⟨x, hx, rfl⟩ := AutoBuffer.readNumber_some h
  obtain ⟨hl, hr, -, -⟩ := AutoBuffer.readBuffer_some hx
  obtain ⟨c, rfl⟩ := List.length_eq_one_iff.mp hl
  exact ⟨c, beNat_singleton c, hr⟩

theorem rest_of_readUINT16 {b b' : AutoBuffer} {n : ℕ} (h : b.readUINT16 = some (n, b')) :
    b.rest = be16 n ++ b'.rest ∧ n < 65536 := by
  obtain ⟨x, hx, rfl⟩ := AutoBuffer.readNumber_some h
  obtain ⟨hl, hr, -, -⟩ := AutoBuffer.readBuffer_some hx
  have hlt := beNat_lt x
  rw [hl] at hlt
  exact ⟨by rw [be16_beNat hl, hr], hlt⟩

theorem rest_of_readUINT32 {b b' : AutoBuffer} {n : ℕ} (h : b.readUINT32 = some (n, b')) :
    b.rest = be32 n ++ b'.rest ∧ n < 4294967296 := by
  obtain ⟨x, hx, rfl⟩ := AutoBuffer.readNumber_some h
  obtain ⟨hl, hr, -, -⟩ := AutoBuffer.readBuffer_some hx
  have hlt := beNat_lt x
  rw [hl] at hlt
  exact ⟨by rw [be32_beNat hl, hr], hlt⟩

theorem wholeLabels_label (l : Label) (s : Bytes) : WholeLabels (l.encode ++ s) ↔ WholeLabels s := by
  constructor
  · intro h ls c x hs
    exact h (l :: ls) c x (by rw [hs, encodeLabels, List.append_assoc])
  · intro h ls c x hs
    rcases ls with _ | ⟨l', ls⟩
    · obtain ⟨rfl, hx⟩ := List.cons.inj hs
      have hx : l.bytes ++ s = x := hx
      have hlt := l.lt
      rw [← hx, l.toNat_length, List.length_append]
      omega
    · rw [encodeLabels, List.append_assoc] at hs
      obtain ⟨hc, hx⟩ := List.cons.inj hs
      have hlen : l.bytes.length = l'.bytes.length := by
        rw [← l.toNat_length, ← l'.toNat_length, hc]
      obtain ⟨-, hrest⟩ := List.append_inj hx hlen
      exact h ls c x hrest

theorem lt_of_whole {c : UInt8} {x : Bytes} (hw : WholeLabels (c :: x))
    (hc : ¬ c.toNat &&& 0xC0 = 0xC0) : c.toNat < 64 ∧ c.toNat ≤ x.length := by
  have hall : ∀ n < 256, 0xC0 ≤ n → n &&& 0xC0 = 0xC0 := by decide +kernel
  rcases hw [] c x rfl with h | h
  · exact absurd (hall _ c.toNat_lt h) hc
  · exact h

theorem label_of_read {b b₁ b₂ : AutoBuffer} {v : ℕ} {x : Bytes} (h₁ : b.readUINT8 = some (v, b₁))
    (hv : ¬ v &&& 0xC0 = 0xC0) (h0 : v ≠ 0) (h₂ : b₁.readBuffer v = some (x, b₂))
    (hw : WholeLabels b.rest) :
    ∃ l : Label, l.bytes = x ∧ b.rest = l.encode ++ b₂.rest ∧ WholeLabels b₂.rest := by
  obtain ⟨c, rfl, hr⟩ := rest_of_readUINT8 h₁
  obtain ⟨hx, hr₁, -, -⟩ := AutoBuffer.readBuffer_some h₂
  obtain ⟨hlt, -⟩ := lt_of_whole (hr ▸ hw) hv
  have hl : b.rest = (Label.mk x (by omega) (by omega)).encode ++ b₂.rest := by
    show b.rest = UInt8.ofNat x.length :: (x ++ b₂.rest)
    rw [hr, hr₁, hx, UInt8.ofNat_toNat]
  exact ⟨_, rfl, hl, (wholeLabels_label _ _).mp (hl ▸ hw)⟩

theorem read_of_whole {b b₁ : AutoBuffer} {v : ℕ} (h₁ : b.readUINT8 = some (v, b₁))
    (hv : ¬ v &&& 0xC0 = 0xC0) (hw : WholeLabels b.rest) : b₁.readBuffer v ≠ none := by
  intro h₂
  obtain ⟨c, rfl, hr⟩ := rest_of_readUINT8 h₁
  obtain ⟨-, hle⟩ := lt_of_whole (hr ▸ hw) hv
  have hun := AutoBuffer.readBuffer_none h₂
  rw [AutoBuffer.length_rest] at hle
  omega

theorem zero_of_read {b b₁ : AutoBuffer} (h₁ : b.readUINT8 = some (0, b₁)) : b.rest = 0 :: b₁.rest := by
  obtain ⟨c, hc, hr⟩ := rest_of_readUINT8 h₁
  have hc : c = 0 := UInt8.toNat_inj.mp hc.symm
  rw [hr, hc]

/-- **`GetBufferName`** on whole labels has read them and a zero byte. -/
theorem labels_of_getBufferName {b b' : AutoBuffer} {sName part s' : Bytes}
    (h : getBufferNameLoop b sName part = (some b', s')) (hw : WholeLabels b.rest) :
    ∃ ls, b.rest = encodeLabels ls ++ [0] ++ b'.rest ∧ s' = sName ++ dotted ls := by
  fun_induction getBufferNameLoop b sName part with
  | case1 => cases h
  | case2 => cases h
  | case3 b sName part b₁ h₁ hv =>
    cases h
    exact ⟨[], zero_of_read h₁, (List.append_nil _).symm⟩
  | case4 b sName part v b₁ h₁ hv h0 x b₂ h₂ ih =>
    obtain ⟨l, rfl, hl, hw₂⟩ := label_of_read h₁ hv h0 h₂ hw
    obtain ⟨ls, hls, rfl⟩ := ih h hw₂
    refine ⟨l :: ls, ?_, ?_⟩
    · rw [hl, hls, encodeLabels]
      simp only [List.append_assoc]
    · rw [List.append_assoc]
      rfl
  | case5 b sName part v b₁ h₁ hv h0 h₂ ih => exact absurd h₂ (read_of_whole h₁ hv hw)

/-- **`SkipBufferName`** on whole labels has read a name. -/
theorem name_of_skipBufferName {b b' : AutoBuffer} (h : skipBufferName b = some b')
    (hw : WholeLabels b.rest) : ∃ n : WireName, b.rest = n.encode ++ b'.rest := by
  fun_induction skipBufferName b with
  | case1 => cases h
  | case2 b v b₁ h₁ hv =>
    obtain ⟨⟨v₂, b₂⟩, h₂, rfl⟩ := Option.map_eq_some_iff.mp h
    obtain ⟨c, rfl, hr⟩ := rest_of_readUINT8 h₁
    obtain ⟨c₂, rfl, hr₂⟩ := rest_of_readUINT8 h₂
    have hc : c &&& 0xC0 = 0xC0 := UInt8.toNat_inj.mp hv
    obtain ⟨e, he⟩ := ptr_of_bytes (b := c₂) hc
    refine ⟨⟨[], e⟩, ?_⟩
    rw [hr, hr₂]
    show [c, c₂] ++ b₂.rest = e.encode ++ b₂.rest
    rw [he]
  | case3 b b₁ h₁ hv =>
    cases h
    exact ⟨⟨[], .root⟩, zero_of_read h₁⟩
  | case4 b v b₁ h₁ hv h0 x b₂ h₂ ih =>
    obtain ⟨l, rfl, hl, hw₂⟩ := label_of_read h₁ hv h0 h₂ hw
    obtain ⟨n, hn⟩ := ih h hw₂
    refine ⟨⟨l :: n.labels, n.stop⟩, ?_⟩
    rw [hl, hn, WireName.encode, WireName.encode, encodeLabels]
    simp only [List.append_assoc]
  | case5 b v b₁ h₁ hv h0 h₂ ih => exact absurd h₂ (read_of_whole h₁ hv hw)

theorem rest_of_parseTypeClass {b b' : AutoBuffer} {o o' : Header}
    (h : parseTypeClass b o = (some b', o')) :
    ∃ uType, b.rest = be16 uType ++ be16 1 ++ b'.rest ∧ o' = { o with uQType := uType } := by
  obtain ⟨uType, b₁, h₁, h₂, rfl⟩ := reads_of_parseTypeClass h
  refine ⟨uType, ?_, rfl⟩
  rw [(rest_of_readUINT16 h₁).1, (rest_of_readUINT16 h₂).1, List.append_assoc]

/-- **Header and question** that have been read, of whole labels. -/
theorem question_of_parse {d : Bytes} {b : AutoBuffer} {o : Header}
    (h : parseRequestAAndAnswers (assign d) {} = (some b, o)) (hw : WholeRequest d) :
    QuestionForm d o b.rest ∧ o.uAnswers = u16At d 6 := by
  obtain ⟨h12, b₁, s, hq, hn, h⟩ := reads_of_parse h
  obtain ⟨ls, hls, rfl⟩ := labels_of_getBufferName hn hw
  obtain ⟨uType, ht, rfl⟩ := rest_of_parseTypeClass h
  have hls : d.drop 12 = encodeLabels ls ++ [0] ++ b₁.rest := hls
  refine ⟨⟨h12, hq, ls, asked_iff.mpr ?_, take_dotted ls⟩, rfl⟩
  rw [hls, ht]
  simp only [List.append_assoc]

/-! ### The records that have been read -/

theorem rest_of_readRecord {b b' : AutoBuffer} {t : ℕ} {x : Bytes}
    (h : readRecord b = some (t, x, b')) : ∃ c ttl, skipBufferName b = some c ∧
      c.rest = be16 t ++ (be16 1 ++ (be32 ttl ++ (be16 x.length ++ (x ++ b'.rest)))) ∧
      t < 65536 ∧ ttl < 4294967296 ∧ x.length < 65536 := by
  obtain ⟨b₁, b₂, b₃, b₄, b₅, ttl, h₁, h₂, h₃, h₄, h₅, h₆⟩ := readRecord_some h
  obtain ⟨hr₂, ht⟩ := rest_of_readUINT16 h₂
  obtain ⟨hr₃, -⟩ := rest_of_readUINT16 h₃
  obtain ⟨hr₄, httl⟩ := rest_of_readUINT32 h₄
  obtain ⟨hr₅, hlen⟩ := rest_of_readUINT16 h₅
  obtain ⟨-, hr₆, -, -⟩ := AutoBuffer.readBuffer_some h₆
  exact ⟨b₁, ttl, h₁, by rw [hr₂, hr₃, hr₄, hr₅, hr₆], ht, httl, hlen⟩

/-- **A record** that has been read, its owner's name of whole labels. -/
theorem record_of_readRecord {b b' : AutoBuffer} {t : ℕ} {x : Bytes}
    (h : readRecord b = some (t, x, b')) (hw : WholeLabels b.rest) :
    ∃ r : Record, b.rest = r.encode ++ b'.rest ∧ r.uType = t ∧ r.uClass = 1 ∧ r.data.encode = x := by
  obtain ⟨c, ttl, hskip, hrest, ht, httl, hlen⟩ := rest_of_readRecord h
  obtain ⟨n, hn⟩ := name_of_skipBufferName hskip hw
  have hx : (RData.other [.bytes x]).encode = x := List.append_nil x
  refine ⟨⟨n, t, 1, ttl, .other [.bytes x], ht, by norm_num, httl, by rw [hx]; exact hlen⟩,
    ?_, rfl, rfl, hx⟩
  rw [hn, hrest, Record.encode, Record.fixed]
  simp only [hx, List.append_assoc]

theorem target_of_parseSvcParamHint {x : Bytes} {a a' : Addresses}
    (h : parseSvcParamHint x a = (true, a')) (hw : WholeLabels (x.drop 2)) :
    ∃ (uPriority : ℕ) (target : WireName) (params : Bytes),
      x = be16 uPriority ++ target.encode ++ params := by
  unfold parseSvcParamHint at h
  rcases h₁ : (assign x).readUINT16 with _ | ⟨uPriority, b₁⟩ <;> simp only [h₁] at h
  · cases h
  rcases h₂ : skipBufferName b₁ with _ | b₂ <;> simp only [h₂] at h
  · cases h
  have hr : x = be16 uPriority ++ b₁.rest := (rest_of_readUINT16 h₁).1
  have hr₁ : x.drop 2 = b₁.rest := by
    rw [hr]
    rfl
  obtain ⟨n, hn⟩ := name_of_skipBufferName h₂ (hr₁ ▸ hw)
  exact ⟨uPriority, n, b₂.rest, by rw [hr, hn, List.append_assoc]⟩

theorem hasTarget_of_recordAddresses {r : Record} {a a' : Addresses}
    (h : recordAddresses r.uType r.data.encode a = (true, a')) (hw : WholeTarget r) : HasTarget r := by
  intro ht
  refine @target_of_parseSvcParamHint _ a a' ?_ (hw ht)
  rw [← h]
  unfold recordAddresses
  rcases ht with ht | ht <;> rw [ht] <;> rfl

/-- **The records** that have been read, their names of whole labels: those with data have the target names
they should have. -/
theorem records_of_parseAnswers {n : ℕ} {b : AutoBuffer} {a a' : Addresses}
    (h : parseAnswers n b a = (true, a')) (hw : WholeRecords n b.rest) :
    ∃ (rs : List Record) (s : Bytes), b.rest = rs.flatMap Record.encode ++ s ∧ rs.length = n ∧
      ∀ r ∈ rs, r.uClass = 1 ∧ (r.data.encode ≠ [] → HasTarget r) := by
  induction n generalizing b a with
  | zero => exact ⟨[], b.rest, rfl, rfl, fun r hr => by cases hr⟩
  | succ n ih =>
    rw [parseAnswers] at h
    rcases hr : readRecord b with _ | ⟨t, x, b'⟩ <;> simp only [hr] at h
    · cases h
    obtain ⟨hown, hnext⟩ := hw
    obtain ⟨r, hrest, rfl, hclass, rfl⟩ := record_of_readRecord hr hown
    obtain ⟨htarget, hw'⟩ := hnext r b'.rest hrest
    have hcons : ∀ {a}, parseAnswers n b' a = (true, a') → (r.data.encode ≠ [] → HasTarget r) →
        ∃ (rs : List Record) (s : Bytes), b.rest = rs.flatMap Record.encode ++ s ∧
          rs.length = n + 1 ∧ ∀ r ∈ rs, r.uClass = 1 ∧ (r.data.encode ≠ [] → HasTarget r) := by
      intro a h hr
      obtain ⟨rs, s, hs, hl, hrs⟩ := ih h hw'
      refine ⟨r :: rs, s, ?_, by rw [List.length_cons, hl],
        List.forall_mem_cons.mpr ⟨⟨hclass, hr⟩, hrs⟩⟩
      rw [hrest, hs, List.flatMap_cons, List.append_assoc]
    split_ifs at h with hdata
    · rcases ha : recordAddresses r.uType r.data.encode a with ⟨_ | _, a₁⟩ <;> simp only [ha] at h
      · cases h
      · exact hcons h fun _ => hasTarget_of_recordAddresses ha htarget
    · -- a record without data is not looked into
      exact hcons h fun hne => absurd (List.length_eq_zero_iff.mp (not_not.mp hdata)) hne

/-- Records without the data that a target name is in are told by their type. -/
theorem data_of_dataRecords {n : ℕ} {rs : List Record} {s : Bytes} (hl : rs.length = n)
    (h : DataRecords n (rs.flatMap Record.encode ++ s)) :
    ∀ r ∈ rs, r.uType = typeSVCB ∨ r.uType = typeHTTPS → r.data.encode ≠ [] := by
  induction rs generalizing n with
  | nil => exact fun r hr => by cases hr
  | cons r rs ih =>
    subst hl
    rw [List.flatMap_cons, List.append_assoc] at h
    obtain ⟨hr, hrs⟩ := h r _ rfl
    exact List.forall_mem_cons.mpr ⟨hr, ih rfl hrs⟩

/-! ### Only one way to read a message -/

/-- A name that starts with a pointer or a zero byte is of whole labels. -/
theorem wholeLabels_cons {c : UInt8} (h : 0xC0 ≤ c.toNat ∨ c = 0) (s : Bytes) : WholeLabels (c :: s) := by
  intro ls c' x hs
  rcases ls with _ | ⟨l, ls⟩
  · obtain ⟨rfl, -⟩ := List.cons.inj hs
    rcases h with h | rfl
    · exact Or.inl h
    · exact Or.inr ⟨by decide, Nat.zero_le _⟩
  · obtain ⟨rfl, -⟩ := List.cons.inj hs
    have hpos := l.pos
    have hlt := l.lt
    have hn := l.toNat_length
    rcases h with h | h
    · omega
    · rw [h] at hn
      have hn : 0 = l.bytes.length := hn
      omega

/-- **Names are of whole labels.** -/
theorem wholeLabels_encode (n : WireName) (s : Bytes) : WholeLabels (n.encode ++ s) := by
  obtain ⟨ls, stop⟩ := n
  induction ls with
  | nil =>
    rcases stop with _ | ⟨t, lt⟩
    · exact wholeLabels_cons (Or.inr rfl) s
    · refine wholeLabels_cons (Or.inl ?_) _
      rw [UInt8.toNat_ofNat']
      omega
  | cons l ls ih =>
    have h : (WireName.mk (l :: ls) stop).encode ++ s = l.encode ++ ((WireName.mk ls stop).encode ++ s) := by
      simp [WireName.encode, encodeLabels]
    rw [h]
    exact (wholeLabels_label l _).mpr ih

/-- Only one thing comes after the question. -/
theorem asked_unique {d s s' : Bytes} {ls ls' : List Label} {t t' : ℕ} (h : Asked d ls t s)
    (h' : Asked d ls' t' s') : s = s' := by
  obtain ⟨b, hn, hr, -⟩ := getBufferNameLoop_encode (b := assign (d.drop 12)) (asked_iff.mp h) [] []
  obtain ⟨b', hn', hr', -⟩ := getBufferNameLoop_encode (b := assign (d.drop 12)) (asked_iff.mp h') [] []
  rw [hn] at hn'
  obtain rfl := Option.some.inj (Prod.mk.inj hn').1
  rw [hr] at hr'
  obtain ⟨-, hr'⟩ := List.append_inj hr' rfl
  exact (List.append_inj hr' rfl).2

theorem record_unique {r r' : Record} {s s' : Bytes} (h : r.encode ++ s = r'.encode ++ s')
    (hc : r.uClass = 1) : r'.uType = r.uType ∧ r'.data.encode = r.data.encode ∧ s' = s := by
  have hr := readRecord_encode (b := assign (r.encode ++ s)) (r := r) (s := s) rfl
  have hr' := readRecord_encode (b := assign (r.encode ++ s)) (r := r') (s := s') h
  rw [if_pos hc] at hr
  obtain ⟨b, hb, hs⟩ := hr
  split_ifs at hr' with hc'
  · obtain ⟨b', hb', hs'⟩ := hr'
    rw [hb] at hb'
    obtain ⟨ht, hb'⟩ := Prod.mk.inj (Option.some.inj hb')
    obtain ⟨hd, rfl⟩ := Prod.mk.inj hb'
    exact ⟨ht.symm, hd.symm, by rw [← hs, ← hs']⟩
  · rw [hb] at hr'
    cases hr'

theorem wholeTarget_of_hasTarget {r : Record} (h : HasTarget r) : WholeTarget r := by
  intro ht
  obtain ⟨uPriority, target, params, hx⟩ := h ht
  rw [hx, List.append_assoc]
  exact wholeLabels_encode target params

theorem data_of_hasTarget {r : Record} (h : HasTarget r) (ht : r.uType = typeSVCB ∨ r.uType = typeHTTPS) :
    r.data.encode ≠ [] := by
  obtain ⟨uPriority, target, params, hx⟩ := h ht
  rw [hx]
  simp [be16]

theorem wholeRecords_encode {rs : List Record} (h : ∀ r ∈ rs, r.uClass = 1 ∧ HasTarget r) (s : Bytes) :
    WholeRecords rs.length (rs.flatMap Record.encode ++ s) := by
  induction rs with
  | nil => trivial
  | cons r rs ih =>
    obtain ⟨⟨hclass, htarget⟩, hrs⟩ := List.forall_mem_cons.mp h
    rw [List.flatMap_cons, List.append_assoc]
    refine ⟨?_, fun r' s' hs => ?_⟩
    · unfold Record.encode
      simp only [List.append_assoc]
      exact wholeLabels_encode r.owner _
    · obtain ⟨ht, hd, rfl⟩ := record_unique hs hclass
      refine ⟨?_, ih hrs⟩
      have hw := wholeTarget_of_hasTarget htarget
      unfold WholeTarget at hw ⊢
      rwa [ht, hd]

theorem dataRecords_encode {rs : List Record} (h : ∀ r ∈ rs, r.uClass = 1 ∧ HasTarget r) (s : Bytes) :
    DataRecords rs.length (rs.flatMap Record.encode ++ s) := by
  induction rs with
  | nil => trivial
  | cons r rs ih =>
    obtain ⟨⟨hclass, htarget⟩, hrs⟩ := List.forall_mem_cons.mp h
    rw [List.flatMap_cons, List.append_assoc]
    intro r' s' hs
    obtain ⟨ht, hd, rfl⟩ := record_unique hs hclass
    exact ⟨by rw [ht, hd]; exact data_of_hasTarget htarget, ih hrs⟩

theorem QuestionForm.whole {d s : Bytes} {o : Header} (h : QuestionForm d o s) : WholeRequest d := by
  obtain ⟨ls, hls, -⟩ := h.asked
  unfold WholeRequest
  rw [asked_iff.mp hls, ← List.append_assoc]
  exact wholeLabels_encode ⟨ls, .root⟩ _

theorem ResponseForm.whole {d : Bytes} {o : Header} (h : ResponseForm d o) :
    WholeResponse d ∧ DataResponse d := by
  obtain ⟨rs, s, hq, hl, hrs⟩ := h
  obtain ⟨ls₀, hs, -⟩ := hq.asked
  refine ⟨⟨hq.whole, fun ls uQType s' hs' => ?_⟩, fun ls uQType s' hs' => ?_⟩
  all_goals rw [← asked_unique hs hs', ← hl]
  · exact wholeRecords_encode hrs s
  · exact dataRecords_encode hrs s

theorem asked_encode (m : Message) :
    Asked m.encode m.qname m.uQType (m.answers.flatMap Record.encode ++ m.rest) := by
  rw [asked_iff]
  show (m.header ++ m.question ++ m.answers.flatMap Record.encode ++ m.rest).drop 12 = _
  rw [List.append_assoc, List.append_assoc, ← m.length_header, List.drop_left]
  simp only [Message.question, WireName.encode, NameEnd.encode, List.append_assoc]

theorem whole_encode (m : Message) (h : ∀ r ∈ m.answers, r.uClass = 1 ∧ HasTarget r) :
    WholeResponse m.encode ∧ DataResponse m.encode := by
  obtain ⟨b, hb, -, -⟩ := parse_encode m
  have hn : u16At m.encode 6 = m.answers.length := (uAnswers_of_parse hb).symm
  have hq := asked_encode m
  refine ⟨⟨?_, fun ls uQType s hs => ?_⟩, fun ls uQType s hs => ?_⟩
  · unfold WholeRequest
    rw [asked_iff.mp hq, ← List.append_assoc]
    exact wholeLabels_encode ⟨m.qname, .root⟩ _
  all_goals rw [← asked_unique hq hs, hn]
  · exact wholeRecords_encode h _
  · exact dataRecords_encode h _

/-- **Accepted messages have the form they were read as** if and only if their names are of whole labels and
no SVCB or HTTPS record is without data. -/
theorem form_iff_whole (d : Bytes) :
    ((parseRequestA d).1 = true → (RequestForm d (parseRequestA d).2 ↔ WholeRequest d)) ∧
    ((parseResponseA d).1 = true →
      (ResponseForm d (parseResponseA d).2.1 ↔ WholeResponse d ∧ DataResponse d)) := by
  refine ⟨fun h => ⟨fun ⟨s, hs⟩ => hs.whole, fun hw => ?_⟩, fun h => ⟨fun hf => hf.whole, fun ⟨hw, hdata⟩ => ?_⟩⟩
  · unfold parseRequestA at h ⊢
    rcases hp : parseRequestAAndAnswers (assign d) {} with ⟨_ | b, o⟩ <;> rw [hp] at h
    · cases h
    · exact ⟨b.rest, (question_of_parse hp hw).1⟩
  · unfold parseResponseA at h ⊢
    rcases hp : parseRequestAAndAnswers (assign d) {} with ⟨_ | b, o⟩ <;> simp only [hp] at h ⊢
    · cases h
    obtain ⟨hq, hn⟩ := question_of_parse hp hw.1
    obtain ⟨ls, hls, -⟩ := hq.asked
    have hwr := hw.2 ls o.uQType b.rest hls
    rw [hn] at h
    obtain ⟨rs, s, hs, hl, hrs⟩ := records_of_parseAnswers (Prod.ext h rfl) hwr
    have hd := data_of_dataRecords hl (hs ▸ hdata ls o.uQType b.rest hls)
    exact ⟨rs, s, hs ▸ hq, hl, fun r hr => ⟨(hrs r hr).1, fun ht => (hrs r hr).2 (hd r hr ht) ht⟩⟩

/-- A query whose name is a length byte of 63 and a zero byte. -/
def cutLabel : Bytes :=
  be16 1 ++ be16 0x0100 ++ be16 1 ++ be16 0 ++ be16 0 ++ be16 0 ++ [63, 0] ++ be16 typeA ++ be16 1

theorem not_whole_cutLabel : ¬ WholeRequest cutLabel := by
  intro h
  rcases h [] 63 [0, 0, 1, 0, 1] rfl with h | ⟨-, h⟩
  · exact absurd h (by decide)
  · exact absurd h (by decide)

/-- A response for "a.bc" of two records: an alias, of which the name is a pointer to the second label, and an
HTTPS record that has a target name of one label and an address hint. -/
def aliasReply : Bytes :=
  be16 7 ++ be16 0x8180 ++ be16 1 ++ be16 2 ++ be16 0 ++ be16 0 ++ [1, 0x61, 2, 0x62, 0x63, 0] ++ be16 typeHTTPS ++
    be16 1 ++ ([0xC0, 12] ++ be16 typeCNAME ++ be16 1 ++ be32 60 ++ be16 2 ++ [0xC0, 14]) ++
    ([0xC0, 14] ++ be16 typeHTTPS ++ be16 1 ++ be32 60 ++ be16 13 ++ be16 1 ++ [1, 0x64, 0] ++ be16 4 ++ be16 4 ++
      [1, 2, 3, 4])

theorem aliasReply_eq_encode :
    ∃ m : Message, m.encode = aliasReply ∧ ∀ r ∈ m.answers, r.uClass = 1 ∧ HasTarget r := by
  refine ⟨⟨7, 0x8180, 0, 0, [⟨[0x61], by decide, by decide⟩, ⟨[0x62, 0x63], by decide, by decide⟩], typeHTTPS,
    [⟨⟨[], .ptr 12 (by decide)⟩, typeCNAME, 1, 60, .other [.name ⟨[], .ptr 14 (by decide)⟩],
        by decide, by decide, by decide, by decide⟩,
      ⟨⟨[], .ptr 14 (by decide)⟩, typeHTTPS, 1, 60,
        .svc ⟨1, ⟨[⟨[0x64], by decide, by decide⟩], .root⟩, [⟨4, [1, 2, 3, 4], by decide, by decide⟩], by decide⟩,
        by decide, by decide, by decide, by decide⟩],
    [], by decide, by decide, by decide, by decide, by decide, by decide⟩, by decide +kernel, ?_⟩
  refine List.forall_mem_cons.mpr ⟨⟨rfl, fun ht => absurd ht (by decide)⟩,
    List.forall_mem_singleton.mpr ⟨rfl, fun _ => ⟨1, ?target, ?params, ?eq⟩⟩⟩
  case target => exact ⟨[⟨[0x64], by decide, by decide⟩], .root⟩
  case params => exact be16 4 ++ be16 4 ++ [1, 2, 3, 4]
  case eq => rfl

/-- A response with an HTTPS record without data. -/
def noTarget : Bytes :=
  be16 1 ++ be16 0x8180 ++ be16 1 ++ be16 1 ++ be16 0 ++ be16 0 ++ [1, 0x61, 0] ++ be16 typeHTTPS ++ be16 1 ++
    ([0xC0, 12] ++ be16 typeHTTPS ++ be16 1 ++ be32 60 ++ be16 0)

/-- The first response has the form it was read as, the other two messages do not. -/
theorem form_iff_whole_samples :
    ResponseForm aliasReply (parseResponseA aliasReply).2.1 ∧
    ((parseRequestA cutLabel).1 = true ∧ ¬ RequestForm cutLabel (parseRequestA cutLabel).2) ∧
    (parseResponseA noTarget).1 = true ∧ ¬ ResponseForm noTarget (parseResponseA noTarget).2.1 := by
  refine ⟨?_, ⟨by decide +kernel, ?_⟩, by decide +kernel, ?_⟩
  · rw [(form_iff_whole aliasReply).2 (by decide +kernel)]
    obtain ⟨m, he, hm⟩ := aliasReply_eq_encode
    exact he ▸ whole_encode m hm
  · rw [(form_iff_whole cutLabel).1 (by decide +kernel)]
    exact not_whole_cutLabel
  · rw [(form_iff_whole noTarget).2 (by decide +kernel)]
    rintro ⟨-, hdata⟩
    let r : Record := ⟨⟨[], .ptr 12 (by decide)⟩, typeHTTPS, 1, 60, .other [], by decide, by decide, by decide,
      by decide⟩
    have hd := hdata [⟨[0x61], by decide, by decide⟩] typeHTTPS r.encode (asked_iff.mpr (by decide +kernel))
    rw [show u16At noTarget 6 = 1 by decide +kernel] at hd
    exact (hd r [] (List.append_nil _).symm).1 (Or.inr rfl) rfl

/-- **A label that is not there** is read as 63 zero bytes, and the zero byte after its length ends the
name. -/
theorem cut_label_accepted :
    (parseRequestA cutLabel = (true, ⟨1, 0x0100, 0, List.replicate 63 0, typeA⟩) ∧
      ¬ RequestForm cutLabel (parseRequestA cutLabel).2) ∧
    ((parseResponseA cutLabel).1 = true ∧ ¬ ResponseForm cutLabel (parseResponseA cutLabel).2.1) := by
  exact ⟨⟨by decide +kernel, fun ⟨s, hs⟩ => not_whole_cutLabel hs.whole⟩, by decide +kernel,
    fun h => not_whole_cutLabel h.whole.1.1⟩

end DnsMultiZone.Rfc1035.Accept
