import DnsMultiZone.Lib.Relocate
import DnsMultiZone.Rfc1035.Wire

/-! # Records and messages with their structure

A record's data is that of an SVCB record, or pieces of which some are names. A message is a header,
one uncompressed question of class IN, answer records, and the bytes after them. Its parts, laid out one
after another, are its encoding (`encode_messageParts`).

* `readRecord_encode`: `ParseResponseA` reads a record; `parseSvcParamHint_encode`: and the hints of its
  data.
* `questionEnd_encode`: `QuestionEnd` finds the end of the question. -/

namespace DnsMultiZone.Rfc1035.Records

open DnsMultiZone.Lib.BigEndian DnsMultiZone.Lib.Relocate
open DnsMultiZone.Rfc1035.Reader DnsMultiZone.Rfc1035.Parse DnsMultiZone.Rfc1035.Drop
open DnsMultiZone.Rfc1035.Append DnsMultiZone.Rfc1035.Question DnsMultiZone.Rfc1035.Wire

/-- One SvcParam. -/
structure SvcParam where
  uKey : ℕ
  value : Bytes
  key_lt : uKey < 65536
  length_lt : value.length < 65536

def SvcParam.encode (a : SvcParam) : Bytes := be16 a.uKey ++ be16 a.value.length ++ a.value

/-- The data of an SVCB or HTTPS record. -/
structure SvcData where
  uPriority : ℕ
  target : WireName
  params : List SvcParam
  priority_lt : uPriority < 65536

def SvcData.encode (d : SvcData) : Bytes :=
  be16 d.uPriority ++ d.target.encode ++ d.params.flatMap SvcParam.encode

/-- A piece of the data of another record. -/
inductive Piece
  | bytes (b : Bytes)
  | name (n : WireName)

def Piece.encode : Piece → Bytes
  | .bytes b => b
  | .name n => n.encode

/-- The data of a record. -/
inductive RData
  | svc (d : SvcData)
  | other (pieces : List Piece)

def RData.encode : RData → Bytes
  | .svc d => d.encode
  | .other pieces => pieces.flatMap Piece.encode

/-- An answer record. -/
structure Record where
  owner : WireName
  uType : ℕ
  uClass : ℕ
  uTimeToLive : ℕ
  data : RData
  type_lt : uType < 65536
  class_lt : uClass < 65536
  ttl_lt : uTimeToLive < 4294967296
  length_lt : data.encode.length < 65536

/-- Type, class and TTL of a record. -/
def Record.fixed (r : Record) : Bytes := be16 r.uType ++ be16 r.uClass ++ be32 r.uTimeToLive

def Record.encode (r : Record) : Bytes :=
  r.owner.encode ++ r.fixed ++ be16 r.data.encode.length ++ r.data.encode

/-- **A message** with one question. -/
structure Message where
  uID : ℕ
  uFlag : ℕ
  uAuthority : ℕ
  uAdditional : ℕ
  qname : List Label
  uQType : ℕ
  answers : List Record
  rest : Bytes
  id_lt : uID < 65536
  flag_lt : uFlag < 65536
  authority_lt : uAuthority < 65536
  additional_lt : uAdditional < 65536
  type_lt : uQType < 65536
  answers_lt : answers.length < 65536

namespace Message

/-- The header. -/
def header (m : Message) : Bytes :=
  be16 m.uID ++ be16 m.uFlag ++ be16 1 ++ be16 m.answers.length ++ be16 m.uAuthority ++
    be16 m.uAdditional

/-- The question. -/
def question (m : Message) : Bytes :=
  (WireName.mk m.qname .root).encode ++ be16 m.uQType ++ be16 1

def encode (m : Message) : Bytes :=
  m.header ++ m.question ++ m.answers.flatMap Record.encode ++ m.rest

/-- The offset of the answers. -/
def questionStop (m : Message) : ℕ := 12 + m.question.length

@[simp] theorem length_header (m : Message) : m.header.length = 12 := rfl

end Message

/-! ### Parts -/

/-- A part of a message: a piece, or a parameter of the type asked for. -/
inductive Part
  | piece (x : Piece)
  | param (a : SvcParam)

def Part.encode : Part → Bytes
  | .piece x => x.encode
  | .param a => a.encode

/-- The number of bytes of a part. -/
def Part.size (x : Part) : ℕ := x.encode.length

def RData.parts : RData → List Part
  | .svc d =>
    .piece (.bytes (be16 d.uPriority)) :: .piece (.name d.target) :: d.params.map Part.param
  | .other pieces => pieces.map Part.piece

def Record.parts (r : Record) : List Part :=
  .piece (.name r.owner) :: .piece (.bytes (r.fixed ++ be16 r.data.encode.length)) :: r.data.parts

/-- The names among parts laid out from `p`, with their offsets. -/
def nameFields : ℕ → List Part → List (ℕ × WireName)
  | _, [] => []
  | p, .piece (.name n) :: l => (p, n) :: nameFields (p + n.encode.length) l
  | p, .piece (.bytes b) :: l => nameFields (p + b.length) l
  | p, .param a :: l => nameFields (p + a.encode.length) l

/-- The parts of a message, up to the end of the answers. -/
def Message.parts (m : Message) : List Part :=
  .piece (.bytes m.header) :: .piece (.name ⟨m.qname, .root⟩) ::
    .piece (.bytes (be16 m.uQType ++ be16 1)) :: m.answers.flatMap Record.parts

theorem encode_dataParts (d : RData) : d.encode = d.parts.flatMap Part.encode := by
  rcases d with d | pieces
  · rw [RData.parts, List.flatMap_cons, List.flatMap_cons, List.flatMap_map]
    exact List.append_assoc _ _ _
  · show _ = (pieces.map Part.piece).flatMap Part.encode
    rw [List.flatMap_map]
    rfl

theorem encode_recordParts (r : Record) : r.encode = r.parts.flatMap Part.encode := by
  rw [Record.encode, Record.parts, List.flatMap_cons, List.flatMap_cons, ← encode_dataParts]
  simp only [Part.encode, Piece.encode, List.append_assoc]

theorem encode_answersParts (rs : List Record) :
    rs.flatMap Record.encode = (rs.flatMap Record.parts).flatMap Part.encode := by
  rw [List.flatMap_assoc]
  exact List.flatMap_congr fun r _ => encode_recordParts r

theorem encode_messageParts (m : Message) : m.encode = m.parts.flatMap Part.encode ++ m.rest := by
  rw [Message.encode, Message.parts, List.flatMap_cons, List.flatMap_cons, List.flatMap_cons,
    ← encode_answersParts]
  simp only [Part.encode, Piece.encode, Message.question, List.append_assoc]

theorem total_parts (l : List Part) : total Part.size l = (l.flatMap Part.encode).length := by
  induction l with
  | nil => rfl
  | cons x l ih => rw [total_cons, ih, List.flatMap_cons, List.length_append, Part.size]

theorem mem_nameFields {p : ℕ} {l : List Part} {f : ℕ × WireName} : f ∈ nameFields p l ↔
    ∃ l₁ l₂, l = l₁ ++ .piece (.name f.2) :: l₂ ∧ f.1 = p + total Part.size l₁ := by
  induction l generalizing p with
  | nil => simp [nameFields]
  | cons x l ih =>
    have hskip : f ∈ nameFields (p + x.size) l → ∃ l₁ l₂, x :: l = l₁ ++ .piece (.name f.2) :: l₂ ∧
        f.1 = p + total Part.size l₁ := by
      intro h
      obtain ⟨l₁, l₂, rfl, hp⟩ := ih.mp h
      exact ⟨x :: l₁, l₂, rfl, by rw [hp, total_cons, Nat.add_assoc]⟩
    have hinv : ∀ {l₁ l₂}, x :: l = l₁ ++ .piece (.name f.2) :: l₂ → f.1 = p + total Part.size l₁ →
        (x = .piece (.name f.2) ∧ f.1 = p) ∨ f ∈ nameFields (p + x.size) l := by
      intro l₁ l₂ he hp
      rcases l₁ with _ | ⟨y, l₁⟩
      · exact Or.inl ⟨(List.cons.inj he).1, hp⟩
      · obtain ⟨rfl, rfl⟩ := List.cons.inj he
        exact Or.inr (ih.mpr ⟨l₁, l₂, rfl, by rw [hp, total_cons, Nat.add_assoc]⟩)
    constructor
    · intro h
      rcases x with (b | n) | a
      · exact hskip h
      · rcases List.mem_cons.mp h with rfl | h
        · exact ⟨[], l, rfl, rfl⟩
        · exact hskip h
      · exact hskip h
    · rintro ⟨l₁, l₂, he, hp⟩
      rcases hinv he hp with ⟨rfl, hf⟩ | h
      · exact List.mem_cons.mpr (Or.inl (Prod.ext hf rfl))
      · rcases x with (b | n) | a
        · exact h
        · exact List.mem_cons_of_mem _ h
        · exact h

/-! ### Parsing a record -/

theorem readUINT16_of_rest {b : AutoBuffer} {n : ℕ} {r : Bytes} (hn : n < 65536)
    (h : b.rest = be16 n ++ r) : ∃ b', b.readUINT16 = some (n, b') ∧ b'.rest = r := by
  obtain ⟨b', hb, hr, -, -⟩ := AutoBuffer.readNumber_of_rest h
  rw [beNat_be16 hn] at hb
  exact ⟨b', hb, hr⟩

/-- **A record is read** if its class is IN; otherwise the parse fails. -/
theorem readRecord_encode {r : Record} {b : AutoBuffer} {s : Bytes} (h : b.rest = r.encode ++ s) :
    if r.uClass = 1 then
      ∃ b', readRecord b = some (r.uType, r.data.encode, b') ∧ b'.rest = s
    else readRecord b = none := by
  unfold Record.encode Record.fixed at h
  simp only [List.append_assoc] at h
  obtain ⟨b₁, h₁, hr₁⟩ := skipBufferName_encode h
  obtain ⟨b₂, h₂, hr₂⟩ := readUINT16_of_rest r.type_lt hr₁
  obtain ⟨b₃, h₃, hr₃⟩ := readUINT16_of_rest r.class_lt hr₂
  obtain ⟨b₄, h₄, hr₄, -, -⟩ := AutoBuffer.readNumber_of_rest hr₃
  obtain ⟨b₅, h₅, hr₅⟩ := readUINT16_of_rest r.length_lt hr₄
  obtain ⟨b₆, h₆, hr₆, -, -⟩ := AutoBuffer.readBuffer_of_rest hr₅
  have h₄ : b₃.readUINT32 = some (_, b₄) := h₄
  unfold readRecord
  simp only [h₁, h₂, h₃, Option.bind_eq_bind, Option.bind_some]
  by_cases hc : r.uClass = 1
  · simp only [hc, ne_eq, not_true, if_false, if_true, h₄, h₅, h₆, Option.bind_some]
    exact ⟨b₆, rfl, hr₆⟩
  · simp [hc]

/-- The addresses of parameters, in order. -/
def paramHints (params : List SvcParam) (a : Addresses) : Addresses :=
  params.foldl (fun a p => svcParamHint p.uKey p.value a) a

theorem parseSvcParams_encode {params : List SvcParam} {b : AutoBuffer}
    (h : b.rest = params.flatMap SvcParam.encode) (a : Addresses) :
    parseSvcParams b a = (true, paramHints params a) := by
  induction params generalizing b a with
  | nil =>
    have hl := congrArg List.length h
    rw [AutoBuffer.length_rest, List.flatMap_nil, List.length_nil] at hl
    unfold AutoBuffer.unread at hl
    rw [parseSvcParams_eq, if_neg (by omega)]
    rfl
  | cons p params ih =>
    have hl := congrArg List.length h
    rw [List.flatMap_cons, SvcParam.encode] at h
    simp only [List.append_assoc] at h
    obtain ⟨b₁, h₁, hr₁⟩ := readUINT16_of_rest p.key_lt h
    obtain ⟨b₂, h₂, hr₂⟩ := readUINT16_of_rest p.length_lt hr₁
    obtain ⟨b₃, h₃, hr₃, -, -⟩ := AutoBuffer.readBuffer_of_rest hr₂
    rw [AutoBuffer.length_rest, List.flatMap_cons, List.length_append, SvcParam.encode] at hl
    simp only [List.length_append, length_be16] at hl
    unfold AutoBuffer.unread at hl
    rw [parseSvcParams_eq, if_pos (by omega)]
    simp only [h₁, h₂, h₃]
    exact ih hr₃ _

/-- **The hints of SVCB data** are those of its parameters. -/
theorem parseSvcParamHint_encode (d : SvcData) (a : Addresses) :
    parseSvcParamHint d.encode a = (true, paramHints d.params a) := by
  have h : (assign d.encode).rest =
      be16 d.uPriority ++ (d.target.encode ++ d.params.flatMap SvcParam.encode) := by
    rw [← List.append_assoc]
    rfl
  obtain ⟨b₁, h₁, hr₁, -, -⟩ := AutoBuffer.readNumber_of_rest h
  obtain ⟨b₂, h₂, hr₂⟩ := skipBufferName_encode (r := d.params.flatMap SvcParam.encode) hr₁
  have h₁ : (assign d.encode).readUINT16 = some (_, b₁) := h₁
  unfold parseSvcParamHint
  simp only [h₁, h₂]
  exact parseSvcParams_encode hr₂ a

/-! ### The question -/

/-- **Header and question** are read; the answers are next. -/
theorem parse_encode (m : Message) : ∃ b, parseRequestAAndAnswers (assign m.encode) {} =
      (some b, ⟨m.uID, m.uFlag, m.answers.length, joined m.qname, m.uQType⟩) ∧
    b.rest = m.answers.flatMap Record.encode ++ m.rest ∧ b.szOffset = m.questionStop := by
  have h12 : 12 ≤ m.encode.length := by
    unfold Message.encode
    simp only [List.length_append, Message.length_header]
    omega
  have hdrop : m.encode.drop 12 = encodeLabels m.qname ++ ([0] ++ (be16 m.uQType ++ (be16 1 ++
      (m.answers.flatMap Record.encode ++ m.rest)))) := by
    have h : m.encode = m.header ++ (encodeLabels m.qname ++ ([0] ++ (be16 m.uQType ++ (be16 1 ++
        (m.answers.flatMap Record.encode ++ m.rest))))) := by
      simp [Message.encode, Message.question, WireName.encode, NameEnd.encode]
    rw [h]
    exact List.drop_left' m.length_header
  have hq : u16At m.encode 4 = 1 := rfl
  have hid : u16At m.encode 0 = m.uID := beNat_be16 m.id_lt
  have hflag : u16At m.encode 2 = m.uFlag := beNat_be16 m.flag_lt
  have hn : u16At m.encode 6 = m.answers.length := beNat_be16 m.answers_lt
  obtain ⟨b₁, h₁, hr₁, ho₁⟩ := getBufferNameLoop_encode (b := ⟨m.encode, 12, h12⟩) hdrop [] []
  obtain ⟨b₂, h₂, hr₂, -, ho₂⟩ := AutoBuffer.readNumber_of_rest hr₁
  obtain ⟨b₃, h₃, hr₃, -, ho₃⟩ := AutoBuffer.readNumber_of_rest hr₂
  have h₂ : b₁.readUINT16 = some (_, b₂) := h₂
  have h₃ : b₂.readUINT16 = some (_, b₃) := h₃
  refine ⟨b₃, ?_, hr₃, ?_⟩
  · rw [parse_eq h12 hq]
    unfold parseQuestion getBufferName parseTypeClass
    simp only [h₁, h₂, h₃, beNat_be16 (show 1 < 65536 by norm_num), beNat_be16 m.type_lt, if_true, hid,
      hflag, hn, List.nil_append, take_dotted]
  · rw [ho₃, ho₂, ho₁]
    simp only [length_be16, Message.questionStop, Message.question, WireName.encode, NameEnd.encode,
      List.length_append, List.length_singleton]
    omega

/-- **`QuestionEnd`** finds the end of the question and the number of answers. -/
theorem questionEnd_encode (m : Message) :
    questionEnd m.encode = .ok (m.questionStop, m.answers.length) := by
  obtain ⟨b, hb, -, ho⟩ := parse_encode m
  unfold questionEnd
  simp only [hb, ho]

end DnsMultiZone.Rfc1035.Records
