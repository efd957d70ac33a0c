import DnsMultiZone.Rfc1035.Accept
import DnsMultiZone.Rfc1035.Judge
import Mathlib.Data.List.Perm.Basic

/-! # Answer records in another order

`ParseResponseA` reads the records one after the other. The bytes it reads for one (`recordStrings`) are
read alike wherever they stand (`ReadsAs`), if the record's name is there as a whole (`NameString`): a
label that reaches past the end of the message is read as one that is not there, so moved away from the
end it takes up the bytes after it.

* `parseAnswers_iff`: the records are accepted one by one.
* `permuted_response`: without such labels, records in another order are accepted with the same
  addresses.
* `answers_encode`: messages that were written have no such labels. -/

namespace DnsMultiZone.Rfc1035.Permute

open DnsMultiZone.Lib.BigEndian DnsMultiZone.Config.Address
open DnsMultiZone.Rfc1035.Reader DnsMultiZone.Rfc1035.Parse DnsMultiZone.Rfc1035.Question
open DnsMultiZone.Rfc1035.Wire DnsMultiZone.Rfc1035.Records DnsMultiZone.Rfc1035.Judge
open DnsMultiZone.Rfc1035.Accept

/-! ### Records as strings -/

/-- A string that `SkipBufferName` takes for a name: labels that are there as a whole, and a zero byte or
a pointer. -/
inductive NameString : Bytes → Prop
  | root : NameString [0]
  | pointer (c c' : UInt8) (h : c.toNat &&& 0xC0 = 0xC0) : NameString [c, c']
  | label (c : UInt8) (x n : Bytes) (h : ¬ c.toNat &&& 0xC0 = 0xC0) (h0 : c.toNat ≠ 0)
      (hx : x.length = c.toNat) (hn : NameString n) : NameString (c :: (x ++ n))

/-- What was read between two readers of a buffer. -/
def taken (b b' : AutoBuffer) : Bytes := b.rest.take (b.rest.length - b'.rest.length)

/-- The bytes of the next `n` records, one string for each. -/
def recordStrings : ℕ → AutoBuffer → Option (List Bytes)
  | 0, _ => some []
  | n + 1, b =>
    match readRecord b with
    | none => none
    | some (_, _, b') =>
      (recordStrings n b').map (taken b b' :: ·)

/-- The names of the next `n` records are there as a whole. -/
def WholeNames : ℕ → AutoBuffer → Prop
  | 0, _ => True
  | n + 1, b => (∃ name s, NameString name ∧ b.rest = name ++ s) ∧
      ∀ t x b', readRecord b = some (t, x, b') → WholeNames n b'

/-- A string is read as a record of a type with data, whatever comes after it. -/
def ReadsAs (s : Bytes) (r : ℕ × Bytes) : Prop :=
  ∀ (b : AutoBuffer) (s' : Bytes), b.rest = s ++ s' →
    ∃ b', readRecord b = some (r.1, r.2, b') ∧ b'.rest = s'

theorem skip_nameString {n : Bytes} (h : NameString n) {b : AutoBuffer} {s : Bytes}
    (hb : b.rest = n ++ s) : ∃ b', skipBufferName b = some b' ∧ b'.rest = s := by
  induction h generalizing b with
  | root =>
    obtain ⟨b', hr, hs, -⟩ := readUINT8_cons hb
    refine ⟨b', ?_, hs⟩
    rw [skipBufferName_eq]
    simp only [hr, UInt8.toNat_zero, Nat.zero_and]
    rfl
  | pointer c c' hc =>
    obtain ⟨b₁, hr, hs, -⟩ := readUINT8_cons hb
    obtain ⟨b₂, hr₂, hs₂, -⟩ := readUINT8_cons hs
    refine ⟨b₂, ?_, hs₂⟩
    rw [skipBufferName_eq]
    simp only [hr, hc, if_true, hr₂, Option.map_some]
  | label c x n hc h0 hx hn ih =>
    rw [List.cons_append, List.append_assoc] at hb
    obtain ⟨b₁, hr, hs, -⟩ := readUINT8_cons hb
    obtain ⟨b₂, hr₂, hs₂, -, -⟩ := AutoBuffer.readBuffer_of_rest hs
    obtain ⟨b', hb', hs'⟩ := ih hs₂
    refine ⟨b', ?_, hs'⟩
    rw [skipBufferName_eq]
    rw [hx] at hr₂
    simp only [hr, hc, if_false, h0, hr₂]
    exact hb'

theorem taken_eq {b b' : AutoBuffer} {x : Bytes} (h : b.rest = x ++ b'.rest) : taken b b' = x := by
  rw [taken, h, List.length_append, Nat.add_sub_cancel, List.take_left]

/-- **A record that is read**, its name there as a whole, is read alike before anything. -/
theorem readsAs_of_readRecord {b b' : AutoBuffer} {t : ℕ} {x name s : Bytes}
    (h : readRecord b = some (t, x, b')) (hn : NameString name) (hb : b.rest = name ++ s) :
    ReadsAs (taken b b') (t, x) ∧ b.rest = taken b b' ++ b'.rest := by
  obtain ⟨b₁, ttl, hskip, hafter, ht, httl, hlen⟩ := rest_of_readRecord h
  obtain ⟨c, hc, hs⟩ := skip_nameString hn hb
  obtain rfl := Option.some.inj (hc.symm.trans hskip)
  have hrest : b.rest = (name ++ (be16 t ++ (be16 1 ++ (be32 ttl ++ (be16 x.length ++ x))))) ++ b'.rest := by
    rw [hb, ← hs, hafter]
    simp only [List.append_assoc]
  rw [taken_eq hrest]
  refine ⟨fun c s' hc => ?_, hrest⟩
  simp only [List.append_assoc] at hc
  obtain ⟨c₁, g₁, hs₁⟩ := skip_nameString hn hc
  obtain ⟨c₂, g₂, hs₂⟩ := readUINT16_of_rest ht hs₁
  obtain ⟨c₃, g₃, hs₃⟩ := readUINT16_of_rest (by norm_num) hs₂
  obtain ⟨c₄, g₄, hs₄, -, -⟩ := AutoBuffer.readNumber_of_rest hs₃
  obtain ⟨c₅, g₅, hs₅⟩ := readUINT16_of_rest hlen hs₄
  obtain ⟨c₆, g₆, hs₆, -, -⟩ := AutoBuffer.readBuffer_of_rest hs₅
  have g₄ : c₃.readUINT32 = some (_, c₄) := g₄
  refine ⟨c₆, ?_, hs₆⟩
  unfold readRecord
  simp only [g₁, g₂, g₃, g₄, g₅, g₆, Option.bind_eq_bind, Option.bind_some]
  rfl

/-- **Records that are read**, their names there as a whole. -/
theorem readsAs_of_readRecords {n : ℕ} {b : AutoBuffer} {rs : List (ℕ × Bytes)}
    (h : readRecords n b = some rs) (hw : WholeNames n b) :
    ∃ strings rest, recordStrings n b = some strings ∧ b.rest = strings.flatten ++ rest ∧
      strings.length = n ∧ List.Forall₂ ReadsAs strings rs := by
  induction n generalizing b rs with
  | zero =>
    obtain rfl := Option.some.inj h
    exact ⟨[], b.rest, rfl, rfl, rfl, List.Forall₂.nil⟩
  | succ n ih =>
    unfold readRecords at h
    unfold recordStrings
    rcases hr : readRecord b with _ | ⟨t, x, b'⟩ <;> simp only [hr] at h ⊢
    · cases h
    obtain ⟨rs', hrs', rfl⟩ := Option.map_eq_some_iff.mp h
    obtain ⟨⟨name, s, hname, hb⟩, hnext⟩ := hw
    obtain ⟨has, hrest⟩ := readsAs_of_readRecord hr hname hb
    obtain ⟨strings, rest, hs, hbs, hlen, hall⟩ := ih hrs' (hnext _ _ _ hr)
    refine ⟨taken b b' :: strings, rest, by rw [hs]; rfl, ?_, by rw [List.length_cons, hlen],
      List.Forall₂.cons has hall⟩
    rw [hrest, hbs, List.flatten_cons, List.append_assoc]

/-- Strings that are read as records, one after the other. -/
theorem readRecords_of_readsAs {strings : List Bytes} {rs : List (ℕ × Bytes)}
    (h : List.Forall₂ ReadsAs strings rs) {b : AutoBuffer} {rest : Bytes}
    (hb : b.rest = strings.flatten ++ rest) : readRecords strings.length b = some rs := by
  induction h generalizing b with
  | nil => rfl
  | cons hr _ ih =>
    rw [List.flatten_cons, List.append_assoc] at hb
    obtain ⟨b', hb', hs⟩ := hr b _ hb
    rw [List.length_cons, readRecords, hb']
    simp only [ih hs, Option.map_some]

/-! ### Accepted records -/

/-- A record does not make `ParseResponseA` fail. -/
def Accepted (r : ℕ × Bytes) : Prop := r.2.length ≠ 0 → (recordAddresses r.1 r.2 {}).1 = true

/-- **Records are accepted one by one.** -/
theorem parseAnswers_iff {n : ℕ} {b : AutoBuffer} (a : Addresses) :
    (parseAnswers n b a).1 = true ↔ ∃ rs, readRecords n b = some rs ∧ ∀ r ∈ rs, Accepted r := by
  induction n generalizing b a with
  | zero => exact iff_of_true rfl ⟨[], rfl, by simp⟩
  | succ n ih =>
    unfold parseAnswers readRecords
    rcases hr : readRecord b with _ | ⟨t, x, b'⟩ <;> simp only
    · refine iff_of_false (by simp) ?_
      rintro ⟨rs, h, -⟩
      cases h
    have hnext : (∃ rs, readRecords n b' = some rs ∧ ∀ r ∈ rs, Accepted r) ∧ Accepted (t, x) ↔
        ∃ rs, (readRecords n b').map ((t, x) :: ·) = some rs ∧ ∀ r ∈ rs, Accepted r := by
      constructor
      · rintro ⟨⟨rs, hrs, hall⟩, hacc⟩
        exact ⟨(t, x) :: rs, by rw [hrs]; rfl, List.forall_mem_cons.mpr ⟨hacc, hall⟩⟩
      · rintro ⟨rs, hrs, hall⟩
        obtain ⟨rs', hrs', rfl⟩ := Option.map_eq_some_iff.mp hrs
        exact ⟨⟨rs', hrs', (List.forall_mem_cons.mp hall).2⟩, (List.forall_mem_cons.mp hall).1⟩
    rw [← hnext]
    by_cases hx : x.length ≠ 0
    · rw [if_pos hx, recordAddresses_append]
      rcases hok : (recordAddresses t x {}).1
      · exact iff_of_false (by simp) fun h => by
          have hacc := h.2 hx
          rw [hok] at hacc
          cases hacc
      · exact (ih _).trans (and_iff_left fun _ => hok).symm
    · rw [if_neg hx]
      exact (ih a).trans (and_iff_left fun h => absurd h hx).symm

/-! ### A response in another order -/

/-- The answer records of a response as they were read, between what is before and after them. -/
structure AnswersAt (d : Bytes) (front : Bytes) (strings : List Bytes) (rest : Bytes) : Prop where
  parts : d = front ++ strings.flatten ++ rest
  read : ∃ b o, parseRequestAAndAnswers (assign d) {} = (some b, o) ∧ front.length = b.szOffset ∧
    recordStrings o.uAnswers b = some strings

/-- The names of the answer records of a response are there as a whole. -/
def WholeOwners (d : Bytes) : Prop :=
  ∀ b o, parseRequestAAndAnswers (assign d) {} = (some b, o) → WholeNames o.uAnswers b

theorem answers_of_parse {d : Bytes} {b : AutoBuffer} {o : Header}
    (h : parseRequestAAndAnswers (assign d) {} = (some b, o)) : o.uAnswers = u16At d 6 := by
  obtain ⟨-, b₁, s, -, -, ht⟩ := reads_of_parse h
  obtain ⟨uType, -, rfl⟩ := rest_of_parseTypeClass ht
  rfl

theorem parseResponseA_of_parse {d : Bytes} {b : AutoBuffer} {o : Header}
    (h : parseRequestAAndAnswers (assign d) {} = (some b, o)) :
    parseResponseA d = ((parseAnswers o.uAnswers b {}).1, o, (parseAnswers o.uAnswers b {}).2) := by
  unfold parseResponseA
  rw [h]

/-- Other bytes of the same length after the question leave the question as it is. -/
theorem parse_front {front x y : Bytes} {b : AutoBuffer} {o : Header}
    (h : parseRequestAAndAnswers (assign (front ++ x)) {} = (some b, o)) (hf : front.length = b.szOffset)
    (hxy : y.length = x.length) :
    ∃ c, parseRequestAAndAnswers (assign (front ++ y)) {} = (some c, o) ∧ c.rest = y := by
  have h12 := (reader_of_parse h).1
  have htake : ∀ z : Bytes, (front ++ z).take 6 = front.take 6 := fun z =>
    List.take_append_of_le_length (by omega)
  have hat : ∀ z : Bytes, u16At (front ++ z) 6 = u16At front 6 := fun z => by
    unfold u16At
    rw [List.drop_append_of_le_length (by omega), List.take_append_of_le_length (by simp; omega)]
  obtain ⟨c, hc, hoff⟩ := parse_stable h ((htake y).trans (htake x).symm)
    (fun i _ hi => by rw [List.getElem?_append_left (by omega), List.getElem?_append_left (by omega)])
    (by rw [List.length_append]; omega) (by simp [hxy])
  refine ⟨c, ?_, ?_⟩
  · rw [hc, hat y, ← hat x, ← answers_of_parse h]
  · rw [AutoBuffer.rest, (reader_of_parse hc).2, hoff, ← hf, List.drop_left]

/-- **Records in another order** are accepted, with the same addresses. -/
theorem permuted_response {d front rest : Bytes} {strings strings' : List Bytes}
    (h : (parseResponseA d).1 = true) (hw : WholeOwners d) (hd : AnswersAt d front strings rest)
    (hp : strings'.Perm strings) :
    (parseResponseA (front ++ strings'.flatten ++ rest)).1 = true ∧
    (parseResponseA (front ++ strings'.flatten ++ rest)).2.1 = (parseResponseA d).2.1 ∧
    (parseResponseA (front ++ strings'.flatten ++ rest)).2.2.luIPs.Perm (parseResponseA d).2.2.luIPs ∧
    (parseResponseA (front ++ strings'.flatten ++ rest)).2.2.luIP6s.Perm
      (parseResponseA d).2.2.luIP6s := by
  obtain ⟨hparts, b, o, hq, hfront, hstr⟩ := hd
  have hok : (parseAnswers o.uAnswers b {}).1 = true := by rwa [parseResponseA_of_parse hq] at h
  obtain ⟨rs, hrs, hacc⟩ := (parseAnswers_iff {}).mp hok
  obtain ⟨strings₀, rest₀, hstr₀, hb, hlen, hall⟩ := readsAs_of_readRecords hrs (hw b o hq)
  obtain rfl := Option.some.inj (hstr₀.symm.trans hstr)
  obtain ⟨rs', hall', hperm⟩ := List.perm_comp_forall₂ hp hall
  -- the message in another order has the same question, and its own records after it
  rw [List.append_assoc] at hparts
  obtain ⟨c, hc, hcrest⟩ := @parse_front front (strings₀.flatten ++ rest) (strings'.flatten ++ rest) b o
    (hparts ▸ hq) hfront (by simp only [List.length_append, hp.flatten.length_eq])
  rw [← List.append_assoc] at hc
  have hrs' : readRecords o.uAnswers c = some rs' := by
    have hread := readRecords_of_readsAs hall' hcrest
    rwa [hp.length_eq, hlen] at hread
  have hok' : (parseAnswers o.uAnswers c {}).1 = true :=
    (parseAnswers_iff {}).mpr ⟨rs', hrs', fun r hr => hacc r (hperm.mem_iff.mp hr)⟩
  obtain ⟨qs, hqs, h4, h6⟩ := addresses_of_parseAnswers (Prod.ext hok rfl : parseAnswers _ b {} = (true, _))
  obtain ⟨qs', hqs', h4', h6'⟩ := addresses_of_parseAnswers (Prod.ext hok' rfl : parseAnswers _ c {} = (true, _))
  obtain rfl := Option.some.inj (hqs.symm.trans hrs)
  obtain rfl := Option.some.inj (hqs'.symm.trans hrs')
  rw [parseResponseA_of_parse hq, parseResponseA_of_parse hc]
  refine ⟨hok', rfl, ?_, ?_⟩
  · rw [h4, h4']
    exact (hperm.flatMap_right _).append_left _
  · rw [h6, h6']
    exact (hperm.flatMap_right _).append_left _

/-! ### Messages -/

theorem nameString_encode (n : WireName) : NameString n.encode := by
  obtain ⟨ls, stop⟩ := n
  induction ls with
  | nil =>
    rcases stop with _ | ⟨t, lt⟩
    · exact NameString.root
    · obtain ⟨c, c', hc, he⟩ : ∃ c c' : UInt8, c &&& 0xC0 = 0xC0 ∧ (NameEnd.ptr t lt).encode = [c, c'] :=
        ⟨_, _, ptr_byte lt, rfl⟩
      show NameString (NameEnd.ptr t lt).encode
      rw [he]
      exact NameString.pointer c c' (by simpa using congrArg UInt8.toNat hc)
  | cons l ls ih =>
    show NameString (l.encode ++ encodeLabels ls ++ stop.encode)
    rw [List.append_assoc]
    refine NameString.label _ l.bytes _ ?_ ?_ l.toNat_length.symm ih
    · rw [l.toNat_length]
      exact l.not_ptr
    · rw [l.toNat_length]
      exact l.length_ne_zero

/-- **Records that were written** are read one by one, and their names are there as a whole. -/
theorem records_encode {rs : List Record} (hrs : ∀ r ∈ rs, r.uClass = 1) {b : AutoBuffer} {s : Bytes}
    (hb : b.rest = rs.flatMap Record.encode ++ s) :
    WholeNames rs.length b ∧ recordStrings rs.length b = some (rs.map Record.encode) := by
  induction rs generalizing b with
  | nil => exact ⟨trivial, rfl⟩
  | cons r rs ih =>
    obtain ⟨hc, hrs⟩ := List.forall_mem_cons.mp hrs
    rw [List.flatMap_cons, List.append_assoc] at hb
    have hread := readRecord_encode hb
    rw [if_pos hc] at hread
    obtain ⟨b', hread, hrest⟩ := hread
    obtain ⟨hw, hs⟩ := ih hrs hrest
    have hname : b.rest = r.owner.encode ++ (r.fixed ++ (be16 r.data.encode.length ++ (r.data.encode ++
        (rs.flatMap Record.encode ++ s)))) := by
      rw [hb, Record.encode]
      simp only [List.append_assoc]
    refine ⟨⟨⟨_, _, nameString_encode r.owner, hname⟩, fun t x b'' h => ?_⟩, ?_⟩
    · rw [hread] at h
      obtain rfl := (Prod.mk.inj (Prod.mk.inj (Option.some.inj h)).2).2
      exact hw
    · rw [List.length_cons, recordStrings]
      simp only [hread, hs, Option.map_some, List.map_cons]
      rw [taken_eq (hb.trans (congrArg _ hrest.symm))]

theorem answers_encode (m : Message) (h : ∀ r ∈ m.answers, r.uClass = 1) : WholeOwners m.encode ∧
    AnswersAt m.encode (m.header ++ m.question) (m.answers.map Record.encode) m.rest := by
  obtain ⟨b, hb, hrest, hoff⟩ := parse_encode m
  obtain ⟨hw, hs⟩ := records_encode h hrest
  refine ⟨fun c o hc => ?_, ?_, b, _, hb, ?_, hs⟩
  · rw [hb] at hc
    obtain ⟨hbc, rfl⟩ := Prod.mk.inj hc
    exact Option.some.inj hbc ▸ hw
  · rw [Message.encode, List.flatMap_def]
  · rw [hoff, Message.questionStop, List.length_append, Message.length_header]

end DnsMultiZone.Rfc1035.Permute
