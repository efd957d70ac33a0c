import DnsMultiZone.Rfc1035.Accept
import DnsMultiZone.Rfc1035.Expand
import DnsMultiZone.Rfc1035.Judge
import DnsMultiZone.Work.Query

/-! # Which answers can be forwarded

`SendResult` does not send an answer that `DropAddress` refuses. `ParseResponseA` passes over a record
without data, and over up to three bytes behind the parameters of a record. `DropAddress` takes a record of
the asked type apart to the last byte, and refuses it unless its data is a priority, a target name, and
parameters that fill it. Records of another type after a dropped parameter it does not come to.

* `exists_answersOf`: the records of an answer that parses, its names of whole labels.
* `dropRecords_iff`: when the rewriter gets over records.
* `forwarded`: which answers are sent. -/

namespace DnsMultiZone.Work.Forward

open DnsMultiZone.Lib.BigEndian DnsMultiZone.Lib.Results DnsMultiZone.Lib.Relocate
open DnsMultiZone.Rfc1035.Reader DnsMultiZone.Rfc1035.Parse DnsMultiZone.Rfc1035.Drop
open DnsMultiZone.Rfc1035.Append DnsMultiZone.Rfc1035.Question DnsMultiZone.Rfc1035.Wire
open DnsMultiZone.Rfc1035.Records DnsMultiZone.Rfc1035.Rewrite DnsMultiZone.Rfc1035.Judge
open DnsMultiZone.Rfc1035.Accept DnsMultiZone.Work.Query
open DnsMultiZone.Rfc1035.Expand (sample wellFormed_sample)

variable {d s out rest : Bytes} {uQType : ℕ} {v4 v6 : Bool} {r : Record} {rs : List Record} {c : Cursor}

/-! ### The records of an answer -/

/-- The data is a priority, a target name, and parameters, with no byte left. -/
def IsSvcData (x : Bytes) : Prop := ∃ d : SvcData, d.encode = x

/-- The data of a record of the asked type has the structure of SVCB data if it is SVCB data; that of any
other record is just bytes. -/
def Typed (uQType : ℕ) (r : Record) : Prop :=
  (r.uType = uQType ∧ IsSvcData r.data.encode → ∃ d, r.data = .svc d) ∧
  (¬ (r.uType = uQType ∧ IsSvcData r.data.encode) → ∃ x, r.data = .other [.bytes x])

/-- The answer records of a message. -/
structure AnswersOf (d : Bytes) (uQType : ℕ) (rs : List Record) : Prop where
  bytes : ∃ p rest, questionEnd d = .ok (p, rs.length) ∧ d.drop p = rs.flatMap Record.encode ++ rest
  typed : ∀ r ∈ rs, Typed uQType r

/-- Any record can be seen so. -/
theorem exists_typed (uQType : ℕ) (r : Record) : ∃ r', r'.encode = r.encode ∧ Typed uQType r' := by
  have hdata : ∀ data : RData, data.encode = r.data.encode →
      ∃ r' : Record, r'.encode = r.encode ∧ r'.uType = r.uType ∧ r'.data = data := by
    intro data hd
    refine ⟨{ r with data, length_lt := by rw [hd]; exact r.length_lt }, ?_, rfl, rfl⟩
    simp only [Record.encode, Record.fixed, hd]
  by_cases h : r.uType = uQType ∧ IsSvcData r.data.encode
  · obtain ⟨d, hd⟩ := h.2
    obtain ⟨r', hr', ht, hdata'⟩ := hdata (.svc d) hd
    refine ⟨r', hr', fun _ => ⟨d, hdata'⟩, fun hn => ?_⟩
    refine absurd ⟨ht.trans h.1, ?_⟩ hn
    rw [hdata']
    exact ⟨d, rfl⟩
  · have hx : (RData.other [.bytes r.data.encode]).encode = r.data.encode := List.append_nil _
    obtain ⟨r', hr', ht, hdata'⟩ := hdata (.other [.bytes r.data.encode]) hx
    refine ⟨r', hr', fun hs => ?_, fun _ => ⟨_, hdata'⟩⟩
    rw [ht, hdata', hx] at hs
    exact absurd hs h

/-- **The records of an answer that parses**, its names of whole labels. -/
theorem exists_answersOf {o : Header} {a : Addresses} (h : parseResponseA d = (true, o, a))
    (hw : WholeResponse d) (uQType : ℕ) : ∃ rs, AnswersOf d uQType rs := by
  unfold parseResponseA at h
  rcases hp : parseRequestAAndAnswers (assign d) {} with ⟨_ | b, o'⟩ <;> simp only [hp] at h
  · cases h
  obtain ⟨hok, -⟩ := Prod.mk.inj h
  obtain ⟨hq, hn⟩ := question_of_parse hp hw.1
  obtain ⟨ls, hls, -⟩ := hq.asked
  have hwr := hw.2 ls o'.uQType b.rest hls
  rw [hn] at hok
  obtain ⟨rs, rest, hs, hl, -⟩ := records_of_parseAnswers (Prod.ext hok rfl) hwr
  choose typed henc htyped using exists_typed uQType
  refine ⟨rs.map typed, ⟨b.szOffset, rest, ?_, ?_⟩, fun r hr => ?_⟩
  · rw [questionEnd_of_parse hp, hn, List.length_map, hl]
  · have hrest : b.rest = d.drop b.szOffset := by
      unfold AutoBuffer.rest
      rw [(reader_of_parse hp).2]
    rw [← hrest, hs, List.flatMap_map]
    congr 1
    exact List.flatMap_congr fun r _ => (henc r).symm
  · obtain ⟨r', -, rfl⟩ := List.mem_map.mp hr
    exact htyped r'

/-! ### When the rewriter gets over records -/

/-- **A record of the asked type** that the rewriter gets over has SVCB data. -/
theorem svcData_of_dropRecord {o : Option Cursor} (h : s.drop c.p = r.encode ++ rest)
    (ht : r.uType = uQType) (hd : dropRecord s uQType v4 v6 c = .ok o) : IsSvcData r.data.encode := by
  rw [dropRecord_head v4 v6 h, if_neg fun hn => hn.1 ht] at hd
  rcases hc : copyRecord s r.uType uQType v4 v6 c with e | c' <;> rw [hc] at hd
  · cases hd
  obtain ⟨-, hcount, hdata⟩ := drop_fields h
  obtain ⟨len, fixed, c₁, sOut, hlen, hstop, -, hc₁, -, -⟩ :=
    copyRecord_steps (copyName_walk (drop_record h) c.sOut c.vRemoved) hc
  rw [readU16_of_drop r.length_lt hcount] at hlen
  obtain rfl := Except.ok.inj hlen
  unfold dropData at hc₁
  rw [if_neg (not_not.mpr ht)] at hc₁
  have hp := (dropSvcData_ok hc₁).2
  obtain ⟨data, -, hread, -⟩ := svcData_of_dropSvcData hstop hc₁
  dsimp only at hread hp
  rw [hdata, hp] at hread
  have hlength := congrArg List.length hread
  have hrest := congrArg List.length hdata
  rw [List.length_append, List.length_append, List.length_drop] at hlength
  rw [List.length_append, List.length_drop] at hrest
  have heq : r.data.encode.length = data.encode.length := by omega
  exact ⟨data, (List.append_inj hread heq).1.symm⟩

theorem Typed.svc_iff (h : Typed uQType r) (hsvc : r.uType = uQType → ∃ d, r.data = .svc d) :
    r.uType = uQType ↔ ∃ d, r.data = .svc d := by
  refine ⟨hsvc, fun ⟨d, hd⟩ => ?_⟩
  by_contra hne
  obtain ⟨x, hx⟩ := h.2 fun hn => hne hn.1
  rw [hd] at hx
  cases hx

/-- **The rewriter gets over records** if and only if those of the asked type that it comes to have SVCB
data. -/
theorem dropRecords_iff {i : ℕ} (h : s.drop c.p = rs.flatMap Record.encode ++ rest)
    (ht : ∀ r ∈ rs, Typed uQType r) :
    (∃ x, dropRecords s uQType v4 v6 rs.length i c = .ok x) ↔
      ∀ r ∈ keptRecords v4 v6 uQType (c.vRemoved ≠ []) rs, r.uType = uQType → ∃ d, r.data = .svc d := by
  induction rs generalizing i c with
  | nil => exact ⟨fun _ r hr => absurd hr List.not_mem_nil, fun _ => ⟨_, rfl⟩⟩
  | cons r rs ih =>
    have htyped := ht r List.mem_cons_self
    rw [List.flatMap_cons, List.append_assoc] at h
    rw [List.length_cons, dropRecords, keptRecords]
    by_cases hsvc : r.uType = uQType → ∃ d, r.data = .svc d
    · have hstep := dropRecord_walk v4 v6 (htyped.svc_iff hsvc) h
      by_cases hstop : r.uType ≠ uQType ∧ c.vRemoved ≠ []
      · -- the records from here on are cut
        rw [if_pos hstop] at hstep
        rw [if_pos ⟨hstop.1, by simpa using hstop.2⟩]
        exact ⟨fun _ r' hr' => absurd hr' List.not_mem_nil, fun _ => ⟨_, bind_of_ok hstep _⟩⟩
      · rw [if_neg hstop] at hstep
        rw [if_neg fun hn => hstop ⟨hn.1, by simpa using hn.2⟩, List.forall_mem_cons,
          ← removed_ne_nil v4 v6 c.vRemoved c.p r.parts, bind_of_ok hstep]
        exact (ih (drop_add h) fun r' hr' => ht r' (List.mem_cons_of_mem _ hr')).trans
          ⟨fun hall => ⟨hsvc, hall⟩, And.right⟩
    · obtain ⟨htype, hnone⟩ := Classical.not_imp.mp hsvc
      have hbad : ¬ IsSvcData r.data.encode := fun hs => hnone (htyped.1 ⟨htype, hs⟩)
      rw [if_neg fun hn => hn.1 htype]
      constructor
      · rintro ⟨x, hx⟩
        obtain ⟨o, ho, -⟩ := ok_of_bind hx
        exact absurd (svcData_of_dropRecord h htype ho) hbad
      · intro hall
        exact absurd (hall r List.mem_cons_self) hsvc

/-- **`DropAddress` on the answer to an SVCB or HTTPS query.** -/
theorem dropAddress_iff (h : AnswersOf d uQType rs) (hq : uQType = typeSVCB ∨ uQType = typeHTTPS) :
    (∃ out, dropAddress d uQType v4 v6 = .ok (true, out)) ↔
      ∀ r ∈ keptRecords v4 v6 uQType false rs, r.uType = uQType → ∃ x, r.data = .svc x := by
  obtain ⟨p, rest, hqe, hdrop⟩ := h.bytes
  obtain ⟨b, o, hp, rfl, hn⟩ := questionEnd_ok hqe
  have hle := (szOffset_of_parse hp).2
  have hiff := @dropRecords_iff d rest uQType v4 v6 rs ⟨b.szOffset, d.take b.szOffset, []⟩ 0 hdrop
    h.typed
  refine Iff.trans ?_ hiff
  simp only [dropAddress_ok, dropped_svc hq]
  constructor
  · rintro ⟨out, hout⟩
    obtain ⟨b', o', i, sOut, hp', hr, -⟩ := dropHints_steps hout
    rw [hp] at hp'
    obtain ⟨hb, rfl⟩ := Prod.mk.inj hp'
    obtain rfl := Option.some.inj hb
    rw [hn] at hr
    exact ⟨_, hr⟩
  · rintro ⟨⟨k, x⟩, hx⟩
    obtain ⟨y, rfl, -⟩ := dropRecords_ok hx hle
    obtain ⟨out, hout⟩ := exists_setCounts hp y k
    exact ⟨out, (dropHints_of_records hqe hle hx).trans hout⟩

/-- **`DropAddress` on the answer to an A or AAAA query.** -/
theorem dropAddress_address {o : Header} {a : Addresses} (h : parseResponseA d = (true, o, a))
    (hq : uQType = typeA ∨ uQType = typeAAAA) : ∃ out, dropAddress d uQType v4 v6 = .ok (true, out) := by
  unfold parseResponseA at h
  rcases hp : parseRequestAAndAnswers (assign d) {} with ⟨_ | b, o'⟩ <;> simp only [hp] at h
  · cases h
  obtain ⟨e, he⟩ := exists_setCounts hp [] 0
  rw [← emptyResponse_of_parse hp] at he
  simp only [dropAddress_ok]
  unfold dropped
  split_ifs with hA h4 hAAAA h6 hother
  · exact ⟨e, he⟩
  · exact ⟨d, rfl⟩
  · exact ⟨e, he⟩
  · exact ⟨d, rfl⟩
  · exact ⟨d, rfl⟩
  · exact absurd hq fun hq => hq.elim hA hAAAA

/-! ### What is sent -/

/-- **`SendResult` sends** what `DropAddress` has rewritten, and the answer itself where the zone drops
nothing. -/
theorem sendResult_isSome (zones : Zones) (i : ℕ) : (sendResult zones i uQType d).isSome ↔
    ((zoneAt zones i).bIsDropIPv4 = false ∧ (zoneAt zones i).bIsDropIPv6 = false) ∨
      ∃ out, dropAddress d uQType (zoneAt zones i).bIsDropIPv4 (zoneAt zones i).bIsDropIPv6 =
        .ok (true, out) := by
  simp only [sendResult]
  by_cases hz : (zoneAt zones i).bIsDropIPv4 = false ∧ (zoneAt zones i).bIsDropIPv6 = false
  · rw [if_pos hz]
    exact iff_of_true rfl (Or.inl hz)
  · rw [if_neg hz]
    rcases dropAddress d uQType (zoneAt zones i).bIsDropIPv4 (zoneAt zones i).bIsDropIPv6 with
      e | ⟨_ | _, out⟩
    · exact ⟨fun h => absurd h (by simp), fun h => h.elim (absurd · hz) fun ⟨_, h⟩ => by cases h⟩
    · exact ⟨fun h => absurd h (by simp), fun h => h.elim (absurd · hz) fun ⟨_, h⟩ => by cases h⟩
    · exact iff_of_true rfl (Or.inr ⟨out, rfl⟩)

/-- **Which answers are sent.** An answer to an A or AAAA query that parses is rewritten whatever is
dropped. One to an SVCB or HTTPS query, if its names are of whole labels, is rewritten if and only if every
record of the asked type, up to the first of another type after a removal, has SVCB data. -/
theorem forwarded {o : Header} {a : Addresses} (h : parseResponseA d = (true, o, a)) (uQType : ℕ)
    (v4 v6 : Bool) :
    (uQType = typeA ∨ uQType = typeAAAA → ∃ out, dropAddress d uQType v4 v6 = .ok (true, out)) ∧
    (uQType = typeSVCB ∨ uQType = typeHTTPS → WholeResponse d → ∃ rs, AnswersOf d uQType rs) ∧
    (uQType = typeSVCB ∨ uQType = typeHTTPS → ∀ rs, AnswersOf d uQType rs →
      ((∃ out, dropAddress d uQType v4 v6 = .ok (true, out)) ↔
        ∀ r ∈ keptRecords v4 v6 uQType false rs, r.uType = uQType → ∃ x, r.data = .svc x)) ∧
    ∀ (zones : Zones) (i : ℕ), (zoneAt zones i).bIsDropIPv4 = v4 → (zoneAt zones i).bIsDropIPv6 = v6 →
      ((sendResult zones i uQType d).isSome ↔
        (v4 = false ∧ v6 = false) ∨ ∃ out, dropAddress d uQType v4 v6 = .ok (true, out)) := by
  refine ⟨dropAddress_address h, fun _ hw => exists_answersOf h hw uQType,
    fun hq rs hrs => dropAddress_iff hrs hq, fun zones i h4 h6 => ?_⟩
  rw [← h4, ← h6]
  exact sendResult_isSome zones i

/-- Both records of the answer have SVCB data, one of them with an address hint. -/
theorem forwarded_sample :
    ∃ out, dropAddress sample.encode typeHTTPS true false = .ok (true, out) := by
  have hparse : (parseResponseA sample.encode).1 = true := by decide +kernel
  have hform : AnswersOf sample.encode typeHTTPS sample.answers := by
    refine ⟨⟨_, sample.rest, questionEnd_encode sample, rfl⟩, fun r hr => ?_⟩
    obtain ⟨x, hx⟩ : ∃ x, r.data = .svc x := by
      rcases List.mem_cons.mp hr with rfl | hr
      · exact ⟨_, rfl⟩
      · rw [List.mem_singleton.mp hr]
        exact ⟨_, rfl⟩
    refine ⟨fun _ => ⟨x, hx⟩, fun hn => absurd ⟨?_, x, ?_⟩ hn⟩
    · exact (wellFormed_sample.svc r hr).mpr ⟨x, hx⟩
    · rw [hx, RData.encode]
  have hiff := (forwarded (Prod.ext hparse rfl) typeHTTPS true false).2.2.1 (Or.inr rfl) _ hform
  refine hiff.mpr fun r hr ht => ?_
  have hr' : r ∈ sample.answers := hr
  exact (wellFormed_sample.svc r hr').mp ht

/-- An HTTPS record without data. -/
def emptyData : Bytes := httpsResponse (be16 65 ++ be16 1 ++ be32 60 ++ be16 0)

/-- **A record without data** is not rewritten. The answer matches, and a zone without IPv6 does not send
it. -/
theorem empty_data_withheld :
    (¬ ∀ (d : Bytes) (o : Header) (a : Addresses) (v4 v6 : Bool), parseResponseA d = (true, o, a) →
      isIPBearingType o.uQType = true → ∃ out, dropAddress d o.uQType v4 v6 = .ok (true, out)) ∧
    (judge { bIsDropIPv6 := true } typeHTTPS (.ofDatagram emptyData) {}).eState = .match ∧
    sendResult [{ bIsDropIPv6 := true }] 0 typeHTTPS emptyData = none := by
  have hok : (parseResponseA emptyData).1 = true := by decide +kernel
  have htype : (parseResponseA emptyData).2.1.uQType = typeHTTPS := by decide +kernel
  have hdrop : dropAddress emptyData typeHTTPS false true = .ok (false, emptyData) := by decide +kernel
  refine ⟨fun h => ?_, by decide +kernel, by decide +kernel⟩
  obtain ⟨out, hout⟩ := h emptyData _ _ false true (Prod.ext hok rfl) (by rw [htype]; rfl)
  rw [htype, hdrop] at hout
  cases hout

end DnsMultiZone.Work.Forward
