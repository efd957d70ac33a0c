import DnsMultiZone.Rfc1035.Records

/-! # What is left of a dropped family

`ParseResponseA` judges the addresses of all records of a response, `DropAddress` rewrites only the
records of the type asked for. So after it the addresses of a dropped family are those of the records
of other types, and of no record of the type asked for; and an `A` or `AAAA` response whose family is
dropped has no records at all.

* `dropped_addresses`: for every message the rewriter accepts.
* `other_record_kept`: an `A` record in the response to an `HTTPS` query. -/

namespace DnsMultiZone.Rfc1035.Judge

open DnsMultiZone.Lib.BigEndian DnsMultiZone.Lib.Results DnsMultiZone.Config.Address
open DnsMultiZone.Rfc1035.Reader DnsMultiZone.Rfc1035.Parse DnsMultiZone.Rfc1035.Drop
open DnsMultiZone.Rfc1035.Append DnsMultiZone.Rfc1035.Question DnsMultiZone.Rfc1035.Wire
open DnsMultiZone.Rfc1035.Records

/-! ### The addresses of each record -/

/-- The next `n` records, with type and data. -/
def readRecords : ℕ → AutoBuffer → Option (List (ℕ × Bytes))
  | 0, _ => some []
  | n + 1, b =>
    match readRecord b with
    | none => none
    | some (uType, sData, b) => (readRecords n b).map ((uType, sData) :: ·)

/-- The answer records of a message. -/
def answerRecords (d : Bytes) : Option (List (ℕ × Bytes)) :=
  match parseRequestAAndAnswers (assign d) {} with
  | (none, _) => none
  | (some b, o) => readRecords o.uAnswers b

/-- The addresses a record carries. -/
def carried (r : ℕ × Bytes) : Addresses :=
  if r.2.length ≠ 0 then (recordAddresses r.1 r.2 {}).2 else {}

/-- One pair of address lists after another. -/
def append (a a' : Addresses) : Addresses := ⟨a.luIPs ++ a'.luIPs, a.luIP6s ++ a'.luIP6s⟩

theorem svcParamHint_append (k : ℕ) (v : Bytes) (a₀ a : Addresses) :
    svcParamHint k v (append a₀ a) = append a₀ (svcParamHint k v a) := by
  unfold svcParamHint append
  split_ifs <;> simp

theorem parseSvcParams_append (b : AutoBuffer) (a₀ a : Addresses) :
    parseSvcParams b (append a₀ a) = ((parseSvcParams b a).1, append a₀ (parseSvcParams b a).2) := by
  fun_induction parseSvcParams b a with
  | case1 b a hlen h₁ =>
    rw [parseSvcParams_eq, if_pos hlen]
    simp only [h₁]
  | case2 b a hlen k b₁ h₁ h₂ =>
    rw [parseSvcParams_eq, if_pos hlen]
    simp only [h₁, h₂]
  | case3 b a hlen k b₁ h₁ l b₂ h₂ h₃ =>
    rw [parseSvcParams_eq, if_pos hlen]
    simp only [h₁, h₂, h₃]
  | case4 b a hlen k b₁ h₁ l b₂ h₂ v b₃ h₃ ih =>
    rw [parseSvcParams_eq, if_pos hlen]
    simp only [h₁, h₂, h₃]
    rw [svcParamHint_append]
    exact ih
  | case5 b a hlen => rw [parseSvcParams_eq, if_neg hlen]

theorem recordAddresses_append (t : ℕ) (d : Bytes) (a : Addresses) :
    recordAddresses t d a = ((recordAddresses t d {}).1, append a (recordAddresses t d {}).2) := by
  have hnil : append a {} = a := by simp [append]
  unfold recordAddresses
  split_ifs
  · rw [hnil]
  · simp [append]
  · rw [hnil]
  · simp [append]
  · rw [hnil]
  · unfold parseSvcParamHint
    rcases (assign d).readUINT16 with _ | ⟨prio, b⟩
    · simp only [hnil]
    rcases h : skipBufferName b with _ | b'
    · simp only [h, hnil]
    · simp only [h]
      rw [← parseSvcParams_append, hnil]
  · rw [hnil]

/-- **The addresses of a response** that parses are those of its records. -/
theorem addresses_of_parseAnswers {n : ℕ} {b : AutoBuffer} {a a' : Addresses}
    (h : parseAnswers n b a = (true, a')) : ∃ rs, readRecords n b = some rs ∧
      a'.luIPs = a.luIPs ++ rs.flatMap (fun r => (carried r).luIPs) ∧
      a'.luIP6s = a.luIP6s ++ rs.flatMap (fun r => (carried r).luIP6s) := by
  induction n generalizing b a with
  | zero =>
    cases h
    exact ⟨[], rfl, by simp, by simp⟩
  | succ n ih =>
    unfold parseAnswers at h
    unfold readRecords
    rcases hr : readRecord b with _ | ⟨t, d, b'⟩ <;> simp only [hr] at h ⊢
    · cases h
    by_cases hd : d.length ≠ 0
    · rw [if_pos hd, recordAddresses_append] at h
      rcases hok : (recordAddresses t d {}).1 <;> simp only [hok] at h
      · cases h
      obtain ⟨rs, hrs, h4, h6⟩ := ih h
      refine ⟨(t, d) :: rs, by rw [hrs]; rfl, ?_, ?_⟩
      · rw [h4, List.flatMap_cons, carried, if_pos hd, ← List.append_assoc]
        rfl
      · rw [h6, List.flatMap_cons, carried, if_pos hd, ← List.append_assoc]
        rfl
    · rw [if_neg hd] at h
      obtain ⟨rs, hrs, h4, h6⟩ := ih h
      refine ⟨(t, d) :: rs, by rw [hrs]; rfl, ?_, ?_⟩
      · rw [h4, List.flatMap_cons, carried, if_neg hd]
        rfl
      · rw [h6, List.flatMap_cons, carried, if_neg hd]
        rfl

theorem addresses_of_parse {d : Bytes} {o : Header} {a : Addresses}
    (h : parseResponseA d = (true, o, a)) : ∃ rs, answerRecords d = some rs ∧
      a.luIPs = rs.flatMap (fun r => (carried r).luIPs) ∧
      a.luIP6s = rs.flatMap (fun r => (carried r).luIP6s) := by
  unfold parseResponseA at h
  unfold answerRecords
  rcases hp : parseRequestAAndAnswers (assign d) {} with ⟨_ | b, o'⟩ <;> simp only [hp] at h ⊢
  · cases h
  · obtain ⟨hok, ha⟩ := Prod.mk.inj h
    obtain ⟨-, rfl⟩ := Prod.mk.inj ha
    obtain ⟨rs, hrs, h4, h6⟩ := addresses_of_parseAnswers (Prod.ext hok rfl)
    exact ⟨rs, hrs, h4, h6⟩

/-! ### What the rewriter writes -/

/-- **The record is cleared**: of the asked type, it has SVCB data without the dropped parameters. -/
def Cleared (uQType : ℕ) (v4 v6 : Bool) (r : Record) : Prop :=
  r.uType = uQType → ∃ d, r.data = .svc d ∧ ∀ p ∈ d.params, isDropped p.uKey v4 v6 = false

/-- The data of a record as the rewriter sees it: SVCB data for the type asked for, else bytes. -/
def Seen (uQType : ℕ) (r : Record) : Prop :=
  (r.uType = uQType → ∃ d, r.data = .svc d) ∧ (r.uType ≠ uQType → ∃ x, r.data = .other [.bytes x])

theorem Seen.iff {uQType : ℕ} {r : Record} (h : Seen uQType r) :
    r.uType = uQType ↔ ∃ d, r.data = .svc d := by
  refine ⟨h.1, fun ⟨d, hd⟩ => ?_⟩
  by_contra hne
  obtain ⟨x, hx⟩ := h.2 hne
  rw [hd] at hx
  cases hx

theorem u16At_lt (d : Bytes) (i : ℕ) : u16At d i < 65536 := by
  refine (beNat_lt _).trans_le ?_
  calc 256 ^ ((d.drop i).take 2).length ≤ 256 ^ 2 :=
        Nat.pow_le_pow_right (by norm_num) (by simp)
    _ = 65536 := by norm_num

theorem take_u16 {s : Bytes} {p : ℕ} (n : ℕ) (h : p + 2 ≤ s.length) :
    (s.drop p).take (2 + n) = be16 (u16At s p) ++ (s.drop (p + 2)).take n := by
  have hl : ((s.drop p).take 2).length = 2 := by
    simp
    omega
  rw [List.take_add, List.drop_drop, u16At, be16_beNat hl]

theorem readU16_ok {s : Bytes} {p n : ℕ} (h : readU16 s p = .ok n) :
    p + 2 ≤ s.length ∧ n = u16At s p := by
  unfold readU16 at h
  obtain ⟨hi, hhi, h⟩ := ok_of_bind h
  obtain ⟨lo, hlo, h⟩ := ok_of_bind h
  obtain ⟨hp₀, hc₀⟩ := List.getElem?_eq_some_iff.mp (byteAt_ok.mp hhi)
  obtain ⟨hp₁, hc₁⟩ := List.getElem?_eq_some_iff.mp (byteAt_ok.mp hlo)
  cases h
  refine ⟨by omega, ?_⟩
  rw [u16At, List.drop_eq_getElem_cons hp₀, List.drop_eq_getElem_cons hp₁, hc₀, hc₁]
  show _ = beNat [hi, lo]
  rw [beNat_cons, beNat_singleton, List.length_singleton]
  omega

theorem param_at {s : Bytes} {p : ℕ} (h : p + (4 + u16At s (p + 2)) ≤ s.length) :
    ∃ a : SvcParam, a.uKey = u16At s p ∧ (s.drop p).take (4 + u16At s (p + 2)) = a.encode ∧
      s.drop p = a.encode ++ s.drop (p + (4 + u16At s (p + 2))) := by
  have hval : ((s.drop (p + 2 + 2)).take (u16At s (p + 2))).length = u16At s (p + 2) := by
    simp
    omega
  have htake : (s.drop p).take (4 + u16At s (p + 2)) = be16 (u16At s p) ++
      (be16 (u16At s (p + 2)) ++ (s.drop (p + 2 + 2)).take (u16At s (p + 2))) := by
    rw [show 4 + u16At s (p + 2) = 2 + (2 + u16At s (p + 2)) by omega, take_u16 _ (by omega),
      take_u16 _ (by omega)]
  refine ⟨⟨u16At s p, (s.drop (p + 2 + 2)).take (u16At s (p + 2)), u16At_lt _ _,
    by rw [hval]; exact u16At_lt _ _⟩, rfl, ?_⟩
  have henc : be16 (u16At s p) ++ be16 ((s.drop (p + 2 + 2)).take (u16At s (p + 2))).length ++
      (s.drop (p + 2 + 2)).take (u16At s (p + 2)) = (s.drop p).take (4 + u16At s (p + 2)) := by
    rw [hval, htake, List.append_assoc]
  have hsplit := List.take_append_drop (4 + u16At s (p + 2)) (s.drop p)
  rw [List.drop_drop] at hsplit
  refine ⟨henc.symm, ?_⟩
  show _ = be16 _ ++ be16 _ ++ _ ++ _
  rw [henc, hsplit]

/-- **The parameters** that are walked over, and those of them that are written. -/
theorem params_of_dropParams {s : Bytes} {v4 v6 : Bool} {stop : ℕ} {c c' : Cursor}
    (hs : stop ≤ s.length) (h : dropParams s v4 v6 stop c = .ok c') : ∃ ps : List SvcParam,
      s.drop c.p = ps.flatMap SvcParam.encode ++ s.drop c'.p ∧
      c'.sOut = c.sOut ++ (ps.filter fun p => !isDropped p.uKey v4 v6).flatMap SvcParam.encode := by
  fun_induction dropParams s v4 v6 stop c with
  | case1 => cases h
  | case2 c hp h4 ihd ihk =>
    obtain ⟨uKey, hk, h⟩ := ok_of_bind h
    obtain ⟨len, hlen, h⟩ := ok_of_bind h
    obtain ⟨-, rfl⟩ := readU16_ok hk
    obtain ⟨-, rfl⟩ := readU16_ok hlen
    dsimp only at h
    split_ifs at h with hv hd
    · obtain ⟨a, hkey, -, ha⟩ := @param_at s c.p (by omega)
      obtain ⟨ps, hr, hps⟩ := ihd _ hv h
      refine ⟨a :: ps, ?_, ?_⟩
      · rw [ha, hr, List.flatMap_cons, List.append_assoc]
      · rw [hps, List.filter_cons_of_neg (by simp [hkey, hd])]
    · obtain ⟨x, hx, h⟩ := ok_of_bind h
      obtain ⟨hle, rfl⟩ := substr_ok.mp hx
      obtain ⟨a, hkey, hax, ha⟩ := @param_at s c.p (by omega)
      obtain ⟨ps, hr, hps⟩ := ihk _ hv _ h
      refine ⟨a :: ps, ?_, ?_⟩
      · rw [ha, hr, List.flatMap_cons, List.append_assoc]
      · rw [hps, hax, List.filter_cons_of_pos (by simp [hkey, hd]), List.flatMap_cons,
          List.append_assoc]
  | case3 c hp =>
    cases h
    exact ⟨[], by simp, by simp⟩

/-- **SVCB data** that is walked over, and what is written of it: SVCB data without the dropped
parameters. -/
theorem svcData_of_dropSvcData {s : Bytes} {v4 v6 : Bool} {stop : ℕ} {c c' : Cursor}
    (hs : stop ≤ s.length) (h : dropSvcData s v4 v6 stop c = .ok c') : ∃ d d' : SvcData,
      s.drop c.p = d.encode ++ s.drop c'.p ∧ c'.sOut = c.sOut ++ d'.encode ∧
      ∀ p ∈ d'.params, isDropped p.uKey v4 v6 = false := by
  obtain ⟨prio, q, x, -, hprio, hn, -, h⟩ := dropSvcData_steps h
  obtain ⟨n, hrn, rfl⟩ := read_of_copyName hn
  obtain ⟨n', rfl⟩ := name_of_copyName hn
  obtain ⟨ps, hrp, hps⟩ := params_of_dropParams hs h
  have hpl := length_of_substr hprio
  obtain ⟨-, hprio⟩ := substr_ok.mp hprio
  have hlt : beNat prio < 65536 := by
    have := beNat_lt prio
    rwa [hpl] at this
  refine ⟨⟨beNat prio, n, ps, hlt⟩,
    ⟨beNat prio, n', ps.filter fun p => !isDropped p.uKey v4 v6, hlt⟩, ?_, ?_, fun p hp => ?_⟩
  · have hsplit := List.take_append_drop 2 (s.drop c.p)
    rw [List.drop_drop, ← hprio, hrn, hrp] at hsplit
    rw [← hsplit]
    simp only [SvcData.encode, be16_beNat hpl, List.append_assoc]
  · rw [hps]
    simp only [SvcData.encode, be16_beNat hpl, List.append_assoc]
  · simpa using (List.mem_filter.mp hp).2

theorem fixed_eq {s : Bytes} {p : ℕ} (h : p + 8 ≤ s.length) :
    (s.drop p).take 8 = be16 (u16At s p) ++ (be16 (u16At s (p + 2)) ++
      be32 (beNat ((s.drop (p + 4)).take 4))) := by
  have hl : ((s.drop (p + 4)).take 4).length = 4 := by
    simp
    omega
  rw [show (8 : ℕ) = 2 + (2 + 4) by rfl, take_u16 _ (by omega), take_u16 _ (by omega), be32_beNat hl]

/-- **Record data written** is that of a record, without the dropped parameters if it is of the type asked
for. -/
theorem data_of_dropData {s : Bytes} {uType uQType : ℕ} {v4 v6 : Bool} {stop : ℕ} {c c' : Cursor}
    (hs : stop ≤ s.length) (h : dropData s uType uQType v4 v6 stop c = .ok c') : ∃ data : RData,
      c'.sOut = c.sOut ++ data.encode ∧ (uType = uQType → ∃ d, data = .svc d ∧
        ∀ p ∈ d.params, isDropped p.uKey v4 v6 = false) ∧
      (uType ≠ uQType → ∃ x, data = .other [.bytes x]) := by
  unfold dropData at h
  split_ifs at h with ht
  · obtain ⟨rdata, -, h⟩ := ok_of_bind h
    cases h
    exact ⟨.other [.bytes rdata], by simp [RData.encode, Piece.encode], fun he => absurd he ht,
      fun _ => ⟨rdata, rfl⟩⟩
  · obtain ⟨-, d, -, hd, hdrop⟩ := svcData_of_dropSvcData hs h
    exact ⟨.svc d, hd, fun _ => ⟨d, rfl, hdrop⟩, fun hne => absurd (not_not.mp ht) hne⟩

/-- What is written after a name whose end in the message is `q`. -/
theorem record_of_copyRecord {s : Bytes} {uQType q : ℕ} {v4 v6 : Bool} {c c' : Cursor} {n : WireName}
    (hn : copyName s c.p c.sOut c.vRemoved = .ok (true, q, c.sOut ++ n.encode))
    (h : copyRecord s (u16At s q) uQType v4 v6 c = .ok c') : ∃ r : Record,
      c'.sOut = c.sOut ++ r.encode ∧ Cleared uQType v4 v6 r ∧ Seen uQType r := by
  obtain ⟨len, fixed, c₂, sOut, hlen, hstop, hfix, hc₂, hw, rfl⟩ := copyRecord_steps hn h
  obtain ⟨-, rfl⟩ := readU16_ok hlen
  obtain ⟨h8, rfl⟩ := substr_ok.mp hfix
  obtain ⟨data, hsOut, hclear, hother⟩ := data_of_dropData hstop hc₂
  dsimp only at hsOut
  have hbound : data.encode.length < 65536 := by
    obtain ⟨⟨-, y, hy, hyl⟩, hcp⟩ := dropData_ok hc₂ (by simp)
    rw [hsOut, List.append_cancel_left_eq] at hy
    subst hy
    have := u16At_lt s (q + 8)
    dsimp only at hyl
    omega
  have httl : beNat ((s.drop (q + 4)).take 4) < 4294967296 := by
    refine (beNat_lt _).trans_le ?_
    calc 256 ^ ((s.drop (q + 4)).take 4).length ≤ 256 ^ 4 :=
          Nat.pow_le_pow_right (by norm_num) (by simp)
      _ = 4294967296 := by norm_num
  rw [hsOut, writeU16_append] at hw
  cases hw
  refine ⟨⟨n, u16At s q, u16At s (q + 2), beNat ((s.drop (q + 4)).take 4), data, u16At_lt _ _,
    u16At_lt _ _, httl, hbound⟩, ?_, hclear, fun ht => ?_, hother⟩
  rotate_left
  · obtain ⟨d, hd, -⟩ := hclear ht
    exact ⟨d, hd⟩
  dsimp only [Record.encode, Record.fixed]
  rw [fixed_eq h8]
  have hlen : (c.sOut ++ n.encode ++ (be16 (u16At s q) ++ (be16 (u16At s (q + 2)) ++
      be32 (beNat ((s.drop (q + 4)).take 4)))) ++ [0, 0] ++ data.encode).length -
      (c.sOut ++ n.encode ++ (be16 (u16At s q) ++ (be16 (u16At s (q + 2)) ++
        be32 (beNat ((s.drop (q + 4)).take 4))))).length - 2 = data.encode.length := by
    simp only [List.length_append, List.length_cons, List.length_nil]
    omega
  rw [hlen, Nat.mod_eq_of_lt hbound]
  simp only [List.append_assoc]

/-- **A record written** is a cleared record. -/
theorem record_of_dropRecord {s : Bytes} {uQType : ℕ} {v4 v6 : Bool} {c c' : Cursor}
    (h : dropRecord s uQType v4 v6 c = .ok (some c')) : ∃ r : Record,
      c'.sOut = c.sOut ++ r.encode ∧ Cleared uQType v4 v6 r ∧ Seen uQType r := by
  obtain ⟨q, x, uType, hn, hty, hc⟩ := dropRecord_steps h
  obtain ⟨n, hx⟩ := name_of_copyName hn
  rw [List.nil_append] at hx
  subst hx
  obtain ⟨-, rfl⟩ := readU16_ok hty
  exact record_of_copyRecord (copyName_of_nil hn) hc

/-- **The records written** are cleared records. -/
theorem records_of_dropRecords {s out : Bytes} {uQType : ℕ} {v4 v6 : Bool} {n i k : ℕ} {c : Cursor}
    (h : dropRecords s uQType v4 v6 n i c = .ok (k, out)) : ∃ rs : List Record,
      out = c.sOut ++ rs.flatMap Record.encode ∧ k = i + rs.length ∧ rs.length ≤ n ∧
      ∀ r ∈ rs, Cleared uQType v4 v6 r ∧ Seen uQType r := by
  induction n generalizing i c with
  | zero =>
    cases h
    exact ⟨[], by simp, rfl, le_rfl, by simp⟩
  | succ n ih =>
    unfold dropRecords at h
    obtain ⟨o, ho, h⟩ := ok_of_bind h
    rcases o with _ | c'
    · cases h
      exact ⟨[], by simp, rfl, Nat.zero_le _, by simp⟩
    · obtain ⟨r, hr, hclear⟩ := record_of_dropRecord ho
      obtain ⟨rs, hrs, hk, hn, hall⟩ := ih h
      refine ⟨r :: rs, ?_, ?_, by simp; omega, ?_⟩
      · rw [hrs, hr, List.flatMap_cons, List.append_assoc]
      · rw [hk, List.length_cons]
        omega
      · intro r' hr'
        rcases List.mem_cons.mp hr' with rfl | hr'
        · exact hclear
        · exact hall r' hr'

/-! ### What the parser reads of it -/

theorem readRecords_encode {rs : List Record} {b : AutoBuffer} {rest : Bytes}
    {l : List (ℕ × Bytes)} (h : b.rest = rs.flatMap Record.encode ++ rest)
    (hl : readRecords rs.length b = some l) : l = rs.map fun r => (r.uType, r.data.encode) := by
  induction rs generalizing b l with
  | nil =>
    cases hl
    rfl
  | cons r rs ih =>
    rw [List.flatMap_cons, List.append_assoc] at h
    have hr := readRecord_encode h
    rw [List.length_cons, readRecords] at hl
    split_ifs at hr with hc
    · obtain ⟨b', hb', hrest⟩ := hr
      simp only [hb'] at hl
      obtain ⟨l', hl', rfl⟩ := Option.map_eq_some_iff.mp hl
      rw [List.map_cons, ih hrest hl']
    · simp only [hr] at hl
      cases hl

/-- **The answers of a rewritten message** are the records that were written. -/
theorem rest_of_setCounts {d out : Bytes} {b : AutoBuffer} {o : Header} {rs : List Record}
    (hp : parseRequestAAndAnswers (assign d) {} = (some b, o))
    (h : setCounts (d.take b.szOffset ++ rs.flatMap Record.encode) rs.length = .ok out)
    (hn : rs.length < 65536) (hy : (rs.flatMap Record.encode).length ≤ d.length - b.szOffset) :
    ∃ c o', parseRequestAAndAnswers (assign out) {} = (some c, o') ∧ o'.uAnswers = rs.length ∧
      c.szOffset = b.szOffset ∧ c.rest = rs.flatMap Record.encode ∧
      out.drop b.szOffset = rs.flatMap Record.encode := by
  obtain ⟨h12, hle⟩ := szOffset_of_parse hp
  have hr := rewritten_of_setCounts hp h hy
  obtain ⟨c, hc, hco⟩ := parse_stable hr.parses hr.header hr.question hr.le hr.length_le
  have hcs := (reader_of_parse hc).2
  obtain ⟨-, hout⟩ := setCounts_ok h
  have h6 : ((d.take b.szOffset ++ rs.flatMap Record.encode).take 6).length = 6 := by
    simp
    omega
  have hcount : u16At out 6 = rs.length := by
    rw [u16At, hout, List.append_assoc, List.append_assoc, List.drop_left' h6]
    exact beNat_be16 hn
  have hdrop : out.drop b.szOffset = rs.flatMap Record.encode := by
    have h12' : ((d.take b.szOffset ++ rs.flatMap Record.encode).take 6 ++ be16 rs.length ++
        [0, 0, 0, 0]).length = 12 := by
      simp only [List.length_append, h6, length_be16, List.length_cons, List.length_nil]
    have hq : (d.take b.szOffset).length = b.szOffset := by simp [hle]
    have hafter : ∀ k, out.drop (12 + k) =
        (d.take b.szOffset ++ rs.flatMap Record.encode).drop (12 + k) := by
      intro k
      rw [← List.drop_drop, hout, List.drop_left' h12', List.drop_drop]
    have hb := hafter (b.szOffset - 12)
    rwa [Nat.add_sub_cancel' h12, List.drop_left' hq] at hb
  refine ⟨c, _, hc, hcount, hco, ?_, hdrop⟩
  unfold AutoBuffer.rest
  rw [hcs, hco, hdrop]

/-- **The records of a rewritten message** are those that were written. -/
theorem answerRecords_of_setCounts {d out : Bytes} {b : AutoBuffer} {o : Header} {rs : List Record}
    {l : List (ℕ × Bytes)} (hp : parseRequestAAndAnswers (assign d) {} = (some b, o))
    (h : setCounts (d.take b.szOffset ++ rs.flatMap Record.encode) rs.length = .ok out)
    (hn : rs.length < 65536) (hy : (rs.flatMap Record.encode).length ≤ d.length - b.szOffset)
    (hl : answerRecords out = some l) : l = rs.map fun r => (r.uType, r.data.encode) := by
  obtain ⟨c, o', hc, hcount, -, hrest, -⟩ := rest_of_setCounts hp h hn hy
  unfold answerRecords at hl
  simp only [hc, hcount] at hl
  exact readRecords_encode (hrest.trans (List.append_nil _).symm) hl

theorem paramHints_kept {v4 v6 : Bool} {ps : List SvcParam}
    (h : ∀ p ∈ ps, isDropped p.uKey v4 v6 = false) (a : Addresses) :
    (v4 = true → (paramHints ps a).luIPs = a.luIPs) ∧
      (v6 = true → (paramHints ps a).luIP6s = a.luIP6s) := by
  induction ps generalizing a with
  | nil => exact ⟨fun _ => rfl, fun _ => rfl⟩
  | cons p ps ih =>
    have hk := h p List.mem_cons_self
    obtain ⟨h4, h6⟩ := ih (fun q hq => h q (List.mem_cons_of_mem _ hq)) (svcParamHint p.uKey p.value a)
    unfold isDropped at hk
    constructor
    · intro hv
      have hne : p.uKey ≠ svcParamIPv4Hint := by
        rintro he
        simp [he, hv] at hk
      refine (h4 hv).trans ?_
      unfold svcParamHint
      rw [if_neg hne]
      split_ifs <;> rfl
    · intro hv
      have hne : p.uKey ≠ svcParamIPv6Hint := by
        rintro he
        simp [he, hv] at hk
      refine (h6 hv).trans ?_
      unfold svcParamHint
      rw [if_neg hne]
      split_ifs <;> rfl

/-- A cleared record of the asked type carries no address of a dropped family. -/
theorem carried_of_cleared {uQType : ℕ} {v4 v6 : Bool} {r : Record} (h : Cleared uQType v4 v6 r)
    (ht : r.uType = uQType) (hq : uQType = typeSVCB ∨ uQType = typeHTTPS) :
    (v4 = true → (carried (r.uType, r.data.encode)).luIPs = []) ∧
      (v6 = true → (carried (r.uType, r.data.encode)).luIP6s = []) := by
  obtain ⟨d, hd, hkept⟩ := h ht
  have ha : recordAddresses uQType d.encode {} = (true, paramHints d.params {}) := by
    rw [← parseSvcParamHint_encode]
    unfold recordAddresses
    rcases hq with rfl | rfl <;> rfl
  have hlen : r.data.encode.length ≠ 0 := by
    rw [hd]
    simp [RData.encode, SvcData.encode]
  have hc : carried (r.uType, r.data.encode) = paramHints d.params {} := by
    refine (if_pos hlen).trans ?_
    rw [ht, hd]
    exact congrArg Prod.snd ha
  rw [hc]
  exact paramHints_kept hkept {}

theorem carried_typeA {r : ℕ × Bytes} (h : r.1 = typeA) : (carried r).luIP6s = [] := by
  unfold carried recordAddresses
  simp only [h, show ¬ typeA = typeCNAME by decide, if_false, if_true]
  split_ifs <;> rfl

theorem carried_typeAAAA {r : ℕ × Bytes} (h : r.1 = typeAAAA) : (carried r).luIPs = [] := by
  unfold carried recordAddresses
  simp only [h, show ¬ typeAAAA = typeCNAME by decide, show ¬ typeAAAA = typeA by decide, if_false,
    if_true]
  split_ifs <;> rfl

/-! ### The addresses left -/

theorem flatMap_filter_ne {β : Type} {T : ℕ} {rs : List (ℕ × Bytes)} {f : ℕ × Bytes → List β}
    (h : ∀ r ∈ rs, r.1 = T → f r = []) : rs.flatMap f = (rs.filter (·.1 ≠ T)).flatMap f := by
  induction rs with
  | nil => rfl
  | cons r rs ih =>
    have hrs := ih fun r' hr' => h r' (List.mem_cons_of_mem _ hr')
    by_cases hr : r.1 = T
    · rw [List.flatMap_cons, h r List.mem_cons_self hr, List.nil_append, hrs,
        List.filter_cons_of_neg (by simpa using hr)]
    · rw [List.flatMap_cons, hrs, List.filter_cons_of_pos (by simpa using hr), List.flatMap_cons]

theorem answerRecords_of_emptyResponse {d out : Bytes} {rs : List (ℕ × Bytes)}
    (h : emptyResponse d = .ok out) (hr : answerRecords out = some rs) : rs = [] := by
  obtain ⟨b, o, hp, h⟩ := emptyResponse_steps h
  have hnil := @answerRecords_of_setCounts d out b o [] rs hp h (by simp) (by simp) hr
  exact hnil

/-- **What the rewriter writes**: the question, and records that it has cleared. -/
theorem records_of_dropHints {d out : Bytes} {uQType : ℕ} {v4 v6 : Bool}
    (h : dropHints d uQType v4 v6 = .ok out) : ∃ (b : AutoBuffer) (o : Header) (rs : List Record),
      parseRequestAAndAnswers (assign d) {} = (some b, o) ∧
      setCounts (d.take b.szOffset ++ rs.flatMap Record.encode) rs.length = .ok out ∧
      rs.length < 65536 ∧ (rs.flatMap Record.encode).length ≤ d.length - b.szOffset ∧
      ∀ r ∈ rs, Cleared uQType v4 v6 r ∧ Seen uQType r := by
  obtain ⟨b, o, i, sOut, hp, hrec, h⟩ := dropHints_steps h
  obtain ⟨y, hy, hyl⟩ := dropRecords_ok hrec (szOffset_of_parse hp).2
  obtain ⟨rs, hrs, hk, hn, hclear⟩ := records_of_dropRecords hrec
  dsimp only at hrs hy
  have hyr : y = rs.flatMap Record.encode := List.append_cancel_left (hy.symm.trans hrs)
  have ho : o.uAnswers < 65536 := (uAnswers_of_parse hp).trans_lt (u16At_lt _ _)
  rw [hrs, hk, Nat.zero_add] at h
  exact ⟨b, o, rs, hp, h, by omega, by rw [← hyr]; exact hyl, hclear⟩

theorem answerRecords_of_dropHints {d out : Bytes} {uQType : ℕ} {v4 v6 : Bool} {rs : List (ℕ × Bytes)}
    (h : dropHints d uQType v4 v6 = .ok out) (hr : answerRecords out = some rs) :
    ∃ recs : List Record, rs = recs.map (fun r => (r.uType, r.data.encode)) ∧
      ∀ r ∈ recs, Cleared uQType v4 v6 r := by
  obtain ⟨b, o, recs, hp, hset, hn, hle, hclear⟩ := records_of_dropHints h
  exact ⟨recs, answerRecords_of_setCounts hp hset hn hle hr, fun r hr => (hclear r hr).1⟩

/-- **The records of the type asked for** carry no address of a dropped family. -/
theorem carried_of_dropAddress {d out : Bytes} {uQType : ℕ} {v4 v6 : Bool} {rs : List (ℕ × Bytes)}
    (hq : isIPBearingType uQType = true) (h : dropAddress d uQType v4 v6 = .ok (true, out))
    (hr : answerRecords out = some rs) :
    (∀ r ∈ rs, r.1 = uQType → (v4 = true → (carried r).luIPs = []) ∧
      (v6 = true → (carried r).luIP6s = [])) ∧
    ((uQType = typeA ∧ v4 = true) ∨ (uQType = typeAAAA ∧ v6 = true) → rs = []) := by
  have hd := dropAddress_ok.mp h
  unfold dropped at hd
  split_ifs at hd with hA h4 hAAAA h6 hother
  · rw [answerRecords_of_emptyResponse hd hr]
    exact ⟨by simp, fun _ => rfl⟩
  · refine ⟨?_, ?_⟩
    · intro r _ ht
      exact ⟨fun hv => absurd hv h4, fun _ => carried_typeA (ht.trans hA)⟩
    · rintro (⟨-, hv⟩ | ⟨hq, -⟩)
      · exact absurd hv h4
      · rw [hA] at hq
        cases hq
  · rw [answerRecords_of_emptyResponse hd hr]
    exact ⟨by simp, fun _ => rfl⟩
  · refine ⟨?_, ?_⟩
    · intro r _ ht
      exact ⟨fun _ => carried_typeAAAA (ht.trans hAAAA), fun hv => absurd hv h6⟩
    · rintro (⟨hq, -⟩ | ⟨-, hv⟩)
      · exact absurd hq hA
      · exact absurd hv h6
  · simp [isIPBearingType, hA, hAAAA, hother.1, hother.2] at hq
  · obtain ⟨recs, rfl, hclear⟩ := answerRecords_of_dropHints hd hr
    refine ⟨?_, ?_⟩
    · intro r hmem ht
      obtain ⟨rec, hrecm, rfl⟩ := List.mem_map.mp hmem
      refine carried_of_cleared (hclear rec hrecm) ht ?_
      by_contra hne
      exact hother ⟨fun he => hne (Or.inl he), fun he => hne (Or.inr he)⟩
    · rintro (⟨hq, -⟩ | ⟨hq, -⟩)
      · exact absurd hq hA
      · exact absurd hq hAAAA

/-- **The addresses left of a dropped family** come from the records of other types than the one asked
for, for every message the rewriter accepts; and an `A` or `AAAA` response whose family is dropped has
no records left. -/
theorem dropped_addresses {d out : Bytes} {uQType : ℕ} {v4 v6 : Bool} {o : Header} {a : Addresses}
    (hq : isIPBearingType uQType = true) (h : dropAddress d uQType v4 v6 = .ok (true, out))
    (hp : parseResponseA out = (true, o, a)) : ∃ rs, answerRecords out = some rs ∧
      (v4 = true → a.luIPs = (rs.filter (·.1 ≠ uQType)).flatMap fun r => (carried r).luIPs) ∧
      (v6 = true → a.luIP6s = (rs.filter (·.1 ≠ uQType)).flatMap fun r => (carried r).luIP6s) ∧
      ((uQType = typeA ∧ v4 = true) ∨ (uQType = typeAAAA ∧ v6 = true) → rs = []) := by
  obtain ⟨rs, hrs, h4, h6⟩ := addresses_of_parse hp
  obtain ⟨hcar, hnil⟩ := carried_of_dropAddress hq h hrs
  refine ⟨rs, hrs, fun hv => ?_, fun hv => ?_, hnil⟩
  · rw [h4]
    exact flatMap_filter_ne fun r hr ht => (hcar r hr ht).1 hv
  · rw [h6]
    exact flatMap_filter_ne fun r hr ht => (hcar r hr ht).2 hv

/-- The response to an `HTTPS` query for `a.` with one record for that name. -/
def httpsResponse (answer : Bytes) : Bytes :=
  be16 5 ++ be16 0x8180 ++ be16 1 ++ be16 1 ++ be16 0 ++ be16 0 ++ [1, 97, 0] ++ be16 65 ++ be16 1 ++
    [0xC0, 0x0C] ++ answer

/-- An HTTPS record with the given parameters. -/
def httpsAnswer (params : Bytes) : Bytes :=
  be16 65 ++ be16 1 ++ be32 60 ++ be16 (3 + params.length) ++ be16 1 ++ [0] ++ params

/-- An A record. -/
def addressAnswer : Bytes := be16 1 ++ be16 1 ++ be32 60 ++ be16 4 ++ [1, 2, 3, 4]

/-- The response to a query for `a.` with records for that name. -/
def response (uQType : ℕ) (answers : List Bytes) : Bytes :=
  be16 5 ++ be16 0x8180 ++ be16 1 ++ be16 answers.length ++ be16 0 ++ be16 0 ++ [1, 97, 0] ++ be16 uQType ++
    be16 1 ++ answers.flatMap fun answer => [0xC0, 0x0C] ++ answer

/-- The parameter `ipv4hint`. -/
def ipv4hint : Bytes := be16 4 ++ be16 4 ++ [5, 6, 7, 8]

/-- The parameter `ipv6hint`. -/
def ipv6hint : Bytes := be16 6 ++ be16 16 ++ [0x20, 1, 0x0D, 0xB8, 0, 0, 0, 0, 0, 0, 0, 0, 0, 0, 0, 9]

/-- An address in front of two records with hints, and what is left of it: the address. -/
def hinted : Bytes := response typeHTTPS [addressAnswer, httpsAnswer (ipv4hint ++ ipv6hint), httpsAnswer ipv4hint]

def unhinted : Bytes := response typeHTTPS [addressAnswer, httpsAnswer [], httpsAnswer []]

/-- The hints are removed, the address of the record of another type is not; and the response to an `A` query
is emptied. -/
theorem hint_dropped :
    (dropAddress hinted typeHTTPS true true = .ok (true, unhinted) ∧
      ∃ rs, answerRecords unhinted = some rs ∧ rs.map Prod.fst = [typeA, typeHTTPS, typeHTTPS] ∧
        (parseResponseA unhinted).2.2.luIPs = (rs.filter (·.1 ≠ typeHTTPS)).flatMap (fun r => (carried r).luIPs) ∧
        (parseResponseA unhinted).2.2.luIPs = [0x01020304] ∧
        (parseResponseA unhinted).2.2.luIP6s =
          (rs.filter (·.1 ≠ typeHTTPS)).flatMap (fun r => (carried r).luIP6s)) ∧
    dropAddress (response typeA [addressAnswer]) typeA true false = .ok (true, response typeA []) ∧
      answerRecords (response typeA []) = some [] := by
  have hdrop : dropAddress hinted typeHTTPS true true = .ok (true, unhinted) := by decide +kernel
  have hok : (parseResponseA unhinted).1 = true := by decide +kernel
  obtain ⟨rs, hrs, h4, h6, -⟩ := dropped_addresses (by decide) hdrop (Prod.ext hok rfl)
  have htypes : (answerRecords unhinted).map (List.map Prod.fst) = some [typeA, typeHTTPS, typeHTTPS] := by
    decide +kernel
  rw [hrs] at htypes
  have hempty : dropAddress (response typeA [addressAnswer]) typeA true false =
      .ok (true, response typeA []) := by decide +kernel
  have hok' : (parseResponseA (response typeA [])).1 = true := by decide +kernel
  obtain ⟨rs', hrs', -, -, hnil⟩ := dropped_addresses (by decide) hempty (Prod.ext hok' rfl)
  rw [hnil (.inl ⟨rfl, rfl⟩)] at hrs'
  exact ⟨⟨hdrop, rs, hrs, Option.some.inj htypes, h4 rfl, by decide +kernel, h6 rfl⟩, hempty, hrs'⟩

/-- In the response to an `HTTPS` query an `A` record is kept, and its address with it. -/
theorem other_record_kept : ¬ ∀ (d out : Bytes) (uQType : ℕ) (v4 v6 : Bool) (o : Header)
    (a : Addresses), isIPBearingType uQType = true →
    dropAddress d uQType v4 v6 = .ok (true, out) → parseResponseA out = (true, o, a) →
    (v4 = true → a.luIPs = []) ∧ (v6 = true → a.luIP6s = []) := by
  intro h
  have hdrop : dropAddress (httpsResponse addressAnswer) typeHTTPS true false =
      .ok (true, httpsResponse addressAnswer) := by decide +kernel
  have hok : (parseResponseA (httpsResponse addressAnswer)).1 = true := by decide +kernel
  have hnil := (h _ _ typeHTTPS true false _ _ (by decide) hdrop (Prod.ext hok rfl)).1 rfl
  exact absurd hnil (by decide +kernel)

end DnsMultiZone.Rfc1035.Judge
