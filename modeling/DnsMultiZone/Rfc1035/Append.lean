import DnsMultiZone.Lib.Results
import DnsMultiZone.Rfc1035.Drop

/-! # The rewriter only appends

`DropAddress` walks the message and its output together: every piece it copies is appended to what it has
written, and is no longer than the piece of the message it has walked over. Only the length of a
record's data and the counts of the header are written in place.

* `copyName_ok`: a copied name is as long as the name; `copyName_append`: what was written before does
  not matter.
* `dropRecords_ok`: the output starts with what was written, and what follows is not longer than the
  rest of the message. -/

namespace DnsMultiZone.Rfc1035.Append

open DnsMultiZone.Lib.BigEndian DnsMultiZone.Lib.Results
open DnsMultiZone.Rfc1035.Parse DnsMultiZone.Rfc1035.Drop

/-! ### Pieces -/

theorem byteAt_ok {s : Bytes} {p : ℕ} {c : UInt8} : byteAt s p = .ok c ↔ s[p]? = some c := by
  unfold byteAt
  rcases s[p]? with _ | c' <;> simp

theorem substr_ok {s x : Bytes} {p n : ℕ} :
    substr s p n = .ok x ↔ p + n ≤ s.length ∧ x = (s.drop p).take n := by
  unfold substr
  split_ifs with h
  · simp [h, eq_comm]
  · simp [h]

theorem length_of_substr {s x : Bytes} {p n : ℕ} (h : substr s p n = .ok x) : x.length = n := by
  obtain ⟨hp, rfl⟩ := substr_ok.mp h
  simp
  omega

theorem writeU16_ok {s s' : Bytes} {p n : ℕ} :
    writeU16 s p n = .ok s' ↔ p + 2 ≤ s.length ∧ s' = s.take p ++ be16 n ++ s.drop (p + 2) := by
  unfold writeU16
  by_cases h : p + 1 < s.length
  · have heq : (s.set p (UInt8.ofNat (n / 256))).set (p + 1) (UInt8.ofNat n) =
        s.take p ++ be16 n ++ s.drop (p + 2) := by
      refine List.ext_getElem? fun i => ?_
      rw [List.getElem?_set, List.getElem?_set, List.append_assoc]
      by_cases h1 : p + 1 = i
      · subst h1
        rw [if_pos rfl, if_pos (by simpa using h), List.getElem?_append_right (by simp)]
        simp [be16, show p + 1 - min p s.length = 1 by omega]
      rw [if_neg h1]
      by_cases h0 : p = i
      · subst h0
        rw [if_pos rfl, if_pos (by omega), List.getElem?_append_right (by simp)]
        simp [be16, show p - min p s.length = 0 by omega]
      rw [if_neg h0]
      rcases Nat.lt_or_ge i p with hi | hi
      · rw [List.getElem?_append_left (by simp; omega), List.getElem?_take_of_lt hi]
      · rw [List.getElem?_append_right (by simp; omega), List.getElem?_append_right (by simp; omega),
          List.getElem?_drop]
        congr 1
        simp
        omega
    rw [if_pos h, heq]
    simp only [Except.ok.injEq, eq_comm, show p + 2 ≤ s.length by omega, true_and]
  · rw [if_neg h]
    simp [show ¬ p + 2 ≤ s.length by omega]

theorem length_of_writeU16 {s s' : Bytes} {p n : ℕ} (h : writeU16 s p n = .ok s') :
    s'.length = s.length := by
  obtain ⟨hp, rfl⟩ := writeU16_ok.mp h
  simp
  omega

theorem writeU16_append (a z : Bytes) (x y : UInt8) (n : ℕ) :
    writeU16 (a ++ [x, y] ++ z) a.length n = .ok (a ++ be16 n ++ z) := by
  refine writeU16_ok.mpr ⟨by simp, ?_⟩
  rw [List.append_assoc a [x, y] z, List.take_left, ← List.drop_drop, List.drop_left]
  rfl

theorem setCounts_of_le {s : Bytes} (n : ℕ) (h : 12 ≤ s.length) :
    setCounts s n = .ok (s.take 6 ++ be16 n ++ [0, 0, 0, 0] ++ s.drop 12) := by
  match s, h with
  | a₀ :: a₁ :: a₂ :: a₃ :: a₄ :: a₅ :: a₆ :: a₇ :: a₈ :: a₉ :: a₁₀ :: a₁₁ :: r, _ =>
    have h6 := writeU16_append [a₀, a₁, a₂, a₃, a₄, a₅] (a₈ :: a₉ :: a₁₀ :: a₁₁ :: r) a₆ a₇ n
    have h8 := writeU16_append ([a₀, a₁, a₂, a₃, a₄, a₅] ++ be16 n) (a₁₀ :: a₁₁ :: r) a₈ a₉ 0
    have h10 := writeU16_append ([a₀, a₁, a₂, a₃, a₄, a₅] ++ be16 n ++ be16 0) r a₁₀ a₁₁ 0
    unfold setCounts
    exact (bind_of_ok h6 _).trans ((bind_of_ok h8 _).trans h10)

theorem setCounts_ok {s s' : Bytes} {n : ℕ} (h : setCounts s n = .ok s') :
    12 ≤ s.length ∧ s' = s.take 6 ++ be16 n ++ [0, 0, 0, 0] ++ s.drop 12 := by
  have h12 : 12 ≤ s.length := by
    unfold setCounts at h
    obtain ⟨s₁, h₁, h⟩ := ok_of_bind h
    obtain ⟨s₂, h₂, h⟩ := ok_of_bind h
    have hl₁ := length_of_writeU16 h₁
    have hl₂ := length_of_writeU16 h₂
    have hl := (writeU16_ok.mp h).1
    omega
  rw [setCounts_of_le n h12] at h
  exact ⟨h12, (Except.ok.inj h).symm⟩

/-! ### Names -/

theorem copyName_ok {sIn sOut x : Bytes} {p q : ℕ} {v : List (ℕ × ℕ)} {ok : Bool}
    (h : copyName sIn p sOut v = .ok (ok, q, x)) :
    p ≤ q ∧ ∃ y, x = sOut ++ y ∧ y.length = q - p := by
  fun_induction copyName sIn p sOut v with
  | case1 p sOut hp h0 =>
    cases h
    exact ⟨by omega, _, rfl, by simp⟩
  | case2 => cases h; exact ⟨le_rfl, [], by simp, by simp⟩
  | case3 p sOut hp h0 hc hlen =>
    obtain ⟨t, -, ht⟩ := ok_of_bind h
    cases ht
    exact ⟨by omega, _, rfl, by simp [pointerBytes]⟩
  | case4 => cases h; exact ⟨le_rfl, [], by simp, by simp⟩
  | case5 p sOut hp h0 hc hbad ih =>
    obtain ⟨label, hl, h⟩ := ok_of_bind h
    obtain ⟨hle, y, rfl, hy⟩ := ih label h
    refine ⟨by omega, label ++ y, by simp, ?_⟩
    rw [List.length_append, length_of_substr hl, hy]
    omega
  | case6 => cases h; exact ⟨le_rfl, [], by simp, by simp⟩

/-- What was written before a name does not matter for it. -/
theorem copyName_append (sIn : Bytes) (p : ℕ) (o sOut : Bytes) (v : List (ℕ × ℕ)) :
    copyName sIn p (o ++ sOut) v =
      (copyName sIn p sOut v).map fun r => (r.1, r.2.1, o ++ r.2.2) := by
  fun_induction copyName sIn p sOut v with
  | case1 p sOut hp h0 => rw [copyName, dif_pos hp, if_pos h0, List.append_assoc]; rfl
  | case2 p sOut hp h0 hc hlen => rw [copyName, dif_pos hp, if_neg h0, if_pos hc, if_pos hlen]; rfl
  | case3 p sOut hp h0 hc hlen =>
    rw [copyName, dif_pos hp, if_neg h0, if_pos hc, if_neg hlen]
    rcases readU16 sIn p with s | t
    · rfl
    · show Except.ok _ = Except.ok _
      rw [List.append_assoc]
  | case4 p sOut hp h0 hc hbad => rw [copyName, dif_pos hp, if_neg h0, if_neg hc, if_pos hbad]; rfl
  | case5 p sOut hp h0 hc hbad ih =>
    rw [copyName, dif_pos hp, if_neg h0, if_neg hc, if_neg hbad]
    rcases substr sIn p (1 + sIn[p].toNat) with s | label
    · rfl
    · have := ih label
      rw [← List.append_assoc] at this
      exact this
  | case6 p sOut hp => rw [copyName, dif_neg hp]; rfl

/-- The second copy of a name ends where the first did, and appends what the first wrote. -/
theorem copyName_of_nil {sIn sOut x : Bytes} {p q : ℕ} {v : List (ℕ × ℕ)} {ok : Bool}
    (h : copyName sIn p [] v = .ok (ok, q, x)) :
    copyName sIn p sOut v = .ok (ok, q, sOut ++ x) := by
  have := copyName_append sIn p sOut [] v
  rw [List.append_nil, h] at this
  exact this

/-! ### Records -/

/-- From cursor `c` to cursor `c'` something has been appended, not longer than what was walked over. -/
structure Appended (c c' : Cursor) : Prop where
  le : c.p ≤ c'.p
  out : ∃ y, c'.sOut = c.sOut ++ y ∧ y.length ≤ c'.p - c.p

theorem Appended.refl (c : Cursor) : Appended c c := ⟨le_rfl, [], by simp, by simp⟩

theorem Appended.trans {c c' c'' : Cursor} (h : Appended c c') (h' : Appended c' c'') :
    Appended c c'' := by
  obtain ⟨hle, y, hy, hl⟩ := h
  obtain ⟨hle', y', hy', hl'⟩ := h'
  refine ⟨hle.trans hle', y ++ y', by rw [hy', hy, List.append_assoc], ?_⟩
  rw [List.length_append]
  omega

theorem dropParams_ok {d : Bytes} {v4 v6 : Bool} {stop : ℕ} {c c' : Cursor}
    (h : dropParams d v4 v6 stop c = .ok c') : Appended c c' ∧ (c.p ≤ stop → c'.p = stop) := by
  fun_induction dropParams d v4 v6 stop c with
  | case1 => cases h
  | case2 c hp h4 ihd ihk =>
    obtain ⟨uKey, -, h⟩ := ok_of_bind h
    obtain ⟨len, -, h⟩ := ok_of_bind h
    dsimp only at h
    split_ifs at h with hv hd
    · obtain ⟨ha, he⟩ := ihd len hv h
      exact ⟨Appended.trans ⟨by simp, [], by simp, by simp⟩ ha, fun _ => he (by simp; omega)⟩
    · obtain ⟨s, hs, h⟩ := ok_of_bind h
      obtain ⟨ha, he⟩ := ihk len hv s h
      have hl := length_of_substr hs
      exact ⟨Appended.trans ⟨by simp, s, rfl, by simp; omega⟩ ha, fun _ => he (by simp; omega)⟩
  | case3 c hp =>
    cases h
    exact ⟨Appended.refl _, fun hle => by omega⟩

theorem dropSvcData_steps {d : Bytes} {v4 v6 : Bool} {stop : ℕ} {c c' : Cursor}
    (h : dropSvcData d v4 v6 stop c = .ok c') :
    ∃ prio q x, c.p + 2 ≤ stop ∧ substr d c.p 2 = .ok prio ∧
      copyName d (c.p + 2) (c.sOut ++ prio) c.vRemoved = .ok (true, q, x) ∧ q ≤ stop ∧
      dropParams d v4 v6 stop ⟨q, x, c.vRemoved⟩ = .ok c' := by
  unfold dropSvcData at h
  split_ifs at h with hp
  obtain ⟨prio, hprio, h⟩ := ok_of_bind h
  obtain ⟨⟨ok, q, x⟩, hn, h⟩ := ok_of_bind h
  dsimp only at h
  split_ifs at h with hq
  obtain ⟨hok, hle⟩ := not_or.mp hq
  obtain rfl := not_not.mp hok
  exact ⟨prio, q, x, not_lt.mp hp, hprio, hn, not_lt.mp hle, h⟩

theorem dropSvcData_ok {d : Bytes} {v4 v6 : Bool} {stop : ℕ} {c c' : Cursor}
    (h : dropSvcData d v4 v6 stop c = .ok c') : Appended c c' ∧ c'.p = stop := by
  obtain ⟨prio, q, x, hp, hprio, hn, hq, h⟩ := dropSvcData_steps h
  obtain ⟨hle, y, rfl, hy⟩ := copyName_ok hn
  obtain ⟨ha, he⟩ := dropParams_ok h
  refine ⟨Appended.trans ⟨by simp; omega, prio ++ y, by simp, ?_⟩ ha, he (by simp; omega)⟩
  rw [List.length_append, length_of_substr hprio, hy]
  simp
  omega

theorem dropData_ok {d : Bytes} {t q : ℕ} {v4 v6 : Bool} {stop : ℕ} {c c' : Cursor}
    (h : dropData d t q v4 v6 stop c = .ok c') (hle : c.p ≤ stop) : Appended c c' ∧ c'.p = stop := by
  unfold dropData at h
  split_ifs at h with ht
  · obtain ⟨rdata, hr, h⟩ := ok_of_bind h
    cases h
    exact ⟨⟨hle, rdata, rfl, (length_of_substr hr).le⟩, rfl⟩
  · exact dropSvcData_ok h

theorem copyRecord_steps {d x : Bytes} {t q p : ℕ} {v4 v6 ok : Bool} {c c' : Cursor}
    (hn : copyName d c.p c.sOut c.vRemoved = .ok (ok, p, x))
    (h : copyRecord d t q v4 v6 c = .ok c') :
    ∃ len fixed c₁ sOut, readU16 d (p + 8) = .ok len ∧ p + 10 + len ≤ d.length ∧
      substr d p 8 = .ok fixed ∧
      dropData d t q v4 v6 (p + 10 + len) ⟨p + 10, x ++ fixed ++ [0, 0], c.vRemoved⟩ = .ok c₁ ∧
      writeU16 c₁.sOut (x ++ fixed).length ((c₁.sOut.length - (x ++ fixed).length - 2) % 65536) =
        .ok sOut ∧ c' = ⟨p + 10 + len, sOut, c₁.vRemoved⟩ := by
  unfold copyRecord at h
  obtain ⟨⟨ok', p', x'⟩, hn', h⟩ := ok_of_bind h
  rw [hn] at hn'
  cases hn'
  obtain ⟨len, hlen, h⟩ := ok_of_bind h
  dsimp only at h
  split_ifs at h with hstop
  obtain ⟨fixed, hfix, h⟩ := ok_of_bind h
  obtain ⟨c₁, hc₁, h⟩ := ok_of_bind h
  obtain ⟨sOut, hw, h⟩ := ok_of_bind h
  cases h
  exact ⟨len, fixed, c₁, sOut, hlen, not_lt.mp hstop, hfix, hc₁, hw, rfl⟩

theorem copyRecord_ok {d x : Bytes} {t q p : ℕ} {v4 v6 ok : Bool} {c c' : Cursor}
    (hn : copyName d c.p [] c.vRemoved = .ok (ok, p, x))
    (h : copyRecord d t q v4 v6 c = .ok c') : Appended c c' ∧ c'.p ≤ d.length := by
  obtain ⟨len, fixed, c₁, sOut, -, hstop, hfix, hc₁, hw, rfl⟩ :=
    copyRecord_steps (copyName_of_nil hn) h
  obtain ⟨hle, y, hy, hylen⟩ := copyName_ok hn
  rw [List.nil_append] at hy
  subst hy
  obtain ⟨⟨-, z, hz, hzl⟩, hcp⟩ := dropData_ok hc₁ (by simp)
  have hfl := length_of_substr hfix
  dsimp only at hz hzl
  rw [hz, writeU16_append] at hw
  cases hw
  refine ⟨⟨by dsimp only; omega, _, by simp only [List.append_assoc]; rfl, ?_⟩, by dsimp only; omega⟩
  simp only [List.length_append, length_be16]
  omega

theorem dropRecord_steps {d : Bytes} {q : ℕ} {v4 v6 : Bool} {c c' : Cursor}
    (h : dropRecord d q v4 v6 c = .ok (some c')) :
    ∃ p x uType, copyName d c.p [] c.vRemoved = .ok (true, p, x) ∧ readU16 d p = .ok uType ∧
      copyRecord d uType q v4 v6 c = .ok c' := by
  unfold dropRecord at h
  obtain ⟨⟨ok, p, x⟩, hn, h⟩ := ok_of_bind h
  dsimp only at h
  split_ifs at h with hok
  obtain rfl := not_not.mp (not_or.mp hok).1
  obtain ⟨uType, ht, h⟩ := ok_of_bind h
  split_ifs at h with hty
  · cases h
  · obtain ⟨c₁, hc₁, h⟩ := ok_of_bind h
    cases h
    exact ⟨p, x, uType, hn, ht, hc₁⟩

/-- **One record**: it is copied to something no longer, and ends within the message. -/
theorem dropRecord_ok {d : Bytes} {q : ℕ} {v4 v6 : Bool} {c c' : Cursor}
    (h : dropRecord d q v4 v6 c = .ok (some c')) : Appended c c' ∧ c'.p ≤ d.length := by
  obtain ⟨p, x, uType, hn, -, hc⟩ := dropRecord_steps h
  exact copyRecord_ok hn hc

/-- **All records**: the output starts with what was written, and what follows is not longer than the
rest of the message. -/
theorem dropRecords_ok {d out : Bytes} {q : ℕ} {v4 v6 : Bool} {n i k : ℕ} {c : Cursor}
    (h : dropRecords d q v4 v6 n i c = .ok (k, out)) (hp : c.p ≤ d.length) :
    ∃ y, out = c.sOut ++ y ∧ y.length ≤ d.length - c.p := by
  induction n generalizing i c with
  | zero =>
    cases h
    exact ⟨[], by simp, by simp⟩
  | succ n ih =>
    unfold dropRecords at h
    obtain ⟨r, hr, h⟩ := ok_of_bind h
    rcases r with _ | c'
    · cases h
      exact ⟨[], by simp, by simp⟩
    · obtain ⟨⟨hle, y, hy, hyl⟩, hp'⟩ := dropRecord_ok hr
      obtain ⟨z, rfl, hz⟩ := ih h hp'
      refine ⟨y ++ z, by rw [hy, List.append_assoc], ?_⟩
      rw [List.length_append]
      omega

end DnsMultiZone.Rfc1035.Append
