import DnsMultiZone.Work.Query

/-! # The scan over the zones

`DNSQueryResult` scans the items of a query from its cursor on, and stops at the first zone that is
waited for or matches. This module says what each outcome means for the states of the zones, and when the
scan from the cursor decides like the scan from the first zone (`scan_eq_scan_zero`).

* `Undecided`: some zone is waited for and none before it matches. This is when the scan waits.
* `ReplyMatches`: a reply for which its zone gets the state `match`, in closed form. -/

namespace DnsMultiZone.Work.Scan

open DnsMultiZone.Config.Address DnsMultiZone.Config.ConfigType
open DnsMultiZone.Rfc1035.Parse
open DnsMultiZone.Work.Query

/-- The state of zone `i`. -/
def stateAt (items : List DNSQueryResultItem) (i : ℕ) : Option EnumState :=
  (items[i]?).map (·.eState)

/-- The scan passes zone `i`. -/
def Passed (items : List DNSQueryResultItem) (i : ℕ) : Prop :=
  stateAt items i ≠ some .wait ∧ stateAt items i ≠ some .match

/-- **Nothing is decided yet**: some zone is waited for, and no zone before it matches. -/
def Undecided (items : List DNSQueryResultItem) : Prop :=
  ∃ i, stateAt items i = some .wait ∧ ∀ j < i, stateAt items j ≠ some .match

variable {items items' : List DNSQueryResultItem} {c i j : ℕ}

theorem stateAt_drop : stateAt (items.drop c) i = stateAt items (c + i) := by
  simp [stateAt]

theorem stateAt_eq_none (h : items.length ≤ i) : stateAt items i = none := by
  simp [stateAt, h]

theorem lt_length_of_stateAt {s : EnumState} (h : stateAt items i = some s) : i < items.length := by
  by_contra hi
  rw [stateAt_eq_none (not_lt.mp hi)] at h
  cases h

/-! ### The loop -/

theorem scanLoop_eq_some {b : Bool} : scanLoop items i = some (j, b) ↔
    ∃ k, j = i + k ∧ stateAt items k = some (if b then .match else .wait) ∧
      ∀ m < k, Passed items m := by
  induction items generalizing i with
  | nil => simp [scanLoop, stateAt]
  | cons item items ih =>
    unfold scanLoop
    by_cases hw : item.eState = .wait
    · rw [if_pos hw]
      constructor
      · intro h
        cases h
        exact ⟨0, rfl, by simp [stateAt, hw], by simp⟩
      · rintro ⟨k, rfl, hs, hp⟩
        rcases k with _ | k
        · cases b <;> simp [stateAt, hw] at hs ⊢
        · exact absurd (by simp [stateAt, hw]) (hp 0 (by omega)).1
    rw [if_neg hw]
    by_cases hm : item.eState = .match
    · rw [if_pos hm]
      constructor
      · intro h
        cases h
        exact ⟨0, rfl, by simp [stateAt, hm], by simp⟩
      · rintro ⟨k, rfl, hs, hp⟩
        rcases k with _ | k
        · cases b <;> simp [stateAt, hm] at hs ⊢
        · exact absurd (by simp [stateAt, hm]) (hp 0 (by omega)).2
    rw [if_neg hm, ih]
    constructor
    · rintro ⟨k, rfl, hs, hp⟩
      refine ⟨k + 1, by omega, by simpa [stateAt] using hs, fun m hlt => ?_⟩
      rcases m with _ | m
      · exact ⟨by simp [stateAt, hw], by simp [stateAt, hm]⟩
      · simpa [Passed, stateAt] using hp m (by omega)
    · rintro ⟨k, rfl, hs, hp⟩
      rcases k with _ | k
      · cases b <;> simp [stateAt, hw, hm] at hs
      · refine ⟨k, by omega, by simpa [stateAt] using hs, fun m hlt => ?_⟩
        simpa [Passed, stateAt] using hp (m + 1) (by omega)

theorem scanLoop_eq_none : scanLoop items i = none ↔ ∀ m, Passed items m := by
  induction items generalizing i with
  | nil => simp [scanLoop, Passed, stateAt]
  | cons item items ih =>
    unfold scanLoop
    have h0 : Passed (item :: items) 0 ↔ item.eState ≠ .wait ∧ item.eState ≠ .match := by
      simp [Passed, stateAt]
    by_cases hw : item.eState = .wait
    · rw [if_pos hw]
      exact iff_of_false (by simp) fun h => (h0.mp (h 0)).1 hw
    rw [if_neg hw]
    by_cases hm : item.eState = .match
    · rw [if_pos hm]
      exact iff_of_false (by simp) fun h => (h0.mp (h 0)).2 hm
    rw [if_neg hm, ih]
    constructor
    · intro h m
      rcases m with _ | m
      · exact h0.mpr ⟨hw, hm⟩
      · simpa [Passed, stateAt] using h m
    · intro h m
      simpa [Passed, stateAt] using h (m + 1)

/-! ### The outcomes -/

/-- The zones the scan from `c` looks at before `i` are passed. -/
def PassedFrom (items : List DNSQueryResultItem) (c i : ℕ) : Prop :=
  ∀ k, c ≤ k → k < i → Passed items k

theorem scanLoop_drop_eq_some {b : Bool} : scanLoop (items.drop c) c = some (j, b) ↔
    c ≤ j ∧ stateAt items j = some (if b then .match else .wait) ∧ PassedFrom items c j := by
  rw [scanLoop_eq_some]
  constructor
  · rintro ⟨k, rfl, hs, hp⟩
    refine ⟨by omega, stateAt_drop ▸ hs, fun m hc hm => ?_⟩
    have := hp (m - c) (by omega)
    unfold Passed at this
    rw [stateAt_drop, Nat.add_sub_cancel' hc] at this
    exact this
  · rintro ⟨hc, hs, hp⟩
    refine ⟨j - c, by omega, ?_, fun m hm => ?_⟩
    · rw [stateAt_drop, Nat.add_sub_cancel' hc, hs]
    · unfold Passed
      rw [stateAt_drop]
      exact hp (c + m) (by omega) (by omega)

theorem scanLoop_drop_eq_none : scanLoop (items.drop c) c = none ↔ ∀ k, c ≤ k → Passed items k := by
  rw [scanLoop_eq_none]
  constructor
  · intro h k hk
    have := h (k - c)
    unfold Passed at this
    rwa [stateAt_drop, Nat.add_sub_cancel' hk] at this
  · intro h m
    unfold Passed
    rw [stateAt_drop]
    exact h (c + m) (by omega)

/-- The four things a scan can find. -/
theorem scan_cases (items : List DNSQueryResultItem) (c : ℕ) :
    (∃ j, c ≤ j ∧ stateAt items j = some .wait ∧ PassedFrom items c j ∧ scan items c = (.waiting, j)) ∨
    (∃ j, c ≤ j ∧ stateAt items j = some .match ∧ PassedFrom items c j ∧
      scan items c = (.answer j, c)) ∨
    ((∀ k, c ≤ k → Passed items k) ∧ stateAt items 0 = some .notMatch ∧
      scan items c = (.fallback, c)) ∨
    ((∀ k, c ≤ k → Passed items k) ∧ stateAt items 0 ≠ some .notMatch ∧
      scan items c = (.nothing, c)) := by
  rcases h : scanLoop (items.drop c) c with _ | ⟨j, b⟩
  · have hp := scanLoop_drop_eq_none.mp h
    by_cases h0 : stateAt items 0 = some .notMatch
    · exact Or.inr (Or.inr (Or.inl ⟨hp, h0, by unfold scan; rw [h]; exact congrArg (·, c) (if_pos h0)⟩))
    · exact Or.inr (Or.inr (Or.inr ⟨hp, h0, by unfold scan; rw [h]; exact congrArg (·, c) (if_neg h0)⟩))
  · obtain ⟨hc, hs, hp⟩ := scanLoop_drop_eq_some.mp h
    cases b
    · exact Or.inl ⟨j, hc, hs, hp, by unfold scan; rw [h]⟩
    · exact Or.inr (Or.inl ⟨j, hc, hs, hp, by unfold scan; rw [h]⟩)

/-- The scan from `c` waits exactly when a zone from `c` on is waited for and none from `c` to it
matches. -/
theorem scan_waiting_iff_from : (scan items c).1 = .waiting ↔
    ∃ i, c ≤ i ∧ stateAt items i = some .wait ∧ ∀ j, c ≤ j → j < i → stateAt items j ≠ some .match := by
  constructor
  · intro h
    rcases scan_cases items c with ⟨j, hc, hs, hp, -⟩ | ⟨j, -, -, -, he⟩ | ⟨-, -, he⟩ | ⟨-, -, he⟩
    · exact ⟨j, hc, hs, fun k hk hkj => (hp k hk hkj).2⟩
    all_goals rw [he] at h; cases h
  · rintro ⟨i, hc, hi, hm⟩
    rcases scan_cases items c with ⟨j, -, -, -, he⟩ | ⟨j, hcj, hs, hp, -⟩ | ⟨hp, -⟩ | ⟨hp, -⟩
    · rw [he]
    · rcases Nat.lt_trichotomy i j with hij | rfl | hij
      · exact absurd hi (hp i hc hij).1
      · rw [hi] at hs
        cases hs
      · exact absurd hs (hm j hcj hij)
    · exact absurd hi (hp i hc).1
    · exact absurd hi (hp i hc).1

/-- **The scan waits exactly when nothing is decided.** -/
theorem scan_waiting_iff : (scan items 0).1 = .waiting ↔ Undecided items := by
  rw [scan_waiting_iff_from]
  constructor
  · rintro ⟨i, -, hi, hm⟩
    exact ⟨i, hi, fun j hj => hm j (Nat.zero_le j) hj⟩
  · rintro ⟨i, hi, hm⟩
    exact ⟨i, Nat.zero_le i, hi, fun j _ hj => hm j hj⟩

/-- **The cursor does not matter** while the zones before it are passed. -/
theorem scan_eq_scan_zero (h : PassedFrom items 0 c) : (scan items c).1 = (scan items 0).1 := by
  rcases scan_cases items c with ⟨j, hc, hs, hp, he⟩ | ⟨j, hc, hs, hp, he⟩ | ⟨hp, h0, he⟩ | ⟨hp, h0, he⟩
  all_goals rw [he]
  · have hall : ∀ k < j, Passed items k := fun k hk => by
      rcases Nat.lt_or_ge k c with hkc | hkc
      · exact h k (Nat.zero_le _) hkc
      · exact hp k hkc hk
    exact (scan_waiting_iff.mpr ⟨j, hs, fun k hk => (hall k hk).2⟩).symm
  · have hall : PassedFrom items 0 j := fun k _ hk => by
      rcases Nat.lt_or_ge k c with hkc | hkc
      · exact h k (Nat.zero_le _) hkc
      · exact hp k hkc hk
    have hl : scanLoop (items.drop 0) 0 = some (j, true) :=
      scanLoop_drop_eq_some.mpr ⟨Nat.zero_le _, hs, hall⟩
    unfold scan; rw [hl]
  all_goals
    have hall : ∀ k, 0 ≤ k → Passed items k := fun k _ => by
      rcases Nat.lt_or_ge k c with hkc | hkc
      · exact h k (Nat.zero_le _) hkc
      · exact hp k hkc
    have hl : scanLoop (items.drop 0) 0 = none := scanLoop_drop_eq_none.mpr hall
    unfold scan; rw [hl]
  · exact (if_pos h0).symm
  · exact (if_neg h0).symm

/-! ### A reply that matches -/

/-- **The reply matches**: its zone takes part, and either no address is asked for, or the reply
parses with an address-bearing question type and more than a third of its judged addresses are let
through; without judged addresses it is not a distrusted `NXDOMAIN`. -/
def ReplyMatches (z : ZoneInfo) (uReqType : ℕ) (r : Reply) : Prop :=
  r.sDNSData ≠ [] ∧ zoneTakesPart z uReqType = true ∧
    (isIPBearingType uReqType = false ∨
      (r.bIsParseOK = true ∧ isIPBearingType r.uQType = true ∧
        ((judged z uReqType r = [] ∧ ¬ (z.bIsDenyNXDomain = true ∧ getRCode r.uFlag = rcodeNXDomain)) ∨
          (judged z uReqType r).length < 3 * (judged z uReqType r).count true)))

instance (z : ZoneInfo) (uReqType : ℕ) (r : Reply) : Decidable (ReplyMatches z uReqType r) := by
  unfold ReplyMatches; infer_instance

theorem div_le_two_iff {n m : ℕ} (hm : m ≠ 0) : n / m ≤ 2 ↔ n < 3 * m := by
  rw [← Nat.lt_succ_iff, Nat.div_lt_iff_lt_mul (Nat.pos_of_ne_zero hm)]

theorem judgeAddresses_eq_match {z : ZoneInfo} {uReqType : ℕ} {r : Reply} :
    judgeAddresses z uReqType r = .match ↔
      ((judged z uReqType r = [] ∧ ¬ (z.bIsDenyNXDomain = true ∧ getRCode r.uFlag = rcodeNXDomain)) ∨
        (judged z uReqType r).length < 3 * (judged z uReqType r).count true) := by
  unfold judgeAddresses
  by_cases h0 : judged z uReqType r = []
  · by_cases hd : z.bIsDenyNXDomain = true ∧ getRCode r.uFlag = rcodeNXDomain
    · simp [h0, hd.1, hd.2]
    · simp [h0, hd]
  · have hlen : (judged z uReqType r).length ≠ 0 := by simpa using h0
    simp only [hlen, if_false, h0, false_and, false_or]
    by_cases hm : (judged z uReqType r).count true = 0
    · simp [hm]
    · rw [← div_le_two_iff hm]
      by_cases h2 : (judged z uReqType r).length / (judged z uReqType r).count true ≤ 2 <;>
        simp [hm, h2]

/-- A zone gets the state `match` exactly for a reply that matches. -/
theorem judge_eq_match {z : ZoneInfo} {uReqType : ℕ} {r : Reply} {item : DNSQueryResultItem} :
    (judge z uReqType r item).eState = .match ↔ ReplyMatches z uReqType r := by
  unfold judge ReplyMatches
  by_cases hd : r.sDNSData = []
  · simp [hd]
  have hl : r.sDNSData.length ≠ 0 := by simpa using hd
  by_cases ht : zoneTakesPart z uReqType
  · by_cases hq : isIPBearingType uReqType
    · by_cases hp : r.bIsParseOK
      · by_cases hb : isIPBearingType r.uQType
        · simp only [hl, hd, ht, hq, hp, hb, Bool.true_eq_false, if_false, ne_eq, not_false_eq_true,
            true_and, false_or]
          exact judgeAddresses_eq_match
        · simp [hl, ht, hq, hp, hb]
      · simp [hl, ht, hq, hp]
    · simp [hl, hd, ht, hq]
  · simp [hl, ht]

theorem judge_ne_wait {z : ZoneInfo} {uReqType : ℕ} {r : Reply} {item : DNSQueryResultItem} :
    (judge z uReqType r item).eState ≠ .wait := by
  unfold judge judgeAddresses
  dsimp only
  split_ifs <;> simp

end DnsMultiZone.Work.Scan
