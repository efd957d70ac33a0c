import DnsMultiZone.Config.Lookup

/-! # The search, pass by pass

One pass of the `do … while` loop of `CheckIsMatch` (`searchPass`) goes on with an interval that is at
most half as long, rounded up, or it ends the loop. So whatever the signs are, the loop ends after at most
one pass more than the length can be halved (`passes_done`), and on the way it looks at entries of the
vector only. `searchLoop` is what the passes end with (`searchLoop_of_passes`).

* `search_ends`: the loop ends on every vector, and on disjoint ranges it finds an entry exactly when one
  contains the address. -/

namespace DnsMultiZone.Config.Passes

open DnsMultiZone.Lib.BigEndian DnsMultiZone.Config.Address DnsMultiZone.Config.ConfigType
open DnsMultiZone.Config.LoadFile DnsMultiZone.Config.Ranges DnsMultiZone.Config.Search
open DnsMultiZone.Config.Lookup

/-! ### One pass -/

/-- What a pass of the loop ends in: another pass, a result, or an overflow or an index outside the
vector. -/
inductive Pass
  | next (nBegin nEnd : ℕ)
  | done (ret : Bool)
  | fault
  deriving DecidableEq

/-- The result of looking at the entry of the other end, where the middle is an end already. -/
def lookAt (cmp : ℕ → Option ℤ) (i : ℕ) : Pass :=
  match cmp i with
  | none => .fault
  | some iCmpResult => .done (iCmpResult == 0)

/-- The test `nBegin != nEnd` after a pass. -/
def again (nBegin nEnd : ℕ) : Pass := if nBegin ≠ nEnd then .next nBegin nEnd else .done false

/-- The body of the loop, with its test; `cmp i` is `MatchCompare` of entry `i`. -/
def searchPass (cmp : ℕ → Option ℤ) (nBegin nEnd : ℕ) : Pass :=
  if nBegin + nEnd > intMax then .fault
  else
    match cmp ((nBegin + nEnd) / 2) with
    | none => .fault
    | some iCmpResult =>
      if iCmpResult < 0 then
        if nEnd ≠ (nBegin + nEnd) / 2 then again nBegin ((nBegin + nEnd) / 2) else lookAt cmp nBegin
      else if iCmpResult > 0 then
        if nBegin ≠ (nBegin + nEnd) / 2 then again ((nBegin + nEnd) / 2) nEnd else lookAt cmp nEnd
      else .done true

/-- The loop after at most `k` passes. -/
def passes (cmp : ℕ → Option ℤ) : ℕ → ℕ → ℕ → Pass
  | 0, nBegin, nEnd => .next nBegin nEnd
  | k + 1, nBegin, nEnd =>
    match searchPass cmp nBegin nEnd with
    | .next nBegin nEnd => passes cmp k nBegin nEnd
    | .done ret => .done ret
    | .fault => .fault

variable {cmp : ℕ → Option ℤ} {b e b' e' k : ℕ} {ret : Bool}

theorem searchPass_of_mid {c : ℤ} (hsum : b + e ≤ intMax) (hc : cmp ((b + e) / 2) = some c) :
    searchPass cmp b e =
      if c < 0 then if e ≠ (b + e) / 2 then again b ((b + e) / 2) else lookAt cmp b
      else if c > 0 then if b ≠ (b + e) / 2 then again ((b + e) / 2) e else lookAt cmp e
      else .done true := by
  unfold searchPass
  rw [if_neg (not_lt.mpr hsum), hc]

theorem searchLoop_lookAt (cmp : ℕ → Option ℤ) (i : ℕ) : (cmp i).map (· == 0) =
    match lookAt cmp i with
    | .next nBegin nEnd => searchLoop cmp nBegin nEnd
    | .done ret => some ret
    | .fault => none := by
  unfold lookAt
  rcases cmp i with _ | c <;> rfl

/-- `searchLoop` makes a pass, and goes on as the pass says. -/
theorem searchLoop_pass (cmp : ℕ → Option ℤ) (b e : ℕ) : searchLoop cmp b e =
    match searchPass cmp b e with
    | .next nBegin nEnd => searchLoop cmp nBegin nEnd
    | .done ret => some ret
    | .fault => none := by
  rw [searchLoop]
  unfold searchPass
  by_cases hsum : b + e > intMax
  · rw [if_pos hsum, if_pos hsum]
  rw [if_neg hsum, if_neg hsum]
  rcases cmp ((b + e) / 2) with _ | c
  · rfl
  simp only
  by_cases hneg : c < 0
  · rw [if_pos hneg, if_pos hneg]
    by_cases he : e ≠ (b + e) / 2
    · rw [if_pos he, if_pos he, again]
      by_cases hb : b ≠ (b + e) / 2
      · rw [if_pos hb, if_pos hb]
      · rw [if_neg hb, if_neg hb]
    · rw [if_neg he, if_neg he]
      exact searchLoop_lookAt cmp b
  rw [if_neg hneg, if_neg hneg]
  by_cases hpos : c > 0
  · rw [if_pos hpos, if_pos hpos]
    by_cases hb : b ≠ (b + e) / 2
    · rw [if_pos hb, if_pos hb, again]
      by_cases he : e ≠ (b + e) / 2
      · rw [if_pos he, if_pos (Ne.symm he)]
      · rw [if_neg he, if_neg (fun hn => he (Ne.symm hn))]
    · rw [if_neg hb, if_neg hb]
      exact searchLoop_lookAt cmp e
  · rw [if_neg hpos, if_neg hpos]

/-- **What the passes end with** is what `searchLoop` returns. -/
theorem searchLoop_of_passes (h : passes cmp k b e = .done ret) : searchLoop cmp b e = some ret := by
  induction k generalizing b e with
  | zero => cases h
  | succ k ih =>
    rw [passes] at h
    rw [searchLoop_pass]
    rcases hp : searchPass cmp b e with ⟨b', e'⟩ | r | _ <;> rw [hp] at h
    · exact ih h
    · cases h
      rfl
    · cases h

/-! ### How many passes -/

theorem again_next (h : again b e = .next b' e') : b' = b ∧ e' = e ∧ b ≠ e := by
  unfold again at h
  split_ifs at h with hne
  cases h
  exact ⟨rfl, rfl, hne⟩

theorem lookAt_ne_next (cmp : ℕ → Option ℤ) (i : ℕ) : lookAt cmp i ≠ .next b' e' := by
  unfold lookAt
  rcases cmp i with _ | c <;> intro h <;> cases h

/-- **A pass halves the interval**, and stays in it. -/
theorem searchPass_next (h : searchPass cmp b e = .next b' e') (hbe : b ≤ e) :
    b ≤ b' ∧ b' < e' ∧ e' ≤ e ∧ 2 * (e' - b') ≤ e - b + 1 ∧ e' - b' < e - b := by
  by_cases hsum : b + e > intMax
  · rw [searchPass, if_pos hsum] at h
    cases h
  rcases hmid : cmp ((b + e) / 2) with _ | c
  · rw [searchPass, if_neg hsum, hmid] at h
    cases h
  rw [searchPass_of_mid (not_lt.mp hsum) hmid] at h
  split_ifs at h
  · obtain ⟨rfl, rfl, hne⟩ := again_next h
    omega
  · exact absurd h (lookAt_ne_next cmp b)
  · obtain ⟨rfl, rfl, hne⟩ := again_next h
    omega
  · exact absurd h (lookAt_ne_next cmp e)

theorem searchPass_ne_fault (hbe : b ≤ e) (he : 2 * e ≤ intMax) (hc : ∀ i ≤ e, (cmp i).isSome) :
    searchPass cmp b e ≠ .fault := by
  have hlook : ∀ i ≤ e, lookAt cmp i ≠ .fault := by
    intro i hi h
    obtain ⟨c, hc⟩ := Option.isSome_iff_exists.mp (hc i hi)
    rw [lookAt, hc] at h
    cases h
  have hagain : ∀ x y, again x y ≠ .fault := by
    intro x y h
    unfold again at h
    split_ifs at h
  obtain ⟨c, hmid⟩ := Option.isSome_iff_exists.mp (hc ((b + e) / 2) (by omega))
  intro h
  rw [searchPass_of_mid (by omega) hmid] at h
  split_ifs at h
  · exact hagain _ _ h
  · exact hlook b hbe h
  · exact hagain _ _ h
  · exact hlook e le_rfl h

/-- **The loop ends**, whatever the signs are. -/
theorem passes_done (hbe : b ≤ e) (hk : e - b ≤ 2 ^ k) (he : 2 * e ≤ intMax)
    (hc : ∀ i ≤ e, (cmp i).isSome) : ∃ ret, passes cmp (k + 1) b e = .done ret := by
  induction k generalizing b e with
  | zero =>
    rcases hp : searchPass cmp b e with ⟨b', e'⟩ | ret | _
    · have hnext := searchPass_next hp hbe
      omega
    · exact ⟨ret, by rw [passes, hp]⟩
    · exact absurd hp (searchPass_ne_fault hbe he hc)
  | succ k ih =>
    rcases hp : searchPass cmp b e with ⟨b', e'⟩ | ret | _
    · obtain ⟨hb', hlt, he', hhalf, -⟩ := searchPass_next hp hbe
      rw [pow_succ] at hk
      obtain ⟨ret, hret⟩ := ih (b := b') (e := e') (by omega) (by omega) (by omega)
        fun i hi => hc i (by omega)
      exact ⟨ret, by rw [passes, hp]; exact hret⟩
    · exact ⟨ret, by rw [passes, hp]⟩
    · exact absurd hp (searchPass_ne_fault hbe he hc)

/-! ### On entries -/

/-- Any two entries have disjoint ranges or the same one. -/
def DisjointOrSame {α : Type} (base top : α → ℕ) (items : List α) : Prop :=
  ∀ a ∈ items, ∀ b ∈ items, top a < base b ∨ top b < base a ∨ base a = base b ∧ top a = top b

section Entries

variable {α : Type} {items : List α}

theorem entries_done (matchCompare : α → ℤ) (hne : items ≠ []) (hlen : items.length ≤ 2 ^ 30) :
    ∃ ret, passes (fun i => (items[i]?).map matchCompare) 31 0 (items.length - 1) = .done ret ∧
      ∀ inverse, checkEntries items matchCompare inverse = some (if inverse then !ret else ret) := by
  have hpos : 0 < items.length := List.length_pos_iff.mpr hne
  have hmax : intMax = 2 ^ 31 - 1 := rfl
  have hget : ∀ i ≤ items.length - 1, ((items[i]?).map matchCompare).isSome := by
    intro i hi
    rw [List.getElem?_eq_getElem (by omega)]
    rfl
  obtain ⟨ret, hret⟩ := passes_done (k := 30) (Nat.zero_le (items.length - 1)) (by omega) (by omega) hget
  refine ⟨ret, hret, fun inverse => ?_⟩
  rw [checkEntries, if_neg (by omega), if_neg (by omega), searchLoop_of_passes hret]
  rfl

/-- On sorted ranges that are disjoint or the same, the result is whether some entry contains `x`. -/
theorem entries_exact {base top : α → ℕ} {x : ℕ} {cmp : α → ℤ} {ret : Bool}
    (h : Signs base top x cmp items) (hle : ∀ e ∈ items, base e ≤ top e)
    (hd : DisjointOrSame base top items) (hlen : items.length ≤ 2 ^ 30)
    (hret : checkEntries items cmp false = some ret) :
    ret = true ↔ ∃ e ∈ items, InRange base top x e := by
  have hpair : items.Pairwise fun a b => top a < base b ∨ base a = base b ∧ top a = top b := by
    refine h.sorted.imp_of_mem fun {a b} ha hb hab => ?_
    have hb' := hle b hb
    rcases hd a ha b hb with hlt | hlt | hsame
    · exact Or.inl hlt
    · omega
    · exact Or.inr hsame
  have hmeets := searchMeets_of_disjoint (x := x) hlen h.sorted hpair
  have hscan := (checkEntries_eq_scan_iff h false).mpr hmeets
  rw [Option.some.inj (hret.symm.trans hscan), scan, Bool.false_xor]
  simp only [List.any_eq_true, decide_eq_true_eq]

end Entries

/-- **The search of both overloads** ends after at most 31 passes and looks at entries of the vector only,
whatever the entries are. On sorted ranges of which any two are disjoint or the same, it ends with a hit
exactly when some entry contains the address. -/
theorem search_ends (info : IPInfo) :
    (∀ ip : UInt32, info.siIPItems ≠ [] → info.siIPItems.length ≤ 2 ^ 30 →
      ∃ ret, passes (fun i => (info.siIPItems[i]?).map (·.matchCompare ip)) 31 0
          (info.siIPItems.length - 1) = .done ret ∧
        info.checkIsMatch ip = some (if info.bIsInverseIPList then !ret else ret) ∧
        ((∀ e ∈ info.siIPItems, Aligned4 e) →
          (info.siIPItems.Pairwise fun a b => base4 a ≤ base4 b) →
          DisjointOrSame base4 top4 info.siIPItems →
          (ret = true ↔ ∃ e ∈ info.siIPItems, InRange base4 top4 ip.toNat e))) ∧
    ∀ ip : IPv6Addr, info.siIPItems6 ≠ [] → info.siIPItems6.length ≤ 2 ^ 30 →
      ∃ ret, passes (fun i => (info.siIPItems6[i]?).map (·.matchCompare ip)) 31 0
          (info.siIPItems6.length - 1) = .done ret ∧
        info.checkIsMatch6 ip = some (if info.bIsInverseIPList then !ret else ret) ∧
        ((∀ e ∈ info.siIPItems6, Aligned6 e) →
          (info.siIPItems6.Pairwise fun a b => base6 a ≤ base6 b) →
          DisjointOrSame base6 top6 info.siIPItems6 →
          (ret = true ↔ ∃ e ∈ info.siIPItems6, InRange base6 top6 (num6 ip) e)) := by
  refine ⟨fun ip hne hlen => ?_, fun ip hne hlen => ?_⟩
  · obtain ⟨ret, hdone, hcheck⟩ := entries_done (fun e => e.matchCompare ip) hne hlen
    refine ⟨ret, hdone, hcheck _, fun halign hsorted hd => ?_⟩
    exact entries_exact ⟨fun e he => matchCompare_neg (halign e he) ip,
      fun e he => matchCompare_zero (halign e he) ip, hsorted⟩ (fun e _ => Nat.le_add_right _ _) hd hlen
      (hcheck false)
  · obtain ⟨ret, hdone, hcheck⟩ := entries_done (fun e => e.matchCompare ip) hne hlen
    refine ⟨ret, hdone, hcheck _, fun halign hsorted hd => ?_⟩
    exact entries_exact ⟨fun e he => matchCompare6_neg (halign e he) ip,
      fun e he => matchCompare6_zero (halign e he) ip, hsorted⟩ (fun e _ => Nat.le_add_right _ _) hd hlen
      (hcheck false)

/-- Three entries, two of them the same, of each family. -/
def repeated : IPInfo := listOf 4 "10.2.0.0/16\n10.1.0.0/16\n10.2.0.0/16\n"

def repeated6 : IPInfo :=
  listOf 6 "2001:db8:2:0:0:0:0:0/48\n2001:db8:1:0:0:0:0:0/48\n2001:db8:2:0:0:0:0:0/48\n"

/-- The search finds the only entry that contains `10.1.2.3`, and one of the two that contain
`2001:db8:2::1`. -/
theorem search_ends_repeated :
    (∃ ret, passes (fun i => (repeated.siIPItems[i]?).map (·.matchCompare 0x0A010203)) 31 0
        (repeated.siIPItems.length - 1) = .done ret ∧
      repeated.checkIsMatch 0x0A010203 = some (if repeated.bIsInverseIPList then !ret else ret) ∧
      (ret = true ↔ ∃ e ∈ repeated.siIPItems, InRange base4 top4 0x0A010203 e)) ∧
    ∃ ret, passes (fun i => (repeated6.siIPItems6[i]?).map (·.matchCompare ip6)) 31 0
        (repeated6.siIPItems6.length - 1) = .done ret ∧
      repeated6.checkIsMatch6 ip6 = some (if repeated6.bIsInverseIPList then !ret else ret) ∧
      (ret = true ↔ ∃ e ∈ repeated6.siIPItems6, InRange base6 top6 (num6 ip6) e) := by
  have hl : Loaded colons repeated := loaded_listOf (by decide +kernel)
  have hl6 : Loaded colons repeated6 := loaded_listOf (by decide +kernel)
  obtain ⟨ret, hdone, hcheck, hexact⟩ := (search_ends repeated).1 0x0A010203 (by decide +kernel)
    (by decide +kernel)
  obtain ⟨ret6, hdone6, hcheck6, hexact6⟩ := (search_ends repeated6).2 ip6 (by decide +kernel)
    (by decide +kernel)
  refine ⟨⟨ret, hdone, hcheck, hexact hl.entries.1.1 hl.entries.1.2 ?_⟩,
    ret6, hdone6, hcheck6, hexact6 hl6.entries.2.1 hl6.entries.2.2 ?_⟩
  all_goals
    unfold DisjointOrSame
    decide +kernel

end DnsMultiZone.Config.Passes
