import DnsMultiZone.Config.Ranges
import DnsMultiZone.Lib.Halving

/-! # When an IP list finds an address

The search of `CheckIsMatch` halves the vector towards the rank of the address, the number of entries
whose base is at most the address, and reports a hit as soon as it looks at an entry that contains the
address. Entries before the rank may end before the address, so when ranges are nested the search can
pass the only entry that contains the address. `SearchMeets` says that it does not; it is exactly the
condition under which the search agrees with a linear scan (`checkEntries_eq_scan_iff`). Lists whose
ranges are disjoint or equal meet it at every address (`searchMeets_of_disjoint`). -/

namespace DnsMultiZone.Config.Search

open DnsMultiZone.Lib.BigEndian DnsMultiZone.Lib.Halving DnsMultiZone.Lib.Sorting
open DnsMultiZone.Config.Address DnsMultiZone.Config.ConfigType DnsMultiZone.Config.LoadFile
open DnsMultiZone.Config.Ranges

/-! ### The loop -/

/-- **The loop of `CheckIsMatch`**, on entries whose signs `s` are negative exactly from place `p` on:
a hit if one of the places halving visits has sign zero. -/
theorem searchLoop_eq (cmp : ℕ → Option ℤ) (s : ℕ → ℤ) (p b e : ℕ) (hbe : b ≤ e)
    (hc : ∀ i ≤ e, cmp i = some (s i)) (hs : ∀ i ≤ e, s i < 0 ↔ p ≤ i) :
    searchLoop cmp b e = if ∃ i ∈ visits intMax p b e, s i = 0 then some true
      else if finishes intMax p b e then some false else none := by
  fun_induction visits intMax p b e with
  | case1 b e h =>
    rw [searchLoop, finishes, if_pos h, if_pos h]; simp
  | case2 b e h hm hb =>
    have hsm := hs ((b + e) / 2) (by omega)
    rw [searchLoop, finishes, if_neg h, if_neg h, hc _ (by omega), if_pos hm, if_pos (Or.inl hb),
      hc e le_rfl]
    simp only [List.mem_cons, List.not_mem_nil, or_false, exists_eq_or_imp, exists_eq_left]
    rw [if_neg (by omega), if_neg (show ¬ b ≠ (b + e) / 2 by omega)]
    by_cases h0 : s ((b + e) / 2) = 0
    · rw [if_neg (by omega), if_pos (Or.inl h0)]
    · rw [if_pos (by omega)]
      by_cases h1 : s e = 0 <;> simp [h0, h1]
  | case3 b e h hm hb he => omega
  | case4 b e h hm hb he ih =>
    have hsm := hs ((b + e) / 2) (by omega)
    rw [searchLoop, finishes, if_neg h, if_neg h, hc _ (by omega), if_pos hm,
      if_neg (show ¬ (b = (b + e) / 2 ∨ e = (b + e) / 2) by omega)]
    simp only [List.mem_cons, exists_eq_or_imp]
    rw [if_neg (by omega), if_pos (show b ≠ (b + e) / 2 by omega),
      if_pos (show e ≠ (b + e) / 2 by omega)]
    by_cases h0 : s ((b + e) / 2) = 0
    · rw [if_neg (by omega), if_pos (Or.inl h0)]
    · rw [if_pos (by omega), ih (by omega) hc hs]
      simp only [h0, false_or]
  | case5 b e h hm he =>
    have hsm := hs ((b + e) / 2) (by omega)
    have hsb := hs b (by omega)
    rw [searchLoop, finishes, if_neg h, if_neg h, hc _ (by omega), if_neg hm, if_pos (Or.inl he),
      hc b (by omega)]
    simp only [List.mem_cons, List.not_mem_nil, or_false, exists_eq_or_imp, exists_eq_left]
    rw [if_pos (by omega), if_neg (show ¬ e ≠ (b + e) / 2 by omega),
      if_neg (show ¬ (s ((b + e) / 2) = 0 ∨ s b = 0) by omega)]
    have hb0 : s b ≠ 0 := by omega
    simp [hb0]
  | case6 b e h hm he hb =>
    have hsm := hs ((b + e) / 2) (by omega)
    rw [searchLoop, finishes, if_neg h, if_neg h, hc _ (by omega), if_neg hm, if_pos (Or.inr hb)]
    simp only [List.mem_cons, List.not_mem_nil, or_false, exists_eq_left]
    rw [if_pos (by omega), if_pos (show e ≠ (b + e) / 2 by omega),
      if_neg (show ¬ b ≠ (b + e) / 2 by omega), if_neg (by omega), if_pos trivial]
  | case7 b e h hm he hb ih =>
    have hsm := hs ((b + e) / 2) (by omega)
    rw [searchLoop, finishes, if_neg h, if_neg h, hc _ (by omega), if_neg hm,
      if_neg (show ¬ (e = (b + e) / 2 ∨ b = (b + e) / 2) by omega)]
    simp only [List.mem_cons, exists_eq_or_imp]
    rw [if_pos (by omega), if_pos (show e ≠ (b + e) / 2 by omega),
      if_pos (show b ≠ (b + e) / 2 by omega),
      ih (by omega) (fun i hi => hc i (by omega)) (fun i hi => hs i (by omega))]
    have h0 : s ((b + e) / 2) ≠ 0 := by omega
    simp only [h0, false_or]

/-! ### Any sorted vector of ranges -/

section Entries

variable {α : Type} (base top : α → ℕ) (x : ℕ)

/-- The entry's range contains `x`. -/
def InRange (e : α) : Prop := base e ≤ x ∧ x ≤ top e

instance (e : α) : Decidable (InRange base top x e) := by unfold InRange; infer_instance

/-- The answer of a linear scan. -/
def scan (items : List α) (inverse : Bool) : Bool :=
  xor inverse (items.any fun e => InRange base top x e)

/-- The rank of `x`: the number of entries whose base is at most `x`. -/
def rank (items : List α) : ℕ := items.countP fun e => base e ≤ x

/-- **The search is not led past `x`.** The size is an `int`, and halving the vector towards the rank
of `x` looks at an entry that contains `x`, unless no entry does and it comes to an end; in both cases
before two ends sum past `INT_MAX`. -/
def SearchMeets (items : List α) : Prop :=
  items.length ≤ intMax ∧
    ((∃ i ∈ visits intMax (rank base x items) 0 (items.length - 1),
        ∃ e ∈ items[i]?, InRange base top x e) ∨
      ((∀ e ∈ items, ¬ InRange base top x e) ∧
        finishes intMax (rank base x items) 0 (items.length - 1)))

variable {base top x}

/-- The signs of `MatchCompare` as the search needs them. -/
structure Signs (base top : α → ℕ) (x : ℕ) (cmp : α → ℤ) (items : List α) : Prop where
  neg : ∀ e ∈ items, cmp e < 0 ↔ x < base e
  zero : ∀ e ∈ items, cmp e = 0 ↔ InRange base top x e
  sorted : items.Pairwise fun a b => base a ≤ base b

theorem Signs.searchLoop_eq {cmp : α → ℤ} {items : List α} (h : Signs base top x cmp items)
    (hne : items ≠ []) :
    searchLoop (fun i => (items[i]?).map cmp) 0 (items.length - 1) =
      if ∃ i ∈ visits intMax (rank base x items) 0 (items.length - 1),
        ∃ e ∈ items[i]?, InRange base top x e then some true
      else if finishes intMax (rank base x items) 0 (items.length - 1) then some false
      else none := by
  have hpos : 0 < items.length := List.length_pos_iff.mpr hne
  have hget : ∀ i ≤ items.length - 1, ∃ e, items[i]? = some e ∧ e ∈ items := fun i hi =>
    ⟨items[i], List.getElem?_eq_getElem (by omega), List.getElem_mem (by omega)⟩
  rw [Search.searchLoop_eq _ (fun i => ((items[i]?).map cmp).getD 0) (rank base x items) 0 _
    (by omega)]
  · have hex : (∃ i ∈ visits intMax (rank base x items) 0 (items.length - 1),
        ((items[i]?).map cmp).getD 0 = 0) ↔
        ∃ i ∈ visits intMax (rank base x items) 0 (items.length - 1),
          ∃ e ∈ items[i]?, InRange base top x e := by
      refine exists_congr fun i => and_congr_right fun hi => ?_
      obtain ⟨e, he, hm⟩ := hget i (mem_visits (by omega) hi).2
      simp [he, h.zero e hm]
    simp only [hex]
  · intro i hi
    obtain ⟨e, he, -⟩ := hget i hi
    simp [he]
  · intro i hi
    obtain ⟨e, he, hm⟩ := hget i hi
    have hlt := lt_countP_iff (P := fun e => decide (base e ≤ x)) (l := items)
      (h.sorted.imp fun hab hb => by simp only [decide_eq_true_eq] at hb ⊢; omega) i (by omega)
    have hil : i < items.length := by omega
    have hei : items[i] = e := by
      rw [List.getElem?_eq_getElem hil] at he
      exact Option.some.inj he
    rw [hei, decide_eq_true_eq] at hlt
    simp only [he, Option.map_some, Option.getD_some, h.neg e hm, rank]
    omega

/-- **The search agrees with the scan exactly when it is not led past the address.** -/
theorem checkEntries_eq_scan_iff {cmp : α → ℤ} {items : List α} (h : Signs base top x cmp items)
    (inverse : Bool) :
    checkEntries items cmp inverse = some (scan base top x items inverse) ↔
      SearchMeets base top x items := by
  unfold checkEntries SearchMeets scan
  by_cases h0 : items = []
  · subst h0
    have hf : finishes intMax (rank base x []) 0 0 = true := finishes_of_le le_rfl (by decide)
    simp [hf]
  have hpos : items.length ≠ 0 := fun hn => h0 (List.length_eq_zero_iff.mp hn)
  rw [if_neg hpos]
  by_cases hl : items.length > intMax
  · rw [if_pos hl]
    simp only [reduceCtorEq, false_iff, not_and_or]
    exact Or.inl (by omega)
  rw [if_neg hl, h.searchLoop_eq h0]
  by_cases hv : ∃ i ∈ visits intMax (rank base x items) 0 (items.length - 1),
      ∃ e ∈ items[i]?, InRange base top x e
  · have hany : (items.any fun e => InRange base top x e) = true := by
      obtain ⟨i, -, e, he, hx⟩ := hv
      exact List.any_eq_true.mpr ⟨e, List.mem_of_getElem? he, by simpa using hx⟩
    rw [if_pos hv, hany]
    simp only [hv, true_or, and_true, Option.map_some]
    cases inverse <;> simp <;> omega
  · rw [if_neg hv]
    simp only [hv, false_or]
    by_cases hf : finishes intMax (rank base x items) 0 (items.length - 1)
    · rw [if_pos hf]
      simp only [hf, and_true, Option.map_some, Option.some.injEq]
      have hany : (items.any fun e => InRange base top x e) = false ↔
          ∀ e ∈ items, ¬ InRange base top x e := by simp
      rw [← hany]
      cases inverse <;> cases (items.any fun e => InRange base top x e) <;> simp <;> omega
    · rw [if_neg hf]
      simp [hf]

/-- Ranges that are disjoint or equal cannot lead the search past an address. -/
theorem searchMeets_of_disjoint {items : List α} (hl : items.length ≤ 2 ^ 30)
    (hs : items.Pairwise fun a b => base a ≤ base b)
    (hd : items.Pairwise fun a b => top a < base b ∨ (base a = base b ∧ top a = top b)) :
    SearchMeets base top x items := by
  have hint : intMax = 2 ^ 31 - 1 := rfl
  refine ⟨by omega, ?_⟩
  by_cases hx : ∃ e ∈ items, InRange base top x e
  · left
    obtain ⟨e, he, hxe⟩ := hx
    obtain ⟨i, hi, rfl⟩ := List.getElem_of_mem he
    have hrank := lt_countP_iff (P := fun e => decide (base e ≤ x)) (l := items)
      (hs.imp fun hab hb => by simp only [decide_eq_true_eq] at hb ⊢; omega)
    have hip : i < rank base x items := (hrank i hi).mpr (by simpa using hxe.1)
    have hle : rank base x items ≤ items.length := List.countP_le_length
    refine ⟨_, pred_mem_visits (by omega) (by omega) (by omega), _,
      List.getElem?_eq_getElem (by omega), ?_⟩
    -- the last entry whose base is at most `x` has the range of the entry that contains `x`
    rcases Nat.lt_or_ge i (rank base x items - 1) with hlt | hge
    · have hb := (hrank (rank base x items - 1) (by omega)).mp
        (show rank base x items - 1 < rank base x items by omega)
      have := List.pairwise_iff_getElem.mp hd i (rank base x items - 1) hi (by omega) hlt
      have hx1 := hxe.1
      have hx2 := hxe.2
      simp only [decide_eq_true_eq] at hb
      exact ⟨hb, by omega⟩
    · have : rank base x items - 1 = i := by omega
      simpa only [this] using hxe
  · right
    exact ⟨fun e he hxe => hx ⟨e, he, hxe⟩, finishes_of_le (by omega) (by omega)⟩

end Entries

end DnsMultiZone.Config.Search
