import DnsMultiZone.Config.LoadFile
import Mathlib.Data.Nat.Bitwise
import Mathlib.Tactic.Ring
import Mathlib.Tactic.IntervalCases

/-! # Entries as ranges of numbers

An entry of an IP list denotes the numbers from its base to its top. Masking clears the low bits of a
number (`clearLow`), in the `UInt32` arithmetic of IPv4 (`toNat_and_prefixMask`) as in the bytes of
IPv6 (`beNat_applyMask`), and `memcmp` orders strings of one length as the numbers they spell
(`memcmp_neg`, `memcmp_zero`). So for an entry as `SetFromString` leaves it (`Aligned`), the sign of
`MatchCompare` says whether the address is below, in or above the range. -/

namespace DnsMultiZone.Config.Ranges

open DnsMultiZone.Lib.BigEndian DnsMultiZone.Config.Address DnsMultiZone.Config.ConfigType
open DnsMultiZone.Config.LoadFile

/-- `x` with its low `k` bits cleared. -/
def clearLow (k x : ℕ) : ℕ := x / 2 ^ k * 2 ^ k

theorem clearLow_le (k x : ℕ) : clearLow k x ≤ x := Nat.div_mul_le_self x _

theorem lt_clearLow_add (k x : ℕ) : x < clearLow k x + 2 ^ k := by
  have h := Nat.lt_div_mul_add (a := x) (Nat.two_pow_pos k)
  exact h

theorem clearLow_clearLow (k x : ℕ) : clearLow k (clearLow k x) = clearLow k x := by
  unfold clearLow
  rw [Nat.mul_div_cancel _ (Nat.two_pow_pos k)]

theorem clearLow_mono (k : ℕ) {x y : ℕ} (h : x ≤ y) : clearLow k x ≤ clearLow k y :=
  Nat.mul_le_mul_right _ (Nat.div_le_div_right h)

theorem clearLow_lt_iff {k b : ℕ} (hb : clearLow k b = b) (x : ℕ) : clearLow k x < b ↔ x < b := by
  constructor
  · intro h
    by_contra hn
    have := clearLow_mono k (not_lt.mp hn)
    omega
  · intro h
    exact lt_of_le_of_lt (clearLow_le k x) h

theorem clearLow_eq_iff {k b : ℕ} (hb : clearLow k b = b) (x : ℕ) :
    clearLow k x = b ↔ b ≤ x ∧ x < b + 2 ^ k := by
  constructor
  · rintro rfl
    exact ⟨clearLow_le k x, lt_clearLow_add k x⟩
  · rintro ⟨h1, h2⟩
    have h3 := clearLow_mono k h1
    rw [hb] at h3
    rcases Nat.lt_or_ge b (clearLow k x) with h4 | h4
    · -- two multiples of `2 ^ k` differ by at least `2 ^ k`
      have h5 : b / 2 ^ k < x / 2 ^ k := by
        unfold clearLow at hb h4
        by_contra hn
        have := Nat.mul_le_mul_right (2 ^ k) (not_lt.mp hn)
        omega
      have h6 := Nat.mul_le_mul_right (2 ^ k) (Nat.succ_le_of_lt h5)
      have h7 := clearLow_le k x
      unfold clearLow at hb h7
      rw [Nat.succ_mul] at h6
      omega
    · omega

theorem clearLow_high {k j : ℕ} (h : k ≤ j) (a x : ℕ) :
    clearLow k (a * 2 ^ j + x) = a * 2 ^ j + clearLow k x := by
  have hj : 2 ^ j = 2 ^ (j - k) * 2 ^ k := by rw [← pow_add, Nat.sub_add_cancel h]
  unfold clearLow
  rw [hj, ← Nat.mul_assoc, Nat.add_comm, Nat.add_mul_div_right _ _ (Nat.two_pow_pos k),
    Nat.add_mul, Nat.add_comm]

theorem clearLow_low {j x : ℕ} (h : x < 2 ^ j) (k a : ℕ) :
    clearLow (k + j) (a * 2 ^ j + x) = clearLow k a * 2 ^ j := by
  unfold clearLow
  rw [pow_add, Nat.mul_comm (2 ^ k), ← Nat.div_div_eq_div_mul, Nat.add_comm (a * _),
    Nat.add_mul_div_right _ _ (Nat.two_pow_pos j), Nat.div_eq_of_lt h, Nat.zero_add,
    Nat.mul_comm (2 ^ j), Nat.mul_assoc]

/-! ### IPv4 -/

/-- `&` with a mask of leading ones clears the low bits. -/
theorem and_mask {w k x : ℕ} (hk : k ≤ w) (hx : x < 2 ^ w) :
    x &&& (2 ^ w - 2 ^ k) = clearLow k x := by
  have h : 2 ^ w - 2 ^ k = (2 ^ (w - k) - 1) <<< k := by
    rw [Nat.shiftLeft_eq, Nat.sub_mul, ← pow_add, Nat.sub_add_cancel hk, one_mul]
  have h' : clearLow k x = (x >>> k) <<< k := by
    rw [Nat.shiftLeft_eq, Nat.shiftRight_eq_div_pow]; rfl
  rw [h, h']
  refine Nat.eq_of_testBit_eq fun i => ?_
  simp only [Nat.testBit_and, Nat.testBit_shiftLeft, Nat.testBit_shiftRight,
    Nat.testBit_two_pow_sub_one]
  by_cases hi : k ≤ i
  · have hki : k + (i - k) = i := by omega
    simp only [hi, decide_true, Bool.true_and, hki]
    by_cases hiw : i < w
    · simp [show i - k < w - k by omega]
    · have : x.testBit i = false :=
        Nat.testBit_lt_two_pow (lt_of_lt_of_le hx (Nat.pow_le_pow_right (by decide) (by omega)))
      simp [this]
  · simp [hi]

theorem toNat_prefixMask {n : ℕ} (hn : n ≤ 32) : (prefixMask n).toNat = 2 ^ 32 - 2 ^ (32 - n) := by
  interval_cases n <;> rfl

theorem toNat_and_prefixMask {n : ℕ} (hn : n ≤ 32) (x : UInt32) :
    (x &&& prefixMask n).toNat = clearLow (32 - n) x.toNat := by
  rw [UInt32.toNat_and, toNat_prefixMask hn]
  exact and_mask (by omega) x.toNat_lt

/-- The base of an entry. -/
def base4 (e : IPItemInfo) : ℕ := e.nIP.toNat

/-- The top of an entry: the base and all bits the mask leaves out. -/
def top4 (e : IPItemInfo) : ℕ := e.nIP.toNat + (2 ^ 32 - 1 - e.nMask.toNat)

/-- An entry as `SetFromString` leaves it: a prefix mask, and a base without low bits. -/
def Aligned4 (e : IPItemInfo) : Prop :=
  ∃ n ≤ 32, e.nMask = prefixMask n ∧ clearLow (32 - n) e.nIP.toNat = e.nIP.toNat

theorem parsePrefix_le {c : Bytes} {nMax n : ℕ} (h : parsePrefix c nMax = some n) : n ≤ nMax := by
  unfold parsePrefix at h
  split at h
  · cases h
  · split_ifs at h with hn
    cases h; omega

theorem splitPrefix_le {c s : Bytes} {nFull n : ℕ} (h : splitPrefix c nFull = some (s, n)) :
    n ≤ nFull := by
  unfold splitPrefix at h
  split at h
  · cases h; exact le_rfl
  · obtain ⟨m, hm, he⟩ := Option.map_eq_some_iff.mp h
    cases he
    exact parsePrefix_le hm

theorem aligned4_setFromString {inet : Inet} {s : Bytes} {e : IPItemInfo}
    (h : IPItemInfo.setFromString inet s = some e) : Aligned4 e := by
  unfold IPItemInfo.setFromString at h
  obtain ⟨⟨t, n⟩, hs, h⟩ := Option.bind_eq_some_iff.mp h
  obtain ⟨a, -, h⟩ := Option.bind_eq_some_iff.mp h
  cases h
  have hn := splitPrefix_le hs
  exact ⟨n, hn, rfl, by rw [toNat_and_prefixMask hn, clearLow_clearLow]⟩

theorem top4_eq {e : IPItemInfo} {n : ℕ} (hn : n ≤ 32) (hm : e.nMask = prefixMask n) :
    top4 e + 1 = base4 e + 2 ^ (32 - n) := by
  have h1 : 2 ^ (32 - n) ≤ 2 ^ 32 := Nat.pow_le_pow_right (by decide) (by omega)
  have h2 := Nat.two_pow_pos (32 - n)
  unfold top4 base4
  rw [hm, toNat_prefixMask hn]
  omega

/-- `MatchCompare` as a comparison of numbers. -/
theorem matchCompare_eq (e : IPItemInfo) (ip : UInt32) :
    e.matchCompare ip = if (ip &&& e.nMask).toNat = base4 e then 0
      else if base4 e < (ip &&& e.nMask).toNat then 1 else -1 := by
  unfold IPItemInfo.matchCompare base4
  simp only [UInt32.toNat_inj, gt_iff_lt, UInt32.lt_iff_toNat_lt]

theorem matchCompare_neg {e : IPItemInfo} (he : Aligned4 e) (ip : UInt32) :
    e.matchCompare ip < 0 ↔ ip.toNat < base4 e := by
  obtain ⟨n, hn, hm, hb⟩ := he
  have hlt : clearLow (32 - n) ip.toNat < base4 e ↔ _ := clearLow_lt_iff hb ip.toNat
  rw [matchCompare_eq, hm, toNat_and_prefixMask hn]
  unfold base4 at hlt ⊢
  split_ifs <;> omega

theorem matchCompare_zero {e : IPItemInfo} (he : Aligned4 e) (ip : UInt32) :
    e.matchCompare ip = 0 ↔ base4 e ≤ ip.toNat ∧ ip.toNat ≤ top4 e := by
  obtain ⟨n, hn, hm, hb⟩ := he
  have ht := top4_eq hn hm
  have hc : clearLow (32 - n) ip.toNat = base4 e ↔ _ := clearLow_eq_iff hb ip.toNat
  rw [matchCompare_eq, hm, toNat_and_prefixMask hn]
  have hz : (if clearLow (32 - n) ip.toNat = base4 e then (0 : ℤ)
      else if base4 e < clearLow (32 - n) ip.toNat then 1 else -1) = 0 ↔
      clearLow (32 - n) ip.toNat = base4 e := by split_ifs <;> simp_all
  rw [hz, hc]
  unfold base4 at ht ⊢
  omega

/-! ### IPv6 -/

theorem toNat_maskByte {k : ℕ} (hk : k ≤ 8) (c : UInt8) :
    (maskByte k c).toNat = clearLow (8 - k) c.toNat := by
  have hc := c.toNat_lt
  unfold maskByte
  split_ifs with h1 h2
  · have : 8 - k = 0 := by omega
    simp [this, clearLow]
  · subst h2
    unfold clearLow
    simp only [Nat.sub_zero, Nat.div_eq_of_lt hc]
    rfl
  · have hm : c.toNat &&& (0xFF <<< (8 - k)) = clearLow (8 - k) c.toNat := by
      rw [← and_mask (w := 8) (by omega) hc]
      refine Nat.eq_of_testBit_eq fun i => ?_
      rw [Nat.testBit_and, Nat.testBit_and]
      by_cases hi : i < 8
      · congr 1
        interval_cases k <;> interval_cases i <;> rfl
      · rw [Nat.testBit_lt_two_pow (lt_of_lt_of_le hc (Nat.pow_le_pow_right (by decide) (by omega)))]
        rfl
    rw [UInt8.toNat_ofNat', hm, Nat.mod_eq_of_lt (lt_of_le_of_lt (clearLow_le _ _) hc)]

theorem applyMask_cons (c : UInt8) (l : Bytes) (n : ℕ) :
    applyMask (c :: l) n = maskByte n c :: applyMask l (n - 8) := by
  unfold applyMask
  rw [List.mapIdx_cons]
  congr 1
  · rcases Nat.eq_zero_or_pos n with rfl | h <;> simp [*]
  · congr 1
    funext i d
    congr 1
    split_ifs <;> omega

theorem maskByte_min (n : ℕ) (c : UInt8) : maskByte n c = maskByte (min n 8) c := by
  rcases Nat.le_total n 8 with h | h
  · rw [min_eq_left h]
  · rw [min_eq_right h, maskByte, maskByte, if_pos h, if_pos le_rfl]

/-- **Masking the bytes clears the low bits of the number.** -/
theorem beNat_applyMask : ∀ (l : Bytes) {n : ℕ}, n ≤ 8 * l.length →
    beNat (applyMask l n) = clearLow (8 * l.length - n) (beNat l)
  | [], n, h => by simp [applyMask, clearLow]
  | c :: l, n, h => by
    rw [List.length_cons] at h
    rw [applyMask_cons, beNat_cons, beNat_cons, length_applyMask, maskByte_min,
      toNat_maskByte (by omega), List.length_cons]
    have hl := beNat_lt l
    have hp : 256 ^ l.length = 2 ^ (8 * l.length) := by rw [show 256 = 2 ^ 8 by rfl, ← pow_mul]
    rw [hp] at hl ⊢
    rcases Nat.lt_or_ge n 8 with hn | hn
    · -- the cut falls into this byte: the bytes after it vanish
      have h0 : beNat (applyMask l (n - 8)) = 0 := by
        rw [beNat_applyMask l (by omega), show n - 8 = 0 by omega]
        unfold clearLow
        rw [Nat.sub_zero, Nat.div_eq_of_lt hl, Nat.zero_mul]
      have hk : 8 * (l.length + 1) - n = (8 - min n 8) + 8 * l.length := by omega
      rw [h0, hk, clearLow_low hl, Nat.add_zero]
    · -- the cut falls after this byte
      have h8 : clearLow (8 - min n 8) c.toNat = c.toNat := by
        rw [show 8 - min n 8 = 0 by omega]; simp [clearLow]
      have hk : 8 * (l.length + 1) - n = 8 * l.length - (n - 8) := by omega
      rw [beNat_applyMask l (by omega), hk, h8, clearLow_high (by omega)]

theorem memcmp_cons (a b : UInt8) (l m : Bytes) :
    memcmp (a :: l) (b :: m) = if a = b then memcmp l m else (a.toNat : ℤ) - b.toNat := rfl

/-- **`memcmp` compares the numbers two strings of one length spell.** -/
theorem memcmp_sign : ∀ {l m : Bytes}, l.length = m.length →
    (memcmp l m < 0 ↔ beNat l < beNat m) ∧ (memcmp l m = 0 ↔ beNat l = beNat m)
  | [], [], _ => by simp [memcmp]
  | a :: l, b :: m, h => by
    have hlen : l.length = m.length := by simpa using h
    obtain ⟨ih1, ih2⟩ := memcmp_sign hlen
    have hl := beNat_lt l
    have hm := beNat_lt m
    rw [memcmp_cons, beNat_cons, beNat_cons, hlen]
    rw [hlen] at hl
    by_cases hab : a = b
    · subst hab
      rw [if_pos rfl, ih1, ih2]
      constructor <;> omega
    · rw [if_neg hab]
      have hne : a.toNat ≠ b.toNat := fun he => hab (UInt8.toNat_inj.mp he)
      rcases Nat.lt_or_gt_of_ne hne with hlt | hlt
      · have := Nat.mul_le_mul_right (256 ^ m.length) (Nat.succ_le_of_lt hlt)
        rw [Nat.succ_mul] at this
        constructor <;> omega
      · have := Nat.mul_le_mul_right (256 ^ m.length) (Nat.succ_le_of_lt hlt)
        rw [Nat.succ_mul] at this
        constructor <;> omega

/-- The number of an IPv6 address. -/
def num6 (ip : IPv6Addr) : ℕ := beNat ip.cAddr

/-- The base of an entry. -/
def base6 (e : IPItemInfo6) : ℕ := num6 e.iaAddr

/-- The top of an entry. -/
def top6 (e : IPItemInfo6) : ℕ := num6 e.iaAddr + (2 ^ (128 - e.nPrefix) - 1)

/-- An entry as `SetFromString` leaves it: at most 128 bits of prefix, and a base without low bits. -/
def Aligned6 (e : IPItemInfo6) : Prop :=
  e.nPrefix ≤ 128 ∧ clearLow (128 - e.nPrefix) (base6 e) = base6 e

theorem beNat_applyMask_addr (ip : IPv6Addr) {n : ℕ} (hn : n ≤ 128) :
    beNat (applyMask ip.cAddr n) = clearLow (128 - n) (num6 ip) := by
  have h := beNat_applyMask ip.cAddr (n := n) (by rw [ip.length_cAddr]; omega)
  rwa [ip.length_cAddr] at h

theorem aligned6_setFromString {inet : Inet} {s : Bytes} {e : IPItemInfo6}
    (h : IPItemInfo6.setFromString inet s = some e) : Aligned6 e := by
  unfold IPItemInfo6.setFromString at h
  obtain ⟨⟨t, n⟩, hs, h⟩ := Option.bind_eq_some_iff.mp h
  obtain ⟨a, -, h⟩ := Option.bind_eq_some_iff.mp h
  cases h
  have hn := splitPrefix_le hs
  refine ⟨hn, ?_⟩
  have hl : (applyMask a.cAddr n).length = 16 := by rw [length_applyMask, a.length_cAddr]
  unfold base6 num6
  rw [IPv6Addr.cAddr_ofBytes hl, beNat_applyMask_addr a hn, clearLow_clearLow]

theorem length_applyMask_eq (e : IPItemInfo6) (ip : IPv6Addr) :
    (applyMask ip.cAddr e.nPrefix).length = e.iaAddr.cAddr.length := by
  rw [length_applyMask, ip.length_cAddr, e.iaAddr.length_cAddr]

theorem matchCompare6_neg {e : IPItemInfo6} (he : Aligned6 e) (ip : IPv6Addr) :
    e.matchCompare ip < 0 ↔ num6 ip < base6 e := by
  unfold IPItemInfo6.matchCompare
  rw [(memcmp_sign (length_applyMask_eq e ip)).1, beNat_applyMask_addr ip he.1]
  exact clearLow_lt_iff he.2 _

theorem matchCompare6_zero {e : IPItemInfo6} (he : Aligned6 e) (ip : IPv6Addr) :
    e.matchCompare ip = 0 ↔ base6 e ≤ num6 ip ∧ num6 ip ≤ top6 e := by
  have h2 := Nat.two_pow_pos (128 - e.nPrefix)
  unfold IPItemInfo6.matchCompare
  rw [(memcmp_sign (length_applyMask_eq e ip)).2, beNat_applyMask_addr ip he.1]
  refine (clearLow_eq_iff he.2 (num6 ip)).trans ?_
  unfold top6 base6
  omega

end DnsMultiZone.Config.Ranges
