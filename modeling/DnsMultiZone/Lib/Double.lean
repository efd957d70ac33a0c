import Mathlib.Algebra.Order.Field.Power
import Mathlib.Algebra.Order.Round
import Mathlib.Data.Int.Log
import Mathlib.Data.Rat.Floor
import Mathlib.Tactic.FieldSimp
import Mathlib.Tactic.Linarith
import Mathlib.Tactic.Positivity
import Mathlib.Tactic.Ring

/-! # Rounding to double precision

The `double` nearest to a rational, ties to even, as a rational again: 53 significant bits, and no unit
below `2 ^ -1074`. There is no largest one here: what is beyond stands for an infinity. Integers of 53 bits
are exact, and the error of any other number is small against it. -/

namespace DnsMultiZone.Lib.Double

/-- The nearest integer, the even one of two. -/
def halfEven (x : ℚ) : ℤ :=
  if x - ⌊x⌋ < 1 / 2 then ⌊x⌋
  else if x - ⌊x⌋ > 1 / 2 then ⌊x⌋ + 1
  else if ⌊x⌋ % 2 = 0 then ⌊x⌋
  else ⌊x⌋ + 1

@[simp] theorem halfEven_intCast (n : ℤ) : halfEven n = n := by simp [halfEven]

theorem abs_halfEven_sub_le (x : ℚ) : |(halfEven x : ℚ) - x| ≤ 1 / 2 := by
  have h0 := Int.floor_le x
  have h1 := Int.lt_floor_add_one x
  unfold halfEven
  rw [abs_le]
  split_ifs with h2 h3 h4 <;> push_cast <;> constructor <;> linarith

/-- The unit in the last place at `x`. -/
def unit (x : ℚ) : ℚ := 2 ^ (max (Int.log 2 |x|) (-1022) - 52)

/-- The `double` nearest to `x`. -/
def toDouble (x : ℚ) : ℚ := if x = 0 then 0 else halfEven (x / unit x) * unit x

theorem unit_pos (x : ℚ) : 0 < unit x := by unfold unit; positivity

/-- An integer of 53 bits is its own `double`. -/
theorem toDouble_intCast {n : ℤ} (hn : |n| < 2 ^ 53) : toDouble n = n := by
  unfold toDouble
  split_ifs with h0
  · exact h0.symm
  have hpos : (0 : ℚ) < |(n : ℚ)| := abs_pos.mpr h0
  have hn' : |(n : ℚ)| < 2 ^ (53 : ℤ) := by
    rw [← Int.cast_abs]
    exact_mod_cast hn
  have hlog : Int.log 2 |(n : ℚ)| < 53 := (Int.lt_zpow_iff_log_lt (by decide) hpos).mp hn'
  -- the unit is `2 ^ -k`, so the quotient is an integer
  obtain ⟨k, hk⟩ : ∃ k : ℕ, max (Int.log 2 |(n : ℚ)|) (-1022) - 52 = -(k : ℤ) :=
    ⟨(52 - max (Int.log 2 |(n : ℚ)|) (-1022)).toNat, by omega⟩
  have hu : unit (n : ℚ) = (2 ^ k)⁻¹ := by rw [unit, hk, zpow_neg, zpow_natCast]
  have hq : (n : ℚ) / unit n = ((n * 2 ^ k : ℤ) : ℚ) := by rw [hu]; push_cast; field_simp
  rw [hq, halfEven_intCast, ← hq, div_mul_cancel₀ _ (unit_pos _).ne']

/-- From one on, the error is at most a part in `2 ^ 53`. -/
theorem abs_toDouble_sub_le {x : ℚ} (hx : 1 ≤ |x|) : |toDouble x - x| ≤ |x| / 2 ^ 53 := by
  have h0 : x ≠ 0 := by rintro rfl; norm_num at hx
  have hpos : 0 < |x| := abs_pos.mpr h0
  have hu := unit_pos x
  have hlog : 0 ≤ Int.log 2 |x| := by
    rw [← Int.zpow_le_iff_le_log (by decide) hpos]
    simpa using hx
  have hle : unit x ≤ |x| / 2 ^ 52 := by
    have h1 : (2 : ℚ) ^ Int.log 2 |x| ≤ |x| := Int.zpow_log_le_self (by decide) hpos
    rw [unit, max_eq_left (by omega), zpow_sub₀ two_ne_zero]
    exact div_le_div_of_nonneg_right h1 (by positivity)
  have he : toDouble x - x = (halfEven (x / unit x) - x / unit x) * unit x := by
    rw [toDouble, if_neg h0, sub_mul, div_mul_cancel₀ _ hu.ne']
  calc |toDouble x - x| = |(halfEven (x / unit x) : ℚ) - x / unit x| * unit x := by
        rw [he, abs_mul, abs_of_pos hu]
    _ ≤ 1 / 2 * (|x| / 2 ^ 52) :=
        mul_le_mul (abs_halfEven_sub_le _) hle hu.le (by norm_num)
    _ = |x| / 2 ^ 53 := by ring

end DnsMultiZone.Lib.Double
