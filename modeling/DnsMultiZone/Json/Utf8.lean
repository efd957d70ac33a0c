import DnsMultiZone.Json.Grammar

/-! # UTF-16 escapes are written as UTF-8

`utf16_literal_to_utf8` writes its bytes from the last to the first with masks. For every character they are
its UTF-8 encoding, and the code points it takes are those of characters. -/

namespace DnsMultiZone.Json.Utf8

open DnsMultiZone.Lib.BigEndian
open DnsMultiZone.Json.Parser DnsMultiZone.Json.Grammar

/-! ### Bytes -/

theorem tail_byte (v : ℕ) : (v ||| 0x80) &&& 0xBF = v % 64 + 128 := by
  have hle : (v ||| 0x80) &&& 0xBF < 2 ^ 8 := lt_of_le_of_lt Nat.and_le_right (by decide)
  have hbyte : ∀ b < 256, (b ||| 0x80) &&& 0xBF = b % 64 + 128 := by decide +kernel
  rw [← Nat.mod_eq_of_lt hle, Nat.and_mod_two_pow, Nat.or_mod_two_pow]
  have h := hbyte (v % 256) (Nat.mod_lt _ (by decide))
  rw [Nat.mod_mod_of_dvd v (by decide : 64 ∣ 256)] at h
  exact h

theorem lead_byte2 : ∀ v < 32, (v ||| 0xC0) &&& 0xFF = v + 0xC0 := by decide +kernel

theorem lead_byte3 : ∀ v < 16, (v ||| 0xE0) &&& 0xFF = v + 0xE0 := by decide +kernel

theorem lead_byte4 : ∀ v < 8, (v ||| 0xF0) &&& 0xFF = v + 0xF0 := by decide +kernel

theorem shiftRight_six (v : ℕ) : v >>> 6 = v / 64 := Nat.shiftRight_eq_div_pow v 6

/-- The bytes written for a character are its UTF-8 encoding. -/
theorem encode_toNat (c : Char) : encode c.toNat = some (String.utf8EncodeChar c) := by
  have hmax : c.toNat ≤ 0x10FFFF := by
    rcases c.valid with h | ⟨-, h⟩
    · exact le_trans (le_of_lt h) (by decide)
    · exact Nat.lt_succ_iff.mp h
  unfold String.utf8EncodeChar
  change _ = some (if c.toNat ≤ 0x7F then [UInt8.ofNat c.toNat]
    else if c.toNat ≤ 0x7FF then
      [UInt8.ofNat (c.toNat / 64 % 0x20 + 0xC0), UInt8.ofNat (c.toNat % 0x40 + 0x80)]
    else if c.toNat ≤ 0xFFFF then
      [UInt8.ofNat (c.toNat / 4096 % 0x10 + 0xE0), UInt8.ofNat (c.toNat / 64 % 0x40 + 0x80),
        UInt8.ofNat (c.toNat % 0x40 + 0x80)]
    else [UInt8.ofNat (c.toNat / 262144 % 0x08 + 0xF0), UInt8.ofNat (c.toNat / 4096 % 0x40 + 0x80),
        UInt8.ofNat (c.toNat / 64 % 0x40 + 0x80), UInt8.ofNat (c.toNat % 0x40 + 0x80)])
  generalize c.toNat = v at hmax ⊢
  unfold encode
  by_cases h1 : v < 0x80
  · rw [if_pos h1, if_pos (show v ≤ 0x7F by omega), show (0x7F : ℕ) = 2 ^ 7 - 1 by rfl,
      Nat.and_two_pow_sub_one_eq_mod, Nat.mod_eq_of_lt h1]
  rw [if_neg h1, if_neg (show ¬ v ≤ 0x7F by omega)]
  by_cases h2 : v < 0x800
  · rw [if_pos h2, if_pos (show v ≤ 0x7FF by omega)]
    simp only [encodeLoop, tail_byte, shiftRight_six]
    rw [lead_byte2 _ (by omega), Nat.mod_eq_of_lt (by omega : v / 64 < 0x20)]
  rw [if_neg h2, if_neg (show ¬ v ≤ 0x7FF by omega)]
  by_cases h3 : v < 0x10000
  · rw [if_pos h3, if_pos (show v ≤ 0xFFFF by omega)]
    simp only [encodeLoop, tail_byte, shiftRight_six, Nat.div_div_eq_div_mul]
    rw [lead_byte3 _ (by omega), Nat.mod_eq_of_lt (by omega : v / 4096 < 0x10)]
  rw [if_neg h3, if_neg (show ¬ v ≤ 0xFFFF by omega), if_pos hmax]
  simp only [encodeLoop, tail_byte, shiftRight_six, Nat.div_div_eq_div_mul]
  rw [lead_byte4 _ (by omega), Nat.mod_eq_of_lt (by omega : v / 262144 < 0x08)]

/-! ### Code points -/

theorem hexDigit_lt {c : UInt8} {d : ℕ} (h : hexDigit c = some d) : d < 16 := by
  unfold hexDigit at h
  simp only [UInt8.le_iff_toNat_le, UInt8.reduceToNat] at h
  split_ifs at h <;> cases h <;> omega

theorem hexCode_lt (s : Bytes) (h : ℕ) : hexCode s h < (h + 1) * 16 ^ s.length := by
  induction s generalizing h with
  | nil => simp [hexCode]
  | cons c s ih =>
    rcases hd : hexDigit c with _ | d
    · simp only [hexCode, hd]
      positivity
    · have hlt := hexDigit_lt hd
      calc hexCode (c :: s) h = hexCode s (h * 16 + d) := by simp only [hexCode, hd]
        _ < (h * 16 + d + 1) * 16 ^ s.length := ih _
        _ ≤ (h + 1) * 16 * 16 ^ s.length := Nat.mul_le_mul_right _ (by omega)
        _ = (h + 1) * 16 ^ (c :: s).length := by rw [List.length_cons, pow_succ]; ring

theorem surrogatePair_eq {f s : ℕ} (hf : 0xD800 ≤ f ∧ f ≤ 0xDBFF) (hs : 0xDC00 ≤ s ∧ s ≤ 0xDFFF) :
    surrogatePair f s = 0x10000 + (f - 0xD800) * 0x400 + (s - 0xDC00) := by
  unfold surrogatePair
  rw [show (0x3FF : ℕ) = 2 ^ 10 - 1 by rfl, Nat.and_two_pow_sub_one_eq_mod,
    Nat.and_two_pow_sub_one_eq_mod, ← Nat.shiftLeft_add_eq_or_of_lt (Nat.mod_lt _ (by decide)),
    Nat.shiftLeft_eq]
  omega

theorem exists_char {n : ℕ} (h : n < 0xD800 ∨ 0xDFFF < n ∧ n < 0x110000) : ∃ c : Char, c.toNat = n :=
  ⟨⟨UInt32.ofNatLT n (by unfold UInt32.size; omega), by
    rw [UInt32.isValidChar, UInt32.toNat_ofNatLT]
    exact h⟩, UInt32.toNat_ofNatLT⟩

theorem not_surrogate (c : Char) : c.toNat < 0xD800 ∨ 0xDFFF < c.toNat ∧ c.toNat < 0x110000 :=
  c.valid

end DnsMultiZone.Json.Utf8
