import Mathlib.Data.Nat.Digits.Defs

/-! # Byte strings and big-endian numbers

Byte strings are lists of `UInt8`. `beNat` reads one as a number, most significant byte first; it is
Mathlib's `Nat.ofDigits` at base 256 on the reversed list. `be16` and `be32` write fixed widths.
`wholeChunks k` cuts a string into the complete pieces of `k` bytes it starts with. -/

namespace DnsMultiZone.Lib.BigEndian

/-- A byte string. -/
abbrev Bytes := List UInt8

/-- The number a byte string spells, most significant byte first. -/
def beNat (l : Bytes) : ℕ := Nat.ofDigits 256 (l.reverse.map UInt8.toNat)

theorem beNat_append (a b : Bytes) : beNat (a ++ b) = beNat a * 256 ^ b.length + beNat b := by
  unfold beNat
  rw [List.reverse_append, List.map_append, Nat.ofDigits_append, List.length_map,
    List.length_reverse]
  ring

@[simp] theorem beNat_singleton (a : UInt8) : beNat [a] = a.toNat := by
  simp [beNat]

theorem beNat_cons (a : UInt8) (l : Bytes) :
    beNat (a :: l) = a.toNat * 256 ^ l.length + beNat l := by
  rw [← List.singleton_append, beNat_append, beNat_singleton]

theorem beNat_lt (l : Bytes) : beNat l < 256 ^ l.length := by
  have h := Nat.ofDigits_lt_base_pow_length (b := 256) (l := l.reverse.map UInt8.toNat)
    (by decide) (fun x hx => by
      obtain ⟨c, -, rfl⟩ := List.mem_map.mp hx
      exact c.toNat_lt)
  simpa [beNat] using h

/-- Two bytes, most significant first. -/
def be16 (n : ℕ) : Bytes := [UInt8.ofNat (n / 256), UInt8.ofNat n]

/-- Four bytes, most significant first. -/
def be32 (n : ℕ) : Bytes := be16 (n / 65536) ++ be16 n

@[simp] theorem length_be16 (n : ℕ) : (be16 n).length = 2 := rfl

@[simp] theorem length_be32 (n : ℕ) : (be32 n).length = 4 := rfl

theorem beNat_be16 {n : ℕ} (h : n < 65536) : beNat (be16 n) = n := by
  rw [be16, beNat_cons, beNat_singleton, UInt8.toNat_ofNat', UInt8.toNat_ofNat']
  simp only [List.length_singleton]
  omega

theorem be16_beNat {l : Bytes} (h : l.length = 2) : be16 (beNat l) = l := by
  obtain ⟨a, b, rfl⟩ : ∃ a b, l = [a, b] := by
    match l, h with
    | [a, b], _ => exact ⟨a, b, rfl⟩
  have ha := a.toNat_lt
  have hb := b.toNat_lt
  rw [beNat_cons, beNat_singleton]
  simp only [List.length_singleton, pow_one, be16, List.cons.injEq, and_true]
  constructor <;> apply UInt8.toNat_inj.mp <;> rw [UInt8.toNat_ofNat'] <;> omega

theorem be32_beNat {l : Bytes} (h : l.length = 4) : be32 (beNat l) = l := by
  have ht : (l.take 2).length = 2 := by simp [h]
  have hd : (l.drop 2).length = 2 := by simp [h]
  have hl : beNat l = beNat (l.take 2) * 65536 + beNat (l.drop 2) := by
    conv_lhs => rw [← List.take_append_drop 2 l, beNat_append, hd]
    norm_num
  have hlt := beNat_lt (l.drop 2)
  rw [hd] at hlt
  have hlow : be16 (beNat l) = be16 (beNat (l.drop 2)) := by
    unfold be16
    congr 1
    · apply UInt8.toNat_inj.mp
      rw [UInt8.toNat_ofNat', UInt8.toNat_ofNat']
      omega
    · congr 1
      apply UInt8.toNat_inj.mp
      rw [UInt8.toNat_ofNat', UInt8.toNat_ofNat']
      omega
  rw [be32, hlow, be16_beNat hd, show beNat l / 65536 = beNat (l.take 2) by omega, be16_beNat ht,
    List.take_append_drop]

theorem beNat_be32 {n : ℕ} (h : n < 2 ^ 32) : beNat (be32 n) = n := by
  have hlow : beNat (be16 n) = n % 65536 := by
    rw [be16, beNat_cons, beNat_singleton, UInt8.toNat_ofNat', UInt8.toNat_ofNat']
    simp only [List.length_singleton]
    omega
  rw [be32, beNat_append, hlow, beNat_be16 (by omega), length_be16]
  omega

/-- The complete pieces of `k` bytes a string starts with. -/
def wholeChunks (k : ℕ) (l : Bytes) : List Bytes :=
  if 0 < k ∧ k ≤ l.length then l.take k :: wholeChunks k (l.drop k) else []
termination_by l.length
decreasing_by simp only [List.length_drop]; omega

theorem wholeChunks_of_lt {k : ℕ} {l : Bytes} (h : l.length < k) : wholeChunks k l = [] := by
  rw [wholeChunks, if_neg (by omega)]

theorem wholeChunks_append {k : ℕ} {a : Bytes} (h : a.length = k) (hk : 0 < k) (l : Bytes) :
    wholeChunks k (a ++ l) = a :: wholeChunks k l := by
  rw [wholeChunks, if_pos ⟨hk, by simp [h]⟩, List.take_left' h, List.drop_left' h]

end DnsMultiZone.Lib.BigEndian
