import DnsMultiZone.Json.Grammar

/-! # What is left of the buffer

The functions of the parser walk by offset, the grammar is over bytes. `Rest content o r` relates the two:
from `o` on, the buffer holds `r` and the zero byte. -/

namespace DnsMultiZone.Json.Buffer

open DnsMultiZone.Lib.BigEndian DnsMultiZone.Lib.Decimal
open DnsMultiZone.Json.Parser DnsMultiZone.Json.Grammar

variable {content : Bytes}

/-- From `o` on, the text is `r`. -/
def Rest (content : Bytes) (o : ℕ) (r : Bytes) : Prop := content.drop o = r ++ [0]

theorem Rest.append {o : ℕ} {w r : Bytes} (h : Rest content o (w ++ r)) :
    Rest content (o + w.length) r := by
  unfold Rest at h ⊢
  rw [← List.drop_drop, h, List.append_assoc, List.drop_left]

theorem Rest.tail {o : ℕ} {c : UInt8} {r : Bytes} (h : Rest content o (c :: r)) :
    Rest content (o + 1) r :=
  h.append (w := [c])

theorem Rest.length {o : ℕ} {r : Bytes} (h : Rest content o r) : content.length = o + r.length + 1 := by
  have hl := congrArg List.length h
  rw [List.length_drop, List.length_append, List.length_singleton] at hl
  omega

theorem Rest.getElem? {o : ℕ} {r : Bytes} (h : Rest content o r) : content[o]? = (r ++ [0])[0]? := by
  rw [← h, List.getElem?_drop, Nat.add_zero]

theorem Rest.getElem?_cons {o : ℕ} {c : UInt8} {r : Bytes} (h : Rest content o (c :: r)) :
    content[o]? = some c :=
  h.getElem?

theorem Rest.byteAt_cons {o : ℕ} {c : UInt8} {r : Bytes} (h : Rest content o (c :: r)) :
    byteAt content o = .ok c := by
  rw [byteAt, h.getElem?_cons]

theorem Rest.byteAt_nil {o : ℕ} (h : Rest content o []) : byteAt content o = .ok 0 := by
  rw [byteAt, h.getElem?]
  rfl

theorem Rest.sees_iff {o d : ℕ} {c : UInt8} {r : Bytes} (h : Rest content o r) (hc : c ≠ 0) :
    sees content ⟨o, d⟩ c = true ↔ ∃ t, r = c :: t := by
  rw [sees, beq_iff_eq, h.getElem?]
  rcases r with _ | ⟨a, r⟩
  · simpa using hc.symm
  · simp

theorem Rest.sees_cons {o d : ℕ} {c a : UInt8} {r : Bytes} (h : Rest content o (a :: r)) :
    sees content ⟨o, d⟩ c = (a == c) := by
  rw [sees, h.getElem?_cons]
  rfl

/-! ### White space -/

def isBlank (c : UInt8) : Bool := c ≤ 32

theorem blank_takeWhile (r : Bytes) : Blank (r.takeWhile isBlank) := fun c hc => by
  simpa [isBlank] using List.mem_takeWhile_imp hc

theorem Rest.skip {o d : ℕ} {r : Bytes} (h : Rest content o r) :
    bufferSkipWhitespace content ⟨o, d⟩ = .ok ⟨o + (r.takeWhile isBlank).length, d⟩ ∧
      Rest content (o + (r.takeWhile isBlank).length) (r.dropWhile isBlank) := by
  have hrest : Rest content (o + (r.takeWhile isBlank).length) (r.dropWhile isBlank) := by
    apply Rest.append
    rwa [List.takeWhile_append_dropWhile]
  refine ⟨?_, hrest⟩
  have hlen := hrest.length
  have hdrop : (content.drop o).takeWhile (· ≤ 32) = (r ++ [0]).takeWhile isBlank := by rw [h]; rfl
  unfold bufferSkipWhitespace
  simp only [hdrop]
  rcases hd : r.dropWhile isBlank with _ | ⟨c, t⟩
  · have hall : ∀ c ∈ r, isBlank c := List.dropWhile_eq_nil_iff.mp hd
    have ht : r.takeWhile isBlank = r := List.takeWhile_eq_self_iff.mpr hall
    have ht' : (r ++ [0]).takeWhile isBlank = r ++ [0] := List.takeWhile_eq_self_iff.mpr (by
      intro c hc
      rcases List.mem_append.mp hc with hc | hc
      · exact hall c hc
      · rw [List.mem_singleton.mp hc]
        rfl)
    rw [hd, ht] at hlen
    rw [List.length_nil] at hlen
    rw [ht', ht, List.length_append, List.length_singleton, if_pos (by omega)]
    exact if_neg (by simp)
  · have hc : ¬ isBlank c := by
      have := List.head?_dropWhile_not isBlank r
      rw [hd] at this
      simpa using this
    have ht : (r ++ [0]).takeWhile isBlank = r.takeWhile isBlank := by
      calc (r ++ [0]).takeWhile isBlank
          = (r.takeWhile isBlank ++ (c :: t ++ [0])).takeWhile isBlank := by
            rw [← List.append_assoc, ← hd, List.takeWhile_append_dropWhile]
        _ = r.takeWhile isBlank := by
            rw [List.takeWhile_append_of_pos fun c hc => List.mem_takeWhile_imp hc, List.cons_append,
              List.takeWhile_cons_of_neg hc, List.append_nil]
    rw [hd, List.length_cons] at hlen
    rw [ht, if_neg (by omega)]

/-- A text that does not start with white space. -/
def Visible (r : Bytes) : Prop := ∀ c t, r = c :: t → 32 < c

theorem skip_blank {a r : Bytes} (ha : Blank a) (hr : Visible r) :
    (a ++ r).takeWhile isBlank = a ∧ (a ++ r).dropWhile isBlank = r := by
  have hall : ∀ c ∈ a, isBlank c := fun c hc => by simpa [isBlank] using ha c hc
  rw [List.takeWhile_append_of_pos hall, List.dropWhile_append_of_pos hall]
  rcases r with _ | ⟨c, t⟩
  · simp
  · have hc : ¬ isBlank c := by simpa [isBlank] using hr c t rfl
    rw [List.takeWhile_cons_of_neg hc, List.dropWhile_cons_of_neg hc, List.append_nil]
    exact ⟨rfl, rfl⟩

theorem Rest.skip_append {o d : ℕ} {a r : Bytes} (h : Rest content o (a ++ r)) (ha : Blank a)
    (hr : Visible r) : bufferSkipWhitespace content ⟨o, d⟩ = .ok ⟨o + a.length, d⟩ := by
  rw [h.skip.1, (skip_blank ha hr).1]

theorem visible_dropWhile (r : Bytes) : Visible (r.dropWhile isBlank) := by
  intro c t hd
  have := List.head?_dropWhile_not isBlank r
  rw [hd] at this
  simpa [isBlank] using this

/-! ### Words -/

theorem Rest.starts_iff {o d : ℕ} {r word : Bytes} (h : Rest content o r) (hw : 0 ∉ word) :
    starts content ⟨o, d⟩ word = true ↔ ∃ t, r = word ++ t := by
  rw [starts, List.isPrefixOf_iff_prefix, h]
  constructor
  · intro hp
    rcases List.prefix_concat_iff.mp hp with rfl | ⟨t, ht⟩
    · exact absurd (by simp) hw
    · exact ⟨t, ht.symm⟩
  · rintro ⟨t, rfl⟩
    exact ⟨t ++ [0], by simp⟩

end DnsMultiZone.Json.Buffer
