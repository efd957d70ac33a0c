import DnsMultiZone.Lib.BigEndian

/-! # The reader `AutoBuffer`

A buffer with a read offset. The offset never passes the end of the buffer: the bound is a field, so
`size - offset`, which the source computes on unsigned numbers, is the number of unread bytes. Each
`Read…` either fails and leaves the reader as it is, or takes bytes from the front of the unread part
(`rest`). -/

namespace DnsMultiZone.Rfc1035.Reader

open DnsMultiZone.Lib.BigEndian

/-- The reader: the bytes, and how many of them are read. -/
structure AutoBuffer where
  sBuffer : Bytes
  szOffset : ℕ
  offset_le : szOffset ≤ sBuffer.length

/-- `Assign` on a new reader. -/
def assign (data : Bytes) : AutoBuffer := ⟨data, 0, Nat.zero_le _⟩

namespace AutoBuffer

/-- The unread bytes. -/
def rest (b : AutoBuffer) : Bytes := b.sBuffer.drop b.szOffset

/-- The number of unread bytes, `size - offset`. -/
def unread (b : AutoBuffer) : ℕ := b.sBuffer.length - b.szOffset

/-- `ReadBuffer`: the next `szLen` bytes. -/
def readBuffer (b : AutoBuffer) (szLen : ℕ) : Option (Bytes × AutoBuffer) :=
  if h : b.sBuffer.length - b.szOffset < szLen then none
  else some ((b.sBuffer.drop b.szOffset).take szLen,
    ⟨b.sBuffer, b.szOffset + szLen, by have := b.offset_le; omega⟩)

/-- The common part of `ReadUINT8`, `ReadUINT16` and `ReadUINT32`: the next `szLen` bytes as a number
in network order. -/
def readNumber (b : AutoBuffer) (szLen : ℕ) : Option (ℕ × AutoBuffer) :=
  (b.readBuffer szLen).map fun r => (beNat r.1, r.2)

def readUINT8 (b : AutoBuffer) : Option (ℕ × AutoBuffer) := b.readNumber 1

def readUINT16 (b : AutoBuffer) : Option (ℕ × AutoBuffer) := b.readNumber 2

def readUINT32 (b : AutoBuffer) : Option (ℕ × AutoBuffer) := b.readNumber 4

theorem length_rest (b : AutoBuffer) : b.rest.length = b.unread := by simp [rest, unread]

/-! ### What a read does -/

/-- A successful read takes exactly its bytes from the front of the unread part. -/
theorem readBuffer_some {b b' : AutoBuffer} {n : ℕ} {d : Bytes} (h : b.readBuffer n = some (d, b')) :
    d.length = n ∧ b.rest = d ++ b'.rest ∧ b'.sBuffer = b.sBuffer ∧
      b'.szOffset = b.szOffset + n := by
  unfold readBuffer at h
  split at h
  · cases h
  · next hn =>
    cases h
    refine ⟨by simp; omega, ?_, rfl, rfl⟩
    simp only [rest]
    rw [← List.drop_drop, List.take_append_drop]

theorem readNumber_some {b b' : AutoBuffer} {n v : ℕ} (h : b.readNumber n = some (v, b')) :
    ∃ d, b.readBuffer n = some (d, b') ∧ v = beNat d := by
  unfold readNumber at h
  obtain ⟨⟨d, b''⟩, hd, he⟩ := Option.map_eq_some_iff.mp h
  cases he
  exact ⟨d, hd, rfl⟩

theorem readBuffer_none {b : AutoBuffer} {n : ℕ} (h : b.readBuffer n = none) : b.unread < n := by
  unfold readBuffer at h
  split at h
  · assumption
  · cases h

theorem readBuffer_unread {b b' : AutoBuffer} {n : ℕ} {d : Bytes}
    (h : b.readBuffer n = some (d, b')) : b'.unread + n = b.unread := by
  obtain ⟨hd, hr, -, -⟩ := readBuffer_some h
  have := congrArg List.length hr
  rw [List.length_append, length_rest, length_rest] at this
  omega

theorem readNumber_unread {b b' : AutoBuffer} {n v : ℕ} (h : b.readNumber n = some (v, b')) :
    b'.unread + n = b.unread := by
  obtain ⟨d, hd, -⟩ := readNumber_some h
  exact readBuffer_unread hd

/-! ### Reading a known string -/

/-- The reader with its first `n` unread bytes read. -/
def advance (b : AutoBuffer) (n : ℕ) (h : n ≤ b.unread) : AutoBuffer :=
  ⟨b.sBuffer, b.szOffset + n, by have := b.offset_le; unfold unread at h; omega⟩

theorem le_unread_of_rest {b : AutoBuffer} {d r : Bytes} (h : b.rest = d ++ r) :
    d.length ≤ b.unread := by
  rw [← length_rest, h, List.length_append]; omega

theorem readBuffer_of_rest {b : AutoBuffer} {d r : Bytes} (h : b.rest = d ++ r) :
    ∃ b', b.readBuffer d.length = some (d, b') ∧ b'.rest = r ∧ b'.sBuffer = b.sBuffer ∧
      b'.szOffset = b.szOffset + d.length := by
  have hle := le_unread_of_rest h
  refine ⟨b.advance d.length hle, ?_, ?_, rfl, rfl⟩
  · unfold readBuffer
    rw [dif_neg (by unfold unread at hle; omega)]
    have : b.sBuffer.drop b.szOffset = d ++ r := h
    rw [this, List.take_left]
    rfl
  · show b.sBuffer.drop (b.szOffset + d.length) = r
    rw [← List.drop_drop]
    have : b.sBuffer.drop b.szOffset = d ++ r := h
    rw [this, List.drop_left]

theorem readNumber_of_rest {b : AutoBuffer} {d r : Bytes} (h : b.rest = d ++ r) :
    ∃ b', b.readNumber d.length = some (beNat d, b') ∧ b'.rest = r ∧ b'.sBuffer = b.sBuffer ∧
      b'.szOffset = b.szOffset + d.length := by
  obtain ⟨b', h1, h2, h3, h4⟩ := readBuffer_of_rest h
  exact ⟨b', by simp [readNumber, h1], h2, h3, h4⟩

end AutoBuffer

end DnsMultiZone.Rfc1035.Reader
