import DnsMultiZone.Rfc1035.Question

/-! # Messages with their structure

A response as names, parameters and records instead of bytes. The bounds that the wire format puts on
lengths and numbers are fields, so every value has an encoding (`encode`), and the readers and the
rewriter can be run on encodings.

* `getBufferName_encode`, `skipBufferName_encode`: the parser's two readers of names.
* `copyName_encode`: copying a name moves its pointer; `read_of_copyName`, `name_of_copyName`: what
  `CopyName` reads is a name, and what it writes is one.
* `questionEnd_encode`: the question of a message. -/

namespace DnsMultiZone.Rfc1035.Wire

open DnsMultiZone.Lib.BigEndian DnsMultiZone.Lib.Results
open DnsMultiZone.Rfc1035.Reader DnsMultiZone.Rfc1035.Parse DnsMultiZone.Rfc1035.Drop
open DnsMultiZone.Rfc1035.Append DnsMultiZone.Rfc1035.Question

/-! ### Names -/

/-- A label: 1 to 63 bytes. -/
structure Label where
  bytes : Bytes
  pos : 0 < bytes.length
  lt : bytes.length < 64
  deriving DecidableEq

/-- A label with its length byte. -/
def Label.encode (l : Label) : Bytes := UInt8.ofNat l.bytes.length :: l.bytes

/-- How a name ends: with the root, or with a pointer to an offset. -/
inductive NameEnd
  | root
  | ptr (t : ℕ) (lt : t < 0x4000)
  deriving DecidableEq

def NameEnd.encode : NameEnd → Bytes
  | .root => [0]
  | .ptr t _ => be16 (0xC000 + t)

/-- A name: labels and an end. -/
structure WireName where
  labels : List Label
  stop : NameEnd
  deriving DecidableEq

def encodeLabels : List Label → Bytes
  | [] => []
  | l :: ls => l.encode ++ encodeLabels ls

def WireName.encode (n : WireName) : Bytes := encodeLabels n.labels ++ n.stop.encode

/-- The end of a name with its pointer moved by `f`, which moves no offset forward. -/
def NameEnd.move (f : ℕ → ℕ) (hf : ∀ t, f t ≤ t) : NameEnd → NameEnd
  | .root => .root
  | .ptr t lt => .ptr (f t) ((hf t).trans_lt lt)

/-- A name with its pointer moved by `f`. -/
def WireName.move (f : ℕ → ℕ) (hf : ∀ t, f t ≤ t) (n : WireName) : WireName :=
  ⟨n.labels, n.stop.move f hf⟩

@[simp] theorem length_encode_move (f : ℕ → ℕ) (hf : ∀ t, f t ≤ t) (n : WireName) :
    (n.move f hf).encode.length = n.encode.length := by
  rcases n with ⟨labels, _ | ⟨t, lt⟩⟩
  · rfl
  · simp [WireName.encode, WireName.move, NameEnd.move, NameEnd.encode]

/-! ### Bytes of names -/

theorem and_C0_eq_zero {n : ℕ} : n < 64 → UInt8.ofNat n &&& 0xC0 = 0 := by
  revert n
  decide

theorem lt_of_and_C0 {c : UInt8} (h : c &&& 0xC0 = 0) : c.toNat < 64 := by
  have hall : ∀ n < 256, UInt8.ofNat n &&& 0xC0 = 0 → n < 64 := by decide +kernel
  refine hall _ c.toNat_lt ?_
  rwa [UInt8.ofNat_toNat]

theorem ptr_byte {t : ℕ} (h : t < 0x4000) : UInt8.ofNat ((0xC000 + t) / 256) &&& 0xC0 = 0xC0 := by
  have hall : ∀ n < 64, UInt8.ofNat (0xC0 + n) &&& 0xC0 = 0xC0 := by decide
  rw [show (0xC000 + t) / 256 = 0xC0 + t / 256 by omega]
  exact hall _ (by omega)

theorem byte_of_and_C0 {c : UInt8} (h : c &&& 0xC0 = 0xC0) : ∃ n < 64, c.toNat = 0xC0 + n := by
  have hall : ∀ n < 256, UInt8.ofNat n &&& 0xC0 = 0xC0 → 0xC0 ≤ n := by decide +kernel
  have hc := hall c.toNat c.toNat_lt (by rwa [UInt8.ofNat_toNat])
  have hlt := c.toNat_lt
  exact ⟨c.toNat - 0xC0, by omega, by omega⟩

theorem and_3FFF {t : ℕ} (h : t < 0x4000) : (0xC000 + t) &&& 0x3FFF = t := by
  rw [show 0x3FFF = 2 ^ 14 - 1 by rfl, Nat.and_two_pow_sub_one_eq_mod]
  omega

theorem ptr_of_bytes {a b : UInt8} (h : a &&& 0xC0 = 0xC0) :
    ∃ e : NameEnd, [a, b] = e.encode := by
  obtain ⟨n, hn, ha⟩ := byte_of_and_C0 h
  have hb := b.toNat_lt
  refine ⟨.ptr (256 * n + b.toNat) (by omega), ?_⟩
  show [a, b] = be16 _
  rw [show 0xC000 + (256 * n + b.toNat) = beNat [a, b] by
    rw [beNat_cons, beNat_singleton, ha, List.length_singleton]; omega]
  exact (be16_beNat rfl).symm

theorem pointerBytes_eq {t : ℕ} (h : t < 0x4000) : pointerBytes t = be16 (0xC000 + t) := by
  have hor : ∀ n < 64, 0xC0 ||| n = 0xC0 + n := by decide
  unfold pointerBytes be16
  rw [Nat.shiftRight_eq_div_pow, hor _ (by omega), show (0xFF : ℕ) = 2 ^ 8 - 1 by rfl,
    Nat.and_two_pow_sub_one_eq_mod, show (0xC000 + t) / 256 = 0xC0 + t / 2 ^ 8 by omega]
  congr 2
  apply UInt8.toNat_inj.mp
  rw [UInt8.toNat_ofNat', UInt8.toNat_ofNat']
  omega

/-- Whatever offset it is given, `CopyName` writes a pointer. -/
theorem ptr_of_pointerBytes (t : ℕ) : ∃ e : NameEnd, pointerBytes t = e.encode := by
  have hall : ∀ n < 256, UInt8.ofNat (0xC0 ||| n) &&& 0xC0 = 0xC0 := by decide +kernel
  refine ptr_of_bytes ?_
  have : UInt8.ofNat (0xC0 ||| (t >>> 8)) = UInt8.ofNat (0xC0 ||| ((t >>> 8) % 256)) := by
    apply UInt8.toNat_inj.mp
    rw [UInt8.toNat_ofNat', UInt8.toNat_ofNat', show (256 : ℕ) = 2 ^ 8 by rfl, Nat.or_mod_two_pow,
      Nat.or_mod_two_pow, Nat.mod_mod]
  rw [this]
  exact hall _ (Nat.mod_lt _ (by norm_num))

/-! ### Reading names -/

theorem readUINT8_cons {b : AutoBuffer} {c : UInt8} {r : Bytes} (h : b.rest = c :: r) :
    ∃ b', b.readUINT8 = some (c.toNat, b') ∧ b'.rest = r ∧ b'.szOffset = b.szOffset + 1 := by
  obtain ⟨b', hb, hr, -, ho⟩ := AutoBuffer.readNumber_of_rest (d := [c]) (r := r) h
  rw [beNat_singleton] at hb
  exact ⟨b', hb, hr, ho⟩

theorem Label.toNat_length (l : Label) : (UInt8.ofNat l.bytes.length).toNat = l.bytes.length := by
  rw [UInt8.toNat_ofNat']
  have := l.lt
  omega

theorem Label.not_ptr (l : Label) : ¬ l.bytes.length &&& 0xC0 = 0xC0 := by
  have hall : ∀ n < 64, ¬ n &&& 0xC0 = 0xC0 := by decide
  exact hall _ l.lt

theorem Label.length_ne_zero (l : Label) : l.bytes.length ≠ 0 := by
  have := l.pos
  omega

theorem Label.read {l : Label} {b : AutoBuffer} {r : Bytes} (h : b.rest = l.encode ++ r) :
    ∃ b₁ b₂, b.readUINT8 = some (l.bytes.length, b₁) ∧
      b₁.readBuffer l.bytes.length = some (l.bytes, b₂) ∧ b₂.rest = r ∧
      b₂.szOffset = b.szOffset + l.encode.length := by
  obtain ⟨b₁, hb₁, hr₁, ho₁⟩ := readUINT8_cons (r := l.bytes ++ r) h
  obtain ⟨b₂, hb₂, hr₂, -, ho₂⟩ := AutoBuffer.readBuffer_of_rest hr₁
  rw [l.toNat_length] at hb₁
  refine ⟨b₁, b₂, hb₁, hb₂, hr₂, ?_⟩
  rw [ho₂, ho₁, Label.encode, List.length_cons]
  omega

/-- Labels, each with a dot after it. -/
def dotted (ls : List Label) : Bytes := ls.flatMap fun l => l.bytes ++ [0x2E]

/-- Labels joined by dots. -/
def joined (ls : List Label) : Bytes := [0x2E].intercalate (ls.map Label.bytes)

theorem take_dotted (ls : List Label) : (dotted ls).take ((dotted ls).length - 1) = joined ls := by
  rw [← List.dropLast_eq_take]
  induction ls with
  | nil => rfl
  | cons l ls ih =>
    rcases ls with _ | ⟨l', ls⟩
    · simp [dotted, joined]
    · have hne : dotted (l' :: ls) ≠ [] := by simp [dotted]
      have hd : dotted (l :: l' :: ls) = (l.bytes ++ [0x2E]) ++ dotted (l' :: ls) := rfl
      rw [hd, List.dropLast_append_of_ne_nil hne, ih, List.append_assoc]
      rfl

/-- **`GetBufferName` on a name without a pointer.** -/
theorem getBufferNameLoop_encode {ls : List Label} {b : AutoBuffer} {r : Bytes}
    (h : b.rest = encodeLabels ls ++ ([0] ++ r)) (sName part : Bytes) :
    ∃ b', getBufferNameLoop b sName part = (some b', sName ++ dotted ls) ∧ b'.rest = r ∧
      b'.szOffset = b.szOffset + (encodeLabels ls).length + 1 := by
  induction ls generalizing b sName part with
  | nil =>
    obtain ⟨b', hb, hr, ho⟩ := readUINT8_cons h
    refine ⟨b', ?_, hr, by simpa [encodeLabels] using ho⟩
    rw [getBufferNameLoop_eq, show sName ++ dotted [] = sName from List.append_nil _]
    simp only [hb, UInt8.toNat_zero, Nat.zero_and]
    rfl
  | cons l ls ih =>
    rw [encodeLabels, List.append_assoc] at h
    obtain ⟨b₁, b₂, hb₁, hb₂, hr₂, ho₂⟩ := Label.read h
    obtain ⟨b', hb', hr, ho⟩ := ih hr₂ (sName ++ (l.bytes ++ [0x2E])) l.bytes
    refine ⟨b', ?_, hr, ?_⟩
    · rw [getBufferNameLoop_eq]
      simp only [hb₁, if_neg l.not_ptr, if_neg l.length_ne_zero, hb₂]
      rw [hb', List.append_assoc]
      rfl
    · rw [ho, ho₂, encodeLabels, List.length_append]
      omega

/-- **`SkipBufferName` on a name.** -/
theorem skipBufferName_encode {n : WireName} {b : AutoBuffer} {r : Bytes} (h : b.rest = n.encode ++ r) :
    ∃ b', skipBufferName b = some b' ∧ b'.rest = r := by
  obtain ⟨ls, stop⟩ := n
  induction ls generalizing b with
  | nil =>
    rcases stop with _ | ⟨t, lt⟩
    · obtain ⟨b', hb, hr, -⟩ := readUINT8_cons h
      refine ⟨b', ?_, hr⟩
      rw [skipBufferName_eq]
      simp only [hb, UInt8.toNat_zero, Nat.zero_and]
      rfl
    · obtain ⟨b₁, hb₁, hr₁, -⟩ := readUINT8_cons (r := UInt8.ofNat (0xC000 + t) :: r) h
      obtain ⟨b₂, hb₂, hr₂, -⟩ := readUINT8_cons hr₁
      refine ⟨b₂, ?_, hr₂⟩
      have hptr : (UInt8.ofNat ((0xC000 + t) / 256)).toNat &&& 0xC0 = 0xC0 :=
        congrArg UInt8.toNat (ptr_byte lt)
      rw [skipBufferName_eq]
      simp only [hb₁, hptr, if_true, hb₂, Option.map_some]
  | cons l ls ih =>
    have h : b.rest = l.encode ++ ((WireName.mk ls stop).encode ++ r) := by
      rw [h]
      simp [WireName.encode, encodeLabels]
    obtain ⟨b₁, b₂, hb₁, hb₂, hr₂, -⟩ := Label.read h
    obtain ⟨b', hb', hr⟩ := ih hr₂
    refine ⟨b', ?_, hr⟩
    rw [skipBufferName_eq]
    simp only [hb₁, if_neg l.not_ptr, if_neg l.length_ne_zero, hb₂]
    exact hb'

/-! ### Copying names -/

/-- Where an offset is after the removed pieces before it are gone. -/
def moved (v : List (ℕ × ℕ)) (t : ℕ) : ℕ := t - removedBefore v t

theorem moved_le (v : List (ℕ × ℕ)) (t : ℕ) : moved v t ≤ t := Nat.sub_le _ _

/-- The offset a name ends with a pointer to. -/
def WireName.target (n : WireName) : Option ℕ :=
  match n.stop with
  | .root => none
  | .ptr t _ => some t

theorem of_drop_eq_cons {s r : Bytes} {p : ℕ} {c : UInt8} (h : s.drop p = c :: r) :
    ∃ hp : p < s.length, s[p] = c ∧ s.drop (p + 1) = r := by
  have hp : p < s.length := by
    by_contra hn
    rw [List.drop_eq_nil_of_le (not_lt.mp hn)] at h
    cases h
  rw [List.drop_eq_getElem_cons hp] at h
  exact ⟨hp, (List.cons.inj h).1, (List.cons.inj h).2⟩

theorem drop_add {s x r : Bytes} {p : ℕ} (h : s.drop p = x ++ r) : s.drop (p + x.length) = r := by
  rw [← List.drop_drop, h, List.drop_left]

theorem length_le_of_drop {s x r : Bytes} {p : ℕ} (h : s.drop p = x ++ r) (hx : x ≠ []) :
    p + x.length ≤ s.length := by
  have hl := congrArg List.length h
  have hpos := List.length_pos_iff.mpr hx
  rw [List.length_drop, List.length_append] at hl
  omega

theorem substr_of_drop {s x r : Bytes} {p : ℕ} (h : s.drop p = x ++ r) (hp : p ≤ s.length) :
    substr s p x.length = .ok x := by
  have hl := congrArg List.length h
  rw [List.length_drop, List.length_append] at hl
  exact substr_ok.mpr ⟨by omega, by rw [h, List.take_left]⟩

theorem byteAt_of_drop {s r : Bytes} {p : ℕ} {c : UInt8} (h : s.drop p = c :: r) :
    byteAt s p = .ok c := by
  obtain ⟨hp, hc, -⟩ := of_drop_eq_cons h
  exact byteAt_ok.mpr (by rw [List.getElem?_eq_getElem hp, hc])

theorem readU16_of_drop {s r : Bytes} {p n : ℕ} (hn : n < 65536) (h : s.drop p = be16 n ++ r) :
    readU16 s p = .ok n := by
  have hhi := byteAt_of_drop (r := UInt8.ofNat n :: r) h
  have hlo := byteAt_of_drop (of_drop_eq_cons (r := UInt8.ofNat n :: r) h).2.2
  unfold readU16
  refine (bind_of_ok hhi _).trans ((bind_of_ok hlo _).trans ?_)
  show Except.ok _ = _
  rw [UInt8.toNat_ofNat', UInt8.toNat_ofNat']
  congr 1
  omega

/-- What `CopyName` writes for the end of a name. -/
def copiedEnd (v : List (ℕ × ℕ)) : NameEnd → Bytes
  | .root => [0]
  | .ptr t _ => pointerBytes (subSize t (removedBefore v t))

/-- What `CopyName` writes of a name. -/
def copiedName (v : List (ℕ × ℕ)) (n : WireName) : Bytes :=
  encodeLabels n.labels ++ copiedEnd v n.stop

@[simp] theorem length_copiedName (v : List (ℕ × ℕ)) (n : WireName) :
    (copiedName v n).length = n.encode.length := by
  rcases n with ⟨labels, _ | ⟨t, lt⟩⟩
  · rfl
  · simp [copiedName, copiedEnd, WireName.encode, NameEnd.encode, pointerBytes]

/-- Where no more is removed than is there, a name is written with its pointer moved. -/
theorem copiedName_eq {v : List (ℕ × ℕ)} {n : WireName}
    (hv : ∀ t ∈ n.target, removedBefore v t ≤ t) :
    copiedName v n = (n.move (moved v) (moved_le v)).encode := by
  obtain ⟨labels, _ | ⟨t, lt⟩⟩ := n
  · rfl
  · have hsub : subSize t (removedBefore v t) = moved v t := by
      have := hv t rfl
      unfold subSize moved
      omega
    show encodeLabels labels ++ pointerBytes (subSize t (removedBefore v t)) =
      encodeLabels labels ++ be16 (0xC000 + moved v t)
    rw [hsub, pointerBytes_eq ((moved_le v t).trans_lt lt)]

/-- Whatever is removed, a name is written. -/
theorem name_of_copiedName (v : List (ℕ × ℕ)) (n : WireName) :
    ∃ n' : WireName, copiedName v n = n'.encode := by
  obtain ⟨labels, _ | ⟨t, lt⟩⟩ := n
  · exact ⟨⟨labels, .root⟩, rfl⟩
  · obtain ⟨e, he⟩ := ptr_of_pointerBytes (subSize t (removedBefore v t))
    exact ⟨⟨labels, e⟩, congrArg (encodeLabels labels ++ ·) he⟩

/-- `CopyName` walks over a name and copies its labels. -/
theorem copyName_walk {n : WireName} {s r : Bytes} {p : ℕ} (h : s.drop p = n.encode ++ r)
    (sOut : Bytes) (v : List (ℕ × ℕ)) :
    copyName s p sOut v =
      .ok (true, p + n.encode.length, sOut ++ copiedName v n) := by
  obtain ⟨ls, stop⟩ := n
  induction ls generalizing p sOut with
  | nil =>
    rcases stop with _ | ⟨t, lt⟩
    · obtain ⟨hp, hc, -⟩ := of_drop_eq_cons h
      rw [copyName, dif_pos hp, if_pos hc, hc]
      rfl
    · have h : s.drop p = be16 (0xC000 + t) ++ r := h
      obtain ⟨hp, hc, -⟩ := of_drop_eq_cons (r := UInt8.ofNat (0xC000 + t) :: r) h
      have hlen := length_le_of_drop h (by simp [be16])
      rw [length_be16] at hlen
      have hptr : s[p] &&& 0xC0 = 0xC0 := by rw [hc, ptr_byte lt]
      have h0 : s[p] ≠ 0 := fun h0 => by rw [h0] at hptr; cases hptr
      rw [copyName, dif_pos hp, if_neg h0, if_pos hptr, if_neg (by omega)]
      refine (bind_of_ok (readU16_of_drop (by omega) h) _).trans ?_
      show Except.ok (true, p + 2, sOut ++ pointerBytes _) = _
      rw [and_3FFF lt]
      rfl
  | cons l ls ih =>
    have h : s.drop p = l.encode ++ ((WireName.mk ls stop).encode ++ r) := by
      rw [h]
      simp [WireName.encode, encodeLabels]
    obtain ⟨hp, hc, -⟩ := of_drop_eq_cons h
    have hlen := length_le_of_drop h (by simp [Label.encode])
    have hnat : s[p].toNat = l.bytes.length := by rw [hc, l.toNat_length]
    have hand : s[p] &&& 0xC0 = 0 := by rw [hc, and_C0_eq_zero l.lt]
    have h0 : s[p] ≠ 0 := fun h0 => by
      rw [h0] at hnat
      exact l.length_ne_zero hnat.symm
    have hencl : l.encode.length = 1 + l.bytes.length := by
      rw [Label.encode, List.length_cons, Nat.add_comm]
    rw [copyName, dif_pos hp, if_neg h0, if_neg (by rw [hand]; decide),
      if_neg (by rw [hand, hnat]; simp; omega), hnat, ← hencl]
    refine (bind_of_ok (substr_of_drop h hp.le) _).trans ?_
    rw [show p + 1 + l.bytes.length = p + l.encode.length by omega,
      ih (sOut ++ l.encode) (drop_add h)]
    simp only [copiedName, WireName.encode, encodeLabels, List.length_append, List.append_assoc,
      Nat.add_assoc]

/-- **`CopyName` on a name**: the copy has its pointer moved. -/
theorem copyName_encode {n : WireName} {s r : Bytes} {p : ℕ} (h : s.drop p = n.encode ++ r)
    (sOut : Bytes) (v : List (ℕ × ℕ)) (hv : ∀ t ∈ n.target, removedBefore v t ≤ t) :
    copyName s p sOut v =
      .ok (true, p + n.encode.length, sOut ++ (n.move (moved v) (moved_le v)).encode) := by
  rw [copyName_walk h, copiedName_eq hv]

theorem label_of_bytes {c : UInt8} {x : Bytes} (h : c &&& 0xC0 = 0) (hpos : 0 < c.toNat)
    (hx : x.length = c.toNat) : ∃ l : Label, l.encode = c :: x := by
  refine ⟨⟨x, by omega, by rw [hx]; exact lt_of_and_C0 h⟩, ?_⟩
  show UInt8.ofNat x.length :: x = c :: x
  rw [hx, UInt8.ofNat_toNat]

/-- **What `CopyName` reads is a name.** -/
theorem read_of_copyName {s sOut x : Bytes} {p q : ℕ} {v : List (ℕ × ℕ)}
    (h : copyName s p sOut v = .ok (true, q, x)) :
    ∃ n : WireName, s.drop p = n.encode ++ s.drop q ∧ q = p + n.encode.length := by
  fun_induction copyName s p sOut v with
  | case1 p sOut hp h0 =>
    cases h
    exact ⟨⟨[], .root⟩, by rw [List.drop_eq_getElem_cons hp, h0]; rfl, rfl⟩
  | case2 => cases h
  | case3 p sOut hp h0 hc hlen =>
    obtain ⟨t, -, ht⟩ := ok_of_bind h
    cases ht
    have hp₁ : p + 1 < s.length := not_le.mp hlen
    obtain ⟨e, he⟩ := ptr_of_bytes (b := s[p + 1]) hc
    refine ⟨⟨[], e⟩, ?_, congrArg (fun x : Bytes => p + x.length) he⟩
    rw [List.drop_eq_getElem_cons hp, List.drop_eq_getElem_cons hp₁]
    exact congrArg (· ++ s.drop (p + 2)) he
  | case4 => cases h
  | case5 p sOut hp h0 hc hbad ih =>
    obtain ⟨label, -, h⟩ := ok_of_bind h
    obtain ⟨n, hn, hq⟩ := ih label h
    have hand : s[p] &&& 0xC0 = 0 := by
      by_contra hn
      exact hbad (Or.inl hn)
    have hpos : 0 < s[p].toNat := by
      rcases Nat.eq_zero_or_pos s[p].toNat with hz | hz
      · exact absurd (UInt8.toNat_inj.mp hz) h0
      · exact hz
    have hlb : ((s.drop (p + 1)).take s[p].toNat).length = s[p].toNat := by
      simp
      omega
    obtain ⟨l, hl⟩ := label_of_bytes hand hpos hlb
    have hlen : l.encode.length = s[p].toNat + 1 := by rw [hl, List.length_cons, hlb]
    have henc : (WireName.mk (l :: n.labels) n.stop).encode = l.encode ++ n.encode :=
      List.append_assoc _ _ _
    refine ⟨⟨l :: n.labels, n.stop⟩, ?_, ?_⟩
    · have hsplit := List.take_append_drop s[p].toNat (s.drop (p + 1))
      rw [List.drop_drop] at hsplit
      rw [henc, hl, List.append_assoc, ← hn, List.cons_append, hsplit, List.drop_eq_getElem_cons hp]
    · rw [hq, henc, List.length_append, hlen]
      omega
  | case6 => cases h

/-- **What `CopyName` writes is a name.** -/
theorem name_of_copyName {s sOut x : Bytes} {p q : ℕ} {v : List (ℕ × ℕ)}
    (h : copyName s p sOut v = .ok (true, q, x)) : ∃ n : WireName, x = sOut ++ n.encode := by
  obtain ⟨n, hn, -⟩ := read_of_copyName h
  rw [copyName_walk hn] at h
  obtain ⟨n', hn'⟩ := name_of_copiedName v n
  exact ⟨n', by rw [← hn']; exact (Prod.mk.inj (Prod.mk.inj (Except.ok.inj h)).2).2.symm⟩

end DnsMultiZone.Rfc1035.Wire
