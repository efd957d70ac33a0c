import DnsMultiZone.Json.Strings

/-! # The parser takes exactly the grammar

Each function of the parser reads a piece of the grammar (`Reads`): it takes a piece that is there, and
refuses where there is none. Recursion goes one level of brackets deeper each time, so the induction is on
the levels left; the loops over elements are by induction on their bound, and on the list. -/

namespace DnsMultiZone.Json.Values

open DnsMultiZone.Lib.BigEndian DnsMultiZone.Lib.Decimal DnsMultiZone.Lib.Double DnsMultiZone.Lib.Results
open DnsMultiZone.Config.LoadFile (cStr)
open DnsMultiZone.Config.LoadConfig (CJson)
open DnsMultiZone.Config.Lookup (text)
open DnsMultiZone.Json.Parser DnsMultiZone.Json.Grammar DnsMultiZone.Json.Buffer
open DnsMultiZone.Json.Strings

variable {content : Bytes}

/-! ### Numbers -/

private theorem digit_range {c : UInt8} (h : isDigit c) : 32 < c ∧ c < 0x80 := by
  simp only [isDigit, Bool.and_eq_true, decide_eq_true_eq, UInt8.le_iff_toNat_le] at h
  have h1 : 48 ≤ c.toNat ∧ c.toNat ≤ 57 := h
  have h2 : (32 : UInt8).toNat = 32 ∧ (0x80 : UInt8).toNat = 128 := ⟨rfl, rfl⟩
  rw [UInt8.lt_iff_toNat_lt, UInt8.lt_iff_toNat_lt]
  omega

private theorem digit_byte {c : UInt8} (h : isDigit c) : isNumberByte c := by
  unfold isNumberByte
  rw [h]
  rfl

private theorem sign_bytes {sg : Bytes} {neg : Bool} (h : Sign sg neg) : ∀ c ∈ sg, isNumberByte c := by
  cases h <;> simp <;> decide

theorem numeral_bytes {w : Bytes} {x : ℚ} (h : Numeral w x) : ∀ c ∈ w, isNumberByte c := by
  obtain ⟨hs, hm, hx⟩ := h
  intro c hc
  rcases List.mem_append.mp hc with hc | hc
  · rcases List.mem_append.mp hc with hc | hc
    · exact sign_bytes hs c hc
    · cases hm with
      | whole hw => exact digit_byte (hw c hc)
      | point hw hf =>
        rcases List.mem_append.mp hc with hc | hc
        · exact digit_byte (hw c hc)
        · rcases List.mem_cons.mp hc with rfl | hc
          · rfl
          · exact digit_byte (hf c hc)
  · cases hx with
    | none => cases hc
    | some he hs hd =>
      rcases List.mem_append.mp hc with hc | hc
      · rcases List.mem_cons.mp hc with rfl | hc
        · rcases he with rfl | rfl <;> rfl
        · exact sign_bytes hs c hc
      · exact digit_byte (hd c hc)

private theorem copied {o : ℕ} {r : Bytes} (h : Rest content o r) :
    ((content.drop o).take 63).takeWhile isNumberByte = (r.take 63).takeWhile isNumberByte := by
  rw [h, List.take_append, List.takeWhile_append]
  split_ifs with hl
  · have hz : ([(0 : UInt8)].take (63 - r.length)).takeWhile isNumberByte = [] := by
      rcases 63 - r.length with _ | k <;> rfl
    rw [hz, List.append_nil]
    exact ((List.takeWhile_prefix _).eq_of_length hl).symm
  · rfl

private theorem number_copied {w r : Bytes} {v : Int32} (h : Number w v) (hp : w <+: r) :
    w <+: (r.take 63).takeWhile isNumberByte := by
  obtain ⟨hn, hl⟩ := h
  obtain ⟨r, rfl⟩ := hp
  rw [List.take_append, List.take_of_length_le hl, List.takeWhile_append_of_pos (numeral_bytes hn)]
  exact List.prefix_append _ _

theorem number_unique {w : Bytes} {v v' : Int32} (h : Number w v) (h' : Number w v') : v = v' := by
  obtain ⟨hn, -⟩ := h
  obtain ⟨hn', -⟩ := h'
  obtain ⟨q, t, hs, -, hq⟩ := strtod_append hn []
  obtain ⟨q', t', hs', -, hq'⟩ := strtod_append hn' []
  rw [hs] at hs'
  cases hs'
  rw [← hq rfl, hq' rfl]

theorem number_ne_nil {w : Bytes} {v : Int32} (h : Number w v) : w ≠ [] := by
  rintro rfl
  obtain ⟨hn, -⟩ := h
  obtain ⟨q, t, hs, -, -⟩ := strtod_append hn []
  cases hs

/-- `parse_number` takes the longest number. -/
theorem parseNumber_spec {o d : ℕ} {r : Bytes} (h : Rest content o r) :
    (∃ w v r', r = w ++ r' ∧ Number w v ∧ (∀ w' v', Number w' v' → w' <+: r → w'.length ≤ w.length) ∧
        parseNumber content ⟨o, d⟩ = .ok (.number v, ⟨o + w.length, d⟩)) ∨
      (∀ w v, w <+: r → ¬ Number w v) ∧ parseNumber content ⟨o, d⟩ = .error .refused := by
  unfold parseNumber
  simp only [copied h]
  have hpre : (r.take 63).takeWhile isNumberByte <+: r :=
    (List.takeWhile_prefix _).trans (List.take_prefix _ _)
  have hlen : ((r.take 63).takeWhile isNumberByte).length ≤ 63 :=
    (List.takeWhile_prefix _).length_le.trans (List.length_take_le _ _)
  have hin {w : Bytes} {v : Int32} (hw : Number w v) (hp : w <+: r) :=
    number_copied hw hp
  generalize (r.take 63).takeWhile isNumberByte = t at hpre hlen hin
  rcases hs : strtod t with _ | ⟨q, rest⟩
  · refine .inr ⟨fun w v hp hw => ?_, rfl⟩
    obtain ⟨t', rfl⟩ := hin hw hp
    obtain ⟨hn, -⟩ := hw
    obtain ⟨q, t, hs', -⟩ := strtod_append hn t'
    rw [hs] at hs'
    cases hs'
  · obtain ⟨w, x, rfl, hn, rfl, hmax⟩ := strtod_eq_some_iff.mp hs
    obtain ⟨r', rfl⟩ := hpre
    rw [List.length_append] at hlen
    refine .inl ⟨w, _, rest ++ r', by simp, .mk hn (by omega), fun w' v' hw' hp => ?_, ?_⟩
    · have hp' := hin hw' hp
      obtain ⟨hn', -⟩ := hw'
      exact hmax w' _ hn' hp'
    · simp

/-- What follows a number: a byte that is none of its own, or the end. -/
def Delimited (r : Bytes) : Prop := ∀ c t, r = c :: t → ¬ isNumberByte c

theorem number_maximal {w w' r : Bytes} {v' : Int32} (h' : Number w' v')
    (hr : Delimited r) (hp : w' <+: w ++ r) : w'.length ≤ w.length := by
  obtain ⟨hn', -⟩ := h'
  by_contra hlt
  obtain ⟨t, ht⟩ := hp
  obtain ⟨s, rfl⟩ : w <+: w' :=
    List.prefix_of_prefix_length_le (List.prefix_append w r) ⟨t, ht⟩ (by omega)
  rw [List.append_assoc] at ht
  have hs := List.append_cancel_left ht
  rcases s with _ | ⟨c, s⟩
  · simp at hlt
  · exact hr c _ hs.symm (numeral_bytes hn' c (by simp))

theorem parseNumber_append {o d : ℕ} {w r : Bytes} {v : Int32} (h : Rest content o (w ++ r))
    (hw : Number w v) (hr : Delimited r) :
    parseNumber content ⟨o, d⟩ = .ok (.number v, ⟨o + w.length, d⟩) := by
  rcases parseNumber_spec (d := d) h with ⟨w', v', r', hs, hw', hmax, hok⟩ | ⟨hno, -⟩
  · have h1 := hmax w v hw (List.prefix_append _ _)
    have h2 := number_maximal hw' hr ⟨r', hs.symm⟩
    obtain ⟨rfl, -⟩ := List.append_inj hs (by omega)
    rw [number_unique hw hw']
    exact hok
  · exact absurd hw (hno w v (List.prefix_append _ _))

/-! ### Lists -/

/-- What an item starts with: a visible byte of ASCII, and not a closing bracket. -/
def Opens (w : Bytes) : Prop := ∃ c t, w = c :: t ∧ (32 < c ∧ c < 0x80) ∧ c ≠ 0x5D ∧ c ≠ 0x7D

theorem Opens.visible {w : Bytes} (h : Opens w) (r : Bytes) : Visible (w ++ r) := by
  obtain ⟨c, t, rfl, hc, -⟩ := h
  rintro _ _ ⟨⟩
  exact hc.1

/-- `parse` takes the pieces of `P`, at this depth. -/
structure Reads {α : Type} (content : Bytes) (P : Bytes → α → Prop) (d : ℕ)
    (parse : ParseBuffer → Except Stop (α × ParseBuffer)) : Prop where
  opens : ∀ {w a}, P w a → Opens w
  sound : ∀ {o r}, Rest content o r →
    (∃ w a r', r = w ++ r' ∧ P w a ∧ parse ⟨o, d⟩ = .ok (a, ⟨o + w.length, d⟩)) ∨
      parse ⟨o, d⟩ = .error .refused
  complete : ∀ {o w a r}, Rest content o (w ++ r) → P w a → Delimited r →
    parse ⟨o, d⟩ = .ok (a, ⟨o + w.length, d⟩)

theorem blank_delimited {b : Bytes} {c : UInt8} {t : Bytes} (hb : Blank b) (hc : ¬ isNumberByte c) :
    Delimited (b ++ c :: t) := by
  rcases b with _ | ⟨a, b⟩
  · rintro _ _ ⟨⟩
    exact hc
  · rintro _ _ ⟨⟩ ha
    have hle : a.toNat ≤ 32 := hb a List.mem_cons_self
    simp only [isNumberByte, isDigit, Bool.or_eq_true, Bool.and_eq_true, decide_eq_true_eq, beq_iff_eq,
      UInt8.le_iff_toNat_le] at ha
    rcases ha with ((((ha | rfl) | rfl) | rfl) | rfl) | rfl
    · have : (0x30 : UInt8).toNat = 48 := rfl
      omega
    all_goals exact absurd hle (by decide)

section
variable {α : Type} {P : Bytes → α → Prop} {d : ℕ} {parse : ParseBuffer → Except Stop (α × ParseBuffer)}

theorem parseItems_sound (h : Reads content P d parse) (n : ℕ) {o : ℕ} {r : Bytes}
    (hr : Rest content (o + 1) r) (hn : r.length < n) :
    (∃ w xs r', r = w ++ r' ∧ Separated Blank P w xs ∧
        parseItems content parse n ⟨o, d⟩ = .ok (xs, ⟨o + 1 + w.length, d⟩)) ∨
      parseItems content parse n ⟨o, d⟩ = .error .refused := by
  induction n generalizing o r with
  | zero => simp at hn
  | succ n ih =>
  unfold parseItems
  obtain ⟨hskip, hr1⟩ := hr.skip (d := d)
  dsimp only
  rw [bind_of_ok hskip]
  have ha := blank_takeWhile r
  have hsplit : r.takeWhile isBlank ++ r.dropWhile isBlank = r := List.takeWhile_append_dropWhile
  generalize r.takeWhile isBlank = a at *
  generalize r.dropWhile isBlank = r1 at *
  subst hsplit
  rcases h.sound hr1 with ⟨w, x, r2, rfl, hw, hok⟩ | herr
  swap
  · exact .inr (by rw [herr]; rfl)
  rw [bind_of_ok hok]
  have hr2 := hr1.append
  obtain ⟨hskip2, hr3⟩ := hr2.skip (d := d)
  dsimp only
  rw [bind_of_ok hskip2]
  have hb := blank_takeWhile r2
  have hsplit : r2.takeWhile isBlank ++ r2.dropWhile isBlank = r2 := List.takeWhile_append_dropWhile
  generalize r2.takeWhile isBlank = b at *
  generalize r2.dropWhile isBlank = r3 at *
  subst hsplit
  by_cases hsee : sees content ⟨o + 1 + a.length + w.length + b.length, d⟩ 0x2C = true
  · rw [if_pos hsee]
    obtain ⟨t, rfl⟩ := (hr3.sees_iff (by decide)).mp hsee
    simp only [List.length_append, List.length_cons] at hn
    rcases ih hr3.tail (by omega) with ⟨w', xs, r', rfl, hs, hok'⟩ | herr
    · refine .inl ⟨a ++ w ++ b ++ 0x2C :: w', x :: xs, r', by simp, .cons ha hw hb hs, ?_⟩
      rw [bind_of_ok hok']
      simp only [List.length_append, List.length_cons, pure, Except.pure]
      rw [show o + 1 + a.length + w.length + b.length + 1 + w'.length =
        o + 1 + (a.length + w.length + b.length + (w'.length + 1)) by omega]
    · exact .inr (by rw [herr]; rfl)
  · rw [if_neg hsee]
    refine .inl ⟨a ++ w ++ b, [x], r3, by simp, .one ha hw hb, ?_⟩
    simp only [List.length_append, pure, Except.pure]
    rw [show o + 1 + a.length + w.length + b.length = o + 1 + (a.length + w.length + b.length) by omega]

/-- One turn of the loop over an item that is there, up to the byte that follows it. -/
theorem parseItems_step (h : Reads content P d parse) {a w b r : Bytes} {c : UInt8} {x : α} {o : ℕ}
    (hr : Rest content (o + 1) (a ++ w ++ b ++ c :: r)) (ha : Blank a) (hw : P w x) (hb : Blank b)
    (hc : 32 < c) (hn : ¬ isNumberByte c) (n : ℕ) :
    parseItems content parse (n + 1) ⟨o, d⟩ =
      if c = 0x2C then do
        let (xs, b) ← parseItems content parse n ⟨o + 1 + (a ++ w ++ b).length, d⟩
        return (x :: xs, b)
      else return ([x], ⟨o + 1 + (a ++ w ++ b).length, d⟩) := by
  simp only [List.append_assoc] at hr
  have hskip := hr.skip_append (d := d) ha ((h.opens hw).visible _)
  have hr1 := hr.append
  have hok := h.complete hr1 hw (blank_delimited hb hn)
  have hr2 := hr1.append
  have hskip2 := hr2.skip_append (d := d) hb (by rintro _ _ ⟨⟩; exact hc)
  have hr3 := hr2.append
  have hlen : o + 1 + a.length + w.length + b.length = o + 1 + (a ++ w ++ b).length := by
    simp only [List.length_append]
    omega
  rw [hlen] at hskip2 hr3
  rw [parseItems]
  dsimp only
  rw [bind_of_ok hskip, bind_of_ok hok]
  dsimp only
  rw [bind_of_ok hskip2, hr3.sees_cons, beq_eq_decide]
  simp only [decide_eq_true_eq]

theorem parseItems_complete (h : Reads content P d parse) {w : Bytes} {xs : List α}
    (hs : Separated Blank P w xs) {n o : ℕ} {c : UInt8} {r : Bytes} (hr : Rest content (o + 1) (w ++ c :: r))
    (hn : w.length < n) (hc : c = 0x5D ∨ c = 0x7D) :
    parseItems content parse n ⟨o, d⟩ = .ok (xs, ⟨o + 1 + w.length, d⟩) := by
  induction hs generalizing n o with
  | one ha hw hb =>
    obtain ⟨n, rfl⟩ := Nat.exists_eq_add_one_of_ne_zero (Nat.ne_of_gt (Nat.zero_lt_of_lt hn))
    rw [parseItems_step h hr ha hw hb (by rcases hc with rfl | rfl <;> decide)
      (by rcases hc with rfl | rfl <;> decide), if_neg (by rcases hc with rfl | rfl <;> decide)]
    rfl
  | @cons a w b s x xs ha hw hb hs ih =>
    obtain ⟨n, rfl⟩ := Nat.exists_eq_add_one_of_ne_zero (Nat.ne_of_gt (Nat.zero_lt_of_lt hn))
    rw [List.append_assoc, List.cons_append] at hr
    rw [List.length_append, List.length_cons] at hn
    rw [parseItems_step h hr ha hw hb (by decide) (by decide), if_pos rfl,
      bind_of_ok (ih hr.append.tail (by omega))]
    simp only [List.length_append, List.length_cons, pure, Except.pure]
    rw [show o + 1 + (a.length + w.length + b.length) + 1 + s.length =
      o + 1 + (a.length + w.length + b.length + (s.length + 1)) by omega]

/-! ### Between brackets -/

theorem separated_blank {a w : Bytes} {xs : List α} (ha : Blank a) (h : Separated Blank P w xs) :
    Separated Blank P (a ++ w) xs := by
  have happ {b : Bytes} (hb : Blank b) : Blank (a ++ b) := fun c hc =>
    (List.mem_append.mp hc).elim (ha c) (hb c)
  cases h with
  | @one b w c x hb hw hc =>
    rw [show a ++ (b ++ w ++ c) = (a ++ b) ++ w ++ c by simp]
    exact .one (happ hb) hw hc
  | @cons b w c s x xs hb hw hc hs =>
    rw [show a ++ (b ++ w ++ c ++ 0x2C :: s) = (a ++ b) ++ w ++ c ++ 0x2C :: s by simp]
    exact .cons (happ hb) hw hc hs

theorem separated_visible (hP : ∀ {w a}, P w a → Opens w) {w : Bytes} {xs : List α}
    (h : Separated Blank P w xs) : ∃ a w', w = a ++ w' ∧ Blank a ∧ Separated Blank P w' xs ∧ Opens w' := by
  have hopens {w t : Bytes} {x : α} (hw : P w x) : Opens (w ++ t) := by
    obtain ⟨c, s, rfl, hc⟩ := hP hw
    exact ⟨c, s ++ t, rfl, hc⟩
  cases h with
  | @one a w b x ha hw hb =>
    exact ⟨a, w ++ b, by simp, ha, .one (a := []) (by rintro _ ⟨⟩) hw hb, hopens hw⟩
  | @cons a w b s x xs ha hw hb hs =>
    refine ⟨a, w ++ b ++ 0x2C :: s, by simp, ha, .cons (a := []) (by rintro _ ⟨⟩) hw hb hs, ?_⟩
    rw [List.append_assoc]
    exact hopens hw

variable {closing : UInt8}

theorem parseChildren_sound (h : Reads content P (d + 1) parse) (hc : closing = 0x5D ∨ closing = 0x7D)
    {o : ℕ} {r : Bytes} (hr : Rest content (o + 1) r) :
    (∃ w xs r', r = w ++ closing :: r' ∧ Listed Blank P w xs ∧
        parseChildren content parse closing ⟨o, d + 1⟩ = .ok (xs, ⟨o + 1 + w.length + 1, d⟩)) ∨
      parseChildren content parse closing ⟨o, d + 1⟩ = .error .refused := by
  have hc0 : closing ≠ 0 := by rcases hc with rfl | rfl <;> decide
  unfold parseChildren
  obtain ⟨hskip, hr1⟩ := hr.skip (d := d + 1)
  dsimp only
  rw [bind_of_ok hskip]
  have ha := blank_takeWhile r
  have hsplit : r.takeWhile isBlank ++ r.dropWhile isBlank = r := List.takeWhile_append_dropWhile
  generalize r.takeWhile isBlank = a at *
  generalize r.dropWhile isBlank = r1 at *
  subst hsplit
  by_cases hsee : sees content ⟨o + 1 + a.length, d + 1⟩ closing = true
  · obtain ⟨t, rfl⟩ := (hr1.sees_iff hc0).mp hsee
    rw [if_pos hsee]
    exact .inl ⟨a, [], t, rfl, .nil ha, rfl⟩
  have hlen := hr1.length
  have hback : ParseBuffer.back ⟨o + 1 + a.length, d + 1⟩ = .ok ⟨o + a.length, d + 1⟩ := by
    rw [ParseBuffer.back, if_neg (by simp)]
    simp only
    rw [show o + 1 + a.length - 1 = o + a.length by omega]
  rw [if_neg hsee, if_neg (by dsimp only; omega), bind_of_ok hback]
  rw [show o + 1 + a.length = o + a.length + 1 by omega] at hr1
  rcases parseItems_sound h content.length hr1 (by omega) with ⟨w, xs, r2, rfl, hs, hok⟩ | herr
  swap
  · exact .inr (by rw [herr]; rfl)
  rw [bind_of_ok hok]
  dsimp only
  by_cases hsee2 : sees content ⟨o + a.length + 1 + w.length, d + 1⟩ closing = true
  · obtain ⟨t, rfl⟩ := (hr1.append.sees_iff hc0).mp hsee2
    rw [if_pos hsee2]
    refine .inl ⟨a ++ w, xs, t, by simp, .items (separated_blank ha hs), ?_⟩
    rw [List.length_append, show o + 1 + (a.length + w.length) = o + a.length + 1 + w.length by omega]
    rfl
  · rw [if_neg hsee2]
    exact .inr rfl

theorem parseChildren_complete (h : Reads content P (d + 1) parse)
    (hc : closing = 0x5D ∨ closing = 0x7D) {w : Bytes} {xs : List α} (hl : Listed Blank P w xs) {o : ℕ}
    {r : Bytes} (hr : Rest content (o + 1) (w ++ closing :: r)) :
    parseChildren content parse closing ⟨o, d + 1⟩ = .ok (xs, ⟨o + 1 + w.length + 1, d⟩) := by
  have hc32 : 32 < closing := by rcases hc with rfl | rfl <;> decide
  have hvis : Visible (closing :: r) := by
    rintro _ _ ⟨⟩
    exact hc32
  unfold parseChildren
  cases hl with
  | nil hw =>
    dsimp only
    rw [bind_of_ok (hr.skip_append hw hvis), hr.append.sees_cons, if_pos (by simp)]
    rfl
  | items hs =>
    obtain ⟨a, w, rfl, ha, hs, ho⟩ := separated_visible h.opens hs
    rw [List.append_assoc] at hr
    have hr1 := hr.append
    have hlen := hr1.length
    have hsee : sees content ⟨o + 1 + a.length, d + 1⟩ closing = false := by
      obtain ⟨c, t, rfl, -, h1, h2⟩ := ho
      rw [List.cons_append] at hr1
      rw [hr1.sees_cons]
      rcases hc with rfl | rfl <;> simpa
    have hback : ParseBuffer.back ⟨o + 1 + a.length, d + 1⟩ = .ok ⟨o + a.length, d + 1⟩ := by
      rw [ParseBuffer.back, if_neg (by simp)]
      simp only
      rw [show o + 1 + a.length - 1 = o + a.length by omega]
    dsimp only
    rw [bind_of_ok (hr.skip_append ha (ho.visible _)), hsee, if_neg (by simp),
      if_neg (by dsimp only; omega), bind_of_ok hback]
    rw [show o + 1 + a.length = o + a.length + 1 by omega] at hr1
    rw [List.length_append] at hlen
    rw [bind_of_ok (parseItems_complete h hs hr1 (by omega) hc)]
    dsimp only
    rw [hr1.append.sees_cons, if_pos (by simp), List.length_append,
      show o + 1 + (a.length + w.length) = o + a.length + 1 + w.length by omega]
    rfl

end

/-! ### Arrays and objects -/

theorem literal_opens {w s : Bytes} (h : Literal w s) : Opens w := by
  obtain ⟨body, -, rfl, -⟩ := literal_cons h
  exact ⟨_, _, rfl, by decide⟩

section
variable {V : Bytes → CJson → Prop} {d : ℕ} {value : ParseBuffer → Except Stop (CJson × ParseBuffer)}

theorem reads_member (h : Reads content V d value) :
    Reads content (Member cJSON V) d (parseMember content value) where
  opens := by
    rintro _ _ ⟨hk, -⟩
    obtain ⟨c, t, rfl, hc⟩ := literal_opens hk
    exact ⟨c, _, rfl, hc⟩
  sound := by
    intro o r hr
    unfold parseMember
    rcases parseString_spec (d := d) hr with ⟨k, s, r1, rfl, hk, hok⟩ | ⟨-, herr⟩
    swap
    · exact .inr (by rw [herr]; rfl)
    rw [bind_of_ok hok]
    dsimp only
    obtain ⟨hskip, hr2⟩ := hr.append.skip (d := d)
    rw [bind_of_ok hskip]
    have ha := blank_takeWhile r1
    have hsplit : r1.takeWhile isBlank ++ r1.dropWhile isBlank = r1 := List.takeWhile_append_dropWhile
    generalize r1.takeWhile isBlank = a at *
    generalize r1.dropWhile isBlank = r2 at *
    subst hsplit
    by_cases hsee : sees content ⟨o + k.length + a.length, d⟩ 0x3A = true
    swap
    · rw [if_pos (by simpa using hsee)]
      exact .inr rfl
    obtain ⟨r3, rfl⟩ := (hr2.sees_iff (by decide)).mp hsee
    rw [if_neg (by simpa using hsee)]
    obtain ⟨hskip2, hr4⟩ := hr2.tail.skip (d := d)
    rw [bind_of_ok hskip2]
    have hb := blank_takeWhile r3
    have hsplit : r3.takeWhile isBlank ++ r3.dropWhile isBlank = r3 := List.takeWhile_append_dropWhile
    generalize r3.takeWhile isBlank = b at *
    generalize r3.dropWhile isBlank = r4 at *
    subst hsplit
    rcases h.sound hr4 with ⟨w, item, r5, rfl, hw, hok'⟩ | herr
    swap
    · exact .inr (by rw [herr]; rfl)
    rw [bind_of_ok hok']
    refine .inl ⟨k ++ a ++ 0x3A :: b ++ w, (s, item), r5, by simp, .mk hk ha hb hw, ?_⟩
    simp only [List.length_append, List.length_cons, pure, Except.pure]
    rw [show o + k.length + a.length + 1 + b.length + w.length =
      o + (k.length + a.length + (b.length + 1) + w.length) by omega]
  complete := by
    rintro o _ _ r hr ⟨hk, ha, hb, hw⟩ hd
    rename_i k a b w s item
    simp only [List.append_assoc, List.cons_append] at hr
    have hr1 := hr.append
    have hr2 := hr1.append
    have hr3 := hr2.tail.append
    have hcolon (t : Bytes) : Visible (0x3A :: t) := by
      rintro _ _ ⟨⟩
      decide
    unfold parseMember
    rw [bind_of_ok (parseString_append hr hk)]
    dsimp only
    rw [bind_of_ok (hr1.skip_append ha (hcolon _)), hr2.sees_cons, if_neg (by simp),
      bind_of_ok (hr2.tail.skip_append hb ((h.opens hw).visible _)), bind_of_ok (h.complete hr3 hw hd)]
    simp only [List.length_append, List.length_cons, pure, Except.pure]
    rw [show o + k.length + a.length + 1 + b.length + w.length =
      o + (k.length + a.length + (b.length + 1) + w.length) by omega]

theorem parseArray_sound (h : Reads content V (d + 1) value) (hd : d < nestingLimit) {o : ℕ} {r : Bytes}
    (hr : Rest content o (0x5B :: r)) :
    (∃ w item r', 0x5B :: r = w ++ r' ∧ Container cJSON V w item ∧
        parseArray content value ⟨o, d⟩ = .ok (item, ⟨o + w.length, d⟩)) ∨
      parseArray content value ⟨o, d⟩ = .error .refused := by
  unfold parseArray
  rw [if_neg (by dsimp only; omega), bind_of_ok hr.byteAt_cons, if_neg (by simp)]
  rcases parseChildren_sound h (.inl rfl) hr.tail with ⟨w, xs, r', rfl, hl, hok⟩ | herr
  · refine .inl ⟨0x5B :: w ++ [0x5D], .array xs, r', by simp, .array hl, ?_⟩
    rw [bind_of_ok hok]
    simp only [List.length_append, List.length_cons, List.length_nil, pure, Except.pure]
    rw [show o + 1 + w.length + 1 = o + (w.length + 1 + (0 + 1)) by omega]
  · exact .inr (by rw [herr]; rfl)

theorem parseArray_complete (h : Reads content V (d + 1) value) (hd : d < nestingLimit) {o : ℕ}
    {w r : Bytes} {items : List CJson} (hr : Rest content o (0x5B :: w ++ [0x5D] ++ r))
    (hl : Listed Blank V w items) : parseArray content value ⟨o, d⟩ =
      .ok (.array items, ⟨o + (0x5B :: w ++ [0x5D]).length, d⟩) := by
  simp only [List.append_assoc, List.cons_append, List.nil_append] at hr
  unfold parseArray
  rw [if_neg (by dsimp only; omega), bind_of_ok hr.byteAt_cons, if_neg (by simp),
    bind_of_ok (parseChildren_complete h (.inl rfl) hl hr.tail)]
  simp only [List.length_append, List.length_cons, List.length_nil, pure, Except.pure]
  rw [show o + 1 + w.length + 1 = o + (w.length + 1 + (0 + 1)) by omega]

theorem parseObject_sound (h : Reads content V (d + 1) value) (hd : d < nestingLimit) {o : ℕ} {r : Bytes}
    (hr : Rest content o (0x7B :: r)) :
    (∃ w item r', 0x7B :: r = w ++ r' ∧ Container cJSON V w item ∧
        parseObject content value ⟨o, d⟩ = .ok (item, ⟨o + w.length, d⟩)) ∨
      parseObject content value ⟨o, d⟩ = .error .refused := by
  unfold parseObject
  rw [if_neg (by dsimp only; omega), hr.sees_cons, if_neg (by simp)]
  rcases parseChildren_sound (reads_member h) (.inr rfl) hr.tail with ⟨w, xs, r', rfl, hl, hok⟩ | herr
  · refine .inl ⟨0x7B :: w ++ [0x7D], .object xs, r', by simp, .object hl, ?_⟩
    rw [bind_of_ok hok]
    simp only [List.length_append, List.length_cons, List.length_nil, pure, Except.pure]
    rw [show o + 1 + w.length + 1 = o + (w.length + 1 + (0 + 1)) by omega]
  · exact .inr (by rw [herr]; rfl)

theorem parseObject_complete (h : Reads content V (d + 1) value) (hd : d < nestingLimit) {o : ℕ}
    {w r : Bytes} {members : List (Bytes × CJson)} (hr : Rest content o (0x7B :: w ++ [0x7D] ++ r))
    (hl : Listed Blank (Member cJSON V) w members) : parseObject content value ⟨o, d⟩ =
      .ok (.object members, ⟨o + (0x7B :: w ++ [0x7D]).length, d⟩) := by
  simp only [List.append_assoc, List.cons_append, List.nil_append] at hr
  unfold parseObject
  rw [if_neg (by dsimp only; omega), hr.sees_cons, if_neg (by simp),
    bind_of_ok (parseChildren_complete (reads_member h) (.inr rfl) hl hr.tail)]
  simp only [List.length_append, List.length_cons, List.length_nil, pure, Except.pure]
  rw [show o + 1 + w.length + 1 = o + (w.length + 1 + (0 + 1)) by omega]

end

/-! ### Values -/

theorem parseValue_words {o d : ℕ} {r : Bytes} (h : Rest content o r) (n : ℕ) :
    (text "null" <+: r → parseValue content (n + 1) ⟨o, d⟩ = .ok (.null, ⟨o + 4, d⟩)) ∧
    (text "false" <+: r → parseValue content (n + 1) ⟨o, d⟩ = .ok (.bool false, ⟨o + 5, d⟩)) ∧
    (text "true" <+: r → parseValue content (n + 1) ⟨o, d⟩ = .ok (.bool true, ⟨o + 4, d⟩)) := by
  have hs {word : Bytes} (hw : 0 ∉ word) : (starts content ⟨o, d⟩ word = true) = (word <+: r) := by
    rw [h.starts_iff hw]
    exact propext ⟨fun ⟨t, ht⟩ => ⟨t, ht.symm⟩, fun ⟨t, ht⟩ => ⟨t, ht.symm⟩⟩
  have hne {c c' : UInt8} {s s' : Bytes} (hc : c ≠ c') (h : c :: s <+: r) : ¬ c' :: s' <+: r := by
    rintro ⟨t', ht'⟩
    obtain ⟨t, ht⟩ := h
    rw [← ht] at ht'
    exact hc (List.cons.inj ht').1.symm
  rw [parseValue]
  simp only [hs (show (0 : UInt8) ∉ text "null" by decide),
    hs (show (0 : UInt8) ∉ text "false" by decide), hs (show (0 : UInt8) ∉ text "true" by decide)]
  refine ⟨fun hp => if_pos hp, fun hp => ?_, fun hp => ?_⟩
  · have h1 : ¬ text "null" <+: r := hne (by decide) hp
    rw [if_neg h1, if_pos hp]
  · have h1 : ¬ text "null" <+: r := hne (by decide) hp
    have h2 : ¬ text "false" <+: r := hne (by decide) hp
    rw [if_neg h1, if_neg h2, if_pos hp]

theorem parseValue_cons {o d : ℕ} {c : UInt8} {t : Bytes} (h : Rest content o (c :: t)) (n : ℕ)
    (hn : ¬ text "null" <+: c :: t) (hf : ¬ text "false" <+: c :: t) (ht : ¬ text "true" <+: c :: t) :
    parseValue content (n + 1) ⟨o, d⟩ =
      if c = 0x22 then do
        let (valuestring, b) ← parseString content ⟨o, d⟩
        return (.string valuestring, b)
      else if c = 0x2D ∨ isDigit c then parseNumber content ⟨o, d⟩
      else if c = 0x5B then parseArray content (parseValue content n) ⟨o, d⟩
      else if c = 0x7B then parseObject content (parseValue content n) ⟨o, d⟩
      else .error .refused := by
  have hs {word : Bytes} (hw : 0 ∉ word) (hp : ¬ word <+: c :: t) :
      starts content ⟨o, d⟩ word = false := by
    rw [Bool.eq_false_iff, ne_eq, h.starts_iff hw]
    rintro ⟨s, hs⟩
    exact hp ⟨s, hs.symm⟩
  have hnum : (startsNumber content ⟨o, d⟩ = true) = (c = 0x2D ∨ isDigit c = true) := by
    rw [startsNumber, h.getElem?_cons]
    simp
  rw [parseValue, hs (by decide) hn, hs (by decide) hf, hs (by decide) ht]
  simp only [Bool.false_eq_true, if_false, h.sees_cons, hnum, beq_iff_eq]

theorem parseValue_nil {o d : ℕ} (h : Rest content o []) (n : ℕ) :
    parseValue content (n + 1) ⟨o, d⟩ = .error .refused := by
  have hs {word : Bytes} (hw : 0 ∉ word) (hp : word ≠ []) : starts content ⟨o, d⟩ word = false := by
    rw [Bool.eq_false_iff, ne_eq, h.starts_iff hw]
    rintro ⟨s, hs⟩
    exact hp (List.append_eq_nil_iff.mp hs.symm).1
  have hsee {c : UInt8} (hc : c ≠ 0) : sees content ⟨o, d⟩ c = false := by
    rw [Bool.eq_false_iff, ne_eq, h.sees_iff hc]
    rintro ⟨t, ht⟩
    cases ht
  have hnum : startsNumber content ⟨o, d⟩ = false := by
    rw [startsNumber, h.getElem?]
    rfl
  rw [parseValue, hs (by decide) (by decide), hs (by decide) (by decide), hs (by decide) (by decide),
    hsee (by decide), hsee (by decide), hsee (by decide), hnum]
  rfl

theorem scalar_opens {w : Bytes} {item : CJson} (h : Scalar cJSON w item) : Opens w := by
  cases h with
  | null => exact ⟨_, _, rfl, by decide⟩
  | false => exact ⟨_, _, rfl, by decide⟩
  | true => exact ⟨_, _, rfl, by decide⟩
  | string h => exact literal_opens h
  | number h =>
    obtain ⟨⟨c, s, rfl, hc⟩, -⟩ := h
    refine ⟨c, s, rfl, ?_⟩
    rcases hc with rfl | hc
    · decide
    · refine ⟨digit_range hc, ?_, ?_⟩ <;> rintro rfl <;> exact absurd hc (by decide)

theorem value_scalar {L : Lexis} {w : Bytes} {item : CJson} (h : Scalar L w item) (n : ℕ) :
    Value L n w item := by
  rcases n with _ | n
  · exact h
  · exact .inl h

theorem value_opens {n : ℕ} {w : Bytes} {item : CJson} (h : Value cJSON n w item) : Opens w := by
  have hscalar {w item} (h : Scalar cJSON w item) := scalar_opens h
  rcases n with _ | n
  · exact hscalar h
  · rcases h with h | h
    · exact hscalar h
    · cases h with
      | array => exact ⟨_, _, rfl, by decide⟩
      | object => exact ⟨_, _, rfl, by decide⟩

theorem parseValue_other {o d : ℕ} {c : UInt8} {t : Bytes} (h : Rest content o (c :: t)) (n : ℕ)
    (hc : c ≠ 0x6E ∧ c ≠ 0x66 ∧ c ≠ 0x74) : parseValue content (n + 1) ⟨o, d⟩ =
      if c = 0x22 then do
        let (valuestring, b) ← parseString content ⟨o, d⟩
        return (.string valuestring, b)
      else if c = 0x2D ∨ isDigit c then parseNumber content ⟨o, d⟩
      else if c = 0x5B then parseArray content (parseValue content n) ⟨o, d⟩
      else if c = 0x7B then parseObject content (parseValue content n) ⟨o, d⟩
      else .error .refused := by
  have hword {a : UInt8} {s : Bytes} (ha : c ≠ a) : ¬ a :: s <+: c :: t := fun hp =>
    ha (List.cons_prefix_cons.mp hp).1.symm
  exact parseValue_cons h n (hword hc.1) (hword hc.2.1) (hword hc.2.2)

theorem parseValue_string {o d : ℕ} {t : Bytes} (h : Rest content o (0x22 :: t)) (n : ℕ) :
    parseValue content (n + 1) ⟨o, d⟩ = do
      let (valuestring, b) ← parseString content ⟨o, d⟩
      return (.string valuestring, b) := by
  rw [parseValue_other h n (by decide), if_pos rfl]

theorem parseValue_number {o d : ℕ} {c : UInt8} {t : Bytes} (h : Rest content o (c :: t)) (n : ℕ)
    (hc : c = 0x2D ∨ isDigit c) : parseValue content (n + 1) ⟨o, d⟩ = parseNumber content ⟨o, d⟩ := by
  have hne {a : UInt8} (ha : ¬ (a = 0x2D ∨ isDigit a)) : c ≠ a := fun h => ha (h ▸ hc)
  rw [parseValue_other h n ⟨hne (by decide), hne (by decide), hne (by decide)⟩,
    if_neg (hne (by decide)), if_pos hc]

theorem parseValue_bracket {o d : ℕ} {t : Bytes} (h : Rest content o (0x5B :: t)) (n : ℕ) :
    parseValue content (n + 1) ⟨o, d⟩ = parseArray content (parseValue content n) ⟨o, d⟩ := by
  rw [parseValue_other h n (by decide), if_neg (by decide), if_neg (by decide),
    if_pos rfl]

theorem parseValue_brace {o d : ℕ} {t : Bytes} (h : Rest content o (0x7B :: t)) (n : ℕ) :
    parseValue content (n + 1) ⟨o, d⟩ = parseObject content (parseValue content n) ⟨o, d⟩ := by
  rw [parseValue_other h n (by decide), if_neg (by decide), if_neg (by decide),
    if_neg (by decide), if_pos rfl]

/-- `parse_value` takes a scalar that is there; a number wants its end after it. -/
theorem parseValue_scalar {o d : ℕ} {w r : Bytes} {item : CJson} (h : Rest content o (w ++ r))
    (hs : Scalar cJSON w item) (hr : StartsNumber w → Delimited r) (n : ℕ) :
    parseValue content (n + 1) ⟨o, d⟩ = .ok (item, ⟨o + w.length, d⟩) := by
  cases hs with
  | null => exact (parseValue_words h n).1 (List.prefix_append _ _)
  | false => exact (parseValue_words h n).2.1 (List.prefix_append _ _)
  | true => exact (parseValue_words h n).2.2 (List.prefix_append _ _)
  | string hl =>
    have hok := parseString_append (d := d) h hl
    obtain ⟨body, -, rfl, -⟩ := literal_cons hl
    rw [parseValue_string h, bind_of_ok hok]
    rfl
  | number h =>
    obtain ⟨hs, hn⟩ := h
    have hok := parseNumber_append (d := d) h hn (hr hs)
    obtain ⟨c, s, rfl, hc⟩ := hs
    rw [parseValue_number h n hc, hok]

section
variable {n d : ℕ} (hd : d + n = nestingLimit)
  (hin : ∀ m, n = m + 1 → Reads content (Value cJSON m) (d + 1) (parseValue content (m + 1)))
include hd hin

theorem parseValue_sound {o : ℕ} {r : Bytes} (hr : Rest content o r) :
    (∃ w item r', r = w ++ r' ∧ Value cJSON n w item ∧
        parseValue content (n + 1) ⟨o, d⟩ = .ok (item, ⟨o + w.length, d⟩)) ∨
      parseValue content (n + 1) ⟨o, d⟩ = .error .refused := by
  rcases r with _ | ⟨c, t⟩
  · exact .inr (parseValue_nil hr n)
  by_cases hn : text "null" <+: c :: t
  · obtain ⟨t', ht⟩ := hn
    exact .inl ⟨_, _, t', ht.symm, value_scalar .null n, (parseValue_words hr n).1 ⟨t', ht⟩⟩
  by_cases hf : text "false" <+: c :: t
  · obtain ⟨t', ht⟩ := hf
    exact .inl ⟨_, _, t', ht.symm, value_scalar .false n, (parseValue_words hr n).2.1 ⟨t', ht⟩⟩
  by_cases ht : text "true" <+: c :: t
  · obtain ⟨t', ht⟩ := ht
    exact .inl ⟨_, _, t', ht.symm, value_scalar .true n, (parseValue_words hr n).2.2 ⟨t', ht⟩⟩
  rw [parseValue_cons hr n hn hf ht]
  by_cases hq : c = 0x22
  · rw [if_pos hq]
    rcases parseString_spec (d := d) hr with ⟨w, s, r', hs, hl, hok⟩ | ⟨-, herr⟩
    · exact .inl ⟨w, _, r', hs, value_scalar (.string hl) n, by rw [hok]; rfl⟩
    · exact .inr (by rw [herr]; rfl)
  rw [if_neg hq]
  by_cases hnum : c = 0x2D ∨ isDigit c
  · rw [if_pos hnum]
    rcases parseNumber_spec (d := d) hr with ⟨w, v, r', hs, hw, -, hok⟩ | ⟨-, herr⟩
    · have hstart : StartsNumber w := by
        obtain ⟨a, w', rfl⟩ := List.exists_cons_of_ne_nil (number_ne_nil hw)
        cases hs
        exact ⟨_, _, rfl, hnum⟩
      exact .inl ⟨w, _, r', hs, value_scalar (L := cJSON) (.number ⟨hstart, hw⟩) n, hok⟩
    · exact .inr herr
  rw [if_neg hnum]
  rcases n with _ | m
  · have hlim : d ≥ nestingLimit := by omega
    have h1 : parseArray content (parseValue content 0) ⟨o, d⟩ = .error .refused := if_pos hlim
    have h2 : parseObject content (parseValue content 0) ⟨o, d⟩ = .error .refused := if_pos hlim
    rw [h1, h2]
    exact .inr (by split_ifs <;> rfl)
  have h := hin m rfl
  by_cases hb : c = 0x5B
  · subst hb
    rw [if_pos rfl]
    rcases parseArray_sound h (by omega) hr with ⟨w, item, r', hs, hw, hok⟩ | herr
    · exact .inl ⟨w, item, r', hs, .inr hw, hok⟩
    · exact .inr herr
  rw [if_neg hb]
  by_cases hb' : c = 0x7B
  · subst hb'
    rw [if_pos rfl]
    rcases parseObject_sound h (by omega) hr with ⟨w, item, r', hs, hw, hok⟩ | herr
    · exact .inl ⟨w, item, r', hs, .inr hw, hok⟩
    · exact .inr herr
  · exact .inr (if_neg hb')

theorem parseValue_complete {o : ℕ} {w r : Bytes} {item : CJson} (hr : Rest content o (w ++ r))
    (hv : Value cJSON n w item) (hdel : StartsNumber w → Delimited r) :
    parseValue content (n + 1) ⟨o, d⟩ = .ok (item, ⟨o + w.length, d⟩) := by
  rcases n with _ | m
  · exact parseValue_scalar hr hv hdel 0
  rcases hv with hs | hc
  · exact parseValue_scalar hr hs hdel _
  have h := hin m rfl
  cases hc with
  | array hl => exact (parseValue_bracket hr _).trans (parseArray_complete h (by omega) hr hl)
  | object hl => exact (parseValue_brace hr _).trans (parseObject_complete h (by omega) hr hl)

end

/-- At every depth the parser takes the values that fit in the levels left. -/
theorem reads_value (n : ℕ) : ∀ d, d + n = nestingLimit →
    Reads content (Value cJSON n) d (parseValue content (n + 1)) := by
  have hstep : ∀ n d, d + n = nestingLimit →
      (∀ m, n = m + 1 → Reads content (Value cJSON m) (d + 1) (parseValue content (m + 1))) →
      Reads content (Value cJSON n) d (parseValue content (n + 1)) := fun n d hd hin =>
    ⟨value_opens, parseValue_sound hd hin, fun hr hv hdel =>
      parseValue_complete hd hin hr hv fun _ => hdel⟩
  induction n with
  | zero => exact fun d hd => hstep 0 d hd (fun m hm => by cases hm)
  | succ n ih =>
    refine fun d hd => hstep (n + 1) d hd fun m hm => ?_
    cases hm
    exact ih (d + 1) (by omega)

/-! ### The longest value -/

theorem value_number {n : ℕ} {w : Bytes} {item : CJson} (h : Value cJSON n w item) (hs : StartsNumber w) :
    ∃ v, Number w v ∧ item = .number v := by
  obtain ⟨c, t, rfl, hc⟩ := hs
  have hne {a : UInt8} (ha : ¬ (a = 0x2D ∨ isDigit a)) : c ≠ a := fun h => ha (h ▸ hc)
  have hscalar (h : Scalar cJSON (c :: t) item) : ∃ v, Number (c :: t) v ∧ item = .number v := by
    generalize hw : c :: t = w at h
    cases h with
    | null => exact absurd (List.cons.inj hw).1 (hne (by decide))
    | false => exact absurd (List.cons.inj hw).1 (hne (by decide))
    | true => exact absurd (List.cons.inj hw).1 (hne (by decide))
    | string hl =>
      obtain ⟨body, -, rfl, -⟩ := literal_cons hl
      exact absurd (List.cons.inj hw).1 (hne (by decide))
    | number hn => exact ⟨_, hn.2, rfl⟩
  rcases n with _ | n
  · exact hscalar h
  · rcases h with h | h
    · exact hscalar h
    · generalize hw : c :: t = w at h
      cases h with
      | array => exact absurd (List.cons.inj hw).1 (hne (by decide))
      | object => exact absurd (List.cons.inj hw).1 (hne (by decide))

section
variable {n d : ℕ} (hd : d + n = nestingLimit)
include hd

private theorem parse_complete {o : ℕ} {w r : Bytes} {item : CJson} (hr : Rest content o (w ++ r))
    (hv : Value cJSON n w item) (hdel : StartsNumber w → Delimited r) :
    parseValue content (n + 1) ⟨o, d⟩ = .ok (item, ⟨o + w.length, d⟩) :=
  parseValue_complete hd (fun m hm => reads_value m (d + 1) (by omega)) hr hv hdel

/-- A value at the place is not longer than what the parser takes there. -/
theorem parseValue_longest {o e : ℕ} {w r : Bytes} {item item' : CJson} (hr : Rest content o (w ++ r))
    (hv : Value cJSON n w item) (hok : parseValue content (n + 1) ⟨o, d⟩ = .ok (item', ⟨e, d⟩)) :
    o + w.length ≤ e := by
  by_cases hs : StartsNumber w
  · obtain ⟨v, hw, -⟩ := value_number hv hs
    obtain ⟨c, t, rfl, hc⟩ := hs
    rw [List.cons_append] at hr
    rw [parseValue_number hr n hc] at hok
    rcases parseNumber_spec (d := d) hr with ⟨w', v', r', hs, hw', hmax, hok'⟩ | ⟨hno, -⟩
    · rw [hok] at hok'
      cases hok'
      exact Nat.add_le_add_left (hmax _ _ hw (List.prefix_append _ _)) o
    · exact absurd hw (hno _ _ (List.prefix_append _ _))
  · rw [parse_complete hd hr hv fun h => absurd h hs] at hok
    cases hok
    exact le_rfl

theorem parseValue_takes {o : ℕ} {w r : Bytes} {item : CJson} (hr : Rest content o (w ++ r))
    (hv : Value cJSON n w item) : ∃ w' item' r', w ++ r = w' ++ r' ∧ Value cJSON n w' item' ∧
      parseValue content (n + 1) ⟨o, d⟩ = .ok (item', ⟨o + w'.length, d⟩) := by
  by_cases hs : StartsNumber w
  · obtain ⟨v, hw, -⟩ := value_number hv hs
    obtain ⟨c, t, rfl, hc⟩ := hs
    rw [List.cons_append] at hr
    rcases parseNumber_spec (d := d) hr with ⟨w', v', r', hs, hw', hmax, hok⟩ | ⟨hno, -⟩
    · obtain ⟨a, w'', rfl⟩ := List.exists_cons_of_ne_nil (number_ne_nil hw')
      have hstart : StartsNumber (a :: w'') := ⟨_, _, rfl, (List.cons.inj hs).1 ▸ hc⟩
      exact ⟨_, _, r', hs, value_scalar (L := cJSON) (.number ⟨hstart, hw'⟩) n,
        (parseValue_number hr n hc).trans hok⟩
    · exact absurd hw (hno _ _ (List.prefix_append _ _))
  · exact ⟨w, item, r, rfl, hv, parse_complete hd hr hv fun h => absurd h hs⟩

end

theorem value_unique {n : ℕ} (hn : n ≤ nestingLimit) {w : Bytes} {item item' : CJson}
    (h : Value cJSON n w item) (h' : Value cJSON n w item') : item = item' := by
  have hd : nestingLimit - n + n = nestingLimit := by omega
  have hrest : Rest (w ++ [0]) 0 (w ++ []) := by simp [Rest]
  have hend : StartsNumber w → Delimited [] := fun _ c t ht => by cases ht
  have h1 := parse_complete hd hrest h hend
  rw [parse_complete hd hrest h' hend] at h1
  cases h1
  rfl

/-! ### The whole text -/

theorem skipUtf8Bom_rest (s : Bytes) : ∃ o, skipUtf8Bom (s ++ [0]) ⟨0, 0⟩ = .ok ⟨o, 0⟩ ∧
    Rest (s ++ [0]) o (withoutBom s) := by
  have hrest : Rest (s ++ [0]) 0 s := rfl
  have hs : (starts (s ++ [0]) ⟨0, 0⟩ [0xEF, 0xBB, 0xBF] = true) = ([0xEF, 0xBB, 0xBF] <+: s) := by
    rw [hrest.starts_iff (by decide)]
    exact propext ⟨fun ⟨t, ht⟩ => ⟨t, ht.symm⟩, fun ⟨t, ht⟩ => ⟨t, ht.symm⟩⟩
  unfold skipUtf8Bom withoutBom
  rw [if_neg (by simp)]
  simp only [hs, List.length_append, List.length_singleton]
  by_cases hb : [0xEF, 0xBB, 0xBF] <+: s ∧ 4 ≤ s.length
  · rw [if_pos ⟨by omega, hb.1⟩, if_pos hb]
    refine ⟨3, rfl, ?_⟩
    unfold Rest
    rw [List.drop_append_of_le_length (by omega)]
  · rw [if_neg (fun h => hb ⟨h.2, by omega⟩), if_neg hb]
    exact ⟨0, rfl, rfl⟩

/-- The parse up to the value: the byte order mark and the white space are passed. -/
theorem cJSON_ParseWithOpts_eq (value : Bytes) (requireNullTerminated : Bool) :
    ∃ o a r, withoutBom (cStr value) = a ++ r ∧ Blank a ∧ Visible r ∧ Rest (cStr value ++ [0]) o r ∧
      cJSON_ParseWithOpts value requireNullTerminated = do
        let (item, b) ← parseValue (cStr value ++ [0]) (nestingLimit + 1) ⟨o, 0⟩
        if requireNullTerminated then
          let b ← bufferSkipWhitespace (cStr value ++ [0]) b
          if sees (cStr value ++ [0]) b 0 then return item else .error .refused
        else return item := by
  obtain ⟨o, hbom, hrest⟩ := skipUtf8Bom_rest (cStr value)
  obtain ⟨hskip, hr⟩ := hrest.skip (d := 0)
  refine ⟨_, _, _, List.takeWhile_append_dropWhile.symm, blank_takeWhile _, visible_dropWhile _, hr, ?_⟩
  unfold cJSON_ParseWithOpts
  dsimp only
  rw [bind_of_ok hbom, bind_of_ok hskip]

/-- `cJSON_ParseWithOpts` ends on every text: nothing outside the text is read, nothing outside what was
allocated is written, and the bounds on the recursion and on the loops are enough. -/
theorem cJSON_ParseWithOpts_safe (value : Bytes) (requireNullTerminated : Bool) :
    (∃ item, cJSON_ParseWithOpts value requireNullTerminated = .ok item) ∨
      cJSON_ParseWithOpts value requireNullTerminated = .error .refused := by
  obtain ⟨o, a, r, -, -, -, hr, heq⟩ := cJSON_ParseWithOpts_eq value requireNullTerminated
  rw [heq]
  rcases (reads_value nestingLimit 0 (by omega)).sound hr with ⟨w, item, r', rfl, -, hok⟩ | herr
  swap
  · exact .inr (by rw [herr]; rfl)
  rw [bind_of_ok hok]
  dsimp only
  rcases requireNullTerminated with _ | _
  · exact .inl ⟨item, rfl⟩
  · obtain ⟨hskip, -⟩ := hr.append.skip (d := 0)
    rw [if_pos rfl, bind_of_ok hskip]
    split_ifs
    · exact .inl ⟨item, rfl⟩
    · exact .inr rfl

/-- `cJSON_Parse` gives an item exactly where the text starts with a value, and the item is what the
longest one means. -/
theorem cJSON_Parse_eq_some_iff (value : Bytes) (item : CJson) :
    cJSON_Parse value = some item ↔ Accepts (cStr value) item := by
  obtain ⟨o, a, r, htext, ha, hvis, hr, heq⟩ := cJSON_ParseWithOpts_eq value false
  have hd : 0 + nestingLimit = nestingLimit := by omega
  have hparse : cJSON_Parse value = some item ↔
      ∃ e, parseValue (cStr value ++ [0]) (nestingLimit + 1) ⟨o, 0⟩ = .ok (item, e) := by
    unfold cJSON_Parse
    rw [heq]
    rcases parseValue (cStr value ++ [0]) (nestingLimit + 1) ⟨o, 0⟩ with e | ⟨item', b⟩
    · simp [Except.toOption, bind, Except.bind]
    · simp [Except.toOption, bind, Except.bind, pure, Except.pure]
  rw [hparse]
  constructor
  · rintro ⟨e, hok⟩
    rcases (reads_value nestingLimit 0 hd).sound hr with ⟨w, item', r', rfl, hw, hok'⟩ | herr
    · rw [hok] at hok'
      cases hok'
      refine ⟨a, w, r', by rw [htext, List.append_assoc], ha, hw, fun w' item' hw' ⟨t, ht⟩ => ?_⟩
      rw [← ht] at hr
      have := parseValue_longest hd hr hw' hok
      omega
    · rw [hok] at herr
      cases herr
  · rintro ⟨a', w, r', htext', ha', hw, hmax⟩
    -- the white space in front of the value is what was passed
    rw [htext, List.append_assoc] at htext'
    have hvis' : Visible (w ++ r') := (value_opens hw).visible r'
    have hr' : r = w ++ r' := by
      rw [← (skip_blank ha hvis).2, htext', (skip_blank ha' hvis').2]
    subst hr'
    obtain ⟨w', item', r'', hs, hw', hok⟩ := parseValue_takes hd hr hw
    have h1 := parseValue_longest hd hr hw hok
    have h2 := hmax w' item' hw' ⟨r'', hs.symm⟩
    obtain ⟨rfl, -⟩ := List.append_inj hs (by omega)
    rw [value_unique le_rfl hw hw']
    exact ⟨_, hok⟩

end DnsMultiZone.Json.Values
