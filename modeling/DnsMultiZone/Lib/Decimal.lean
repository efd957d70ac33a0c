import Mathlib.Data.List.TakeWhile
import DnsMultiZone.Lib.BigEndian
import DnsMultiZone.Lib.Double

/-! # Decimal numerals

`strtod` of the C library on a text without white space, hexadecimal digits or names: a sign, digits with a
point among them, and an exponent. What it reads is the longest initial piece that is a numeral
(`strtod_eq_some_iff`), and the value is the `double` nearest to it.

`strtol` in base 10: white space, a sign and digits. It reads all of a text exactly if the text is an
integer (`strtol_all_iff`). -/

namespace DnsMultiZone.Lib.Decimal

open DnsMultiZone.Lib.BigEndian DnsMultiZone.Lib.Double

def isDigit (c : UInt8) : Bool := 0x30 ≤ c && c ≤ 0x39

/-- The number that digits spell. -/
def ofDigits (s : Bytes) : ℕ := s.foldl (fun n c => n * 10 + (c.toNat - 0x30)) 0

def signed (neg : Bool) (n : ℕ) : ℤ := if neg then -n else n

/-- The value of a numeral, before rounding: the digits before and after the point, and the exponent. -/
def value (neg : Bool) (whole frac : Bytes) (e : ℤ) : ℚ :=
  signed neg (ofDigits (whole ++ frac)) * 10 ^ (e - frac.length)

/-! ### Reading one -/

/-- A sign, if there is one. -/
def takeSign : Bytes → Bool × Bytes
  | 0x2D :: s => (true, s)
  | 0x2B :: s => (false, s)
  | s => (false, s)

/-- A point and the digits after it. -/
def takeFraction : Bytes → Bytes × Bytes
  | 0x2E :: s => (s.takeWhile isDigit, s.dropWhile isDigit)
  | s => ([], s)

/-- `e` or `E`, and the number after it; nothing is read where there is no number. -/
def takeExponent : Bytes → ℤ × Bytes
  | [] => (0, [])
  | c :: s =>
    let (neg, t) := takeSign s
    if (c = 0x65 ∨ c = 0x45) ∧ t.takeWhile isDigit ≠ [] then
      (signed neg (ofDigits (t.takeWhile isDigit)), t.dropWhile isDigit)
    else (0, c :: s)

/-- `strtod`: the number, and what is left of the text; nothing where no number starts. -/
def strtod (s : Bytes) : Option (ℚ × Bytes) :=
  let (neg, s) := takeSign s
  let whole := s.takeWhile isDigit
  let (frac, s) := takeFraction (s.dropWhile isDigit)
  if whole = [] ∧ frac = [] then none
  else
    let (e, s) := takeExponent s
    some (toDouble (value neg whole frac e), s)

/-! ### Numerals -/

/-- A sign, or none. -/
inductive Sign : Bytes → Bool → Prop
  | none : Sign [] false
  | plus : Sign [0x2B] false
  | minus : Sign [0x2D] true

/-- The digits before and after the point. -/
inductive Mantissa : Bytes → Bytes → Bytes → Prop
  | whole {w : Bytes} (hw : ∀ c ∈ w, isDigit c) (h : w ≠ []) : Mantissa w w []
  | point {w f : Bytes} (hw : ∀ c ∈ w, isDigit c) (hf : ∀ c ∈ f, isDigit c) (h : w ≠ [] ∨ f ≠ []) :
      Mantissa (w ++ 0x2E :: f) w f

/-- An exponent, or none. -/
inductive Exponent : Bytes → ℤ → Prop
  | none : Exponent [] 0
  | some {c : UInt8} {sg d : Bytes} {neg : Bool} (hc : c = 0x65 ∨ c = 0x45) (hs : Sign sg neg)
      (hd : ∀ c ∈ d, isDigit c) (h : d ≠ []) :
      Exponent (c :: sg ++ d) (signed neg (ofDigits d))

/-- `w` is a numeral whose exact value is `q`. -/
inductive Numeral : Bytes → ℚ → Prop
  | mk {sg m x whole frac : Bytes} {neg : Bool} {e : ℤ} (hs : Sign sg neg) (hm : Mantissa m whole frac)
      (hx : Exponent x e) : Numeral (sg ++ m ++ x) (value neg whole frac e)

/-! ### The pieces -/

private theorem not_digit {c : UInt8} (h : c = 0x2B ∨ c = 0x2D ∨ c = 0x2E ∨ c = 0x65 ∨ c = 0x45) :
    isDigit c = false := by
  rcases h with rfl | rfl | rfl | rfl | rfl <;> rfl

theorem takeSign_spec (s : Bytes) :
    ∃ sg, s = sg ++ (takeSign s).2 ∧ Sign sg (takeSign s).1 := by
  unfold takeSign
  split
  · exact ⟨_, rfl, .minus⟩
  · exact ⟨_, rfl, .plus⟩
  · exact ⟨[], rfl, .none⟩

/-- A text whose first byte is not a sign. -/
def Unsigned (s : Bytes) : Prop := ∀ c t, s = c :: t → c ≠ 0x2D ∧ c ≠ 0x2B

theorem takeSign_append {sg s : Bytes} {neg : Bool} (h : Sign sg neg) (hs : Unsigned s) :
    takeSign (sg ++ s) = (neg, s) := by
  cases h with
  | plus => rfl
  | minus => rfl
  | none =>
    rw [List.nil_append]
    unfold takeSign
    split
    · exact absurd rfl (hs _ _ rfl).1
    · exact absurd rfl (hs _ _ rfl).2
    · rfl

theorem unsigned_of_digit {c : UInt8} {s : Bytes} (h : isDigit c) : Unsigned (c :: s) := by
  rintro _ _ ⟨⟩
  constructor <;> rintro rfl <;> exact absurd h (by decide)

private theorem takeWhile_digits {d r : Bytes} (hd : ∀ c ∈ d, isDigit c) :
    (d ++ r).takeWhile isDigit = d ++ r.takeWhile isDigit ∧
      (d ++ r).dropWhile isDigit = r.dropWhile isDigit :=
  ⟨List.takeWhile_append_of_pos hd, List.dropWhile_append_of_pos hd⟩

theorem takeExponent_suffix (s : Bytes) : (takeExponent s).2 <:+ s := by
  rcases s with _ | ⟨c, s⟩
  · exact List.suffix_rfl
  obtain ⟨sg, hs, -⟩ := takeSign_spec s
  unfold takeExponent
  dsimp only
  split_ifs with h
  · refine (List.dropWhile_suffix _).trans ⟨c :: sg, ?_⟩
    rw [List.cons_append, ← hs]
  · exact List.suffix_rfl

theorem takeExponent_spec (s : Bytes) :
    ∃ x, s = x ++ (takeExponent s).2 ∧ Exponent x (takeExponent s).1 := by
  rcases s with _ | ⟨c, s⟩
  · exact ⟨[], rfl, .none⟩
  obtain ⟨sg, hs, hsg⟩ := takeSign_spec s
  unfold takeExponent
  dsimp only
  split_ifs with h
  · refine ⟨c :: sg ++ (takeSign s).2.takeWhile isDigit, ?_,
      .some h.1 hsg (fun c hc => List.mem_takeWhile_imp hc) h.2⟩
    rw [List.append_assoc, List.takeWhile_append_dropWhile, List.cons_append, ← hs]
  · exact ⟨[], rfl, .none⟩

theorem takeExponent_append {x : Bytes} {e : ℤ} (h : Exponent x e) (r : Bytes) :
    (takeExponent (x ++ r)).2 <:+ r ∧ (r = [] → (takeExponent (x ++ r)).1 = e) := by
  cases h with
  | none => exact ⟨takeExponent_suffix r, by rintro rfl; rfl⟩
  | @some c sg d neg hc hs hd hne =>
    obtain ⟨ht, hr⟩ := takeWhile_digits (r := r) hd
    have hsign : takeSign (sg ++ (d ++ r)) = (neg, d ++ r) := takeSign_append hs (by
      obtain ⟨a, d, rfl⟩ := List.exists_cons_of_ne_nil hne
      exact unsigned_of_digit (hd a List.mem_cons_self))
    have hread : takeExponent (c :: sg ++ d ++ r) =
        (signed neg (ofDigits (d ++ r.takeWhile isDigit)), r.dropWhile isDigit) := by
      rw [List.append_assoc, List.cons_append]
      unfold takeExponent
      simp only [hsign, ht, hr]
      rw [if_pos ⟨hc, by simp [hne]⟩]
    rw [hread]
    exact ⟨List.dropWhile_suffix _, by rintro rfl; simp⟩

theorem takeFraction_of_ne {s : Bytes} (h : ∀ t, s ≠ 0x2E :: t) : takeFraction s = ([], s) := by
  unfold takeFraction
  split
  next t => exact absurd rfl (h t)
  next => rfl

theorem takeFraction_suffix (s : Bytes) : (takeFraction s).2 <:+ s := by
  unfold takeFraction
  split
  · exact (List.dropWhile_suffix _).trans (List.suffix_cons _ _)
  · exact List.suffix_rfl

/-! ### The whole -/

theorem strtod_sound {s rest : Bytes} {q : ℚ} (h : strtod s = some (q, rest)) :
    ∃ w x, s = w ++ rest ∧ Numeral w x ∧ q = toDouble x := by
  obtain ⟨sg, hs, hsg⟩ := takeSign_spec s
  simp only [strtod] at h
  set s1 := (takeSign s).2 with hs1
  set whole := s1.takeWhile isDigit with hwhole
  set s2 := takeFraction (s1.dropWhile isDigit) with hs2
  have hdig : ∀ c ∈ whole, isDigit c := fun c hc => List.mem_takeWhile_imp hc
  split_ifs at h with hne
  obtain ⟨rfl, rfl⟩ := by simpa using h
  obtain ⟨x, hx, hexp⟩ := takeExponent_spec s2.2
  obtain ⟨m, hm, hman⟩ : ∃ m, s1 = m ++ s2.2 ∧ Mantissa m whole s2.1 := by
    have hsplit : whole ++ s1.dropWhile isDigit = s1 := List.takeWhile_append_dropWhile
    by_cases hp : ∃ t, s1.dropWhile isDigit = 0x2E :: t
    · obtain ⟨t, ht⟩ := hp
      have h2 : s2 = (t.takeWhile isDigit, t.dropWhile isDigit) := by rw [hs2, ht]; rfl
      rw [h2] at hne ⊢
      refine ⟨whole ++ 0x2E :: t.takeWhile isDigit, ?_,
        .point hdig (fun c hc => List.mem_takeWhile_imp hc) (not_and_or.mp hne)⟩
      rw [← hsplit, ht, List.append_assoc, List.cons_append, List.takeWhile_append_dropWhile]
    · have h2 : s2 = ([], s1.dropWhile isDigit) := by
        rw [hs2, takeFraction_of_ne fun t ht => hp ⟨t, ht⟩]
      rw [h2] at hne ⊢
      exact ⟨whole, hsplit.symm, .whole hdig fun hc => hne ⟨hc, rfl⟩⟩
  refine ⟨sg ++ m ++ x, _, ?_, .mk hsg hman hexp, rfl⟩
  rw [List.append_assoc, List.append_assoc, ← hx, ← hm, ← hs]

private theorem mantissa_unsigned {m whole frac : Bytes} (h : Mantissa m whole frac) (r : Bytes) :
    Unsigned (m ++ r) := by
  cases h with
  | whole hw h =>
    obtain ⟨a, d, rfl⟩ := List.exists_cons_of_ne_nil h
    exact unsigned_of_digit (hw a List.mem_cons_self)
  | point hw hf h =>
    rcases whole with _ | ⟨a, d⟩
    · rintro _ _ ⟨⟩
      decide
    · exact unsigned_of_digit (hw a List.mem_cons_self)

/-- What an exponent can start with, or the end. -/
private def Ends (r : Bytes) : Prop := r = [] ∨ ∃ c t, r = c :: t ∧ (c = 0x65 ∨ c = 0x45)

private theorem ends_digits {r : Bytes} (h : Ends r) :
    r.takeWhile isDigit = [] ∧ r.dropWhile isDigit = r ∧ takeFraction r = ([], r) := by
  rcases h with rfl | ⟨c, t, rfl, hc⟩
  · exact ⟨rfl, rfl, rfl⟩
  · have hn := not_digit (Or.inr (Or.inr (Or.inr hc)))
    refine ⟨List.takeWhile_cons_of_neg (by simp [hn]), List.dropWhile_cons_of_neg (by simp [hn]), ?_⟩
    exact takeFraction_of_ne fun t' ht => by
      cases ht
      exact absurd hc (by decide)

/-- The digits and the point of a numeral are read; if nothing follows them no more is. -/
private theorem mantissa_append {m whole frac : Bytes} (h : Mantissa m whole frac) (r : Bytes) :
    ∃ whole' frac' rest, (m ++ r).takeWhile isDigit = whole' ∧
      takeFraction ((m ++ r).dropWhile isDigit) = (frac', rest) ∧ ¬ (whole' = [] ∧ frac' = []) ∧
      rest <:+ r ∧ (Ends r → whole' = whole ∧ frac' = frac ∧ rest = r) := by
  cases h with
  | whole hw h =>
    obtain ⟨h1, h2⟩ := takeWhile_digits (r := r) hw
    refine ⟨_, _, _, h1, by rw [h2], by simp [h], ?_, fun he => ?_⟩
    · exact (takeFraction_suffix _).trans (List.dropWhile_suffix _)
    · obtain ⟨h3, h4, h5⟩ := ends_digits he
      rw [h3, h4, h5, List.append_nil]
      exact ⟨rfl, rfl, rfl⟩
  | point hw hf h =>
    have hp : ¬ isDigit 0x2E = true := by decide
    obtain ⟨h1, h2⟩ := takeWhile_digits (r := 0x2E :: (frac ++ r)) hw
    obtain ⟨h3, h4⟩ := takeWhile_digits (r := r) hf
    rw [List.takeWhile_cons_of_neg hp, List.append_nil] at h1
    rw [List.dropWhile_cons_of_neg hp] at h2
    rw [List.append_assoc, List.cons_append]
    refine ⟨whole, frac ++ r.takeWhile isDigit, r.dropWhile isDigit, h1, ?_, ?_,
      List.dropWhile_suffix _, fun he => ?_⟩
    · rw [h2, ← h3, ← h4]
      rfl
    · rintro ⟨rfl, hf'⟩
      rcases h with h | h
      · exact h rfl
      · exact h (List.append_eq_nil_iff.mp hf').1
    · obtain ⟨h5, h6, -⟩ := ends_digits he
      rw [h5, h6, List.append_nil]
      exact ⟨rfl, rfl, rfl⟩

theorem strtod_append {w : Bytes} {x : ℚ} (h : Numeral w x) (r : Bytes) :
    ∃ q rest, strtod (w ++ r) = some (q, rest) ∧ rest <:+ r ∧ (r = [] → q = toDouble x) := by
  obtain ⟨hs, hm, hx⟩ := h
  rename_i sg m x whole frac neg e
  have hsign := takeSign_append hs (mantissa_unsigned hm (x ++ r))
  obtain ⟨whole', frac', rest, h1, h2, hne, hsuf, hend⟩ := mantissa_append hm (x ++ r)
  have hread : strtod (sg ++ m ++ x ++ r) =
      some (toDouble (value neg whole' frac' (takeExponent rest).1), (takeExponent rest).2) := by
    simp only [List.append_assoc, strtod, hsign, h1, h2]
    rw [if_neg hne]
  refine ⟨_, _, hread, ?_, ?_⟩
  · rcases hx with _ | ⟨hc, hsg, hd, hdn⟩
    · exact (takeExponent_suffix _).trans hsuf
    · obtain ⟨-, -, rfl⟩ := hend (.inr ⟨_, _, rfl, hc⟩)
      exact (takeExponent_append (.some hc hsg hd hdn) r).1
  · rintro rfl
    have he : Ends (x ++ []) := by
      rcases hx with _ | ⟨hc, -, -, -⟩
      · exact .inl rfl
      · exact .inr ⟨_, _, rfl, hc⟩
    obtain ⟨rfl, rfl, rfl⟩ := hend he
    rw [(takeExponent_append hx []).2 rfl]

/-- What `strtod` reads is the longest initial piece that is a numeral. -/
theorem strtod_eq_some_iff {s rest : Bytes} {q : ℚ} : strtod s = some (q, rest) ↔
    ∃ w x, s = w ++ rest ∧ Numeral w x ∧ q = toDouble x ∧
      ∀ w' x', Numeral w' x' → w' <+: s → w'.length ≤ w.length := by
  constructor
  · intro h
    obtain ⟨w, x, hs, hn, hq⟩ := strtod_sound h
    refine ⟨w, x, hs, hn, hq, fun w' x' hn' ⟨r, hr⟩ => ?_⟩
    obtain ⟨_, _, h', hsuf, -⟩ := strtod_append hn' r
    rw [hr, h] at h'
    cases h'
    have h1 := congrArg List.length hs
    have h2 := congrArg List.length hr
    rw [List.length_append] at h1 h2
    have h3 := hsuf.length_le
    omega
  · rintro ⟨w, x, rfl, hn, rfl, hmax⟩
    obtain ⟨q, rest', h, hsuf, -⟩ := strtod_append hn rest
    obtain ⟨w', x', hs, hn', hq⟩ := strtod_sound h
    have h1 := hmax w' x' hn' ⟨rest', hs.symm⟩
    have h2 := congrArg List.length hs
    rw [List.length_append, List.length_append] at h2
    have h3 : rest' = rest := hsuf.eq_of_length (by have := hsuf.length_le; omega)
    subst h3
    obtain rfl := List.append_cancel_right hs
    obtain ⟨q', _, h', -, hq'⟩ := strtod_append hn []
    obtain ⟨q'', _, h'', -, hq''⟩ := strtod_append hn' []
    rw [h'] at h''
    cases h''
    rw [h, hq, ← hq'' rfl, hq' rfl]

/-! ### Integers -/

section
variable (space : UInt8 → Bool) (lo hi : ℤ)

/-- `strtol` in base 10: the number, between the limits, and what is left of the text. Where no number
starts, all of it is left. -/
def strtol (s : Bytes) : ℤ × Bytes :=
  let (neg, t) := takeSign (s.dropWhile space)
  if t.takeWhile isDigit = [] then (0, s)
  else (max lo (min hi (signed neg (ofDigits (t.takeWhile isDigit)))), t.dropWhile isDigit)

/-- An integer, with white space before it. -/
inductive Integer : Bytes → ℤ → Prop
  | mk {a sg d : Bytes} {neg : Bool} (ha : ∀ c ∈ a, space c) (hs : Sign sg neg)
      (hd : ∀ c ∈ d, isDigit c) (hne : d ≠ []) : Integer (a ++ sg ++ d) (signed neg (ofDigits d))

variable {space} {lo hi}

theorem Integer.ne_nil {s : Bytes} {n : ℤ} (h : Integer space s n) : s ≠ [] := by
  cases h with
  | mk ha hs hd hne => exact fun h0 => hne (List.append_eq_nil_iff.mp h0).2

theorem strtol_integer {s : Bytes} {n : ℤ} (hspace : ∀ c, space c → c ≠ 0x2D ∧ c ≠ 0x2B ∧ ¬ isDigit c)
    (h : Integer space s n) : strtol space lo hi s = (max lo (min hi n), []) := by
  cases h with
  | @mk a sg d neg ha hs hd hne =>
    obtain ⟨c, t, rfl⟩ := List.exists_cons_of_ne_nil hne
    have hc := hd c List.mem_cons_self
    obtain ⟨h1, h2⟩ := takeWhile_digits (r := []) hd
    rw [List.append_nil] at h1 h2
    have hdrop : (sg ++ c :: t).dropWhile space = sg ++ c :: t := by
      cases hs with
      | none => exact List.dropWhile_cons_of_neg fun hsp => (hspace c hsp).2.2 hc
      | plus => exact List.dropWhile_cons_of_neg fun hsp => (hspace _ hsp).2.1 rfl
      | minus => exact List.dropWhile_cons_of_neg fun hsp => (hspace _ hsp).1 rfl
    unfold strtol
    rw [List.append_assoc, List.dropWhile_append_of_pos ha, hdrop,
      takeSign_append hs (unsigned_of_digit hc)]
    dsimp only
    rw [h1, h2, List.takeWhile_nil, List.append_nil, if_neg hne]
    rfl

theorem strtol_all_iff {s : Bytes} {n : ℤ} (hspace : ∀ c, space c → c ≠ 0x2D ∧ c ≠ 0x2B ∧ ¬ isDigit c)
    (hne : s ≠ []) :
    strtol space lo hi s = (n, []) ↔ ∃ v, Integer space s v ∧ n = max lo (min hi v) := by
  constructor
  · intro h
    obtain ⟨sg, hs, hsg⟩ := takeSign_spec (s.dropWhile space)
    unfold strtol at h
    dsimp only at h
    split_ifs at h with hd
    · exact absurd (Prod.ext_iff.mp h).2 hne
    · obtain ⟨hn, hrest⟩ := Prod.ext_iff.mp h
      have hall := List.takeWhile_append_dropWhile (p := isDigit) (l := (takeSign (s.dropWhile space)).2)
      rw [show List.dropWhile isDigit _ = [] from hrest, List.append_nil] at hall
      refine ⟨_, ?_, hn.symm⟩
      have hi : Integer space (s.takeWhile space ++ sg ++ (takeSign (s.dropWhile space)).2.takeWhile isDigit)
          _ := .mk (fun c hc => List.mem_takeWhile_imp hc) hsg (fun c hc => List.mem_takeWhile_imp hc) hd
      rwa [hall, List.append_assoc, ← hs, List.takeWhile_append_dropWhile, ← hall] at hi
  · rintro ⟨v, hv, rfl⟩
    exact strtol_integer hspace hv

end

end DnsMultiZone.Lib.Decimal
