import DnsMultiZone.Rfc1035.Judge

/-! # Pointers after rewriting

`CopyName` takes `d`, the bytes removed before a pointer's target, off the target. The comment of the
source relies on pointers that go back: what lies before the removed bytes does not move. A pointer can
go back and still target a removed parameter. Inside of one, the whole parameter is counted into `d`,
which can then exceed the target; and from the start of one, if everything up to the pointer is removed
with it, the pointer targets itself in the output.

* `pointerCopies`: the pointers that `CopyName` meets on the way of `DropAddress` over a message.
* `placed_of_recordsCopies`: at every pointer, the removed pieces lie one after another before it, and its
  copy is as far back as they are long.
* `backward_iff`: when all of the pointers stay backward. -/

namespace DnsMultiZone.Rfc1035.Pointers

open DnsMultiZone.Lib.BigEndian DnsMultiZone.Lib.Results DnsMultiZone.Lib.Relocate
open DnsMultiZone.Rfc1035.Reader DnsMultiZone.Rfc1035.Parse DnsMultiZone.Rfc1035.Drop
open DnsMultiZone.Rfc1035.Append DnsMultiZone.Rfc1035.Question DnsMultiZone.Rfc1035.Wire
open DnsMultiZone.Rfc1035.Judge

/-! ### The pointers that are copied -/

/-- The pointer that ends the name at `p`, as `CopyName` walks: its offset and its target. -/
def pointerAt (s : Bytes) (p : ℕ) : Option (ℕ × ℕ) :=
  if h : p < s.length then
    if s[p] = 0 then none
    else if s[p] &&& 0xC0 = 0xC0 then
      match readU16 s p with
      | .ok w => some (p, w &&& 0x3FFF)
      | .error _ => none
    else if s[p] &&& 0xC0 ≠ 0 ∨ p + 1 + s[p].toNat > s.length then none
    else pointerAt s (p + 1 + s[p].toNat)
  else none
termination_by s.length - p
decreasing_by omega

/-- A pointer that `CopyName` meets: where it is and what it targets, the pieces removed so far, and the
place of its copy in the output. An owner name is copied a first time only to find the type; that copy has
no place. -/
structure Copy where
  own : ℕ
  target : ℕ
  vRemoved : List (ℕ × ℕ)
  place : Option ℕ
  deriving DecidableEq

/-- The pointer of the name at `p`, which is copied to `o`. -/
def copiesAt (s : Bytes) (p : ℕ) (v : List (ℕ × ℕ)) (o : Option ℕ) : List Copy :=
  match pointerAt s p with
  | none => []
  | some (own, t) => [⟨own, t, v, o.map (· + (own - p))⟩]

/-- The pointers of one record: that of its owner name, met twice, and for a record of the asked type that
of its TargetName. After a removal a record of another type is only looked at. -/
def recordCopies (s : Bytes) (uQType : ℕ) (c : Cursor) : List Copy :=
  copiesAt s c.p c.vRemoved none ++
    match copyName s c.p [] c.vRemoved with
    | .ok (true, q, _) =>
      match readU16 s q, readU16 s (q + 8) with
      | .ok uType, .ok len =>
        if uType ≠ uQType then
          if c.vRemoved.length > 0 then [] else copiesAt s c.p c.vRemoved (some c.sOut.length)
        else copiesAt s c.p c.vRemoved (some c.sOut.length) ++
          if q + 10 + len > s.length ∨ len < 2 then []
          else copiesAt s (q + 12) c.vRemoved (some (c.sOut.length + (q - c.p) + 12))
      | _, _ => []
    | _ => []

/-- The pointers of the `n` records left. -/
def recordsCopies (s : Bytes) (uQType : ℕ) (v4 v6 : Bool) : ℕ → Cursor → List Copy
  | 0, _ => []
  | n + 1, c => recordCopies s uQType c ++
    match dropRecord s uQType v4 v6 c with
    | .ok (some c') => recordsCopies s uQType v4 v6 n c'
    | _ => []

/-- **The pointers that `DropAddress` copies.** -/
def pointerCopies (s : Bytes) (uQType : ℕ) (v4 v6 : Bool) : List Copy :=
  if uQType = typeSVCB ∨ uQType = typeHTTPS then
    match questionEnd s with
    | .ok (p, n) => recordsCopies s uQType v4 v6 n ⟨p, s.take p, []⟩
    | .error _ => []
  else []

/-! ### Where the rewriter stands -/

/-- **The cursor**: the removed pieces lie one after another in the message, from `a` to where it is read,
and the output is that much shorter. -/
structure Kept (a : ℕ) (c : Cursor) : Prop where
  order : InOrder a c.vRemoved c.p
  shift : c.sOut.length + (c.vRemoved.map Prod.snd).sum = c.p

variable {s out : Bytes} {uQType a : ℕ} {v4 v6 : Bool} {c c' : Cursor} {k : Copy}

theorem Kept.advance (h : Kept a c) {p : ℕ} {y : Bytes} (hy : c.p + y.length = p) :
    Kept a ⟨p, c.sOut ++ y, c.vRemoved⟩ := by
  have hs := h.shift
  refine ⟨h.order.mono ?_, ?_⟩
  · dsimp only
    omega
  · rw [List.length_append]
    dsimp only
    omega

theorem Kept.remove (h : Kept a c) (n : ℕ) :
    Kept a ⟨c.p + n, c.sOut, c.vRemoved ++ [(c.p, n)]⟩ := by
  have hs := h.shift
  refine ⟨h.order.snoc n, ?_⟩
  rw [List.map_append, List.sum_append]
  simp
  omega

theorem Kept.setOut (h : Kept a c) {x : Bytes} (hx : x.length = c.sOut.length) :
    Kept a ⟨c.p, x, c.vRemoved⟩ := ⟨h.order, by dsimp only; rw [hx]; exact h.shift⟩

theorem Kept.copyName (h : Kept a c) {x : Bytes} {q : ℕ} {ok : Bool}
    (hn : copyName s c.p c.sOut c.vRemoved = .ok (ok, q, x)) : Kept a ⟨q, x, c.vRemoved⟩ := by
  obtain ⟨hle, y, rfl, hy⟩ := copyName_ok hn
  exact h.advance (by omega)

theorem Kept.dropParams {stop : ℕ} (hd : dropParams s v4 v6 stop c = .ok c') (h : Kept a c) :
    Kept a c' := by
  fun_induction Drop.dropParams s v4 v6 stop c with
  | case1 => cases hd
  | case2 c hp h4 ihd ihk =>
    obtain ⟨uKey, -, hd⟩ := ok_of_bind hd
    obtain ⟨len, -, hd⟩ := ok_of_bind hd
    dsimp only at hd
    split_ifs at hd with hv hdrop
    · exact ihd len hv hd (h.remove _)
    · obtain ⟨x, hx, hd⟩ := ok_of_bind hd
      exact ihk len hv x hd (h.advance (by rw [length_of_substr hx]))
  | case3 c hp =>
    cases hd
    exact h

theorem Kept.dropSvcData {stop : ℕ} (h : Kept a c) (hd : dropSvcData s v4 v6 stop c = .ok c') :
    Kept a c' := by
  obtain ⟨prio, q, x, -, hprio, hn, -, hd⟩ := dropSvcData_steps hd
  have hp : Kept a ⟨c.p + 2, c.sOut ++ prio, c.vRemoved⟩ :=
    h.advance (by rw [length_of_substr hprio])
  exact Kept.dropParams hd (hp.copyName hn)

theorem Kept.dropData {t stop : ℕ} (h : Kept a c) (hle : c.p ≤ stop)
    (hd : dropData s t uQType v4 v6 stop c = .ok c') : Kept a c' := by
  unfold Drop.dropData at hd
  split_ifs at hd with ht
  · obtain ⟨rdata, hr, hd⟩ := ok_of_bind hd
    cases hd
    exact h.advance (by rw [length_of_substr hr]; omega)
  · exact h.dropSvcData hd

/-- **One record** keeps it so. -/
theorem Kept.dropRecord (h : Kept a c) (hd : dropRecord s uQType v4 v6 c = .ok (some c')) :
    Kept a c' := by
  obtain ⟨q, x, uType, hn, -, hd⟩ := dropRecord_steps hd
  obtain ⟨len, fixed, c₁, sOut, -, -, hfix, hc₁, hw, rfl⟩ := copyRecord_steps (copyName_of_nil hn) hd
  have hname := h.copyName (copyName_of_nil hn)
  have hfixed : Kept a ⟨q + 10, c.sOut ++ x ++ (fixed ++ [0, 0]), c.vRemoved⟩ :=
    hname.advance (by simp [length_of_substr hfix])
  rw [← List.append_assoc] at hfixed
  have hdata := hfixed.dropData (Nat.le_add_right _ _) hc₁
  have hp : c₁.p = q + 10 + len := (dropData_ok hc₁ (Nat.le_add_right _ _)).2
  have hset := hdata.setOut (length_of_writeU16 hw)
  rwa [hp] at hset

theorem le_of_pointerAt {p own t : ℕ} (h : pointerAt s p = some (own, t)) :
    p ≤ own ∧ t < 0x4000 := by
  fun_induction pointerAt s p with
  | case1 => cases h
  | case2 p hp h0 hc w hw =>
    obtain ⟨rfl, rfl⟩ := Prod.mk.inj (Option.some.inj h)
    rw [show 0x3FFF = 2 ^ 14 - 1 by rfl, Nat.and_two_pow_sub_one_eq_mod]
    exact ⟨le_rfl, Nat.mod_lt _ (by norm_num)⟩
  | case3 => cases h
  | case4 => cases h
  | case5 p hp h0 hc hbad ih =>
    obtain ⟨hle, ht⟩ := ih h
    exact ⟨by omega, ht⟩
  | case6 => cases h

/-- A pointer behind the pieces that were removed before it, and its copy. -/
structure Placed (a : ℕ) (k : Copy) : Prop where
  order : InOrder a k.vRemoved k.own
  shift : ∀ o ∈ k.place, o + (k.vRemoved.map Prod.snd).sum = k.own
  target_lt : k.target < 0x4000

theorem copy_of_copiesAt {p : ℕ} {v : List (ℕ × ℕ)} {o : Option ℕ} (hk : k ∈ copiesAt s p v o) :
    pointerAt s p = some (k.own, k.target) ∧ k.vRemoved = v ∧ k.place = o.map (· + (k.own - p)) := by
  unfold copiesAt at hk
  rcases hptr : pointerAt s p with _ | ⟨own, t⟩ <;> rw [hptr] at hk
  · cases hk
  · obtain rfl := List.mem_singleton.mp hk
    exact ⟨rfl, rfl, rfl⟩

/-- The pointer of a name at `p`, copied to where the output is when `p` is reached. -/
theorem placed_of_copiesAt {p : ℕ} {v : List (ℕ × ℕ)} {o : Option ℕ} (hk : k ∈ copiesAt s p v o)
    (horder : InOrder a v p) (hshift : ∀ i ∈ o, i + (v.map Prod.snd).sum = p) : Placed a k := by
  obtain ⟨hptr, hv, hplace⟩ := copy_of_copiesAt hk
  obtain ⟨hle, ht⟩ := le_of_pointerAt hptr
  refine ⟨hv ▸ horder.mono hle, fun i hi => ?_, ht⟩
  rw [hplace] at hi
  obtain ⟨i', hi', rfl⟩ := Option.map_eq_some_iff.mp hi
  have hs := hshift i' hi'
  rw [hv]
  omega

theorem mem_recordCopies (hk : k ∈ recordCopies s uQType c) :
    k ∈ copiesAt s c.p c.vRemoved none ∨ ∃ q x uType len,
      copyName s c.p [] c.vRemoved = .ok (true, q, x) ∧ readU16 s q = .ok uType ∧
      readU16 s (q + 8) = .ok len ∧ ¬ (uType ≠ uQType ∧ c.vRemoved.length > 0) ∧
      (k ∈ copiesAt s c.p c.vRemoved (some c.sOut.length) ∨ (uType = uQType ∧
        k ∈ copiesAt s (q + 12) c.vRemoved (some (c.sOut.length + (q - c.p) + 12)))) := by
  unfold recordCopies at hk
  rcases List.mem_append.mp hk with hk | hk
  · exact Or.inl hk
  rcases hn : copyName s c.p [] c.vRemoved with _ | ⟨_ | _, q, x⟩ <;> simp only [hn] at hk
  · cases hk
  · cases hk
  rcases ht : readU16 s q with _ | uType <;> simp only [ht] at hk
  · cases hk
  rcases hl : readU16 s (q + 8) with _ | len <;> simp only [hl] at hk
  · cases hk
  refine Or.inr ⟨q, x, uType, len, rfl, ht, hl, ?_⟩
  by_cases hty : uType = uQType
  · rw [if_neg (not_not.mpr hty)] at hk
    refine ⟨fun hstop => hstop.1 hty, ?_⟩
    rcases List.mem_append.mp hk with hk | hk
    · exact Or.inl hk
    · split_ifs at hk with hbad
      · cases hk
      · exact Or.inr ⟨hty, hk⟩
  · rw [if_pos hty] at hk
    split_ifs at hk with hv
    · cases hk
    · exact ⟨fun hstop => hv hstop.2, Or.inl hk⟩

theorem placed_of_recordCopies (h : Kept a c) (hk : k ∈ recordCopies s uQType c) : Placed a k := by
  have hs := h.shift
  rcases mem_recordCopies hk with hk | ⟨q, x, uType, len, hn, -, -, -, hk | ⟨-, hk⟩⟩
  · exact placed_of_copiesAt hk h.order fun i hi => by cases hi
  · refine placed_of_copiesAt hk h.order fun i hi => ?_
    obtain rfl := Option.some.inj hi
    exact hs
  · have hle := (copyName_ok hn).1
    refine placed_of_copiesAt hk (h.order.mono (by omega)) fun i hi => ?_
    obtain rfl := Option.some.inj hi
    omega

/-- **At every pointer** of the records left. -/
theorem placed_of_recordsCopies {n : ℕ} (h : Kept a c) (hk : k ∈ recordsCopies s uQType v4 v6 n c) :
    Placed a k := by
  induction n generalizing c with
  | zero => cases hk
  | succ n ih =>
    rw [recordsCopies] at hk
    rcases List.mem_append.mp hk with hk | hk
    · exact placed_of_recordCopies h hk
    · rcases hd : dropRecord s uQType v4 v6 c with _ | _ | c' <;> simp only [hd] at hk
      · cases hk
      · cases hk
      · exact ih (h.dropRecord hd) hk

/-! ### What is written -/

theorem pointer_of_copyName {sOut x : Bytes} {p q own t : ℕ} {v : List (ℕ × ℕ)} {ok : Bool}
    (h : copyName s p sOut v = .ok (ok, q, x)) (hptr : pointerAt s p = some (own, t)) :
    ∃ y, x = sOut ++ y ++ pointerBytes (subSize t (removedBefore v t)) ∧ y.length = own - p := by
  fun_induction copyName s p sOut v with
  | case1 p sOut hp h0 =>
    rw [pointerAt, dif_pos hp, if_pos h0] at hptr
    cases hptr
  | case2 p sOut hp h0 hc hlen =>
    rw [pointerAt, dif_pos hp, if_neg h0, if_pos hc] at hptr
    rcases hw : readU16 s p with _ | w <;> rw [hw] at hptr
    · cases hptr
    · have hle := (readU16_ok hw).1
      omega
  | case3 p sOut hp h0 hc hlen =>
    obtain ⟨w, hw, h⟩ := ok_of_bind h
    rw [pointerAt, dif_pos hp, if_neg h0, if_pos hc, hw] at hptr
    obtain ⟨rfl, rfl⟩ := Prod.mk.inj (Option.some.inj hptr)
    cases h
    exact ⟨[], by rw [List.append_nil], by simp⟩
  | case4 p sOut hp h0 hc hbad =>
    rw [pointerAt, dif_pos hp, if_neg h0, if_neg hc, if_pos hbad] at hptr
    cases hptr
  | case5 p sOut hp h0 hc hbad ih =>
    rw [pointerAt, dif_pos hp, if_neg h0, if_neg hc, if_neg hbad] at hptr
    obtain ⟨label, hl, h⟩ := ok_of_bind h
    obtain ⟨y, rfl, hy⟩ := ih label h hptr
    have hle := (le_of_pointerAt hptr).1
    refine ⟨label ++ y, by simp only [List.append_assoc], ?_⟩
    rw [List.length_append, length_of_substr hl, hy]
    omega
  | case6 p sOut hp =>
    rw [pointerAt, dif_neg hp] at hptr
    cases hptr

/-- **The copy of a pointer** stands in the output at its place. -/
def Written (k : Copy) (out : Bytes) : Prop := ∀ o ∈ k.place, ∃ y z,
  out = y ++ pointerBytes (subSize k.target (removedBefore k.vRemoved k.target)) ++ z ∧ y.length = o

theorem Written.append (h : Written k out) (x : Bytes) : Written k (out ++ x) := by
  intro o ho
  obtain ⟨y, z, rfl, hy⟩ := h o ho
  exact ⟨y, z ++ x, by simp only [List.append_assoc], hy⟩

theorem written_of_copiesAt {x sOut : Bytes} {p q : ℕ} {ok : Bool} {v : List (ℕ × ℕ)}
    (hk : k ∈ copiesAt s p v (some sOut.length)) (hn : copyName s p sOut v = .ok (ok, q, x)) :
    Written k x := by
  obtain ⟨hptr, rfl, hplace⟩ := copy_of_copiesAt hk
  obtain ⟨y, rfl, hy⟩ := pointer_of_copyName hn hptr
  intro o ho
  rw [hplace] at ho
  obtain rfl := Option.some.inj ho
  exact ⟨sOut ++ y, [], (List.append_nil _).symm, by rw [List.length_append, hy]⟩

theorem Written.writeU16 {x z sOut : Bytes} {n : ℕ} (h : Written k (x ++ [0, 0] ++ z))
    (hi : ∀ o ∈ k.place, x.length + 2 ≤ o)
    (hw : writeU16 (x ++ [0, 0] ++ z) x.length n = .ok sOut) : Written k sOut := by
  rw [writeU16_append] at hw
  cases hw
  intro o ho
  obtain ⟨y, w, heq, hy⟩ := h o ho
  have hle := hi o ho
  obtain ⟨y', rfl⟩ : ∃ y', y = x ++ [0, 0] ++ y' := by
    refine ⟨y.drop (x.length + 2), ?_⟩
    have htake := congrArg (List.take (x.length + 2)) heq
    rw [List.take_left' (by simp), List.append_assoc, List.take_append_of_le_length (by omega)] at htake
    rw [htake, List.take_append_drop]
  simp only [List.append_assoc, List.append_cancel_left_eq] at heq
  refine ⟨x ++ be16 n ++ y', w, ?_, ?_⟩
  · rw [heq]
    simp only [List.append_assoc]
  · rw [← hy]
    simp only [List.length_append, length_be16, List.length_cons, List.length_nil]

/-- **The pointers of a record** that is written. -/
theorem written_of_dropRecord (hk : k ∈ recordCopies s uQType c)
    (hd : dropRecord s uQType v4 v6 c = .ok (some c')) : Written k c'.sOut := by
  obtain ⟨q, x, uType, hn, ht, hd⟩ := dropRecord_steps hd
  have hn' := @copyName_of_nil s c.sOut x c.p q c.vRemoved true hn
  obtain ⟨len, fixed, c₁, sOut, -, -, hfix, hc₁, hw, rfl⟩ := copyRecord_steps hn' hd
  have hfl := length_of_substr hfix
  obtain ⟨hle, y, hy, hyl⟩ := copyName_ok hn
  rw [List.nil_append] at hy
  subst hy
  obtain ⟨⟨-, z, hz, -⟩, -⟩ := dropData_ok hc₁ (Nat.le_add_right _ _)
  dsimp only at hz
  rcases mem_recordCopies hk with hm | ⟨q', x', uType', len', hn₂, ht₂, -, -, hm | ⟨rfl, hm⟩⟩
  · intro o ho
    rw [(copy_of_copiesAt hm).2.2] at ho
    cases ho
  · rw [hz, writeU16_append] at hw
    cases hw
    have hown := written_of_copiesAt hm hn'
    simpa only [List.append_assoc] using hown.append (fixed ++ (be16 _ ++ z))
  · rw [hn] at hn₂
    obtain ⟨rfl, rfl⟩ := Prod.mk.inj (Prod.mk.inj (Except.ok.inj hn₂)).2
    rw [ht] at ht₂
    obtain rfl := Except.ok.inj ht₂
    have hsvc : dropSvcData s v4 v6 (q + 10 + len)
        ⟨q + 10, c.sOut ++ x ++ fixed ++ [0, 0], c.vRemoved⟩ = .ok c₁ := by
      unfold dropData at hc₁
      rwa [if_neg (not_not.mpr rfl)] at hc₁
    obtain ⟨prio, q₂, x₂, -, hprio, hn₂, -, hp⟩ := dropSvcData_steps hsvc
    have hpl := length_of_substr hprio
    obtain ⟨⟨-, w, hw', -⟩, -⟩ := dropParams_ok hp
    have hplace : (c.sOut ++ x ++ fixed ++ [0, 0] ++ prio).length = c.sOut.length + (q - c.p) + 12 := by
      simp only [List.length_append, List.length_cons, List.length_nil]
      omega
    rw [← hplace] at hm
    have htarget := (written_of_copiesAt hm hn₂).append w
    rw [← hw', hz] at htarget
    rw [hz] at hw
    refine htarget.writeU16 (fun o ho => ?_) hw
    rw [(copy_of_copiesAt hm).2.2] at ho
    obtain rfl := Option.some.inj ho
    simp only [List.length_append, List.length_cons, List.length_nil]
    omega

/-- A record that is not written has no pointers in the output. -/
theorem written_of_none (hk : k ∈ recordCopies s uQType c)
    (hd : dropRecord s uQType v4 v6 c = .ok none) (out : Bytes) : Written k out := by
  rcases mem_recordCopies hk with hk | ⟨q, x, uType, len, hn, ht, -, hstay, -⟩
  · intro o ho
    rw [(copy_of_copiesAt hk).2.2] at ho
    cases ho
  · unfold dropRecord at hd
    obtain ⟨r, hr, hd⟩ := ok_of_bind hd
    rw [hn] at hr
    cases hr
    dsimp only at hd
    split_ifs at hd with hbad
    obtain ⟨t, ht', hd⟩ := ok_of_bind hd
    rw [ht] at ht'
    cases ht'
    rw [if_neg hstay] at hd
    obtain ⟨c₁, -, hd⟩ := ok_of_bind hd
    cases hd

/-- **The pointers of the records** stand in the output. -/
theorem written_of_dropRecords {n i m : ℕ} (hp : c.p ≤ s.length)
    (hd : dropRecords s uQType v4 v6 n i c = .ok (m, out))
    (hk : k ∈ recordsCopies s uQType v4 v6 n c) : Written k out := by
  induction n generalizing i c with
  | zero => cases hk
  | succ n ih =>
    rw [recordsCopies] at hk
    rw [dropRecords] at hd
    obtain ⟨r, hr, hd⟩ := ok_of_bind hd
    rw [hr] at hk
    rcases r with _ | c'
    · rw [List.append_nil] at hk
      exact written_of_none hk hr out
    · have hp' := (dropRecord_ok hr).2
      rcases List.mem_append.mp hk with hk | hk
      · obtain ⟨y, rfl, -⟩ := dropRecords_ok hd hp'
        exact (written_of_dropRecord hk hr).append y
      · exact ih hp' hd hk

/-! ### The pointers of the output -/

theorem pointerAt_of_drop {p t : ℕ} {r : Bytes} (lt : t < 0x4000)
    (h : s.drop p = be16 (0xC000 + t) ++ r) : pointerAt s p = some (p, t) := by
  obtain ⟨hp, hc, -⟩ := of_drop_eq_cons (r := UInt8.ofNat (0xC000 + t) :: r) h
  have hptr : s[p] &&& 0xC0 = 0xC0 := by rw [hc, ptr_byte lt]
  have h0 : s[p] ≠ 0 := fun h0 => by
    rw [h0] at hptr
    cases hptr
  rw [pointerAt, dif_pos hp, if_neg h0, if_pos hptr, readU16_of_drop (by omega) h]
  dsimp only
  rw [and_3FFF lt]

theorem Written.setCounts {n : ℕ} {x : Bytes} (h : Written k x) (hi : ∀ o ∈ k.place, 12 ≤ o)
    (hs : setCounts x n = .ok out) : Written k out := by
  obtain ⟨h12, rfl⟩ := setCounts_ok hs
  intro o ho
  obtain ⟨y, z, rfl, hy⟩ := h o ho
  have hle := hi o ho
  refine ⟨y.take 6 ++ be16 n ++ [0, 0, 0, 0] ++ y.drop 12, z, ?_, ?_⟩
  · rw [List.append_assoc y, List.take_append_of_le_length (by omega),
      List.drop_append_of_le_length (by omega)]
    simp only [List.append_assoc]
  · simp only [List.length_append, List.length_take, List.length_drop, length_be16, List.length_cons,
      List.length_nil]
    omega

theorem placed_of_mem (hk : k ∈ pointerCopies s uQType v4 v6) : ∃ a, 12 ≤ a ∧ Placed a k := by
  unfold pointerCopies at hk
  split_ifs at hk with hq
  · rcases hqe : questionEnd s with _ | ⟨p, n⟩ <;> rw [hqe] at hk
    · cases hk
    · obtain ⟨b, o, hp, rfl, -⟩ := questionEnd_ok hqe
      obtain ⟨h12, hle⟩ := szOffset_of_parse hp
      refine ⟨b.szOffset, h12, placed_of_recordsCopies ⟨le_rfl, ?_⟩ hk⟩
      simp [hle]
  · cases hk

/-- **The pointers stand in the output** of a call that succeeds. -/
theorem written_of_dropAddress (hk : k ∈ pointerCopies s uQType v4 v6)
    (hd : dropAddress s uQType v4 v6 = .ok (true, out)) : Written k out := by
  obtain ⟨a, h12, hplaced⟩ := placed_of_mem hk
  have hi : ∀ o ∈ k.place, 12 ≤ o := fun o ho => by
    have hs := hplaced.shift o ho
    have ha := hplaced.order.sum_le
    omega
  unfold pointerCopies at hk
  split_ifs at hk with hq
  · rw [dropAddress_ok, dropped_svc hq] at hd
    obtain ⟨b, o, i, sOut, hp, hr, hset⟩ := dropHints_steps hd
    rw [questionEnd_of_parse hp] at hk
    exact (written_of_dropRecords (szOffset_of_parse hp).2 hr hk).setCounts hi hset
  · cases hk

/-! ### When pointers stay backward -/

/-- If the target is inside a removed parameter, no more is removed up to the end of that parameter than
lies before the target. -/
def NotDeep (k : Copy) : Prop := ∀ r ∈ k.vRemoved, r.1 < k.target → k.target < r.1 + r.2 →
  removedBefore k.vRemoved r.1 + r.2 ≤ k.target

/-- Between the target and the pointer there is a byte of no parameter that is removed from there on. -/
def Apart (k : Copy) : Prop := ∃ i < k.own, k.target ≤ i ∧
  ∀ r ∈ k.vRemoved, k.target ≤ r.1 → ¬ (r.1 ≤ i ∧ i < r.1 + r.2)

instance (k : Copy) : Decidable (NotDeep k) :=
  inferInstanceAs (Decidable (∀ r ∈ k.vRemoved, r.1 < k.target → k.target < r.1 + r.2 →
    removedBefore k.vRemoved r.1 + r.2 ≤ k.target))

instance (k : Copy) : Decidable (Apart k) :=
  inferInstanceAs (Decidable (∃ i < k.own, k.target ≤ i ∧
    ∀ r ∈ k.vRemoved, k.target ≤ r.1 → ¬ (r.1 ≤ i ∧ i < r.1 + r.2)))

/-- The subtraction stays above zero. -/
theorem notDeep_iff (h : Placed a k) : removedBefore k.vRemoved k.target ≤ k.target ↔ NotDeep k :=
  InOrder.sumBefore_le_iff (h.order.weaken (Nat.zero_le a))

/-- The copy of a pointer that goes back, where the subtraction stays above zero. -/
theorem apart_iff (h : Placed a k) (hback : k.target < k.own)
    (hle : removedBefore k.vRemoved k.target ≤ k.target) (hw : Written k out) {o : ℕ}
    (ho : o ∈ k.place) : (∃ t, pointerAt out o = some (o, t) ∧ t < o) ↔ Apart k := by
  obtain ⟨y, z, rfl, hy⟩ := hw o ho
  have hsub : subSize k.target (removedBefore k.vRemoved k.target) =
      k.target - removedBefore k.vRemoved k.target := by
    have hlt := h.target_lt
    unfold subSize
    omega
  have hlt : k.target - removedBefore k.vRemoved k.target < 0x4000 := by
    have hlt := h.target_lt
    omega
  have hdrop : (y ++ pointerBytes (subSize k.target (removedBefore k.vRemoved k.target)) ++ z).drop o =
      be16 (0xC000 + (k.target - removedBefore k.vRemoved k.target)) ++ z := by
    rw [← hy, List.append_assoc, List.drop_left, hsub, pointerBytes_eq hlt]
  rw [pointerAt_of_drop hlt hdrop]
  have hstay := (h.order.weaken (Nat.zero_le a)).sub_lt_iff hback.le hle
  have hs := h.shift o ho
  rw [show o = k.own - (k.vRemoved.map Prod.snd).sum by omega]
  constructor
  · rintro ⟨t, ht, hlt⟩
    obtain ⟨-, rfl⟩ := Prod.mk.inj (Option.some.inj ht)
    exact hstay.mp hlt
  · intro hap
    exact ⟨_, rfl, hstay.mpr hap⟩

/-- **Pointers stay backward**: in a message whose copied pointers go back, no subtraction goes below zero,
and in the output of a call that succeeds every copied pointer goes back, if and only if no pointer
targets the inside of a removed parameter too deep, and no pointer that is written only has removed
parameters from its target on. -/
theorem backward_iff (hback : ∀ k ∈ pointerCopies s uQType v4 v6, k.target < k.own) :
    ((∀ k ∈ pointerCopies s uQType v4 v6, removedBefore k.vRemoved k.target ≤ k.target) ∧
      ∀ out, dropAddress s uQType v4 v6 = .ok (true, out) → ∀ k ∈ pointerCopies s uQType v4 v6,
        ∀ o ∈ k.place, ∃ t, pointerAt out o = some (o, t) ∧ t < o) ↔
    (∀ k ∈ pointerCopies s uQType v4 v6, NotDeep k) ∧
      ((∃ out, dropAddress s uQType v4 v6 = .ok (true, out)) →
        ∀ k ∈ pointerCopies s uQType v4 v6, k.place ≠ none → Apart k) := by
  constructor
  · rintro ⟨hsub, hout⟩
    refine ⟨fun k hk => ?_, fun ⟨out, hd⟩ k hk hplace => ?_⟩
    · obtain ⟨a, -, hplaced⟩ := placed_of_mem hk
      exact (notDeep_iff hplaced).mp (hsub k hk)
    · obtain ⟨a, -, hplaced⟩ := placed_of_mem hk
      obtain ⟨o, ho⟩ := Option.ne_none_iff_exists'.mp hplace
      exact (apart_iff hplaced (hback k hk) (hsub k hk) (written_of_dropAddress hk hd) ho).mp
        (hout out hd k hk o ho)
  · rintro ⟨hdeep, hapart⟩
    have hsub : ∀ k ∈ pointerCopies s uQType v4 v6,
        removedBefore k.vRemoved k.target ≤ k.target := fun k hk => by
      obtain ⟨a, -, hplaced⟩ := placed_of_mem hk
      exact (notDeep_iff hplaced).mpr (hdeep k hk)
    refine ⟨hsub, fun out hd k hk o ho => ?_⟩
    obtain ⟨a, -, hplaced⟩ := placed_of_mem hk
    have hplace : k.place ≠ none := fun hnone => by
      rw [hnone] at ho
      cases ho
    exact (apart_iff hplaced (hback k hk) (hsub k hk) (written_of_dropAddress hk hd) ho).mpr
      (hapart ⟨out, hd⟩ k hk hplace)

/-- The response to an `HTTPS` query for `a.` with a record of the given parameters, which start at 34, and
one whose owner name is a pointer to `t`. -/
def twoAnswers (params : Bytes) (t : ℕ) : Bytes :=
  be16 5 ++ be16 0x8180 ++ be16 1 ++ be16 2 ++ be16 0 ++ be16 0 ++ [1, 97, 0] ++ be16 65 ++ be16 1 ++
    [0xC0, 0x0C] ++ httpsAnswer params ++ be16 (0xC000 + t) ++ httpsAnswer []

/-- An `ipv4hint` of `n` addresses. -/
def ipv4Hint (n : ℕ) : Bytes := be16 4 ++ be16 (4 * n) ++ List.replicate (4 * n) 1

/-- A pointer to the name of the question. -/
theorem backward_iff_twoAnswers :
    (∀ k ∈ pointerCopies (twoAnswers (ipv4Hint 1) 12) typeHTTPS true false,
      removedBefore k.vRemoved k.target ≤ k.target) ∧
    ∀ out, dropAddress (twoAnswers (ipv4Hint 1) 12) typeHTTPS true false = .ok (true, out) →
      ∀ k ∈ pointerCopies (twoAnswers (ipv4Hint 1) 12) typeHTTPS true false,
        ∀ o ∈ k.place, ∃ t, pointerAt out o = some (o, t) ∧ t < o := by
  have hback : ∀ k ∈ pointerCopies (twoAnswers (ipv4Hint 1) 12) typeHTTPS true false,
      k.target < k.own := by decide +kernel
  have hdeep : ∀ k ∈ pointerCopies (twoAnswers (ipv4Hint 1) 12) typeHTTPS true false, NotDeep k := by
    decide +kernel
  have hapart : ∀ k ∈ pointerCopies (twoAnswers (ipv4Hint 1) 12) typeHTTPS true false,
      k.place ≠ none → Apart k := by decide +kernel
  exact (backward_iff hback).mpr ⟨hdeep, fun _ => hapart⟩

/-- **A pointer into a removed hint** of 36 bytes at 34, to 35: 36 is taken off 35. And one to the start of
a hint of 8 bytes at 34, right after that hint, which then targets itself. -/
theorem pointers_into_hints :
    (¬ ∀ (s : Bytes) (uQType : ℕ) (v4 v6 : Bool),
      (∀ k ∈ pointerCopies s uQType v4 v6, k.target < k.own) →
        ∀ k ∈ pointerCopies s uQType v4 v6, removedBefore k.vRemoved k.target ≤ k.target) ∧
    ¬ ∀ (s out : Bytes) (uQType : ℕ) (v4 v6 : Bool),
      (∀ k ∈ pointerCopies s uQType v4 v6, k.target < k.own) →
        dropAddress s uQType v4 v6 = .ok (true, out) → ∀ k ∈ pointerCopies s uQType v4 v6,
          ∀ o ∈ k.place, ∃ t, pointerAt out o = some (o, t) ∧ t < o := by
  constructor
  · intro h
    exact absurd (h (twoAnswers (ipv4Hint 8) 35) typeHTTPS true false (by decide +kernel))
      (by decide +kernel)
  · intro h
    have hdrop : dropAddress (twoAnswers (ipv4Hint 1) 34) typeHTTPS true false =
        .ok (true, twoAnswers [] 34) := by decide +kernel
    have hmem : Copy.mk 42 34 [(34, 8)] (some 34) ∈
        pointerCopies (twoAnswers (ipv4Hint 1) 34) typeHTTPS true false := by decide +kernel
    have hself : pointerAt (twoAnswers [] 34) 34 = some (34, 34) := by decide +kernel
    obtain ⟨t, ht, hlt⟩ := h _ _ typeHTTPS true false (by decide +kernel) hdrop _ hmem 34 rfl
    rw [hself] at ht
    obtain ⟨-, rfl⟩ := Prod.mk.inj (Option.some.inj ht)
    exact absurd hlt (lt_irrefl 34)

end DnsMultiZone.Rfc1035.Pointers
