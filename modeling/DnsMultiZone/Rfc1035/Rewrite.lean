import DnsMultiZone.Rfc1035.Records

/-! # The rewriter on well-formed messages

On the encoding of a message `DropAddress` computes the encoding of another message: the answers up to
the first record of another type after a removal, each without the dropped parameters, and with every
pointer moved back by what was removed before its target.

* `dropRecord_walk`: one record, wherever its pointers go; `dropRecords_encode`: all records.
* `dropAddress_encode`: a whole message. -/

namespace DnsMultiZone.Rfc1035.Rewrite

open DnsMultiZone.Lib.BigEndian DnsMultiZone.Lib.Results DnsMultiZone.Lib.Relocate
open DnsMultiZone.Rfc1035.Reader DnsMultiZone.Rfc1035.Parse DnsMultiZone.Rfc1035.Drop
open DnsMultiZone.Rfc1035.Append DnsMultiZone.Rfc1035.Question DnsMultiZone.Rfc1035.Wire
open DnsMultiZone.Rfc1035.Records

variable (v4 v6 : Bool) {v : List (ℕ × ℕ)} {s rest : Bytes} {c : Cursor} {uQType : ℕ}

/-! ### The rewritten message -/

/-- The parameter stays: it is no `ipv4hint`, key 4, and no `ipv6hint`, key 6, that is asked to go. -/
def stays (a : SvcParam) : Bool := !(a.uKey == 4 && v4 || a.uKey == 6 && v6)

theorem stays_eq (a : SvcParam) : stays v4 v6 a = !isDropped a.uKey v4 v6 := rfl

/-- The parts that are removed. -/
def gone : Part → Bool
  | .piece _ => false
  | .param a => isDropped a.uKey v4 v6

/-- A name with its pointer moved back by what was removed. -/
abbrev moveName (v : List (ℕ × ℕ)) (n : WireName) : WireName := n.move (moved v) (moved_le v)

def rewriteData (v : List (ℕ × ℕ)) : RData → RData
  | .svc d => .svc { d with target := moveName v d.target, params := d.params.filter (stays v4 v6) }
  | .other pieces => .other pieces

theorem length_flatMap_filter (p : SvcParam → Bool) (l : List SvcParam) :
    ((l.filter p).flatMap SvcParam.encode).length ≤ (l.flatMap SvcParam.encode).length := by
  induction l with
  | nil => exact le_rfl
  | cons a l ih =>
    by_cases ha : p a
    · simp only [List.filter_cons_of_pos ha, List.flatMap_cons, List.length_append]
      omega
    · simp only [List.filter_cons_of_neg ha, List.flatMap_cons, List.length_append]
      omega

theorem length_rewriteData (v : List (ℕ × ℕ)) (d : RData) :
    (rewriteData v4 v6 v d).encode.length ≤ d.encode.length := by
  rcases d with d | pieces
  · have := length_flatMap_filter (stays v4 v6) d.params
    simp only [rewriteData, RData.encode, SvcData.encode, List.length_append, length_encode_move]
    omega
  · exact le_rfl

/-- A record without the dropped parameters, with its pointers moved. -/
def rewriteRecord (v : List (ℕ × ℕ)) (r : Record) : Record :=
  { r with
    owner := moveName v r.owner
    data := rewriteData v4 v6 v r.data
    length_lt := (length_rewriteData v4 v6 v r.data).trans_lt r.length_lt }

/-! ### One record -/

theorem length_param (a : SvcParam) : a.encode.length = 4 + a.value.length := by
  simp [SvcParam.encode]
  omega

theorem dropParams_encode {ps : List SvcParam} (h : s.drop c.p = ps.flatMap SvcParam.encode ++ rest)
    (hp : c.p ≤ s.length) :
    dropParams s v4 v6 (c.p + (ps.flatMap SvcParam.encode).length) c =
      .ok ⟨c.p + (ps.flatMap SvcParam.encode).length,
        c.sOut ++ (ps.filter (stays v4 v6)).flatMap SvcParam.encode,
        c.vRemoved ++ removals Part.size (gone v4 v6) c.p (ps.map Part.param)⟩ := by
  induction ps generalizing c with
  | nil =>
    rw [dropParams, dif_neg (by simp)]
    simp [removals]
  | cons a ps ih =>
    rw [List.flatMap_cons, List.append_assoc] at h
    have hlen : ((a :: ps).flatMap SvcParam.encode).length =
        4 + a.value.length + (ps.flatMap SvcParam.encode).length := by
      rw [List.flatMap_cons, List.length_append, length_param]
    have hk := readU16_of_drop a.key_lt
      (show s.drop c.p = be16 a.uKey ++ (be16 a.value.length ++ (a.value ++
        (ps.flatMap SvcParam.encode ++ rest))) by rw [h, SvcParam.encode]; simp)
    have hl := readU16_of_drop a.length_lt
      (show s.drop (c.p + 2) = be16 a.value.length ++ (a.value ++ (ps.flatMap SvcParam.encode ++ rest))
        from drop_add (x := be16 a.uKey) (by rw [h, SvcParam.encode]; simp))
    have hrest := drop_add h
    rw [length_param] at hrest
    have hle : c.p + (4 + a.value.length) ≤ s.length := by
      have := length_le_of_drop h (by simp [SvcParam.encode, be16])
      rwa [length_param] at this
    rw [hlen, dropParams, dif_pos (by omega), if_neg (by omega)]
    refine (bind_of_ok hk _).trans ((bind_of_ok hl _).trans ?_)
    dsimp only
    rw [if_neg (by omega)]
    have hgone : gone v4 v6 (.param a) = isDropped a.uKey v4 v6 := rfl
    have hsize : Part.size (.param a) = 4 + a.value.length := length_param a
    by_cases hd : isDropped a.uKey v4 v6
    · have hih := ih (c := ⟨c.p + (4 + a.value.length), c.sOut,
        c.vRemoved ++ [(c.p, 4 + a.value.length)]⟩) hrest hle
      rw [if_pos hd, ← Nat.add_assoc, hih, List.map_cons, removals_cons_of_gone (hgone.trans hd), hsize,
        List.filter_cons_of_neg (by simp [stays_eq, hd])]
      simp only [List.append_assoc, List.singleton_append]
    · have hih := ih (c := ⟨c.p + (4 + a.value.length), c.sOut ++ a.encode, c.vRemoved⟩) hrest hle
      have hsub : substr s c.p (4 + a.value.length) = .ok a.encode := by
        rw [← length_param]
        exact substr_of_drop h hp
      rw [if_neg hd]
      refine (bind_of_ok hsub _).trans ?_
      rw [← Nat.add_assoc, hih, List.map_cons,
        removals_cons_of_stays (hgone.trans (Bool.eq_false_iff.mpr hd)), hsize,
        List.filter_cons_of_pos (by simp [stays_eq, hd]), List.flatMap_cons, List.append_assoc]

/-- What the rewriter writes of the data of a record, wherever the pointer of the TargetName goes. -/
def copiedData (v : List (ℕ × ℕ)) : RData → Bytes
  | .svc d => be16 d.uPriority ++ copiedName v d.target ++
      (d.params.filter (stays v4 v6)).flatMap SvcParam.encode
  | .other pieces => pieces.flatMap Piece.encode

theorem length_copiedData (v : List (ℕ × ℕ)) (d : RData) :
    (copiedData v4 v6 v d).length = (rewriteData v4 v6 v d).encode.length := by
  rcases d with d | pieces
  · simp only [copiedData, rewriteData, RData.encode, SvcData.encode, List.length_append,
      length_copiedName, length_encode_move]
  · rfl

/-- What the rewriter writes of a record. -/
def copiedRecord (v : List (ℕ × ℕ)) (r : Record) : Bytes :=
  copiedName v r.owner ++ r.fixed ++ be16 (copiedData v4 v6 v r.data).length ++ copiedData v4 v6 v r.data

/-- The names of a record that the rewriter copies point to where no more was removed than is there. -/
structure Readable (v : List (ℕ × ℕ)) (r : Record) : Prop where
  owner : ∀ t ∈ r.owner.target, removedBefore v t ≤ t
  target : ∀ d, r.data = .svc d → ∀ t ∈ d.target.target, removedBefore v t ≤ t

theorem copiedRecord_eq {r : Record} (h : Readable v r) :
    copiedRecord v4 v6 v r = (rewriteRecord v4 v6 v r).encode := by
  have hdata : copiedData v4 v6 v r.data = (rewriteData v4 v6 v r.data).encode := by
    rcases hd : r.data with d | pieces
    · rw [copiedData, copiedName_eq (h.target d hd)]
      rfl
    · rfl
  unfold copiedRecord
  rw [hdata, copiedName_eq h.owner]
  rfl

theorem removals_svc (p : ℕ) (d : SvcData) (more : List Part) :
    removals Part.size (gone v4 v6) p ((RData.svc d).parts ++ more) =
      removals Part.size (gone v4 v6) (p + 2 + d.target.encode.length)
        (d.params.map Part.param ++ more) := by
  show removals _ _ _ (_ :: _ :: (d.params.map Part.param ++ more)) = _
  rw [removals_cons_of_stays rfl, removals_cons_of_stays rfl]
  rfl

theorem removals_other (p : ℕ) (pieces : List Piece) :
    removals Part.size (gone v4 v6) p (RData.other pieces).parts = [] := by
  refine removals_eq_nil.mpr fun x hx => ?_
  obtain ⟨piece, -, rfl⟩ := List.mem_map.mp hx
  rfl

theorem dropSvcData_walk {d : SvcData} (h : s.drop c.p = d.encode ++ rest) (hp : c.p ≤ s.length) :
    dropSvcData s v4 v6 (c.p + d.encode.length) c =
      .ok ⟨c.p + d.encode.length, c.sOut ++ copiedData v4 v6 c.vRemoved (.svc d),
        c.vRemoved ++ removals Part.size (gone v4 v6) c.p (RData.svc d).parts⟩ := by
  have hsplit : s.drop c.p = be16 d.uPriority ++ (d.target.encode ++
      (d.params.flatMap SvcParam.encode ++ rest)) := by
    rw [h, SvcData.encode]
    simp only [List.append_assoc]
  have hname := drop_add hsplit
  have hparams := drop_add hname
  have hlen : d.encode.length =
      2 + d.target.encode.length + (d.params.flatMap SvcParam.encode).length := by
    simp only [SvcData.encode, List.length_append, length_be16]
  have hle : c.p + d.encode.length ≤ s.length := length_le_of_drop h (by simp [SvcData.encode, be16])
  have hprio : substr s c.p 2 = .ok (be16 d.uPriority) := substr_of_drop hsplit hp
  have hcopy := copyName_walk hname (c.sOut ++ be16 d.uPriority) c.vRemoved
  rw [length_be16] at hcopy hparams
  unfold dropSvcData
  rw [if_neg (by omega)]
  refine (bind_of_ok hprio _).trans ((bind_of_ok hcopy _).trans ?_)
  dsimp only
  rw [if_neg (by simp; omega)]
  have hdrop := dropParams_encode v4 v6 (c := ⟨c.p + 2 + d.target.encode.length,
    c.sOut ++ be16 d.uPriority ++ copiedName c.vRemoved d.target, c.vRemoved⟩) hparams
    (by dsimp only; omega)
  dsimp only at hdrop
  rw [hlen, show c.p + (2 + d.target.encode.length + (d.params.flatMap SvcParam.encode).length) =
    c.p + 2 + d.target.encode.length + (d.params.flatMap SvcParam.encode).length by omega]
  refine hdrop.trans ?_
  have hrem := removals_svc v4 v6 c.p d []
  rw [List.append_nil, List.append_nil] at hrem
  rw [hrem]
  simp only [copiedData, List.append_assoc]

/-- **The data of a record**, of the asked type or not. -/
theorem dropData_walk {r : Record} (hsvc : r.uType = uQType ↔ ∃ d, r.data = .svc d)
    (h : s.drop c.p = r.data.encode ++ rest) (hp : c.p ≤ s.length) :
    dropData s r.uType uQType v4 v6 (c.p + r.data.encode.length) c =
      .ok ⟨c.p + r.data.encode.length, c.sOut ++ copiedData v4 v6 c.vRemoved r.data,
        c.vRemoved ++ removals Part.size (gone v4 v6) c.p r.data.parts⟩ := by
  unfold dropData
  rcases hd : r.data with d | pieces
  · rw [if_neg (not_not.mpr (hsvc.mpr ⟨d, hd⟩))]
    rw [hd] at h
    exact dropSvcData_walk v4 v6 h hp
  · have hne : r.uType ≠ uQType := fun he => by
      obtain ⟨d, hd'⟩ := hsvc.mp he
      rw [hd] at hd'
      cases hd'
    rw [hd] at h
    rw [if_pos hne, Nat.add_sub_cancel_left, removals_other, List.append_nil]
    exact bind_of_ok (substr_of_drop h hp) _

theorem length_record (r : Record) :
    r.encode.length = r.owner.encode.length + 10 + r.data.encode.length := by
  simp only [Record.encode, Record.fixed, List.length_append, length_be16, length_be32]

theorem removals_record (p : ℕ) (r : Record) (more : List Part) :
    removals Part.size (gone v4 v6) p (r.parts ++ more) =
      removals Part.size (gone v4 v6) (p + r.owner.encode.length + 10) (r.data.parts ++ more) := by
  show removals _ _ _ (_ :: _ :: (r.data.parts ++ more)) = _
  rw [removals_cons_of_stays rfl, removals_cons_of_stays rfl]
  rfl

theorem encode_record (r : Record) : r.encode = r.owner.encode ++ (r.fixed ++
    (be16 r.data.encode.length ++ r.data.encode)) := by
  simp only [Record.encode, List.append_assoc]

theorem record_le {r : Record} (h : s.drop c.p = r.encode ++ rest) :
    c.p + r.encode.length ≤ s.length := by
  refine length_le_of_drop h fun hnil => ?_
  have hlen := length_record r
  rw [hnil, List.length_nil] at hlen
  omega

theorem drop_record {r : Record} (h : s.drop c.p = r.encode ++ rest) :
    s.drop c.p = r.owner.encode ++ (r.fixed ++ (be16 r.data.encode.length ++ (r.data.encode ++ rest))) := by
  rw [h, encode_record]
  simp only [List.append_assoc]

theorem drop_fields {r : Record} (h : s.drop c.p = r.encode ++ rest) :
    s.drop (c.p + r.owner.encode.length) =
      r.fixed ++ (be16 r.data.encode.length ++ (r.data.encode ++ rest)) ∧
    s.drop (c.p + r.owner.encode.length + 8) =
      be16 r.data.encode.length ++ (r.data.encode ++ rest) ∧
    s.drop (c.p + r.owner.encode.length + 10) = r.data.encode ++ rest := by
  have hfixed := drop_add (drop_record h)
  have hcount := drop_add hfixed
  exact ⟨hfixed, hcount, drop_add hcount⟩

/-- **Copying a record.** -/
theorem copyRecord_walk {r : Record} (hsvc : r.uType = uQType ↔ ∃ d, r.data = .svc d)
    (h : s.drop c.p = r.encode ++ rest) :
    copyRecord s r.uType uQType v4 v6 c =
      .ok ⟨c.p + r.encode.length, c.sOut ++ copiedRecord v4 v6 c.vRemoved r,
        c.vRemoved ++ removals Part.size (gone v4 v6) c.p r.parts⟩ := by
  have hlen := length_record r
  have hle := record_le h
  have hname := drop_record h
  have hcopy := copyName_walk hname c.sOut c.vRemoved
  obtain ⟨hfixed, hcount, hdata⟩ := drop_fields h
  have hsub : substr s (c.p + r.owner.encode.length) 8 = .ok r.fixed :=
    substr_of_drop hfixed (by omega)
  unfold copyRecord
  refine (bind_of_ok hcopy _).trans ((bind_of_ok (readU16_of_drop r.length_lt hcount) _).trans ?_)
  dsimp only
  rw [if_neg (by omega)]
  refine (bind_of_ok hsub _).trans ?_
  have hdrop := dropData_walk v4 v6 (c := ⟨c.p + r.owner.encode.length + 10,
    c.sOut ++ copiedName c.vRemoved r.owner ++ r.fixed ++ [0, 0], c.vRemoved⟩) hsvc hdata
    (by dsimp only; omega)
  refine (bind_of_ok hdrop _).trans ?_
  have hdlen : (c.sOut ++ copiedName c.vRemoved r.owner ++ r.fixed ++ [0, 0] ++
      copiedData v4 v6 c.vRemoved r.data).length -
      (c.sOut ++ copiedName c.vRemoved r.owner ++ r.fixed).length - 2 =
      (copiedData v4 v6 c.vRemoved r.data).length := by
    simp only [List.length_append, List.length_cons, List.length_nil]
    omega
  have hbound : (copiedData v4 v6 c.vRemoved r.data).length < 65536 := by
    rw [length_copiedData]
    exact (length_rewriteData v4 v6 c.vRemoved r.data).trans_lt r.length_lt
  have hwrite := writeU16_append (c.sOut ++ copiedName c.vRemoved r.owner ++ r.fixed)
    (copiedData v4 v6 c.vRemoved r.data) 0 0 (copiedData v4 v6 c.vRemoved r.data).length
  dsimp only
  rw [hdlen, Nat.mod_eq_of_lt hbound]
  refine (bind_of_ok hwrite _).trans ?_
  have hrem := removals_record v4 v6 c.p r []
  rw [List.append_nil, List.append_nil] at hrem
  rw [hrem, hlen]
  simp only [copiedRecord, List.append_assoc, Nat.add_assoc]
  rfl

/-- The rewriter stops at a record of another type after a removal. -/
theorem dropRecord_head {r : Record} (h : s.drop c.p = r.encode ++ rest) :
    dropRecord s uQType v4 v6 c =
      if r.uType ≠ uQType ∧ c.vRemoved ≠ [] then .ok none
      else (copyRecord s r.uType uQType v4 v6 c).map some := by
  have hlen := length_record r
  have hle := record_le h
  have hname := drop_record h
  have htype : s.drop (c.p + r.owner.encode.length) = be16 r.uType ++ (be16 r.uClass ++
      (be32 r.uTimeToLive ++ (be16 r.data.encode.length ++ (r.data.encode ++ rest)))) := by
    rw [drop_add hname, Record.fixed]
    simp only [List.append_assoc]
  unfold dropRecord
  refine (bind_of_ok (copyName_walk hname [] c.vRemoved) _).trans ?_
  dsimp only
  rw [if_neg (by simp; omega)]
  refine (bind_of_ok (readU16_of_drop r.type_lt htype) _).trans ?_
  by_cases hstop : r.uType ≠ uQType ∧ c.vRemoved ≠ []
  · rw [if_pos hstop, if_pos ⟨hstop.1, List.length_pos_iff.mpr hstop.2⟩]
    rfl
  · rw [if_neg hstop, if_neg fun hc => hstop ⟨hc.1, List.length_pos_iff.mp hc.2⟩]
    rcases copyRecord s r.uType uQType v4 v6 c with e | c' <;> rfl

/-- **One record**: the rewriter stops at one of another type after a removal, and copies the others. -/
theorem dropRecord_walk {r : Record} (hsvc : r.uType = uQType ↔ ∃ d, r.data = .svc d)
    (h : s.drop c.p = r.encode ++ rest) :
    dropRecord s uQType v4 v6 c =
      if r.uType ≠ uQType ∧ c.vRemoved ≠ [] then .ok none
      else .ok (some ⟨c.p + r.encode.length, c.sOut ++ copiedRecord v4 v6 c.vRemoved r,
        c.vRemoved ++ removals Part.size (gone v4 v6) c.p r.parts⟩) := by
  rw [dropRecord_head v4 v6 h, copyRecord_walk v4 v6 hsvc h]
  rfl

theorem dropRecord_encode {r : Record} (hsvc : r.uType = uQType ↔ ∃ d, r.data = .svc d)
    (h : s.drop c.p = r.encode ++ rest)
    (hv : ¬ (r.uType ≠ uQType ∧ c.vRemoved ≠ []) → Readable c.vRemoved r) :
    dropRecord s uQType v4 v6 c =
      if r.uType ≠ uQType ∧ c.vRemoved ≠ [] then .ok none
      else .ok (some ⟨c.p + r.encode.length, c.sOut ++ (rewriteRecord v4 v6 c.vRemoved r).encode,
        c.vRemoved ++ removals Part.size (gone v4 v6) c.p r.parts⟩) := by
  rw [dropRecord_walk v4 v6 hsvc h]
  by_cases hstop : r.uType ≠ uQType ∧ c.vRemoved ≠ []
  · rw [if_pos hstop, if_pos hstop]
  · rw [if_neg hstop, if_neg hstop, copiedRecord_eq v4 v6 (hv hstop)]

/-! ### All records -/

/-- The records the rewriter copies: those before the first of another type after a removal. -/
def keptRecords (uQType : ℕ) : Bool → List Record → List Record
  | _, [] => []
  | b, r :: rs =>
    if r.uType ≠ uQType ∧ b = true then []
    else r :: keptRecords uQType (b || r.parts.any (gone v4 v6)) rs

/-- Every pointer of the names goes back, to where no more is removed than is there. -/
def Backward (v : List (ℕ × ℕ)) (fields : List (ℕ × WireName)) : Prop :=
  ∀ f ∈ fields, ∀ t ∈ f.2.target, t < f.1 + f.2.encode.length ∧ removedBefore v t ≤ t

theorem moveName_congr {v' : List (ℕ × ℕ)} {n : WireName}
    (h : ∀ t ∈ n.target, removedBefore v t = removedBefore v' t) : moveName v n = moveName v' n := by
  obtain ⟨labels, _ | ⟨t, lt⟩⟩ := n
  · rfl
  · have ht : moved v t = moved v' t := by
      unfold moved
      rw [h t rfl]
    simp only [moveName, WireName.move, NameEnd.move, ht]

/-- What is removed later does not matter for the pointers of a record. -/
theorem pointers_of_backward {r : Record} {more : List Part} {p : ℕ}
    (h : Backward (v ++ removals Part.size (gone v4 v6) p (r.parts ++ more)) (nameFields p r.parts)) :
    Readable v r ∧ rewriteRecord v4 v6 v r =
      rewriteRecord v4 v6 (v ++ removals Part.size (gone v4 v6) p (r.parts ++ more)) r := by
  have howner : ∀ t ∈ r.owner.target, removedBefore v t ≤ t ∧ removedBefore v t =
      removedBefore (v ++ removals Part.size (gone v4 v6) p (r.parts ++ more)) t := by
    intro t ht
    obtain ⟨hlt, hle⟩ := h (p, r.owner) List.mem_cons_self t ht
    dsimp only at hlt
    rw [removals_record] at hle ⊢
    have heq := @sumBefore_append_removals Part Part.size (gone v4 v6) (r.data.parts ++ more)
      (p + r.owner.encode.length + 10) t v (by omega)
    exact ⟨heq.symm.trans_le hle, heq.symm⟩
  have htarget : ∀ d, r.data = .svc d → ∀ t ∈ d.target.target, removedBefore v t ≤ t ∧
      removedBefore v t =
        removedBefore (v ++ removals Part.size (gone v4 v6) p (r.parts ++ more)) t := by
    intro d hd t ht
    have hmem : (p + r.owner.encode.length + 10 + 2, d.target) ∈ nameFields p r.parts := by
      unfold Record.parts
      rw [hd]
      exact List.mem_cons_of_mem _ List.mem_cons_self
    obtain ⟨hlt, hle⟩ := h _ hmem t ht
    dsimp only at hlt
    rw [removals_record, hd, removals_svc] at hle ⊢
    have heq := @sumBefore_append_removals Part Part.size (gone v4 v6)
      (d.params.map Part.param ++ more)
      (p + r.owner.encode.length + 10 + 2 + d.target.encode.length) t v (by omega)
    exact ⟨heq.symm.trans_le hle, heq.symm⟩
  refine ⟨⟨fun t ht => (howner t ht).1, fun d hd t ht => (htarget d hd t ht).1⟩, ?_⟩
  have ho := moveName_congr fun t ht => (howner t ht).2
  have hd : rewriteData v4 v6 v r.data = rewriteData v4 v6
      (v ++ removals Part.size (gone v4 v6) p (r.parts ++ more)) r.data := by
    rcases hd : r.data with d | pieces
    · rw [rewriteData, rewriteData, moveName_congr fun t ht => (htarget d hd t ht).2]
    · rfl
  simp only [rewriteRecord, ho, hd]

theorem nameFields_append (p : ℕ) (l₁ l₂ : List Part) :
    nameFields p (l₁ ++ l₂) = nameFields p l₁ ++ nameFields (p + total Part.size l₁) l₂ := by
  induction l₁ generalizing p with
  | nil => rfl
  | cons x l₁ ih =>
    rcases x with (b | n) | a
    all_goals
      simp only [List.cons_append, nameFields, ih, total_cons, Nat.add_assoc]
      rfl

theorem removed_ne_nil (v : List (ℕ × ℕ)) (p : ℕ) (parts : List Part) :
    decide (v ++ removals Part.size (gone v4 v6) p parts ≠ []) =
      (decide (v ≠ []) || parts.any (gone v4 v6)) := by
  rw [Bool.eq_iff_iff, Bool.or_eq_true, decide_eq_true_iff, decide_eq_true_iff, ne_eq,
    List.append_eq_nil_iff, removals_eq_nil, List.any_eq_true, not_and_or]
  simp

/-- **All records**: those before the first of another type after a removal are copied. -/
theorem dropRecords_encode {rs : List Record} {i : ℕ}
    (hsvc : ∀ r ∈ rs, (r.uType = uQType ↔ ∃ d, r.data = .svc d))
    (h : s.drop c.p = rs.flatMap Record.encode ++ rest) {kept : List Record}
    (hk : keptRecords v4 v6 uQType (c.vRemoved ≠ []) rs = kept)
    (hv : v = c.vRemoved ++ removals Part.size (gone v4 v6) c.p (kept.flatMap Record.parts))
    (hb : Backward v (nameFields c.p (kept.flatMap Record.parts))) :
    dropRecords s uQType v4 v6 rs.length i c =
      .ok (i + kept.length, c.sOut ++ (kept.map (rewriteRecord v4 v6 v)).flatMap Record.encode) := by
  induction rs generalizing i c kept with
  | nil =>
    subst hk
    simp [dropRecords, keptRecords]
  | cons r rs ih =>
    have hr := hsvc r List.mem_cons_self
    rw [List.flatMap_cons, List.append_assoc] at h
    rw [keptRecords] at hk
    have hstep := dropRecord_encode v4 v6 hr h
    by_cases hstop : r.uType ≠ uQType ∧ c.vRemoved ≠ []
    · rw [if_pos ⟨hstop.1, by simpa using hstop.2⟩] at hk
      have hnone := (hstep fun hn => absurd hstop hn).trans (if_pos hstop)
      subst hk
      rw [List.length_cons, dropRecords, List.map_nil, List.flatMap_nil, List.append_nil]
      exact bind_of_ok hnone _
    · rw [if_neg fun hc => hstop ⟨hc.1, by simpa using hc.2⟩] at hk
      obtain ⟨more, hmore⟩ : ∃ more, keptRecords v4 v6 uQType
        (decide (c.vRemoved ≠ []) || r.parts.any (gone v4 v6)) rs = more := ⟨_, rfl⟩
      rw [hmore] at hk
      subst hk
      rw [List.flatMap_cons] at hv hb
      rw [nameFields_append] at hb
      have hbr : Backward (c.vRemoved ++ removals Part.size (gone v4 v6) c.p
          (r.parts ++ more.flatMap Record.parts)) (nameFields c.p r.parts) := by
        intro f hf
        rw [← hv]
        exact hb f (List.mem_append_left _ hf)
      obtain ⟨hread, heq⟩ := pointers_of_backward v4 v6 hbr
      rw [← hv] at heq
      have hsome := (hstep fun _ => hread).trans (if_neg hstop)
      have hsize : total Part.size r.parts = r.encode.length := by
        rw [total_parts, encode_recordParts]
      rw [removals_append, ← List.append_assoc, hsize] at hv
      rw [hsize] at hb
      have hrec := ih (i := i + 1) (c := ⟨c.p + r.encode.length,
        c.sOut ++ (rewriteRecord v4 v6 c.vRemoved r).encode,
        c.vRemoved ++ removals Part.size (gone v4 v6) c.p r.parts⟩)
        (fun r' hr' => hsvc r' (List.mem_cons_of_mem _ hr')) (drop_add h)
        (removed_ne_nil v4 v6 c.vRemoved c.p r.parts ▸ hmore) hv
        fun f hf => hb f (List.mem_append_right _ hf)
      rw [List.length_cons, dropRecords]
      refine (bind_of_ok hsome _).trans (hrec.trans ?_)
      dsimp only
      rw [heq, List.map_cons, List.flatMap_cons, List.append_assoc, List.length_cons,
        show i + 1 + more.length = i + (more.length + 1) by omega]

/-! ### A whole message -/

/-- What is removed of a message. -/
def removedOf (uQType : ℕ) (m : Message) : List (ℕ × ℕ) :=
  removals Part.size (gone v4 v6) m.questionStop
    ((keptRecords v4 v6 uQType false m.answers).flatMap Record.parts)

theorem length_keptRecords (uQType : ℕ) (b : Bool) (rs : List Record) :
    (keptRecords v4 v6 uQType b rs).length ≤ rs.length := by
  induction rs generalizing b with
  | nil => exact le_rfl
  | cons r rs ih =>
    rw [keptRecords]
    split_ifs
    · exact Nat.zero_le _
    · exact Nat.succ_le_succ (ih _)

/-- **The rewritten message.** -/
def rewriteMessage (uQType : ℕ) (m : Message) : Message :=
  { m with
    uAuthority := 0
    uAdditional := 0
    answers := (keptRecords v4 v6 uQType false m.answers).map
      (rewriteRecord v4 v6 (removedOf v4 v6 uQType m))
    rest := []
    authority_lt := by norm_num
    additional_lt := by norm_num
    answers_lt := by
      rw [List.length_map]
      exact (length_keptRecords v4 v6 uQType false m.answers).trans_lt m.answers_lt }

theorem setCounts_header (m : Message) (x : Bytes) (n : ℕ) :
    setCounts (m.header ++ x) n = .ok (be16 m.uID ++ be16 m.uFlag ++ be16 1 ++ be16 n ++ be16 0 ++
      be16 0 ++ x) := by
  rw [setCounts_of_le n (by rw [List.length_append, Message.length_header]; omega)]
  simp only [Message.header, be16, List.cons_append, List.nil_append, List.take_succ_cons,
    List.take_zero, List.drop_succ_cons, List.drop_zero]
  rfl

/-- **`DropAddress` on a message**: the encoding of the rewritten message. -/
theorem dropAddress_encode {m : Message} (hq : uQType = typeSVCB ∨ uQType = typeHTTPS)
    (hsvc : ∀ r ∈ m.answers, (r.uType = uQType ↔ ∃ d, r.data = .svc d))
    (hb : Backward (removedOf v4 v6 uQType m) (nameFields m.questionStop
      ((keptRecords v4 v6 uQType false m.answers).flatMap Record.parts))) :
    dropAddress m.encode uQType v4 v6 = .ok (true, (rewriteMessage v4 v6 uQType m).encode) := by
  have hfront : (m.header ++ m.question).length = m.questionStop := by
    rw [List.length_append, Message.length_header, Message.questionStop]
  have henc : m.encode = (m.header ++ m.question) ++ (m.answers.flatMap Record.encode ++ m.rest) := by
    rw [Message.encode, List.append_assoc]
  have hdrop : m.encode.drop m.questionStop = m.answers.flatMap Record.encode ++ m.rest := by
    rw [henc, List.drop_left' hfront]
  have hsub : substr m.encode 0 m.questionStop = .ok (m.header ++ m.question) := by
    rw [← hfront]
    exact substr_of_drop henc (Nat.zero_le _)
  have hrec := dropRecords_encode v4 v6 (i := 0) (c := ⟨m.questionStop, m.header ++ m.question, []⟩)
    hsvc hdrop rfl (List.nil_append _).symm hb
  have hn : (keptRecords v4 v6 uQType false m.answers).length =
      (rewriteMessage v4 v6 uQType m).answers.length := (List.length_map _).symm
  have hhead : (rewriteMessage v4 v6 uQType m).header = be16 m.uID ++ be16 m.uFlag ++ be16 1 ++
      be16 (keptRecords v4 v6 uQType false m.answers).length ++ be16 0 ++ be16 0 := by
    rw [hn]
    rfl
  have henc' : (rewriteMessage v4 v6 uQType m).encode = (rewriteMessage v4 v6 uQType m).header ++
      (m.question ++ (rewriteMessage v4 v6 uQType m).answers.flatMap Record.encode) := by
    rw [Message.encode, show (rewriteMessage v4 v6 uQType m).rest = [] by rfl, List.append_nil]
    exact List.append_assoc _ _ _
  rw [dropAddress_ok, dropped_svc hq]
  unfold dropHints
  refine (bind_of_ok (questionEnd_encode m) _).trans ((bind_of_ok hsub _).trans
    ((bind_of_ok hrec _).trans ?_))
  rw [Nat.zero_add]
  dsimp only
  rw [List.append_assoc, setCounts_header, henc', hhead]
  rfl

end DnsMultiZone.Rfc1035.Rewrite
