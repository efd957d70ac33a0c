import DnsMultiZone.Rfc1035.Rewrite

/-! # Names after rewriting

A name is expanded by reading its labels and following its compression pointers. The rewriter takes
parameters out of the message, and moves every pointer back by what it took out before the pointer's
target; so following the pointers of the output goes through the same labels as in the message, moved
back, and every name of a kept record expands to what it expanded to before (`expandName_copied`).

* `dropAddress_preserves`: what `DropAddress` keeps of a well-formed SVCB or HTTPS response. -/

namespace DnsMultiZone.Rfc1035.Expand

open DnsMultiZone.Lib.BigEndian DnsMultiZone.Lib.Relocate
open DnsMultiZone.Rfc1035.Parse DnsMultiZone.Rfc1035.Drop DnsMultiZone.Rfc1035.Wire
open DnsMultiZone.Rfc1035.Records DnsMultiZone.Rfc1035.Rewrite

/-- The labels of the name at offset `p`, its pointers followed, in at most `fuel` steps. -/
def expandName (d : Bytes) : ℕ → ℕ → Option (List Bytes)
  | 0, _ => none
  | fuel + 1, p =>
    match d[p]?, d[p + 1]? with
    | some c, lo =>
      if c = 0 then some []
      else if c &&& 0xC0 = 0xC0 then
        lo.bind fun lo => expandName d fuel ((256 * c.toNat + lo.toNat) &&& 0x3FFF)
      else if c &&& 0xC0 ≠ 0 ∨ p + 1 + c.toNat > d.length then none
      else (expandName d fuel (p + 1 + c.toNat)).map ((d.drop (p + 1)).take c.toNat :: ·)
    | none, _ => none

theorem getElem_of_drop {s r : Bytes} {p : ℕ} {c : UInt8} (h : s.drop p = c :: r) :
    s[p]? = some c := by
  obtain ⟨hp, hc, -⟩ := of_drop_eq_cons h
  rw [List.getElem?_eq_getElem hp, hc]

theorem expandName_root {d r : Bytes} {p : ℕ} (h : d.drop p = [0] ++ r) (fuel : ℕ) :
    expandName d (fuel + 1) p = some [] := by
  unfold expandName
  rw [getElem_of_drop h]
  rfl

theorem expandName_ptr {d r : Bytes} {p t : ℕ} (lt : t < 0x4000)
    (h : d.drop p = be16 (0xC000 + t) ++ r) (fuel : ℕ) :
    expandName d (fuel + 1) p = expandName d fuel t := by
  have hhi := getElem_of_drop (r := UInt8.ofNat (0xC000 + t) :: r) h
  have hlo := getElem_of_drop (of_drop_eq_cons (r := UInt8.ofNat (0xC000 + t) :: r) h).2.2
  have hptr := ptr_byte lt
  have h0 : UInt8.ofNat ((0xC000 + t) / 256) ≠ 0 := fun h0 => by
    rw [h0] at hptr
    cases hptr
  have hnum : 256 * (UInt8.ofNat ((0xC000 + t) / 256)).toNat + (UInt8.ofNat (0xC000 + t)).toNat =
      0xC000 + t := by
    rw [UInt8.toNat_ofNat', UInt8.toNat_ofNat']
    omega
  conv_lhs => unfold expandName
  rw [hhi, hlo]
  dsimp only
  rw [if_neg h0, if_pos hptr, Option.bind_some, hnum, and_3FFF lt]

theorem expandName_label {d r : Bytes} {p : ℕ} {l : Label} (h : d.drop p = l.encode ++ r)
    (fuel : ℕ) : expandName d (fuel + 1) p =
      (expandName d fuel (p + l.encode.length)).map (l.bytes :: ·) := by
  have hc := getElem_of_drop (r := l.bytes ++ r) h
  have htail := (of_drop_eq_cons (r := l.bytes ++ r) h).2.2
  have hlen := length_le_of_drop h (by simp [Label.encode])
  have hencl : l.encode.length = 1 + l.bytes.length := by
    rw [Label.encode, List.length_cons, Nat.add_comm]
  have h0 : UInt8.ofNat l.bytes.length ≠ 0 := fun h0 => by
    have := l.toNat_length
    rw [h0] at this
    exact l.length_ne_zero this.symm
  conv_lhs => unfold expandName
  rw [hc]
  dsimp only
  rw [if_neg h0, if_neg (by rw [and_C0_eq_zero l.lt]; decide),
    if_neg (by rw [and_C0_eq_zero l.lt, l.toNat_length]; simp; omega), l.toNat_length, htail,
    List.take_left, hencl, Nat.add_assoc]

/-! ### Parts that are copied -/

/-- A part and its copy: as long, and a name has its pointer moved. -/
structure Copied (v : List (ℕ × ℕ)) (x x' : Part) : Prop where
  size : x'.size = x.size
  name : ∀ n, x = .piece (.name n) → x' = .piece (.name (moveName v n))

variable {v4 v6 : Bool} {v : List (ℕ × ℕ)} {parts parts' l₁ l₂ : List Part} {m out rest rest' : Bytes}

/-- The parts that stay. -/
def staying (v4 v6 : Bool) (l : List Part) : List Part := l.filter fun x => !gone v4 v6 x

theorem total_copied {l l' : List Part} (h : List.Forall₂ (Copied v) l l') :
    total Part.size l' = total Part.size l := by
  induction h with
  | nil => rfl
  | cons hx _ ih => rw [total_cons, total_cons, hx.size, ih]

theorem copied_split {l : List Part} {n : WireName}
    (h : List.Forall₂ (Copied v) (l₁ ++ .piece (.name n) :: l₂) l) : ∃ l₁' l₂',
      l = l₁' ++ .piece (.name (moveName v n)) :: l₂' ∧ List.Forall₂ (Copied v) l₁ l₁' := by
  induction l₁ generalizing l with
  | nil =>
    obtain ⟨x, l', hx, -, rfl⟩ := List.forall₂_cons_left_iff.mp h
    exact ⟨[], l', by rw [hx.name n rfl]; rfl, .nil⟩
  | cons y l₁ ih =>
    obtain ⟨x, l', hx, hl, rfl⟩ := List.forall₂_cons_left_iff.mp h
    obtain ⟨l₁', l₂', rfl, hl'⟩ := ih hl
    exact ⟨x :: l₁', l₂', rfl, .cons hx hl'⟩

/-- `t` is where a label, the root or the pointer of a name starts. -/
def LabelStart (f : ℕ × WireName) (t : ℕ) : Prop :=
  ∃ ls₁ ls₂, f.2.labels = ls₁ ++ ls₂ ∧ t = f.1 + (encodeLabels ls₁).length

theorem encodeLabels_append (ls₁ ls₂ : List Label) :
    encodeLabels (ls₁ ++ ls₂) = encodeLabels ls₁ ++ encodeLabels ls₂ := by
  induction ls₁ with
  | nil => rfl
  | cons l ls₁ ih => rw [List.cons_append, encodeLabels, encodeLabels, ih, List.append_assoc]

theorem pos_of_gone {x : Part} (h : gone v4 v6 x = true) : 0 < x.size := by
  rcases x with x | a
  · cases h
  · simp [Part.size, Part.encode, length_param]

theorem length_labels_lt {n : WireName} {ls₁ ls₂ : List Label} (h : n.labels = ls₁ ++ ls₂) :
    (encodeLabels ls₁).length < n.encode.length := by
  have hstop : 0 < n.stop.encode.length := by
    rcases n.stop with _ | ⟨t, lt⟩ <;> simp [NameEnd.encode, be16]
  rw [WireName.encode, h, encodeLabels_append, List.length_append, List.length_append]
  omega

/-- Where the start of a label goes: back by the parts removed before its name. -/
theorem moved_labelStart {n : WireName} {ls₁ ls₂ : List Label}
    (hv : v = removals Part.size (gone v4 v6) 0 (l₁ ++ .piece (.name n) :: l₂))
    (hl : n.labels = ls₁ ++ ls₂) :
    moved v (total Part.size l₁ + (encodeLabels ls₁).length) =
      total Part.size (staying v4 v6 l₁) + (encodeLabels ls₁).length ∧
    removedBefore v (total Part.size l₁ + (encodeLabels ls₁).length) ≤
      total Part.size l₁ + (encodeLabels ls₁).length := by
  have hk : (encodeLabels ls₁).length < Part.size (.piece (.name n)) := length_labels_lt hl
  have hpos : ∀ y ∈ l₁, gone v4 v6 y = true → 0 < y.size := fun y _ hy => pos_of_gone hy
  have hmove := @relocate Part Part.size (gone v4 v6) l₁ l₂ (.piece (.name n)) 0 _ rfl hk hpos
  have hsum := @sumBefore_removals Part Part.size (gone v4 v6) l₁ l₂ (.piece (.name n)) 0 _ rfl hk hpos
  rw [← hv, Nat.zero_add, Nat.zero_add] at hmove
  rw [← hv, Nat.zero_add] at hsum
  refine ⟨hmove, ?_⟩
  have := total_filter_add Part.size (gone v4 v6) l₁
  show sumBefore v _ ≤ _
  omega

theorem drop_labelStart (hm : m = parts.flatMap Part.encode ++ rest) {f : ℕ × WireName}
    (hf : f ∈ nameFields 0 parts) {ls₁ ls₂ : List Label} (hl : f.2.labels = ls₁ ++ ls₂) :
    ∃ r, m.drop (f.1 + (encodeLabels ls₁).length) = encodeLabels ls₂ ++ (f.2.stop.encode ++ r) := by
  obtain ⟨l₁, l₂, rfl, hp⟩ := mem_nameFields.mp hf
  have hname : f.2.encode = encodeLabels ls₁ ++ (encodeLabels ls₂ ++ f.2.stop.encode) := by
    rw [WireName.encode, hl, encodeLabels_append, List.append_assoc]
  have hdrop : m.drop f.1 = f.2.encode ++ (l₂.flatMap Part.encode ++ rest) := by
    rw [hm, List.flatMap_append, List.append_assoc, hp, Nat.zero_add, total_parts, List.drop_left,
      List.flatMap_cons, List.append_assoc]
    rfl
  rw [hname, List.append_assoc, List.append_assoc] at hdrop
  exact ⟨_, drop_add hdrop⟩

/-- **Expansion after rewriting**: where every pointer targets the start of a label of some name of the
parts, a name expands in the output, at its place there, to what it expands to in the message. -/
theorem expandName_copied (hm : m = parts.flatMap Part.encode ++ rest)
    (hout : out = parts'.flatMap Part.encode ++ rest')
    (hv : v = removals Part.size (gone v4 v6) 0 parts)
    (hc : List.Forall₂ (Copied v) (staying v4 v6 parts) parts')
    (hclosed : ∀ f ∈ nameFields 0 parts, ∀ t ∈ f.2.target, ∃ g ∈ nameFields 0 parts, LabelStart g t)
    {f : ℕ × WireName} (hf : f ∈ nameFields 0 parts) {t : ℕ} (ht : LabelStart f t) (fuel : ℕ) :
    expandName out fuel (moved v t) = expandName m fuel t := by
  induction fuel generalizing f t with
  | zero => rfl
  | succ fuel ih =>
    obtain ⟨ls₁, ls₂, hl, rfl⟩ := ht
    obtain ⟨r, hdrop⟩ := drop_labelStart hm hf hl
    obtain ⟨l₁, l₂, hparts, hp⟩ := mem_nameFields.mp hf
    rw [Nat.zero_add] at hp
    have hmoved := (moved_labelStart (hv.trans (by rw [hparts])) hl).1
    -- The same name in the output, with its pointer moved.
    have hdrop' : ∃ r, out.drop (moved v (f.1 + (encodeLabels ls₁).length)) =
        encodeLabels ls₂ ++ ((moveName v f.2).stop.encode ++ r) := by
      have hstay : staying v4 v6 parts =
          staying v4 v6 l₁ ++ .piece (.name f.2) :: staying v4 v6 l₂ := by
        rw [hparts]
        simp [staying, gone]
      rw [hstay] at hc
      obtain ⟨l₁', l₂', hparts', hc₁⟩ := copied_split hc
      have hmem : (total Part.size (staying v4 v6 l₁), moveName v f.2) ∈ nameFields 0 parts' :=
        mem_nameFields.mpr ⟨l₁', l₂', hparts', by rw [total_copied hc₁, Nat.zero_add]⟩
      rw [hp, hmoved]
      exact drop_labelStart hout hmem hl
    obtain ⟨r', hdrop'⟩ := hdrop'
    rcases ls₂ with _ | ⟨l, ls₂⟩
    · rcases hstop : f.2.stop with _ | ⟨t, lt⟩
      · have hstop' : (moveName v f.2).stop = .root := by
          show f.2.stop.move (moved v) (moved_le v) = _
          rw [hstop]
          rfl
        rw [hstop'] at hdrop'
        rw [hstop] at hdrop
        rw [expandName_root hdrop, expandName_root hdrop']
      · have hstop' : (moveName v f.2).stop = .ptr (moved v t) ((moved_le v t).trans_lt lt) := by
          show f.2.stop.move (moved v) (moved_le v) = _
          rw [hstop]
          rfl
        rw [hstop'] at hdrop'
        rw [hstop] at hdrop
        rw [expandName_ptr lt hdrop, expandName_ptr ((moved_le v t).trans_lt lt) hdrop']
        obtain ⟨g, hg, hgt⟩ := hclosed f hf t (by unfold WireName.target; rw [hstop]; rfl)
        exact ih hg hgt
    · rw [encodeLabels, List.append_assoc] at hdrop hdrop'
      have hl' : f.2.labels = (ls₁ ++ [l]) ++ ls₂ := by
        rw [hl, List.append_assoc]
        rfl
      have hlen : (encodeLabels (ls₁ ++ [l])).length = (encodeLabels ls₁).length + l.encode.length := by
        rw [encodeLabels_append, List.length_append, encodeLabels, encodeLabels, List.append_nil]
      have hnext := ih hf ⟨ls₁ ++ [l], ls₂, hl', rfl⟩
      have hmoved' := (moved_labelStart (hv.trans (by rw [hparts])) hl').1
      rw [hp, hmoved', hlen, ← Nat.add_assoc, ← Nat.add_assoc] at hnext
      rw [expandName_label hdrop, expandName_label hdrop', hp, hmoved, hnext]

/-- **Every name expands**, where every pointer targets the start of a label of a name before its own. -/
theorem expandName_total (hm : m = parts.flatMap Part.encode ++ rest)
    (hback : ∀ f ∈ nameFields 0 parts, ∀ t ∈ f.2.target,
      ∃ g ∈ nameFields 0 parts, g.1 < f.1 ∧ LabelStart g t)
    {f : ℕ × WireName} (hf : f ∈ nameFields 0 parts) {t : ℕ} (ht : LabelStart f t) :
    ∃ fuel labels, expandName m fuel t = some labels := by
  -- On the offset of the name, and inside it on the labels that are left.
  induction hp : f.1 using Nat.strong_induction_on generalizing f t with
  | h p ih =>
    obtain ⟨ls₁, ls₂, hl, rfl⟩ := ht
    induction ls₂ generalizing ls₁ with
    | nil =>
      obtain ⟨r, hdrop⟩ := drop_labelStart hm hf hl
      rcases hstop : f.2.stop with _ | ⟨t, lt⟩
      · rw [hstop] at hdrop
        exact ⟨1, [], expandName_root hdrop 0⟩
      · rw [hstop] at hdrop
        obtain ⟨g, hg, hlt, hgt⟩ := hback f hf t (by unfold WireName.target; rw [hstop]; rfl)
        obtain ⟨fuel, labels, hexp⟩ := ih g.1 (hp ▸ hlt) hg hgt rfl
        exact ⟨fuel + 1, labels, (expandName_ptr lt hdrop fuel).trans hexp⟩
    | cons l ls₂ ihl =>
      obtain ⟨r, hdrop⟩ := drop_labelStart hm hf hl
      rw [encodeLabels, List.append_assoc] at hdrop
      obtain ⟨fuel, labels, hexp⟩ := ihl (ls₁ ++ [l]) (by rw [hl, List.append_assoc]; rfl)
      rw [encodeLabels_append, List.length_append, encodeLabels, encodeLabels, List.append_nil,
        ← Nat.add_assoc] at hexp
      exact ⟨fuel + 1, l.bytes :: labels, by rw [expandName_label hdrop, hexp]; rfl⟩

/-! ### Well-formed messages -/

/-- The name fields of a message, with their offsets. -/
def nameFieldsOf (m : Message) : List (ℕ × WireName) := nameFields 0 m.parts

/-- **A well-formed response for type `uQType`**: the records of the type have SVCB data, and every
compression pointer targets the start of a label of a name field before the pointer. -/
structure WellFormed (uQType : ℕ) (m : Message) : Prop where
  svc : ∀ r ∈ m.answers, (r.uType = uQType ↔ ∃ d, r.data = .svc d)
  pointers : ∀ f ∈ nameFieldsOf m, ∀ t ∈ f.2.target,
    t < f.1 + (encodeLabels f.2.labels).length ∧ ∃ g ∈ nameFieldsOf m, LabelStart g t

/-- A parameter of the record is removed: an `ipv4hint`, key 4, or an `ipv6hint`, key 6. -/
def HasDropped (v4 v6 : Bool) (r : Record) : Prop :=
  ∃ d, r.data = .svc d ∧ ∃ a ∈ d.params, (a.uKey = 4 ∧ v4 = true) ∨ (a.uKey = 6 ∧ v6 = true)

/-- **The first `k` records are kept**: `k` is the place of the first record of another type after a
record with a removed parameter, or the number of records. -/
structure IsCut (v4 v6 : Bool) (uQType : ℕ) (rs : List Record) (k : ℕ) : Prop where
  le : k ≤ rs.length
  before : ∀ (i : ℕ) (r : Record), i < k → rs[i]? = some r →
    r.uType = uQType ∨ ∀ r' ∈ rs.take i, ¬ HasDropped v4 v6 r'
  stop : ∀ r, rs[k]? = some r → r.uType ≠ uQType ∧ ∃ r' ∈ rs.take k, HasDropped v4 v6 r'

theorem isDropped_iff {k : ℕ} {v4 v6 : Bool} :
    isDropped k v4 v6 = true ↔ (k = 4 ∧ v4 = true) ∨ (k = 6 ∧ v6 = true) := by
  simp [isDropped, svcParamIPv4Hint, svcParamIPv6Hint]

theorem any_gone_iff {r : Record} : r.parts.any (gone v4 v6) = true ↔ HasDropped v4 v6 r := by
  unfold HasDropped Record.parts
  rcases r.data with d | pieces
  · simp [RData.parts, gone, List.any_map, isDropped_iff]
  · simp [RData.parts, gone, List.any_map]

theorem keptRecords_prefix (v4 v6 : Bool) (uQType : ℕ) (b : Bool) (rs : List Record) :
    ∃ more, rs = keptRecords v4 v6 uQType b rs ++ more := by
  induction rs generalizing b with
  | nil => exact ⟨[], rfl⟩
  | cons r rs ih =>
    rw [keptRecords]
    split_ifs
    · exact ⟨r :: rs, rfl⟩
    · obtain ⟨more, hmore⟩ := ih (b || r.parts.any (gone v4 v6))
      exact ⟨more, congrArg (r :: ·) hmore⟩

/-- What the rewriter keeps is what `IsCut` says, where `b` tells whether something was removed before. -/
theorem cut_keptRecords (v4 v6 : Bool) (uQType : ℕ) (b : Bool) (rs : List Record) :
    (∀ (i : ℕ) (r : Record), i < (keptRecords v4 v6 uQType b rs).length → rs[i]? = some r →
      r.uType = uQType ∨ (b = false ∧ ∀ r' ∈ rs.take i, ¬ HasDropped v4 v6 r')) ∧
    ∀ r, rs[(keptRecords v4 v6 uQType b rs).length]? = some r →
      r.uType ≠ uQType ∧
        (b = true ∨ ∃ r' ∈ rs.take (keptRecords v4 v6 uQType b rs).length, HasDropped v4 v6 r') := by
  induction rs generalizing b with
  | nil => simp [keptRecords]
  | cons r rs ih =>
    rw [keptRecords]
    by_cases hstop : r.uType ≠ uQType ∧ b = true
    · rw [if_pos hstop]
      refine ⟨fun i _ hi => absurd hi (Nat.not_lt_zero i), fun r' hr' => ?_⟩
      cases hr'
      exact ⟨hstop.1, Or.inl hstop.2⟩
    · rw [if_neg hstop]
      obtain ⟨hbefore, hat⟩ := ih (b || r.parts.any (gone v4 v6))
      constructor
      · intro i r' hi hr'
        rcases i with _ | i
        · cases hr'
          by_cases ht : r.uType = uQType
          · exact Or.inl ht
          · exact Or.inr ⟨Bool.eq_false_iff.mpr fun hb => hstop ⟨ht, hb⟩, by simp⟩
        · rcases hbefore i r' (by simpa using hi) hr' with ht | ⟨hb, hall⟩
          · exact Or.inl ht
          · obtain ⟨hb, hr⟩ := Bool.or_eq_false_iff.mp hb
            refine Or.inr ⟨hb, fun x hx => ?_⟩
            rcases List.mem_cons.mp hx with rfl | hx
            · exact fun hd => Bool.eq_false_iff.mp hr (any_gone_iff.mpr hd)
            · exact hall x hx
      · intro r' hr'
        obtain ⟨ht, hb | ⟨x, hx, hd⟩⟩ := hat r' hr'
        · refine ⟨ht, ?_⟩
          rcases Bool.or_eq_true_iff.mp hb with hb | hr
          · exact Or.inl hb
          · exact Or.inr ⟨r, List.mem_cons_self, any_gone_iff.mp hr⟩
        · exact ⟨ht, Or.inr ⟨x, List.mem_cons_of_mem _ hx, hd⟩⟩

theorem isCut_keptRecords (uQType : ℕ) (rs : List Record) :
    IsCut v4 v6 uQType rs (keptRecords v4 v6 uQType false rs).length := by
  obtain ⟨hbefore, hat⟩ := cut_keptRecords v4 v6 uQType false rs
  refine ⟨length_keptRecords v4 v6 uQType false rs, fun i r hi hr => ?_, fun r hr => ?_⟩
  · exact (hbefore i r hi hr).imp_right And.right
  · obtain ⟨ht, hb | hd⟩ := hat r hr
    · cases hb
    · exact ⟨ht, hd⟩

/-! ### The message and its rewriting, part by part -/

/-- Header and question. -/
def frontParts (m : Message) : List Part :=
  [.piece (.bytes m.header), .piece (.name ⟨m.qname, .root⟩),
    .piece (.bytes (be16 m.uQType ++ be16 1))]

/-- Header, question, and the records that are kept. -/
def keptParts (v4 v6 : Bool) (uQType : ℕ) (m : Message) : List Part :=
  frontParts m ++ (keptRecords v4 v6 uQType false m.answers).flatMap Record.parts

theorem total_frontParts (m : Message) : total Part.size (frontParts m) = m.questionStop := by
  simp [frontParts, Part.size, Part.encode, Piece.encode, Message.questionStop, Message.question,
    WireName.encode, NameEnd.encode]

theorem removals_frontParts (m : Message) (l : List Part) :
    removals Part.size (gone v4 v6) 0 (frontParts m ++ l) =
      removals Part.size (gone v4 v6) m.questionStop l := by
  rw [removals_append, total_frontParts, Nat.zero_add]
  rfl

theorem staying_append (l₁ l₂ : List Part) :
    staying v4 v6 (l₁ ++ l₂) = staying v4 v6 l₁ ++ staying v4 v6 l₂ := List.filter_append ..

theorem moveName_eq_self {n : WireName} (h : ∀ t ∈ n.target, removedBefore v t = 0) :
    moveName v n = n := by
  obtain ⟨labels, _ | ⟨t, lt⟩⟩ := n
  · rfl
  · have ht : moved v t = t := by
      unfold moved
      rw [h t rfl, Nat.sub_zero]
    simp only [moveName, WireName.move, NameEnd.move, ht]

theorem copied_pieces {pieces : List Piece} (h : ∀ n, .name n ∈ pieces → moveName v n = n) :
    List.Forall₂ (Copied v) (pieces.map Part.piece) (pieces.map Part.piece) := by
  induction pieces with
  | nil => exact .nil
  | cons x pieces ih =>
    refine .cons ⟨rfl, fun n hn => ?_⟩ (ih fun n hn => h n (List.mem_cons_of_mem _ hn))
    cases hn
    rw [h n List.mem_cons_self]

theorem copied_params (params : List SvcParam) :
    List.Forall₂ (Copied v) (params.map Part.param) (params.map Part.param) := by
  induction params with
  | nil => exact .nil
  | cons a params ih => exact .cons ⟨rfl, fun n hn => by cases hn⟩ ih

theorem staying_svc (d : SvcData) : staying v4 v6 (RData.svc d).parts =
    .piece (.bytes (be16 d.uPriority)) :: .piece (.name d.target) ::
      (d.params.filter (stays v4 v6)).map Part.param := by
  rw [RData.parts, staying, List.filter_cons_of_pos rfl, List.filter_cons_of_pos rfl, List.filter_map]
  rfl

theorem staying_other (pieces : List Piece) :
    staying v4 v6 (RData.other pieces).parts = pieces.map Part.piece := by
  refine List.filter_eq_self.mpr fun x hx => ?_
  obtain ⟨piece, -, rfl⟩ := List.mem_map.mp hx
  rfl

/-- A rewritten record is a copy of what stays of the record, where no name in the data of a record of
another type has to be moved. -/
theorem copied_record {r : Record}
    (h : ∀ pieces, r.data = .other pieces → ∀ n, .name n ∈ pieces → moveName v n = n) :
    List.Forall₂ (Copied v) (staying v4 v6 r.parts) (rewriteRecord v4 v6 v r).parts := by
  have howner : Copied v (.piece (.name r.owner)) (.piece (.name (moveName v r.owner))) :=
    ⟨length_encode_move _ _ _, fun n hn => by cases hn; rfl⟩
  have hfixed : ∀ b b' : Bytes, b'.length = b.length →
      Copied v (.piece (.bytes b)) (.piece (.bytes b')) := fun b b' hl => ⟨hl, fun n hn => by cases hn⟩
  have hdata : List.Forall₂ (Copied v) (staying v4 v6 r.data.parts)
      (rewriteData v4 v6 v r.data).parts := by
    rcases hd : r.data with d | pieces
    · rw [staying_svc]
      exact .cons (hfixed _ _ rfl) (.cons ⟨length_encode_move _ _ _, fun n hn => by cases hn; rfl⟩
        (copied_params _))
    · rw [staying_other]
      exact copied_pieces (h pieces hd)
  exact .cons howner (.cons (hfixed _ _ rfl) hdata)

theorem nameFields_lt {p : ℕ} {l : List Part} {f : ℕ × WireName} (h : f ∈ nameFields p l) :
    p ≤ f.1 ∧ f.1 + f.2.encode.length ≤ p + total Part.size l := by
  obtain ⟨l₁, l₂, rfl, hp⟩ := mem_nameFields.mp h
  rw [total_append, total_cons]
  have : Part.size (.piece (.name f.2)) = f.2.encode.length := rfl
  omega

theorem removals_otherRecord {r : Record} {pieces : List Piece} {p : ℕ} (hd : r.data = .other pieces) :
    removals Part.size (gone v4 v6) p r.parts = [] := by
  have hrecord := removals_record v4 v6 p r []
  rw [List.append_nil, List.append_nil] at hrecord
  rw [hrecord, hd]
  exact Rewrite.removals_other v4 v6 _ pieces

/-- The pointers in the data of a record of another type need not be moved by what is removed after the
record. -/
theorem moveName_other {r : Record} {pieces : List Piece} {n : WireName} {p : ℕ}
    (hd : r.data = .other pieces) (hn : .name n ∈ pieces)
    (hback : ∀ f ∈ nameFields p r.parts, ∀ t ∈ f.2.target, t < f.1 + f.2.encode.length)
    (l : List Part) :
    moveName ([] ++ [] ++ removals Part.size (gone v4 v6) (p + total Part.size r.parts) l) n = n := by
  obtain ⟨pre, post, hpp⟩ := List.append_of_mem hn
  have hmem : ∃ q, (q, n) ∈ nameFields p r.parts := by
    refine ⟨_, mem_nameFields.mpr ⟨.piece (.name r.owner) ::
      .piece (.bytes (r.fixed ++ be16 r.data.encode.length)) :: pre.map Part.piece,
      post.map Part.piece, ?_, rfl⟩⟩
    rw [Record.parts, hd, RData.parts, hpp, List.map_append, List.map_cons]
    rfl
  obtain ⟨q, hq⟩ := hmem
  refine moveName_eq_self fun t ht => ?_
  have hlt := hback _ hq t ht
  have hle := (nameFields_lt hq).2
  refine (sumBefore_append_removals ?_).trans rfl
  dsimp only at hlt hle
  omega

/-- **The rewritten records** are copies of what stays of the records. A record of another type is kept
only while nothing has been removed, so its pointers need not be moved. -/
theorem copied_records {uQType : ℕ} {rs kept : List Record} {b : Bool} {p : ℕ} {v₀ : List (ℕ × ℕ)}
    (hsvc : ∀ r ∈ rs, (r.uType = uQType ↔ ∃ d, r.data = .svc d))
    (hk : keptRecords v4 v6 uQType b rs = kept)
    (hv : v = v₀ ++ removals Part.size (gone v4 v6) p (kept.flatMap Record.parts))
    (hb : b = false → v₀ = [])
    (hback : ∀ f ∈ nameFields p (kept.flatMap Record.parts), ∀ t ∈ f.2.target,
      t < f.1 + f.2.encode.length) :
    List.Forall₂ (Copied v) (staying v4 v6 (kept.flatMap Record.parts))
      ((kept.map (rewriteRecord v4 v6 v)).flatMap Record.parts) := by
  induction rs generalizing b p v₀ kept with
  | nil =>
    subst hk
    exact .nil
  | cons r rs ih =>
    rw [keptRecords] at hk
    by_cases hstop : r.uType ≠ uQType ∧ b = true
    · rw [if_pos hstop] at hk
      subst hk
      exact .nil
    rw [if_neg hstop] at hk
    obtain ⟨more, hmore⟩ : ∃ more,
      keptRecords v4 v6 uQType (b || r.parts.any (gone v4 v6)) rs = more := ⟨_, rfl⟩
    rw [hmore] at hk
    subst hk
    rw [List.flatMap_cons] at hv hback ⊢
    rw [nameFields_append] at hback
    rw [List.map_cons, List.flatMap_cons, staying_append]
    have hv' := hv
    rw [removals_append, ← List.append_assoc] at hv'
    refine List.rel_append (copied_record fun pieces hd n hn => ?_)
      (ih (fun r' hr' => hsvc r' (List.mem_cons_of_mem _ hr')) hmore hv' (fun hor => ?_)
        fun f hf => hback f (List.mem_append_right _ hf))
    · -- A record of another type: nothing has been removed up to its end.
      have hne : r.uType ≠ uQType := fun he => by
        obtain ⟨d, hd'⟩ := (hsvc r List.mem_cons_self).mp he
        rw [hd] at hd'
        cases hd'
      have hb0 : v₀ = [] := hb (Bool.eq_false_iff.mpr fun hb' => hstop ⟨hne, hb'⟩)
      rw [hv', hb0, removals_otherRecord hd]
      exact moveName_other hd hn (fun f hf => hback f (List.mem_append_left _ hf)) _
    · obtain ⟨hb', hany⟩ := Bool.or_eq_false_iff.mp hor
      rw [hb hb', List.nil_append]
      exact removals_eq_nil.mpr fun x hx => Bool.eq_false_iff.mpr (List.any_eq_false.mp hany x hx)

/-! ### The rewritten message -/

/-- The offset of record `i`. -/
def recordOffset (m : Message) (i : ℕ) : ℕ :=
  m.questionStop + ((m.answers.take i).flatMap Record.encode).length

/-- **What becomes of record `i`**: type, class and TTL stay, and the owner name expands to the same
labels; a record of another type keeps its data, one of the type asked for its priority, the labels its
TargetName expands to, and the parameters that are not dropped. -/
structure KeptAs (v4 v6 : Bool) (uQType : ℕ) (m m' : Message) (i : ℕ) (r r' : Record) : Prop where
  uType : r'.uType = r.uType
  uClass : r'.uClass = r.uClass
  uTimeToLive : r'.uTimeToLive = r.uTimeToLive
  owner : ∀ fuel, expandName m'.encode fuel (recordOffset m' i) =
    expandName m.encode fuel (recordOffset m i)
  other : r.uType ≠ uQType → r'.data.encode = r.data.encode
  svc : r.uType = uQType → ∃ d d', r.data = .svc d ∧ r'.data = .svc d' ∧
    d'.uPriority = d.uPriority ∧ d'.params = d.params.filter (stays v4 v6) ∧
    ∀ fuel, expandName m'.encode fuel (recordOffset m' i + r'.owner.encode.length + 10 + 2) =
      expandName m.encode fuel (recordOffset m i + r.owner.encode.length + 10 + 2)

section Rewritten

variable {uQType : ℕ} {m : Message}

theorem parts_keptParts (v4 v6 : Bool) (uQType : ℕ) (m : Message) :
    ∃ more : List Record, m.parts = keptParts v4 v6 uQType m ++ more.flatMap Record.parts ∧
      m.answers = keptRecords v4 v6 uQType false m.answers ++ more := by
  obtain ⟨more, hmore⟩ := keptRecords_prefix v4 v6 uQType false m.answers
  refine ⟨more, ?_, hmore⟩
  have hparts : m.parts = frontParts m ++ m.answers.flatMap Record.parts := rfl
  rw [hparts, keptParts, List.append_assoc, ← List.flatMap_append, ← hmore]

/-- The pointers of what is kept go back, to names of what is kept. -/
theorem pointers_kept (hm : WellFormed uQType m) {f : ℕ × WireName}
    (hf : f ∈ nameFields 0 (keptParts v4 v6 uQType m)) {t : ℕ} (ht : t ∈ f.2.target) :
    t < f.1 + f.2.encode.length ∧ ∃ g ∈ nameFields 0 (keptParts v4 v6 uQType m), LabelStart g t := by
  obtain ⟨more, hparts, -⟩ := parts_keptParts v4 v6 uQType m
  have hsplit : nameFieldsOf m = nameFields 0 (keptParts v4 v6 uQType m) ++
      nameFields (0 + total Part.size (keptParts v4 v6 uQType m)) (more.flatMap Record.parts) := by
    rw [nameFieldsOf, hparts, nameFields_append]
  obtain ⟨hlt, g, hg, hgt⟩ := hm.pointers f (hsplit ▸ List.mem_append_left _ hf) t ht
  have hlabels : (encodeLabels f.2.labels).length < f.2.encode.length :=
    length_labels_lt (List.append_nil _).symm
  refine ⟨by omega, g, ?_, hgt⟩
  rw [hsplit] at hg
  rcases List.mem_append.mp hg with hg | hg
  · exact hg
  · have hend := (nameFields_lt hf).2
    have hstart := (nameFields_lt hg).1
    obtain ⟨ls₁, -, -, rfl⟩ := hgt
    omega

theorem removedOf_eq (m : Message) : removedOf v4 v6 uQType m =
    removals Part.size (gone v4 v6) 0 (keptParts v4 v6 uQType m) :=
  (removals_frontParts m _).symm

theorem backward_kept (hm : WellFormed uQType m) : Backward (removedOf v4 v6 uQType m)
    (nameFields m.questionStop ((keptRecords v4 v6 uQType false m.answers).flatMap Record.parts)) := by
  intro f hf t ht
  have hf' : f ∈ nameFields 0 (keptParts v4 v6 uQType m) := by
    rw [keptParts, nameFields_append, total_frontParts, Nat.zero_add]
    exact List.mem_append_right _ hf
  obtain ⟨hlt, g, hg, ls₁, ls₂, hl, rfl⟩ := pointers_kept hm hf' ht
  obtain ⟨l₁, l₂, hl', hp⟩ := mem_nameFields.mp hg
  refine ⟨hlt, ?_⟩
  rw [hp, Nat.zero_add]
  exact (moved_labelStart ((removedOf_eq m).trans (by rw [hl'])) hl).2

theorem copied_message (hm : WellFormed uQType m) :
    List.Forall₂ (Copied (removedOf v4 v6 uQType m)) (staying v4 v6 (keptParts v4 v6 uQType m))
      (rewriteMessage v4 v6 uQType m).parts := by
  have hrecords := copied_records hm.svc rfl (List.nil_append _).symm (fun _ => rfl)
    fun f hf t ht => (@backward_kept v4 v6 uQType m hm f hf t ht).1
  rw [keptParts, staying_append]
  refine List.rel_append (.cons ⟨rfl, fun n hn => by cases hn⟩ (.cons ⟨rfl, fun n hn => ?_⟩
    (.cons ⟨rfl, fun n hn => by cases hn⟩ .nil))) hrecords
  cases hn
  rfl

/-- **A name of what is kept** expands in the output to what it expands to in the message. -/
theorem expandName_kept (hm : WellFormed uQType m) {l₁ l₂ : List Part} {n : WireName}
    (hl : keptParts v4 v6 uQType m = l₁ ++ .piece (.name n) :: l₂) (fuel : ℕ) :
    expandName (rewriteMessage v4 v6 uQType m).encode fuel (total Part.size (staying v4 v6 l₁)) =
      expandName m.encode fuel (total Part.size l₁) := by
  obtain ⟨more, hparts, -⟩ := parts_keptParts v4 v6 uQType m
  have henc : m.encode = (keptParts v4 v6 uQType m).flatMap Part.encode ++
      ((more.flatMap Record.parts).flatMap Part.encode ++ m.rest) := by
    rw [encode_messageParts, hparts, List.flatMap_append, List.append_assoc]
  have hmem : (total Part.size l₁, n) ∈ nameFields 0 (keptParts v4 v6 uQType m) :=
    mem_nameFields.mpr ⟨l₁, l₂, hl, (Nat.zero_add _).symm⟩
  have hexp := expandName_copied henc (encode_messageParts _) (removedOf_eq m) (copied_message hm)
    (fun f hf t ht => (pointers_kept hm hf ht).2) hmem
    ⟨[], n.labels, rfl, rfl⟩ fuel
  have hmoved := (moved_labelStart ((removedOf_eq m).trans (by rw [hl])) (List.nil_append n.labels).symm).1
  exact (congrArg _ hmoved.symm).trans hexp

theorem total_rewriteRecord (v : List (ℕ × ℕ)) (r : Record) :
    total Part.size (rewriteRecord v4 v6 v r).parts = total Part.size (staying v4 v6 r.parts) := by
  have hfront : staying v4 v6 r.parts = .piece (.name r.owner) ::
      .piece (.bytes (r.fixed ++ be16 r.data.encode.length)) :: staying v4 v6 r.data.parts := rfl
  have hname : ∀ n : WireName,
      Part.size (.piece (.name (moveName v n))) = Part.size (.piece (.name n)) :=
    fun n => length_encode_move _ _ n
  have hdata : total Part.size (rewriteData v4 v6 v r.data).parts =
      total Part.size (staying v4 v6 r.data.parts) := by
    rcases r.data with d | pieces
    · rw [staying_svc]
      simp only [rewriteData, RData.parts, total_cons, hname]
    · rw [staying_other]
      rfl
  rw [hfront, total_cons, total_cons, ← hdata, ← hname r.owner]
  rfl

theorem total_rewriteRecords (v : List (ℕ × ℕ)) (rs : List Record) :
    total Part.size ((rs.map (rewriteRecord v4 v6 v)).flatMap Record.parts) =
      total Part.size (staying v4 v6 (rs.flatMap Record.parts)) := by
  induction rs with
  | nil => rfl
  | cons r rs ih =>
    rw [List.map_cons, List.flatMap_cons, List.flatMap_cons, staying_append, total_append,
      total_append, ih, total_rewriteRecord]

theorem recordOffset_kept {i : ℕ} (hi : i < (keptRecords v4 v6 uQType false m.answers).length) :
    recordOffset m i = total Part.size (frontParts m ++
      ((keptRecords v4 v6 uQType false m.answers).take i).flatMap Record.parts) ∧
    recordOffset (rewriteMessage v4 v6 uQType m) i = total Part.size (staying v4 v6 (frontParts m ++
      ((keptRecords v4 v6 uQType false m.answers).take i).flatMap Record.parts)) := by
  obtain ⟨more, -, hmore⟩ := parts_keptParts v4 v6 uQType m
  have hfront : staying v4 v6 (frontParts m) = frontParts m := rfl
  have htake : m.answers.take i = (keptRecords v4 v6 uQType false m.answers).take i := by
    conv_lhs => rw [hmore]
    exact List.take_append_of_le_length hi.le
  constructor
  · rw [recordOffset, htake, total_append, total_frontParts, total_parts, ← encode_answersParts]
  · rw [staying_append, hfront, total_append, total_frontParts,
      ← total_rewriteRecords (removedOf v4 v6 uQType m), total_parts, ← encode_answersParts, List.map_take]
    rfl

/-- **Every kept record** is kept as `KeptAs` says. -/
theorem keptAs_rewriteMessage (hm : WellFormed uQType m) {i : ℕ} {r : Record}
    (hr : (keptRecords v4 v6 uQType false m.answers)[i]? = some r) :
    KeptAs v4 v6 uQType m (rewriteMessage v4 v6 uQType m) i r
      (rewriteRecord v4 v6 (removedOf v4 v6 uQType m) r) := by
  obtain ⟨more, -, hmore⟩ := parts_keptParts v4 v6 uQType m
  obtain ⟨hi, hget⟩ := List.getElem?_eq_some_iff.mp hr
  obtain ⟨hoff, hoff'⟩ := recordOffset_kept hi
  have hsvc := hm.svc r (hmore ▸ List.mem_append_left _ (List.mem_of_getElem? hr))
  have hparts : keptParts v4 v6 uQType m = (frontParts m ++
      ((keptRecords v4 v6 uQType false m.answers).take i).flatMap Record.parts) ++ (r.parts ++
        ((keptRecords v4 v6 uQType false m.answers).drop (i + 1)).flatMap Record.parts) := by
    rw [keptParts, List.append_assoc, ← List.flatMap_cons, ← List.flatMap_append, ← hget,
      ← List.drop_eq_getElem_cons hi, List.take_append_drop]
  obtain ⟨A, hA⟩ : ∃ A, A = frontParts m ++
    ((keptRecords v4 v6 uQType false m.answers).take i).flatMap Record.parts := ⟨_, rfl⟩
  rw [← hA] at hparts hoff hoff'
  refine ⟨rfl, rfl, rfl, fun fuel => ?_, fun hne => ?_, fun he => ?_⟩
  · rw [hoff, hoff']
    exact expandName_kept hm hparts fuel
  · show (rewriteData v4 v6 _ r.data).encode = _
    rcases hd : r.data with d | pieces
    · exact absurd (hsvc.mpr ⟨d, hd⟩) hne
    · rfl
  · obtain ⟨d, hd⟩ := hsvc.mp he
    refine ⟨d, _, hd, congrArg (rewriteData v4 v6 (removedOf v4 v6 uQType m)) hd, rfl, rfl,
      fun fuel => ?_⟩
    have hsplit : r.parts = [.piece (.name r.owner),
        .piece (.bytes (r.fixed ++ be16 r.data.encode.length)), .piece (.bytes (be16 d.uPriority))] ++
          .piece (.name d.target) :: d.params.map Part.param := by
      rw [Record.parts, hd]
      rfl
    rw [hsplit, List.append_assoc, ← List.append_assoc A, List.cons_append] at hparts
    have hlen : (rewriteRecord v4 v6 (removedOf v4 v6 uQType m) r).owner.encode.length =
        r.owner.encode.length := length_encode_move _ _ _
    have hexp := expandName_kept hm hparts fuel
    rw [staying_append, total_append, total_append, ← hoff, ← hoff'] at hexp
    rw [hlen]
    exact hexp

end Rewritten

/-- **Removing hints preserves the rest.** On every well-formed SVCB or HTTPS response `DropAddress`
returns true. Its output has the message's ID, flags and question, nothing in the other two sections,
and for answers the first records of the message, up to the first one of another type after a removed
parameter, each kept as `KeptAs` says. -/
theorem dropAddress_preserves {uQType : ℕ} {m : Message} (hq : uQType = typeSVCB ∨ uQType = typeHTTPS)
    (hm : WellFormed uQType m) (v4 v6 : Bool) :
    ∃ m' : Message, dropAddress m.encode uQType v4 v6 = .ok (true, m'.encode) ∧
      m'.uID = m.uID ∧ m'.uFlag = m.uFlag ∧ m'.question = m.question ∧
      m'.uAuthority = 0 ∧ m'.uAdditional = 0 ∧ m'.rest = [] ∧
      IsCut v4 v6 uQType m.answers m'.answers.length ∧
      ∀ (i : ℕ) (r r' : Record), m.answers[i]? = some r → m'.answers[i]? = some r' →
        KeptAs v4 v6 uQType m m' i r r' := by
  refine ⟨rewriteMessage v4 v6 uQType m, dropAddress_encode v4 v6 hq hm.svc (backward_kept hm), rfl,
    rfl, rfl, rfl, rfl, rfl, ?_, fun i r r' hr hr' => ?_⟩
  · have hlen : (rewriteMessage v4 v6 uQType m).answers.length =
        (keptRecords v4 v6 uQType false m.answers).length := List.length_map _
    rw [hlen]
    exact isCut_keptRecords uQType m.answers
  · have hr' : ((keptRecords v4 v6 uQType false m.answers).map
        (rewriteRecord v4 v6 (removedOf v4 v6 uQType m)))[i]? = some r' := hr'
    rw [List.getElem?_map] at hr'
    obtain ⟨r₀, hr₀, rfl⟩ := Option.map_eq_some_iff.mp hr'
    obtain ⟨more, -, hmore⟩ := parts_keptParts v4 v6 uQType m
    have hi := (List.getElem?_eq_some_iff.mp hr₀).1
    rw [hmore, List.getElem?_append_left hi, hr₀] at hr
    cases hr
    exact keptAs_rewriteMessage hm hr₀

/-- A response for "a." with two HTTPS records: the first has an address hint, and the owner name "b." of
the second is the target name of the second. -/
def sample : Message where
  uID := 5
  uFlag := 0x8180
  uAuthority := 0
  uAdditional := 1
  qname := [⟨[97], by decide, by decide⟩]
  uQType := typeHTTPS
  answers :=
    [{ owner := ⟨[], .ptr 12 (by decide)⟩
       uType := typeHTTPS
       uClass := 1
       uTimeToLive := 60
       data := .svc ⟨1, ⟨[], .root⟩, [⟨4, [1, 2, 3, 4], by decide, by decide⟩], by decide⟩
       type_lt := by decide
       class_lt := by decide
       ttl_lt := by decide
       length_lt := by decide },
     { owner := ⟨[⟨[98], by decide, by decide⟩], .root⟩
       uType := typeHTTPS
       uClass := 1
       uTimeToLive := 60
       data := .svc ⟨1, ⟨[], .ptr 42 (by decide)⟩, [], by decide⟩
       type_lt := by decide
       class_lt := by decide
       ttl_lt := by decide
       length_lt := by decide }]
  rest := [0]
  id_lt := by decide
  flag_lt := by decide
  authority_lt := by decide
  additional_lt := by decide
  type_lt := by decide
  answers_lt := by decide

theorem wellFormed_sample : WellFormed typeHTTPS sample where
  svc := by
    intro r hr
    rcases List.mem_cons.mp hr with rfl | hr
    · exact ⟨fun _ => ⟨_, rfl⟩, fun _ => rfl⟩
    · rw [List.mem_singleton.mp hr]
      exact ⟨fun _ => ⟨_, rfl⟩, fun _ => rfl⟩
  pointers := by
    have hfields : nameFieldsOf sample = [(12, ⟨sample.qname, .root⟩), (19, ⟨[], .ptr 12 (by decide)⟩),
        (33, ⟨[], .root⟩), (42, ⟨[⟨[98], by decide, by decide⟩], .root⟩),
        (57, ⟨[], .ptr 42 (by decide)⟩)] := rfl
    intro f hf t ht
    rw [hfields] at hf ⊢
    simp only [List.mem_cons, List.not_mem_nil, or_false] at hf
    rcases hf with rfl | rfl | rfl | rfl | rfl
    · cases ht
    · cases ht
      exact ⟨by decide, _, List.mem_cons_self, [], sample.qname, rfl, rfl⟩
    · cases ht
    · cases ht
    · cases ht
      exact ⟨by decide, _, List.mem_of_getElem? (i := 3) rfl, [], _, rfl, rfl⟩

/-- Without IPv4 the hint is removed, and the names of both records stay. -/
theorem dropAddress_preserves_sample :
    ∃ m' : Message, dropAddress sample.encode typeHTTPS true false = .ok (true, m'.encode) ∧
      m'.uID = sample.uID ∧ m'.uFlag = sample.uFlag ∧ m'.question = sample.question ∧
      m'.uAuthority = 0 ∧ m'.uAdditional = 0 ∧ m'.rest = [] ∧
      IsCut true false typeHTTPS sample.answers m'.answers.length ∧
      ∀ (i : ℕ) (r r' : Record), sample.answers[i]? = some r → m'.answers[i]? = some r' →
        KeptAs true false typeHTTPS sample m' i r r' :=
  dropAddress_preserves (Or.inr rfl) wellFormed_sample true false

/-! ### Responses with addresses -/

/-- A record of class IN for the name asked for. -/
def answer (uType : ℕ) (data : RData) (ht : uType < 65536) (hl : data.encode.length < 65536) : Record where
  owner := ⟨[], .ptr 12 (by decide)⟩
  uType := uType
  uClass := 1
  uTimeToLive := 60
  data := data
  type_lt := ht
  class_lt := by decide
  ttl_lt := by decide
  length_lt := hl

/-- A response for "a.bc" with an alias, addresses of both families, three bytes that are no address, and
hints of both families, of which the first has a byte left over. -/
def addressesReply : Message where
  uID := 7
  uFlag := 0x8180
  uAuthority := 0
  uAdditional := 1
  qname := [⟨[97], by decide, by decide⟩, ⟨[98, 99], by decide, by decide⟩]
  uQType := typeHTTPS
  answers :=
    [answer 5 (.other [.name ⟨[], .ptr 14 (by decide)⟩]) (by decide) (by decide),
      answer 1 (.other [.bytes [1, 2, 3, 4]]) (by decide) (by decide),
      answer 65 (.svc ⟨1, ⟨[], .root⟩, [⟨1, [2, 104, 50], by decide, by decide⟩,
        ⟨4, [5, 6, 7, 8, 9, 10, 11, 12, 13], by decide, by decide⟩,
        ⟨6, 32 :: List.replicate 15 1, by decide, by decide⟩], by decide⟩) (by decide) (by decide),
      answer 1 (.other [.bytes [1, 2, 3]]) (by decide) (by decide),
      answer 28 (.other [.bytes (32 :: List.replicate 15 2)]) (by decide) (by decide)]
  rest := [0]
  id_lt := by decide
  flag_lt := by decide
  authority_lt := by decide
  additional_lt := by decide
  type_lt := by decide
  answers_lt := by decide

/-- A response for HTTPS with an IPv4 address, and a hint of each family. -/
def hintsReply (nIP nHint : UInt32) : Message where
  uID := 7
  uFlag := 0x8180
  uAuthority := 0
  uAdditional := 0
  qname := [⟨[97], by decide, by decide⟩]
  uQType := typeHTTPS
  answers :=
    [answer typeA (.other [.bytes (be32 nIP.toNat)]) (by decide) (by simp [RData.encode, Piece.encode]),
      answer typeHTTPS (.svc ⟨1, ⟨[], .root⟩, [⟨4, be32 nHint.toNat, by decide, by simp⟩,
        ⟨6, [32, 1] ++ List.replicate 14 1, by decide, by decide⟩], by decide⟩) (by decide)
        (by simp [RData.encode, SvcData.encode, SvcParam.encode, WireName.encode, encodeLabels, NameEnd.encode])]
  rest := []
  id_lt := by decide
  flag_lt := by decide
  authority_lt := by decide
  additional_lt := by decide
  type_lt := by decide
  answers_lt := by simp

end DnsMultiZone.Rfc1035.Expand
