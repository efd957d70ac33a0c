import DnsMultiZone.Rfc1035.Expand
import DnsMultiZone.Rfc1035.Judge

/-! # Dropping twice

What `DropAddress` has written holds no parameter that it would drop, so a second call takes nothing away
and writes the same bytes. On a well-formed answer section, two calls with different flags cut the records
where one call with both flags does, and the second call moves every pointer from where the first has
moved it to where the one call does.

* `dropAddress_again`: a second call with the same flags.
* `dropAddress_both`: two calls, and one call with the flags of both.
* `dropped_twice`: IPv4 and IPv6 in any order, or at once. -/

namespace DnsMultiZone.Rfc1035.Twice

open DnsMultiZone.Lib.BigEndian DnsMultiZone.Lib.Results DnsMultiZone.Lib.Relocate
open DnsMultiZone.Rfc1035.Reader DnsMultiZone.Rfc1035.Parse DnsMultiZone.Rfc1035.Drop
open DnsMultiZone.Rfc1035.Append DnsMultiZone.Rfc1035.Question DnsMultiZone.Rfc1035.Wire
open DnsMultiZone.Rfc1035.Records DnsMultiZone.Rfc1035.Rewrite DnsMultiZone.Rfc1035.Judge
open DnsMultiZone.Rfc1035.Expand (moveName_eq_self staying staying_append staying_svc staying_other
  any_gone_iff isDropped_iff HasDropped keptRecords_prefix nameFields_lt pos_of_gone)

variable {s d out : Bytes} {uQType p : ℕ} {v4 v6 : Bool} {r : Record} {rs : List Record}

/-! ### A second pass -/

/-- A pass over a message that a pass has written: it starts from the question and the records that were
written, and writes them behind the question of the first message. -/
theorem dropHints_second {b : AutoBuffer} {o : Header} {k : ℕ} {x : Bytes}
    (hp : parseRequestAAndAnswers (assign d) {} = (some b, o))
    (h : setCounts (d.take b.szOffset ++ rs.flatMap Record.encode) rs.length = .ok out)
    (hn : rs.length < 65536) (hle : (rs.flatMap Record.encode).length ≤ d.length - b.szOffset)
    (hr : out.drop b.szOffset = rs.flatMap Record.encode ++ [] →
      dropRecords out uQType v4 v6 rs.length 0 ⟨b.szOffset, out.take b.szOffset, []⟩ =
        .ok (k, out.take b.szOffset ++ x)) :
    dropHints out uQType v4 v6 = setCounts (d.take b.szOffset ++ x) k := by
  have hrew := rewritten_of_setCounts hp h hle
  obtain ⟨c, o', hc, hcount, hco, -, hdrop⟩ := rest_of_setCounts hp h hn hle
  have hq : questionEnd out = .ok (b.szOffset, rs.length) := by
    rw [questionEnd_of_parse hc, hcount, hco]
  rw [dropHints_of_records hq hrew.le (hr (hdrop.trans (List.append_nil _).symm))]
  exact setCounts_rewritten hrew x k

/-! ### Nothing left to drop -/

theorem removals_cleared (hc : Cleared uQType v4 v6 r) (hs : Seen uQType r) (p : ℕ) :
    removals Part.size (gone v4 v6) p r.parts = [] := by
  refine removals_eq_nil.mpr fun x hx => ?_
  have hdata : ∀ y ∈ r.data.parts, gone v4 v6 y = false := by
    by_cases ht : r.uType = uQType
    · obtain ⟨d, hd, hkept⟩ := hc ht
      intro y hy
      rw [hd] at hy
      rcases List.mem_cons.mp hy with rfl | hy
      · rfl
      rcases List.mem_cons.mp hy with rfl | hy
      · rfl
      obtain ⟨a, ha, rfl⟩ := List.mem_map.mp hy
      exact hkept a ha
    · obtain ⟨b, hb⟩ := hs.2 ht
      intro y hy
      rw [hb] at hy
      obtain rfl := List.mem_singleton.mp hy
      rfl
  rcases List.mem_cons.mp hx with rfl | hx
  · rfl
  rcases List.mem_cons.mp hx with rfl | hx
  · rfl
  exact hdata x hx

theorem rewriteRecord_cleared (hc : Cleared uQType v4 v6 r) (hs : Seen uQType r) :
    rewriteRecord v4 v6 [] r = r := by
  have hname : ∀ n : WireName, moveName [] n = n := fun n => moveName_eq_self fun _ _ => rfl
  have hdata : rewriteData v4 v6 [] r.data = r.data := by
    by_cases ht : r.uType = uQType
    · obtain ⟨d, hd, hkept⟩ := hc ht
      have hall : d.params.filter (stays v4 v6) = d.params :=
        List.filter_eq_self.mpr fun a ha => by rw [stays_eq, hkept a ha]; rfl
      rw [hd, rewriteData, hname, hall]
    · obtain ⟨b, hb⟩ := hs.2 ht
      rw [hb, rewriteData]
  obtain ⟨owner, t, cl, ttl, data, h1, h2, h3, h4⟩ := r
  simp only [rewriteRecord, Record.mk.injEq, true_and]
  exact ⟨hname owner, hdata⟩

/-- **Cleared records** are all written as they are. -/
theorem dropRecords_cleared {i : ℕ} {c : Cursor} {rest : Bytes} (hv : c.vRemoved = [])
    (h : s.drop c.p = rs.flatMap Record.encode ++ rest)
    (hall : ∀ r ∈ rs, Cleared uQType v4 v6 r ∧ Seen uQType r) :
    dropRecords s uQType v4 v6 rs.length i c =
      .ok (i + rs.length, c.sOut ++ rs.flatMap Record.encode) := by
  obtain ⟨p, sOut, v⟩ := c
  obtain rfl : v = [] := hv
  induction rs generalizing p sOut i with
  | nil => simp [dropRecords]
  | cons r rs ih =>
    obtain ⟨hc, hs⟩ := hall r List.mem_cons_self
    rw [List.flatMap_cons, List.append_assoc] at h
    have hread : Readable [] r := ⟨fun t _ => Nat.zero_le t, fun _ _ t _ => Nat.zero_le t⟩
    have hstep := dropRecord_encode v4 v6 (c := ⟨p, sOut, []⟩) hs.iff h fun _ => hread
    rw [if_neg fun hn => hn.2 rfl, rewriteRecord_cleared hc hs, removals_cleared hc hs] at hstep
    have hrec := ih (i := i + 1) (fun r' hr' => hall r' (List.mem_cons_of_mem _ hr'))
      (p + r.encode.length) (sOut ++ r.encode) (drop_add h)
    rw [List.length_cons, dropRecords]
    refine (bind_of_ok hstep _).trans (hrec.trans ?_)
    rw [List.flatMap_cons, List.append_assoc, show i + 1 + rs.length = i + (rs.length + 1) by omega]

theorem dropHints_again (h : dropHints d uQType v4 v6 = .ok out) :
    dropHints out uQType v4 v6 = .ok out := by
  obtain ⟨b, o, rs, hp, hset, hn, hle, hall⟩ := records_of_dropHints h
  have hsecond := dropHints_second hp hset hn hle fun hdrop =>
    dropRecords_cleared (i := 0) (c := ⟨b.szOffset, out.take b.szOffset, []⟩) rfl hdrop hall
  rw [hsecond, Nat.zero_add, hset]

theorem emptyResponse_again (h : emptyResponse d = .ok out) : emptyResponse out = .ok out := by
  obtain ⟨b, o, hp, h⟩ := emptyResponse_steps h
  have hrew := rewritten_of_setCounts hp h (by simp)
  obtain ⟨c, hc, hco⟩ := parse_stable hrew.parses hrew.header hrew.question hrew.le hrew.length_le
  rw [emptyResponse_of_parse hc, hco, setCounts_rewritten hrew, h]

/-- **A second call with the same flags** changes nothing. -/
theorem dropAddress_again (h : dropAddress d uQType v4 v6 = .ok (true, out)) :
    dropAddress out uQType v4 v6 = .ok (true, out) := by
  rw [dropAddress_ok] at h ⊢
  unfold dropped at h ⊢
  split_ifs at h ⊢
  · exact emptyResponse_again h
  · rfl
  · exact emptyResponse_again h
  · rfl
  · rfl
  · exact dropHints_again h

/-! ### Parts after a pass -/

variable {v v' : List (ℕ × ℕ)} {a b a' b' : Bool} {l l' : List Part}

/-- A part, and what a pass writes of it: a name has its pointer moved, the length of a record's data is
another number. -/
inductive Moved (v : List (ℕ × ℕ)) : Part → Part → Prop
  | name (n : WireName) : Moved v (.piece (.name n)) (.piece (.name (moveName v n)))
  | bytes (x x' : Bytes) (h : x'.length = x.length) : Moved v (.piece (.bytes x)) (.piece (.bytes x'))
  | param (x : SvcParam) : Moved v (.param x) (.param x)

theorem Moved.size_gone {x x' : Part} (h : Moved v x x') :
    x'.size = x.size ∧ ∀ a b, gone a b x' = gone a b x := by
  rcases h with n | ⟨x, x', hx⟩ | x
  · exact ⟨length_encode_move _ _ _, fun _ _ => rfl⟩
  · exact ⟨hx, fun _ _ => rfl⟩
  · exact ⟨rfl, fun _ _ => rfl⟩

/-- The next pass removes at the same offsets. -/
theorem removals_moved (h : List.Forall₂ (Moved v) l l') :
    removals Part.size (gone a b) p l' = removals Part.size (gone a b) p l := by
  induction h generalizing p with
  | nil => rfl
  | cons hx _ ih =>
    obtain ⟨hsize, hgone⟩ := hx.size_gone
    rw [removals, removals, hsize, hgone a b, ih]

theorem nameFields_moved (h : List.Forall₂ (Moved v) l l') :
    nameFields p l' = (nameFields p l).map fun f => (f.1, moveName v f.2) := by
  induction h generalizing p with
  | nil => rfl
  | cons hx _ ih =>
    have hsize := hx.size_gone.1
    rcases hx with n | ⟨x, x', hx⟩ | x
    · rw [nameFields, nameFields, ih, length_encode_move]
      rfl
    · rw [nameFields, nameFields, ih, hx]
    · rw [nameFields, nameFields, ih]

theorem moved_record (hs : Seen uQType r) (v : List (ℕ × ℕ)) :
    List.Forall₂ (Moved v) (staying a b r.parts) (rewriteRecord a b v r).parts := by
  have hparams : ∀ ps : List SvcParam,
      List.Forall₂ (Moved v) (ps.map Part.param) (ps.map Part.param) := fun ps => by
    induction ps with
    | nil => exact .nil
    | cons x ps ih => exact .cons (.param x) ih
  have hdata : List.Forall₂ (Moved v) (staying a b r.data.parts) (rewriteData a b v r.data).parts := by
    by_cases ht : r.uType = uQType
    · obtain ⟨d, hd⟩ := hs.1 ht
      rw [hd, staying_svc]
      exact .cons (.bytes _ _ rfl) (.cons (.name _) (hparams _))
    · obtain ⟨x, hx⟩ := hs.2 ht
      rw [hx, staying_other]
      exact .cons (.bytes _ _ rfl) .nil
  exact .cons (.name _) (.cons (.bytes _ _ rfl) hdata)

theorem moved_records (hs : ∀ r ∈ rs, Seen uQType r) (v : List (ℕ × ℕ)) :
    List.Forall₂ (Moved v) (staying a b (rs.flatMap Record.parts))
      ((rs.map (rewriteRecord a b v)).flatMap Record.parts) := by
  induction rs with
  | nil => exact .nil
  | cons r rs ih =>
    rw [List.map_cons, List.flatMap_cons, List.flatMap_cons, staying_append]
    exact List.rel_append (moved_record (hs r List.mem_cons_self) v)
      (ih fun r' hr' => hs r' (List.mem_cons_of_mem _ hr'))

/-! ### The flags of both passes -/

theorem isDropped_or (k : ℕ) (a b a' b' : Bool) :
    isDropped k (a || a') (b || b') = (isDropped k a b || isDropped k a' b') := by
  unfold isDropped
  rcases k == svcParamIPv4Hint <;> rcases k == svcParamIPv6Hint <;> rcases a <;> rcases b <;> rcases a' <;>
    rcases b' <;> rfl

theorem gone_or (a b a' b' : Bool) :
    gone (a || a') (b || b') = fun x => gone a b x || gone a' b' x := by
  funext x
  rcases x with x | x
  · rfl
  · exact isDropped_or x.uKey a b a' b'

theorem gone_imp {x : Part} (h : gone a b x = true) : gone true true x = true := by
  have hor := congrFun (gone_or a b true true) x
  rw [Bool.or_true, Bool.or_true, h, Bool.true_or] at hor
  exact hor

theorem rewriteRecord_any (r : Record) (v : List (ℕ × ℕ)) : (r.parts.any (gone a b) ||
    (rewriteRecord a b v r).parts.any (gone a' b')) = r.parts.any (gone (a || a') (b || b')) := by
  have hdata : (rewriteRecord a b v r).data = rewriteData a b v r.data := rfl
  rw [Bool.eq_iff_iff, Bool.or_eq_true, any_gone_iff, any_gone_iff, any_gone_iff]
  simp only [HasDropped, ← isDropped_iff]
  rw [hdata]
  constructor
  · rintro (⟨d, hd, x, hx, hgone⟩ | ⟨d', hd', x, hx, hgone⟩)
    · exact ⟨d, hd, x, hx, by rw [isDropped_or, hgone, Bool.true_or]⟩
    · rcases hd : r.data with d | pieces <;> rw [hd] at hd'
      · obtain rfl := RData.svc.inj hd'
        exact ⟨d, rfl, x, (List.mem_filter.mp hx).1, by rw [isDropped_or, hgone, Bool.or_true]⟩
      · cases hd'
  · rintro ⟨d, hd, x, hx, hgone⟩
    rw [isDropped_or] at hgone
    by_cases hab : isDropped x.uKey a b
    · exact Or.inl ⟨d, hd, x, hx, hab⟩
    · rw [Bool.eq_false_iff.mpr hab, Bool.false_or] at hgone
      refine Or.inr ⟨_, by rw [hd]; rfl, x, List.mem_filter.mpr ⟨hx, ?_⟩, hgone⟩
      rw [stays_eq, Bool.eq_false_iff.mpr hab]
      rfl

/-- **Where the records are cut**: the second pass cuts what the first has left where one pass with the
flags of both does. -/
theorem keptRecords_twice (rs : List Record) (v : List (ℕ × ℕ)) (i j : Bool) :
    keptRecords a' b' uQType j ((keptRecords a b uQType i rs).map (rewriteRecord a b v)) =
      (keptRecords (a || a') (b || b') uQType (i || j) rs).map (rewriteRecord a b v) := by
  induction rs generalizing i j with
  | nil => rfl
  | cons r rs ih =>
    have htype : (rewriteRecord a b v r).uType = r.uType := rfl
    rw [keptRecords, keptRecords]
    by_cases hi : r.uType ≠ uQType ∧ i = true
    · rw [if_pos hi, if_pos ⟨hi.1, by rw [hi.2, Bool.true_or]⟩]
      rfl
    · rw [if_neg hi, List.map_cons, keptRecords, htype]
      by_cases hj : r.uType ≠ uQType ∧ j = true
      · rw [if_pos hj, if_pos ⟨hj.1, by rw [hj.2, Bool.or_true]⟩]
        rfl
      · have hij : ¬ (r.uType ≠ uQType ∧ (i || j) = true) := fun hn =>
          (Bool.or_eq_true_iff.mp hn.2).elim (fun h => hi ⟨hn.1, h⟩) fun h => hj ⟨hn.1, h⟩
        rw [if_neg hj, if_neg hij, List.map_cons, ih, ← rewriteRecord_any r v]
        congr 3
        rw [Bool.or_assoc, Bool.or_assoc, Bool.or_left_comm (r.parts.any (gone a b)) j]

/-! ### Where pointers go -/

/-- **A well-formed answer section** from offset `p` on: a record of the type asked for has SVCB data, and
the pointers of owner names and TargetNames go back, none of them to the inside of a hint parameter. -/
structure AnswerSection (s : Bytes) (uQType p : ℕ) (rs : List Record) (rest : Bytes) : Prop where
  stop : questionEnd s = .ok (p, rs.length)
  bytes : s.drop p = rs.flatMap Record.encode ++ rest
  seen : uQType = typeSVCB ∨ uQType = typeHTTPS → ∀ r ∈ rs, Seen uQType r
  back : ∀ f ∈ nameFields p (rs.flatMap Record.parts), ∀ t ∈ f.2.target,
    t < f.1 + (encodeLabels f.2.labels).length
  outside : ∀ f ∈ nameFields p (rs.flatMap Record.parts), ∀ t ∈ f.2.target,
    ∀ h ∈ removals Part.size (gone true true) p (rs.flatMap Record.parts), ¬ (h.1 < t ∧ t < h.1 + h.2)

/-- The pointers of parts laid out from `p`: each goes back, to before the parts or to an offset that is
not inside a hint. -/
def Sound (p : ℕ) (l : List Part) : Prop := ∀ f ∈ nameFields p l, ∀ t ∈ f.2.target,
  t < f.1 + f.2.encode.length ∧ (t < p ∨ ∃ l₁ l₂ k, l = l₁ ++ l₂ ∧ t = p + total Part.size l₁ + k ∧
    Stands Part.size (gone true true) l₂ k)

theorem AnswerSection.sound {rest : Bytes} (h : AnswerSection s uQType p rs rest)
    {kept more : List Record} (hk : rs = kept ++ more) : Sound p (kept.flatMap Record.parts) := by
  have hparts : rs.flatMap Record.parts = kept.flatMap Record.parts ++ more.flatMap Record.parts := by
    rw [hk, List.flatMap_append]
  intro f hf t ht
  have hf' : f ∈ nameFields p (rs.flatMap Record.parts) := by
    rw [hparts, nameFields_append]
    exact List.mem_append_left _ hf
  have hback := h.back f hf' t ht
  have hlabels : (encodeLabels f.2.labels).length < f.2.encode.length :=
    Expand.length_labels_lt (List.append_nil _).symm
  have hend := (nameFields_lt hf).2
  refine ⟨by omega, ?_⟩
  rcases Nat.lt_or_ge t p with hlt | hge
  · exact Or.inl hlt
  · refine Or.inr (stands_of_outside hge (by omega) fun r hr => h.outside f hf' t ht r ?_)
    rw [hparts, removals_append]
    exact List.mem_append_left _ hr

theorem removedBefore_stands {l₁ l₂ : List Part} {k : ℕ} (hs : Stands Part.size (gone a b) l₂ k) :
    removedBefore (removals Part.size (gone a b) p (l₁ ++ l₂)) (p + total Part.size l₁ + k) ≤
      p + total Part.size l₁ + k ∧
    moved (removals Part.size (gone a b) p (l₁ ++ l₂)) (p + total Part.size l₁ + k) =
      p + total Part.size (staying a b l₁) + k := by
  have hpos : ∀ y ∈ l₁, gone a b y = true → 0 < y.size := fun y _ hy => pos_of_gone hy
  have hsum := @sumBefore_stands _ Part.size (gone a b) l₁ l₂ p k hs hpos
  have hadd := total_filter_add Part.size (gone a b) l₁
  refine ⟨?_, @relocate_stands _ Part.size (gone a b) l₁ l₂ p k hs hpos⟩
  show sumBefore _ _ ≤ _
  omega

theorem removedBefore_front {t : ℕ} (ht : t < p) :
    removedBefore (removals Part.size (gone a b) p l) t = 0 :=
  sumBefore_eq_zero fun r hr => by
    have hle := (mem_removals hr).1
    omega

theorem backward_of_sound (h : Sound p l) :
    Backward (removals Part.size (gone a b) p l) (nameFields p l) := by
  intro f hf t ht
  obtain ⟨hlt, hfront | ⟨l₁, l₂, k, rfl, rfl, hs⟩⟩ := h f hf t ht
  · exact ⟨hlt, by rw [removedBefore_front hfront]; exact Nat.zero_le _⟩
  · exact ⟨hlt, (removedBefore_stands (hs.of_imp fun x hx => gone_imp hx)).1⟩

theorem nameFields_staying {f : ℕ × WireName} (h : f ∈ nameFields p (staying a b l)) : ∃ m₁ m₂,
    l = m₁ ++ .piece (.name f.2) :: m₂ ∧ f.1 = p + total Part.size (staying a b m₁) := by
  obtain ⟨l₁, l₂, hl, hp⟩ := mem_nameFields.mp h
  obtain ⟨q₁, q₂, rfl, rfl, hq⟩ := List.filter_eq_append_iff.mp hl
  obtain ⟨g, m₂, rfl, hg, -, -⟩ := List.filter_eq_cons_iff.mp hq
  refine ⟨q₁ ++ g, m₂, (List.append_assoc _ _ _).symm, ?_⟩
  have hnil : staying a b g = [] := List.filter_eq_nil_iff.mpr hg
  rw [staying_append, hnil, List.append_nil]
  exact hp

/-- **After a pass** the pointers still go back, to where the next pass removes no more than is there. -/
theorem backward_moved (h : Sound p l)
    (hm : List.Forall₂ (Moved (removals Part.size (gone a b) p l)) (staying a b l) l') :
    Backward (removals Part.size (gone a' b') p l') (nameFields p l') := by
  rw [removals_moved hm, nameFields_moved hm]
  intro f' hf' t' ht'
  obtain ⟨f, hf, rfl⟩ := List.mem_map.mp hf'
  obtain ⟨m₁, m₂, hl, hp⟩ := nameFields_staying hf
  obtain ⟨q, n⟩ := f
  obtain ⟨labels, _ | ⟨t, lt⟩⟩ := n
  · cases ht'
  obtain rfl : moved (removals Part.size (gone a b) p l) t = t' := Option.some.inj ht'
  have hmem : (p + total Part.size m₁, WireName.mk labels (.ptr t lt)) ∈ nameFields p l :=
    mem_nameFields.mpr ⟨m₁, m₂, hl, rfl⟩
  have hlen : 0 < (WireName.mk labels (.ptr t lt)).encode.length := by
    simp [WireName.encode, NameEnd.encode]
  dsimp only at hp ⊢
  rw [length_encode_move, hp]
  obtain ⟨hlt, hfront | ⟨l₁, l₂, k, rfl, rfl, hs⟩⟩ := h _ hmem t rfl
  · have hle := moved_le (removals Part.size (gone a b) p l) t
    refine ⟨by omega, ?_⟩
    rw [removedBefore_front (by omega)]
    exact Nat.zero_le _
  · have hsab := hs.of_imp fun x (hx : gone a b x = true) => gone_imp hx
    have hsab' := (hs.filter fun x (hx : gone a b x = true) => gone_imp hx).of_imp
      fun x (hx : gone a' b' x = true) => gone_imp hx
    dsimp only at hlt
    have hbefore : total Part.size (staying a b l₁) + k <
        total Part.size (staying a b m₁) + (WireName.mk labels (.ptr _ lt)).encode.length :=
      hsab.lt hl hlen (by
        show _ < total Part.size m₁ + (WireName.mk labels (.ptr _ lt)).encode.length
        omega)
    rw [(removedBefore_stands hsab).2, staying_append]
    exact ⟨by omega, (removedBefore_stands hsab').1⟩

/-- **Two passes move a pointer** as one pass with the flags of both does. -/
theorem moved_moved (h : Sound p l) {f : ℕ × WireName} (hf : f ∈ nameFields p l) {t : ℕ}
    (ht : t ∈ f.2.target) : moved (removals Part.size (gone a' b') p (staying a b l))
      (moved (removals Part.size (gone a b) p l) t) =
        moved (removals Part.size (gone (a || a') (b || b')) p l) t := by
  obtain ⟨-, hfront | ⟨l₁, l₂, k, rfl, rfl, hs⟩⟩ := h f hf t ht
  · unfold moved
    rw [removedBefore_front hfront, Nat.sub_zero, removedBefore_front hfront,
      removedBefore_front hfront]
  · have hor := hs.of_imp fun x (hx : (gone a b x || gone a' b' x) = true) =>
      (Bool.or_eq_true_iff.mp hx).elim gone_imp gone_imp
    rw [gone_or]
    refine relocate_relocate hor (fun y _ hy => ?_) rfl
    exact (Bool.or_eq_true_iff.mp hy).elim pos_of_gone pos_of_gone

/-! ### Two passes over the records -/

theorem target_mem_nameFields {d : SvcData} (hd : r.data = .svc d) :
    (p + r.owner.encode.length + 10 + 2, d.target) ∈ nameFields p r.parts := by
  unfold Record.parts
  rw [hd]
  exact List.mem_cons_of_mem _ List.mem_cons_self

theorem rewriteRecord_congr (h : ∀ f ∈ nameFields p r.parts, ∀ t ∈ f.2.target,
    removedBefore v t = removedBefore v' t) : rewriteRecord a b v r = rewriteRecord a b v' r := by
  have ho : moveName v r.owner = moveName v' r.owner :=
    moveName_congr fun t ht => h (p, r.owner) List.mem_cons_self t ht
  have hd : rewriteData a b v r.data = rewriteData a b v' r.data := by
    rcases hd : r.data with d | pieces
    · rw [rewriteData, rewriteData, moveName_congr fun t ht => h _ (target_mem_nameFields hd) t ht]
    · rfl
  simp only [rewriteRecord, ho, hd]

theorem moveName_twice {n : WireName} {w : List (ℕ × ℕ)}
    (h : ∀ t ∈ n.target, moved v' (moved v t) = moved w t) :
    moveName v' (moveName v n) = moveName w n := by
  obtain ⟨labels, _ | ⟨t, lt⟩⟩ := n
  · rfl
  · simp only [moveName, WireName.move, NameEnd.move, h t rfl]

theorem rewriteRecord_twice {w : List (ℕ × ℕ)} (h : ∀ f ∈ nameFields p r.parts, ∀ t ∈ f.2.target,
    moved v' (moved v t) = moved w t) : rewriteRecord a' b' v' (rewriteRecord a b v r) =
      rewriteRecord (a || a') (b || b') w r := by
  have ho : moveName v' (moveName v r.owner) = moveName w r.owner :=
    moveName_twice fun t ht => h (p, r.owner) List.mem_cons_self t ht
  have hd : rewriteData a' b' v' (rewriteData a b v r.data) =
      rewriteData (a || a') (b || b') w r.data := by
    rcases hd : r.data with d | pieces
    · have htarget : moveName v' (moveName v d.target) = moveName w d.target :=
        moveName_twice fun t ht => h _ (target_mem_nameFields hd) t ht
      have hstays : (fun x => stays a' b' x && stays a b x) = stays (a || a') (b || b') :=
        funext fun x => by
          rw [stays_eq, stays_eq, stays_eq, isDropped_or, Bool.not_or, Bool.and_comm]
      simp only [rewriteData, htarget, List.filter_filter, hstays]
    · rfl
  unfold rewriteRecord
  simp only [ho, hd]

theorem seen_rewriteRecord (h : Seen uQType r) (v : List (ℕ × ℕ)) :
    Seen uQType (rewriteRecord a b v r) := by
  have hdata : (rewriteRecord a b v r).data = rewriteData a b v r.data := rfl
  refine ⟨fun ht => ?_, fun ht => ?_⟩
  · obtain ⟨d, hd⟩ := h.1 ht
    rw [hdata, hd]
    exact ⟨_, rfl⟩
  · obtain ⟨x, hx⟩ := h.2 ht
    rw [hdata, hx]
    exact ⟨x, rfl⟩

theorem nameFields_record (hr : r ∈ rs) (p : ℕ) :
    ∃ q, ∀ f ∈ nameFields q r.parts, f ∈ nameFields p (rs.flatMap Record.parts) := by
  obtain ⟨r₁, r₂, rfl⟩ := List.append_of_mem hr
  refine ⟨p + total Part.size (r₁.flatMap Record.parts), fun f hf => ?_⟩
  rw [List.flatMap_append, List.flatMap_cons, nameFields_append, nameFields_append]
  exact List.mem_append_right _ (List.mem_append_left _ hf)

section Section

variable {rest : Bytes} {kept both : List Record} (h : AnswerSection s uQType p rs rest)
include h

/-- What the second pass keeps of what the first has written: the records that one pass keeps. -/
theorem AnswerSection.kept_twice (hk : keptRecords a b uQType false rs = kept)
    (hboth : keptRecords (a || a') (b || b') uQType false rs = both)
    (hv : v = removals Part.size (gone a b) p (kept.flatMap Record.parts)) :
    keptRecords a' b' uQType false (kept.map (rewriteRecord a b v)) =
      both.map (rewriteRecord a b (removals Part.size (gone a b) p (both.flatMap Record.parts))) := by
  have htwice := @keptRecords_twice uQType a b a' b' rs v false false
  rw [hk, Bool.or_self, hboth] at htwice
  obtain ⟨more, hmore⟩ := keptRecords_prefix (a || a') (b || b') uQType false rs
  rw [hboth] at hmore
  obtain ⟨more', hmore'⟩ : ∃ more', kept = both ++ more' := by
    obtain ⟨m, hm⟩ := keptRecords_prefix a' b' uQType false (kept.map (rewriteRecord a b v))
    obtain ⟨m', hm'⟩ := keptRecords_prefix a b uQType false rs
    rw [hk] at hm'
    have hlen := congrArg List.length hm
    rw [htwice, List.length_append, List.length_map, List.length_map] at hlen
    obtain ⟨m'', hm''⟩ := List.prefix_of_prefix_length_le ⟨more, hmore.symm⟩ ⟨m', hm'.symm⟩
      (by omega : both.length ≤ kept.length)
    exact ⟨m'', hm''.symm⟩
  rw [htwice]
  refine List.map_congr_left fun r hr => ?_
  obtain ⟨q, hq'⟩ := nameFields_record hr p
  refine rewriteRecord_congr (p := q) fun f hf t ht => ?_
  have hlt := (h.sound hmore f (hq' f hf) t ht).1
  have hend := (nameFields_lt (hq' f hf)).2
  rw [hv, hmore', List.flatMap_append, removals_append]
  exact sumBefore_append_removals (by omega)

variable (hq : uQType = typeSVCB ∨ uQType = typeHTTPS)
include hq

/-- **One pass** over the message: the question, and the rewritten records. -/
theorem AnswerSection.pass (hk : keptRecords a b uQType false rs = kept)
    (hv : v = removals Part.size (gone a b) p (kept.flatMap Record.parts)) :
    ∃ bq o out, parseRequestAAndAnswers (assign s) {} = (some bq, o) ∧ bq.szOffset = p ∧
      dropHints s uQType a b = .ok out ∧
      setCounts (s.take p ++ (kept.map (rewriteRecord a b v)).flatMap Record.encode)
        (kept.map (rewriteRecord a b v)).length = .ok out ∧
      (kept.map (rewriteRecord a b v)).length < 65536 ∧
      ((kept.map (rewriteRecord a b v)).flatMap Record.encode).length ≤ s.length - p := by
  obtain ⟨bq, o, hp, rfl, hn⟩ := questionEnd_ok h.stop
  have hle := (szOffset_of_parse hp).2
  obtain ⟨more, hmore⟩ := keptRecords_prefix a b uQType false rs
  rw [hk] at hmore
  have hback := @backward_of_sound bq.szOffset a b _ (h.sound hmore)
  rw [← hv] at hback
  have hrec := dropRecords_encode a b (i := 0) (c := ⟨bq.szOffset, s.take bq.szOffset, []⟩)
    (fun r hr => (h.seen hq r hr).iff) h.bytes hk (hv.trans (List.nil_append _).symm) hback
  obtain ⟨y, hy, hyl⟩ := dropRecords_ok hrec hle
  have hy : (kept.map (rewriteRecord a b v)).flatMap Record.encode = y := List.append_cancel_left hy
  have hlen : (kept.map (rewriteRecord a b v)).length = kept.length := List.length_map _
  have hlt : kept.length < 65536 := by
    have hrs := (uAnswers_of_parse hp).trans_lt (u16At_lt s 6)
    have hkl := length_keptRecords a b uQType false rs
    rw [hk] at hkl
    omega
  obtain ⟨out, hset⟩ := exists_setCounts hp
    ((kept.map (rewriteRecord a b v)).flatMap Record.encode) kept.length
  rw [Nat.zero_add] at hrec
  exact ⟨bq, o, out, hp, rfl, (dropHints_of_records h.stop hle hrec).trans hset,
    hlen.symm ▸ hset, hlen.symm ▸ hlt, by rw [hy]; exact hyl⟩

/-- **Two passes**, and one pass with the flags of both. -/
theorem AnswerSection.dropHints (a b a' b' : Bool) : ∃ out₁ out,
    dropHints s uQType a b = .ok out₁ ∧ dropHints out₁ uQType a' b' = .ok out ∧
      dropHints s uQType (a || a') (b || b') = .ok out := by
  obtain ⟨kept, hk⟩ : ∃ kept, keptRecords a b uQType false rs = kept := ⟨_, rfl⟩
  obtain ⟨both, hboth⟩ : ∃ both, keptRecords (a || a') (b || b') uQType false rs = both := ⟨_, rfl⟩
  obtain ⟨w, hw⟩ : ∃ w, w = removals Part.size (gone a b) p (both.flatMap Record.parts) := ⟨_, rfl⟩
  obtain ⟨bq, o, out₁, hp, rfl, hfirst, hset₁, hlt, hle⟩ := h.pass hq hk rfl
  obtain ⟨-, -, out, -, -, hone, hset, -, -⟩ := h.pass hq hboth rfl
  obtain ⟨more, hmore⟩ := keptRecords_prefix (a || a') (b || b') uQType false rs
  obtain ⟨more', hmore'⟩ := keptRecords_prefix a b uQType false rs
  rw [hboth] at hmore
  rw [hk] at hmore'
  have hsound := h.sound hmore
  have hmoved := moved_records (a := a) (b := b)
    (fun r hr => h.seen hq r (by rw [hmore]; exact List.mem_append_left _ hr)) w
  have hkept : keptRecords a' b' uQType false _ = _ := h.kept_twice hk hboth rfl
  rw [← hw] at hkept
  have hback := @backward_moved _ a b a' b' _ _ hsound (hw ▸ hmoved)
  have hsecond : Drop.dropHints out₁ uQType a' b' = _ := dropHints_second hp hset₁ hlt hle
    fun hdrop => dropRecords_encode a' b' (i := 0)
      (c := ⟨bq.szOffset, out₁.take bq.szOffset, []⟩) (fun r hr => by
        obtain ⟨r', hr', rfl⟩ := List.mem_map.mp hr
        have hseen := h.seen hq r' (by rw [hmore']; exact List.mem_append_left _ hr')
        exact (seen_rewriteRecord hseen _).iff)
      hdrop hkept (List.nil_append _).symm (hw.symm ▸ hback)
  have hrecords : (both.map (rewriteRecord a b w)).map (rewriteRecord a' b' (removals Part.size
      (gone a' b') bq.szOffset ((both.map (rewriteRecord a b w)).flatMap Record.parts))) =
      both.map (rewriteRecord (a || a') (b || b') (removals Part.size (gone (a || a') (b || b'))
        bq.szOffset (both.flatMap Record.parts))) := by
    rw [List.map_map, removals_moved hmoved, hw]
    refine List.map_congr_left fun r hr => ?_
    obtain ⟨q, hq'⟩ := nameFields_record hr bq.szOffset
    exact rewriteRecord_twice (p := q) fun f hf t ht => moved_moved hsound (hq' f hf) ht
  rw [hrecords, List.length_map, Nat.zero_add] at hsecond
  rw [List.length_map] at hset
  exact ⟨out₁, out, hfirst, hsecond.trans hset, hone⟩

end Section

/-! ### Any two calls -/

theorem emptyResponse_both {e : Bytes} (h : emptyResponse s = .ok e) (f f' : Bool) : ∃ out₁ out,
    (if f then emptyResponse s else .ok s) = .ok out₁ ∧
    (if f' then emptyResponse out₁ else .ok out₁) = .ok out ∧
    (if (f || f') then emptyResponse s else .ok s) = .ok out := by
  have hagain := emptyResponse_again h
  rcases f <;> rcases f'
  · exact ⟨s, s, rfl, rfl, rfl⟩
  · exact ⟨s, e, rfl, h, h⟩
  · exact ⟨e, e, h, rfl, h⟩
  · exact ⟨e, e, h, hagain, h⟩

/-- **Two calls** with any flags, and one call with the flags of both. -/
theorem dropAddress_both {rest : Bytes} (h : AnswerSection s uQType p rs rest) (a b a' b' : Bool) :
    ∃ out₁ out, dropAddress s uQType a b = .ok (true, out₁) ∧
      dropAddress out₁ uQType a' b' = .ok (true, out) ∧
      dropAddress s uQType (a || a') (b || b') = .ok (true, out) := by
  obtain ⟨bq, o, hp, -, -⟩ := questionEnd_ok h.stop
  obtain ⟨e, he⟩ := exists_setCounts hp [] 0
  rw [← emptyResponse_of_parse hp] at he
  simp only [dropAddress_ok, dropped]
  by_cases hA : uQType = typeA
  · simp only [if_pos hA]
    exact emptyResponse_both he a a'
  simp only [if_neg hA]
  by_cases hAAAA : uQType = typeAAAA
  · simp only [if_pos hAAAA]
    exact emptyResponse_both he b b'
  simp only [if_neg hAAAA]
  by_cases hother : uQType ≠ typeSVCB ∧ uQType ≠ typeHTTPS
  · simp only [if_pos hother]
    exact ⟨s, s, rfl, rfl, rfl⟩
  simp only [if_neg hother]
  refine h.dropHints ?_ a b a' b'
  by_contra hn
  exact hother ⟨fun hs => hn (Or.inl hs), fun hs => hn (Or.inr hs)⟩

/-- **Dropping again changes nothing**, for every message and flags; and on a well-formed answer section
IPv4 and IPv6 can be dropped in any order, or at once. -/
theorem dropped_twice (s : Bytes) (uQType : ℕ) (v4 v6 : Bool) :
    (∀ out, dropAddress s uQType v4 v6 = .ok (true, out) →
      dropAddress out uQType v4 v6 = .ok (true, out)) ∧
    ∀ p rs rest, AnswerSection s uQType p rs rest → ∃ s4 s6 out,
      dropAddress s uQType true false = .ok (true, s4) ∧
      dropAddress s4 uQType false true = .ok (true, out) ∧
      dropAddress s uQType false true = .ok (true, s6) ∧
      dropAddress s6 uQType true false = .ok (true, out) ∧
      dropAddress s uQType true true = .ok (true, out) := by
  refine ⟨fun out hd => dropAddress_again hd, fun p rs rest h => ?_⟩
  obtain ⟨s4, out, h4, h46, hboth⟩ := dropAddress_both h true false false true
  obtain ⟨s6, out', h6, h64, hboth'⟩ := dropAddress_both h false true true false
  obtain rfl : out = out' := by
    have heq := hboth.symm.trans hboth'
    exact (Prod.mk.inj (Except.ok.inj heq)).2
  exact ⟨s4, s6, out, h4, h46, h6, h64, hboth⟩

/-- The answers of the sample, whose first record has an `ipv4hint` at 34. -/
theorem answerSection_sample :
    AnswerSection Expand.sample.encode typeHTTPS 19 Expand.sample.answers [0] := by
  have hfields : nameFields 19 (Expand.sample.answers.flatMap Record.parts) =
      [(19, ⟨[], .ptr 12 (by decide)⟩), (33, ⟨[], .root⟩),
        (42, ⟨[⟨[98], by decide, by decide⟩], .root⟩), (57, ⟨[], .ptr 42 (by decide)⟩)] := rfl
  have hhints : removals Part.size (gone true true) 19
      (Expand.sample.answers.flatMap Record.parts) = [(34, 8)] := rfl
  have htargets : ∀ f ∈ nameFields 19 (Expand.sample.answers.flatMap Record.parts),
      ∀ t ∈ f.2.target, (f.1 = 19 ∧ t = 12) ∨ (f.1 = 57 ∧ t = 42) := by
    intro f hf t ht
    rw [hfields] at hf
    simp only [List.mem_cons, List.not_mem_nil, or_false] at hf
    rcases hf with rfl | rfl | rfl | rfl
    · cases ht
      exact Or.inl ⟨rfl, rfl⟩
    · cases ht
    · cases ht
    · cases ht
      exact Or.inr ⟨rfl, rfl⟩
  refine ⟨questionEnd_encode Expand.sample, rfl, fun _ r hr => ?_, fun f hf t ht => ?_,
    fun f hf t ht q hq => ?_⟩
  · have hr' := Expand.wellFormed_sample.svc r hr
    refine ⟨hr'.mp, fun hne => ?_⟩
    rcases List.mem_cons.mp hr with rfl | hr
    · exact absurd rfl hne
    · rw [List.mem_singleton.mp hr] at hne
      exact absurd rfl hne
  · rcases htargets f hf t ht with ⟨hf, rfl⟩ | ⟨hf, rfl⟩ <;> omega
  · rw [hhints] at hq
    obtain rfl := List.mem_singleton.mp hq
    rcases htargets f hf t ht with ⟨-, rfl⟩ | ⟨-, rfl⟩ <;> simp

/-- The sample without its hint stays as it is, and IPv4 and IPv6 can be dropped in any order. -/
theorem dropped_twice_sample :
    (∃ out, dropAddress Expand.sample.encode typeHTTPS true false = .ok (true, out) ∧
      dropAddress out typeHTTPS true false = .ok (true, out)) ∧
    ∃ s4 s6 out, dropAddress Expand.sample.encode typeHTTPS true false = .ok (true, s4) ∧
      dropAddress s4 typeHTTPS false true = .ok (true, out) ∧
      dropAddress Expand.sample.encode typeHTTPS false true = .ok (true, s6) ∧
      dropAddress s6 typeHTTPS true false = .ok (true, out) ∧
      dropAddress Expand.sample.encode typeHTTPS true true = .ok (true, out) := by
  obtain ⟨hagain, hboth⟩ := dropped_twice Expand.sample.encode typeHTTPS true false
  obtain ⟨s4, s6, out, h⟩ := hboth 19 Expand.sample.answers [0] answerSection_sample
  exact ⟨⟨s4, h.1, hagain s4 h.1⟩, s4, s6, out, h⟩

end DnsMultiZone.Rfc1035.Twice
