import DnsMultiZone.Rfc1035.Judge
import DnsMultiZone.Rfc1035.Memory

/-! # Safety of parsing and rewriting

The rewriter works on offsets, and many of its accesses are justified by a check made earlier: the fixed
fields of a record by the copy of its name that finds the type, the parameters by the end of the record,
the header by the question that was read. So no access leaves its string, on any message.

* `noFault_dropAddress`: the rewriter; `lengthFits`: the length it writes back for a record's data.
* `safe_on_every_datagram`: that, and the parsers. -/

namespace DnsMultiZone.Rfc1035.Safety

open DnsMultiZone.Lib.BigEndian
open DnsMultiZone.Rfc1035.Parse DnsMultiZone.Rfc1035.Drop
open DnsMultiZone.Rfc1035.Append DnsMultiZone.Rfc1035.Question DnsMultiZone.Rfc1035.Judge

/-- No access leaves its string. -/
def NoFault {α : Type} (x : Code α) : Prop := x ≠ .error .fault

section NoFault

variable {α β : Type} {x : Code α} {f : α → Code β} {s : Bytes} {p n : ℕ}

theorem noFault_ok (a : α) : NoFault (.ok a : Code α) := fun h => by cases h

theorem noFault_refuse : NoFault (.error .refuse : Code α) := fun h => by cases h

theorem NoFault.bind (hx : NoFault x) (hf : ∀ a, x = .ok a → NoFault (f a)) : NoFault (x >>= f) := by
  rcases x with e | a
  · intro h
    exact hx (by cases h; rfl)
  · exact hf a rfl

theorem noFault_byteAt (h : p < s.length) : NoFault (byteAt s p) := by
  unfold byteAt
  rw [List.getElem?_eq_getElem h]
  exact noFault_ok _

theorem noFault_readU16 (h : p + 2 ≤ s.length) : NoFault (readU16 s p) := by
  have hlo : ∀ hi : UInt8, NoFault (byteAt s (p + 1) >>= fun lo => pure (256 * hi.toNat + lo.toNat)) :=
    fun _ => (noFault_byteAt (by omega)).bind fun _ _ => noFault_ok _
  exact (noFault_byteAt (by omega)).bind fun hi _ => hlo hi

theorem noFault_writeU16 (h : p + 2 ≤ s.length) (n : ℕ) : NoFault (writeU16 s p n) := by
  unfold writeU16
  rw [if_pos (by omega)]
  exact noFault_ok _

theorem noFault_substr (h : p + n ≤ s.length) : NoFault (substr s p n) := by
  unfold substr
  rw [if_pos h]
  exact noFault_ok _

theorem noFault_setCounts (h : 12 ≤ s.length) (n : ℕ) : NoFault (setCounts s n) := by
  rw [setCounts_of_le n h]
  exact noFault_ok _

end NoFault

/-! ### Pieces of a record -/

section Pieces

variable {d : Bytes} {v4 v6 : Bool} {stop : ℕ} {c : Cursor}

/-- Every access of `CopyName` comes after a check of its own. -/
theorem noFault_copyName (sIn : Bytes) (p : ℕ) (sOut : Bytes) (v : List (ℕ × ℕ)) :
    NoFault (copyName sIn p sOut v) := by
  fun_induction copyName sIn p sOut v with
  | case1 => exact noFault_ok _
  | case2 => exact noFault_ok _
  | case3 p sOut hp h0 hc hlen => exact (noFault_readU16 (by omega)).bind fun _ _ => noFault_ok _
  | case4 => exact noFault_ok _
  | case5 p sOut hp h0 hc hbad ih =>
    have hle : p + (1 + sIn[p].toNat) ≤ sIn.length := by
      rw [not_or, not_lt] at hbad
      omega
    exact (noFault_substr hle).bind fun label _ => ih label
  | case6 => exact noFault_ok _

theorem noFault_dropParams (hstop : stop ≤ d.length) : NoFault (dropParams d v4 v6 stop c) := by
  fun_induction dropParams d v4 v6 stop c with
  | case1 => exact noFault_refuse
  | case2 c hp h4 ihd ihk =>
    refine (noFault_readU16 (by omega)).bind fun uKey _ => ?_
    refine (noFault_readU16 (by omega)).bind fun len _ => ?_
    dsimp only
    split_ifs with hv hd
    · exact noFault_refuse
    · exact ihd len hv
    · exact (noFault_substr (by omega)).bind fun x _ => ihk len hv x
  | case3 => exact noFault_ok _

theorem noFault_dropSvcData (hstop : stop ≤ d.length) : NoFault (dropSvcData d v4 v6 stop c) := by
  unfold dropSvcData
  split_ifs with hp
  · exact noFault_refuse
  refine (noFault_substr (by omega)).bind fun prio _ => ?_
  refine (noFault_copyName _ _ _ _).bind fun r _ => ?_
  dsimp only
  split_ifs
  · exact noFault_refuse
  · exact noFault_dropParams hstop

theorem noFault_dropData (t q : ℕ) (hp : c.p ≤ stop) (hstop : stop ≤ d.length) :
    NoFault (dropData d t q v4 v6 stop c) := by
  unfold dropData
  split_ifs
  · exact (noFault_substr (by omega)).bind fun rdata _ => noFault_ok _
  · exact noFault_dropSvcData hstop

end Pieces

/-! ### Records -/

section Records

variable {d : Bytes} {v4 v6 : Bool} {c : Cursor}

/-- The length that is written back for the data of a record: the subtraction does not go below zero, and
the number fits in 16 bits. -/
def LengthFits (d : Bytes) (uType uQType : ℕ) (v4 v6 : Bool) (c : Cursor) : Prop :=
  ∀ ok p sOut len fixed c', copyName d c.p c.sOut c.vRemoved = .ok (ok, p, sOut) →
    readU16 d (p + 8) = .ok len → substr d p 8 = .ok fixed →
    dropData d uType uQType v4 v6 (p + 10 + len) ⟨p + 10, sOut ++ fixed ++ [0, 0], c.vRemoved⟩ = .ok c' →
    (sOut ++ fixed).length + 2 ≤ c'.sOut.length ∧
      c'.sOut.length - (sOut ++ fixed).length - 2 < 65536

/-- What is written of a record's data is no longer than the data. -/
theorem lengthFits (d : Bytes) (uType uQType : ℕ) (v4 v6 : Bool) (c : Cursor) :
    LengthFits d uType uQType v4 v6 c := by
  intro ok p sOut len fixed c' _ hlen _ hdata
  have hlt : len < 65536 := by
    rw [(readU16_ok hlen).2]
    exact u16At_lt _ _
  obtain ⟨⟨-, y, hy, hyl⟩, hp⟩ := dropData_ok hdata (by simp)
  have hout : c'.sOut.length = (sOut ++ fixed).length + 2 + y.length := by
    rw [hy, List.length_append, List.length_append]
    rfl
  dsimp only at hyl
  omega

/-- **A record**, after a copy of its name has shown that the fixed fields are there. -/
theorem noFault_copyRecord (t q : ℕ) {ok : Bool} {p : ℕ} {x : Bytes}
    (hn : copyName d c.p [] c.vRemoved = .ok (ok, p, x)) (hp : p + 10 ≤ d.length) :
    NoFault (copyRecord d t q v4 v6 c) := by
  unfold copyRecord
  refine (noFault_copyName _ _ _ _).bind fun r hr => ?_
  -- The second copy of the name ends where the first one did.
  rw [copyName_of_nil hn] at hr
  cases hr
  dsimp only
  refine (noFault_readU16 (by omega)).bind fun len hlen => ?_
  split_ifs with hstop
  · exact noFault_refuse
  refine (noFault_substr (by omega)).bind fun fixed hfixed => ?_
  refine (noFault_dropData t q (by simp) (by omega)).bind fun c' hc' => ?_
  have hfits := lengthFits d t q v4 v6 c ok p (c.sOut ++ x) len fixed c' (copyName_of_nil hn) hlen
    hfixed hc'
  exact (noFault_writeU16 hfits.1 _).bind fun sOut _ => noFault_ok _

theorem noFault_dropRecord (q : ℕ) : NoFault (dropRecord d q v4 v6 c) := by
  unfold dropRecord
  refine (noFault_copyName _ _ _ _).bind fun r hr => ?_
  obtain ⟨ok, p, x⟩ := r
  dsimp only
  split_ifs with hok
  · exact noFault_refuse
  rw [not_or, not_lt] at hok
  refine (noFault_readU16 (by omega)).bind fun uType _ => ?_
  split_ifs
  · exact noFault_ok _
  · exact (noFault_copyRecord _ q hr hok.2).bind fun c' _ => noFault_ok _

theorem noFault_dropRecords (q n i : ℕ) : NoFault (dropRecords d q v4 v6 n i c) := by
  induction n generalizing i c with
  | zero => exact noFault_ok _
  | succ n ih =>
    unfold dropRecords
    refine (noFault_dropRecord q).bind fun r _ => ?_
    rcases r with _ | c'
    · exact noFault_ok _
    · exact ih (i + 1)

end Records

/-! ### Messages -/

theorem noFault_questionEnd (d : Bytes) : NoFault (questionEnd d) := by
  unfold questionEnd
  split
  · exact noFault_refuse
  · exact noFault_ok _

theorem noFault_emptyResponse (d : Bytes) : NoFault (emptyResponse d) := by
  unfold emptyResponse
  refine (noFault_questionEnd d).bind fun r hr => ?_
  obtain ⟨p, n⟩ := r
  obtain ⟨b, o, hparse, rfl, -⟩ := questionEnd_ok hr
  have hb := szOffset_of_parse hparse
  refine noFault_setCounts ?_ 0
  rw [resize, List.length_append, List.length_take]
  omega

theorem noFault_dropHints (d : Bytes) (q : ℕ) (v4 v6 : Bool) : NoFault (dropHints d q v4 v6) := by
  unfold dropHints
  refine (noFault_questionEnd d).bind fun r hr => ?_
  obtain ⟨p, n⟩ := r
  obtain ⟨b, o, hparse, rfl, -⟩ := questionEnd_ok hr
  have hb := szOffset_of_parse hparse
  dsimp only
  refine (noFault_substr (by omega)).bind fun question hquestion => ?_
  refine (noFault_dropRecords q _ _).bind fun out hout => ?_
  obtain ⟨i, sOut⟩ := out
  obtain ⟨y, rfl, -⟩ := dropRecords_ok hout hb.2
  refine noFault_setCounts ?_ i
  rw [List.length_append, length_of_substr hquestion]
  omega

theorem noFault_dropped (d : Bytes) (q : ℕ) (v4 v6 : Bool) : NoFault (dropped d q v4 v6) := by
  unfold dropped
  split_ifs
  · exact noFault_emptyResponse d
  · exact noFault_ok _
  · exact noFault_emptyResponse d
  · exact noFault_ok _
  · exact noFault_ok _
  · exact noFault_dropHints d q v4 v6

/-- **The rewriter** ends with a result on every message, and leaves the buffer when it refuses. -/
theorem noFault_dropAddress (d : Bytes) (q : ℕ) (v4 v6 : Bool) :
    ∃ r out, dropAddress d q v4 v6 = .ok (r, out) ∧ (r = false → out = d) := by
  have hno := noFault_dropped d q v4 v6
  unfold dropAddress
  rcases hd : dropped d q v4 v6 with (_ | _) | out
  · exact ⟨false, d, rfl, fun _ => rfl⟩
  · exact absurd hd hno
  · exact ⟨true, out, rfl, fun h => by cases h⟩

/-- **Parsing and rewriting are safe on every datagram.** On every byte string the parsers end within a
turn more than there are bytes, no difference of size and offset goes below zero and no access leaves its
string; the rewriter ends, no access leaves its string, the length of a record's data fits in 16 bits, and
a buffer it refuses is as it was. -/
theorem safe_on_every_datagram (d : Bytes) (uQType : ℕ) (bDropIPv4 bDropIPv6 : Bool) :
    Memory.parseRequestA (d.length + 1) d = .ok (parseRequestA d) ∧
    Memory.parseResponseA (d.length + 1) d = .ok (parseResponseA d) ∧
    (∃ r out, dropAddress d uQType bDropIPv4 bDropIPv6 = .ok (r, out) ∧ (r = false → out = d)) ∧
    ∀ uType c, LengthFits d uType uQType bDropIPv4 bDropIPv6 c :=
  ⟨Memory.parseRequestA_eq d, Memory.parseResponseA_eq d, noFault_dropAddress d uQType _ _,
    fun uType c => lengthFits d uType uQType _ _ c⟩

end DnsMultiZone.Rfc1035.Safety
