import DnsMultiZone.Config.Search

/-! # Looking an address up

A list as `LoadFile` leaves it (`Loaded`) has aligned entries sorted by their base, so `CheckIsMatch`
answers like a linear scan exactly when the search is not led past the address, and then
`ZoneInfo::CheckIsMatch` decides by the first list of the family that really matches. Nested ranges
can lead the search past the only entry that contains the address (`nested_not_found`). -/

namespace DnsMultiZone.Config.Lookup

open DnsMultiZone.Lib.BigEndian DnsMultiZone.Lib.Sorting
open DnsMultiZone.Config.Address DnsMultiZone.Config.ConfigType DnsMultiZone.Config.LoadFile
open DnsMultiZone.Config.Ranges DnsMultiZone.Config.Search

/-- A list `LoadFile` accepted: some file, read into an empty list with some correct sort. -/
def Loaded (inet : Inet) (info : IPInfo) : Prop :=
  ∃ sort sort6 file, ∃ info₀ : IPInfo, info₀.siIPItems = [] ∧ info₀.siIPItems6 = [] ∧
    IPInfo.loadFile inet sort sort6 file info₀ = some info

/-- The IPv4 answer of a linear scan. -/
def scan4 (info : IPInfo) (ip : UInt32) : Bool :=
  scan base4 top4 ip.toNat info.siIPItems info.bIsInverseIPList

/-- The IPv6 answer of a linear scan. -/
def scan6 (info : IPInfo) (ip : IPv6Addr) : Bool :=
  scan base6 top6 (num6 ip) info.siIPItems6 info.bIsInverseIPList

/-- The IPv4 search is not led past the address. -/
def Meets4 (info : IPInfo) (ip : UInt32) : Prop := SearchMeets base4 top4 ip.toNat info.siIPItems

/-- The IPv6 search is not led past the address. -/
def Meets6 (info : IPInfo) (ip : IPv6Addr) : Prop := SearchMeets base6 top6 (num6 ip) info.siIPItems6

/-- The decision of the first list of a family that matches. -/
def firstList (nFamily : ℤ) (isMatch : IPInfo → Bool) (infos : List IPInfo) : Bool :=
  match infos.find? fun info => info.nFamily = nFamily ∧ isMatch info with
  | some info => !info.bIsDeny
  | none => false

/-- The lists up to the first of a family that matches. -/
def upToFirst (nFamily : ℤ) (isMatch : IPInfo → Bool) : List IPInfo → List IPInfo
  | [] => []
  | info :: infos =>
    info :: if info.nFamily = nFamily ∧ isMatch info then [] else upToFirst nFamily isMatch infos

/-! ### Loaded lists -/

theorem loadLines_aligned {inet : Inet} {nFamily : ℤ} (lines : List Bytes)
    (acc : List IPItemInfo × List IPItemInfo6) {r : List IPItemInfo × List IPItemInfo6}
    (h4 : ∀ e ∈ acc.1, Aligned4 e) (h6 : ∀ e ∈ acc.2, Aligned6 e)
    (h : loadLines inet nFamily lines acc = some r) :
    (∀ e ∈ r.1, Aligned4 e) ∧ ∀ e ∈ r.2, Aligned6 e := by
  induction lines generalizing acc with
  | nil =>
    cases h
    exact ⟨h4, h6⟩
  | cons line lines ih =>
    obtain ⟨items, items6⟩ := acc
    unfold loadLines at h
    by_cases he : entryText line = []
    · rw [if_pos he] at h
      exact ih _ h4 h6 h
    rw [if_neg he] at h
    split at h
    · next item hi =>
      split_ifs at h with hf
      refine ih (items ++ [item], items6) (fun e hm => ?_) h6 h
      rcases List.mem_append.mp hm with hm | hm
      · exact h4 e hm
      · rw [List.mem_singleton.mp hm]
        exact aligned4_setFromString hi
    · split at h
      · next item hi =>
        split_ifs at h with hf
        refine ih (items, items6 ++ [item]) h4 (fun e hm => ?_) h
        rcases List.mem_append.mp hm with hm | hm
        · exact h6 e hm
        · rw [List.mem_singleton.mp hm]
          exact aligned6_setFromString hi
      · cases h

/-- What `LoadFile` leaves: aligned entries, sorted by their base. -/
theorem Loaded.entries {inet : Inet} {info : IPInfo} (h : Loaded inet info) :
    ((∀ e ∈ info.siIPItems, Aligned4 e) ∧ info.siIPItems.Pairwise fun a b => base4 a ≤ base4 b) ∧
      (∀ e ∈ info.siIPItems6, Aligned6 e) ∧ info.siIPItems6.Pairwise fun a b => base6 a ≤ base6 b := by
  obtain ⟨sort, sort6, file, info₀, h4, h6, h⟩ := h
  unfold IPInfo.loadFile at h
  obtain ⟨bytes, -, h⟩ := Option.bind_eq_some_iff.mp h
  obtain ⟨⟨items, items6⟩, hl, h⟩ := Option.bind_eq_some_iff.mp h
  cases h
  obtain ⟨ha4, ha6⟩ := loadLines_aligned _ _ (by simp [h4]) (by simp [h6]) hl
  refine ⟨⟨fun e he => ha4 e ((sort.perm items).mem_iff.mp he), ?_⟩,
    fun e he => ha6 e ((sort6.perm items6).mem_iff.mp he), ?_⟩
  · refine (sort.sorted items).imp fun {a b} hab => ?_
    simp only [compareIPItemInfo, decide_eq_false_iff_not, UInt32.lt_iff_toNat_lt] at hab
    exact not_lt.mp hab
  · refine (sort6.sorted items6).imp fun {a b} hab => ?_
    have hlen : b.iaAddr.cAddr.length = a.iaAddr.cAddr.length := by
      rw [a.iaAddr.length_cAddr, b.iaAddr.length_cAddr]
    simp only [compareIPItemInfo6, decide_eq_false_iff_not, (memcmp_sign hlen).1] at hab
    exact not_lt.mp hab

theorem Loaded.signs4 {inet : Inet} {info : IPInfo} (h : Loaded inet info) (ip : UInt32) :
    Signs base4 top4 ip.toNat (·.matchCompare ip) info.siIPItems where
  neg e he := matchCompare_neg (h.entries.1.1 e he) ip
  zero e he := matchCompare_zero (h.entries.1.1 e he) ip
  sorted := h.entries.1.2

theorem Loaded.signs6 {inet : Inet} {info : IPInfo} (h : Loaded inet info) (ip : IPv6Addr) :
    Signs base6 top6 (num6 ip) (·.matchCompare ip) info.siIPItems6 where
  neg e he := matchCompare6_neg (h.entries.2.1 e he) ip
  zero e he := matchCompare6_zero (h.entries.2.1 e he) ip
  sorted := h.entries.2.2

/-! ### Zones -/

theorem checkLists_eq {nFamily : ℤ} {check : IPInfo → Option Bool} {isMatch : IPInfo → Bool}
    {infos : List IPInfo}
    (h : ∀ info ∈ upToFirst nFamily isMatch infos, info.nFamily = nFamily →
      check info = some (isMatch info)) :
    checkLists nFamily check infos = some (firstList nFamily isMatch infos) := by
  induction infos with
  | nil => rfl
  | cons info infos ih =>
    rw [upToFirst, List.forall_mem_cons] at h
    obtain ⟨hfirst, hrest⟩ := h
    unfold checkLists
    by_cases hf : info.nFamily = nFamily
    · rw [if_pos hf, hfirst hf]
      by_cases hm : isMatch info
      · simp [firstList, hf, hm]
      · rw [if_neg fun hp => hm hp.2] at hrest
        rw [Bool.not_eq_true] at hm
        simp only [hm, ih hrest]
        simp [firstList, hf, hm]
    · rw [if_neg fun hp => hf hp.1] at hrest
      rw [if_neg hf, ih hrest]
      simp [firstList, hf]

theorem mem_of_mem_upToFirst {nFamily : ℤ} {isMatch : IPInfo → Bool} {infos : List IPInfo} {info : IPInfo}
    (h : info ∈ upToFirst nFamily isMatch infos) : info ∈ infos := by
  induction infos with
  | nil => cases h
  | cons info' infos ih =>
    rw [upToFirst] at h
    rcases List.mem_cons.mp h with rfl | h
    · exact List.mem_cons_self
    · split_ifs at h
      · cases h
      · exact List.mem_cons_of_mem _ (ih h)

/-- **Lookup is a linear scan exactly when the search is not led past the address**, in both families;
and then a zone decides by its first list of the family that matches, if this is so of the lists up to it. -/
theorem lookup_eq_scan_iff (inet : Inet) :
    (∀ info, Loaded inet info →
      (∀ ip, info.checkIsMatch ip = some (scan4 info ip) ↔ Meets4 info ip) ∧
      ∀ ip, info.checkIsMatch6 ip = some (scan6 info ip) ↔ Meets6 info ip) ∧
    ∀ z : ZoneInfo, (∀ info ∈ z.siIPInfos, Loaded inet info) →
      (∀ ip, (∀ info ∈ upToFirst 4 (scan4 · ip) z.siIPInfos, info.nFamily = 4 → Meets4 info ip) →
        z.checkIsMatch ip = some (firstList 4 (scan4 · ip) z.siIPInfos)) ∧
      ∀ ip, (∀ info ∈ upToFirst 6 (scan6 · ip) z.siIPInfos, info.nFamily = 6 → Meets6 info ip) →
        z.checkIsMatch6 ip = some (firstList 6 (scan6 · ip) z.siIPInfos) := by
  have h4 : ∀ info, Loaded inet info → ∀ ip, info.checkIsMatch ip = some (scan4 info ip) ↔
      Meets4 info ip := fun info hl ip => checkEntries_eq_scan_iff (hl.signs4 ip) _
  have h6 : ∀ info, Loaded inet info → ∀ ip, info.checkIsMatch6 ip = some (scan6 info ip) ↔
      Meets6 info ip := fun info hl ip => checkEntries_eq_scan_iff (hl.signs6 ip) _
  refine ⟨fun info hl => ⟨h4 info hl, h6 info hl⟩, fun z hz => ⟨fun ip hm => ?_, fun ip hm => ?_⟩⟩
  · exact checkLists_eq fun info hi hf =>
      (h4 info (hz info (mem_of_mem_upToFirst hi)) ip).mpr (hm info hi hf)
  · exact checkLists_eq fun info hi hf =>
      (h6 info (hz info (mem_of_mem_upToFirst hi)) ip).mpr (hm info hi hf)

/-! ### A nested list -/

/-- The bytes of a text. -/
def text (s : String) : Bytes := s.toList.map fun c => UInt8.ofNat c.toNat

/-- An octet of a dotted address: no leading zero, at most 255. -/
def octet (s : Bytes) : Option UInt8 :=
  if s.length > 1 ∧ s.head? = some 0x30 then none else (parsePrefix s 255).map UInt8.ofNat

/-- `inet_pton` for IPv4 text only. -/
def dotted : Inet where
  pton4 s :=
    match (s.splitOn 0x2E).map octet with
    | [some a, some b, some c, some d] => some (ntohl [a, b, c, d])
    | _ => none
  pton6 _ := none
  ntop4 _ := []
  ntop6 _ := []

def hexValue (c : UInt8) : Option ℕ :=
  if 0x30 ≤ c ∧ c ≤ 0x39 then some (c.toNat - 0x30)
  else if 0x61 ≤ c ∧ c ≤ 0x66 then some (c.toNat - 0x57)
  else if 0x41 ≤ c ∧ c ≤ 0x46 then some (c.toNat - 0x37)
  else none

/-- The value of hexadecimal digits. -/
def hexNumber : Bytes → ℕ → Option ℕ
  | [], n => some n
  | c :: s, n => (hexValue c).bind fun d => hexNumber s (n * 16 + d)

/-- A group of an IPv6 address: one to four digits. -/
def hexGroup (s : Bytes) : Option ℕ := if s = [] ∨ 4 < s.length then none else hexNumber s 0

/-- `inet_pton` for IPv4 text, and for IPv6 text with all eight groups. -/
def colons : Inet where
  pton4 := dotted.pton4
  pton6 s :=
    match (s.splitOn 0x3A).map hexGroup with
    | [some a, some b, some c, some d, some e, some f, some g, some h] =>
      some (IPv6Addr.ofBytes ([a, b, c, d, e, f, g, h].flatMap be16))
    | _ => none
  ntop4 _ := []
  ntop6 _ := []

/-- A sort of the IPv4 entries. -/
def sort4 : StdSort compareIPItemInfo :=
  StdSort.insertion _ (fun a b h => by simp only [compareIPItemInfo, decide_eq_true_eq,
      decide_eq_false_iff_not, UInt32.lt_iff_toNat_lt] at h ⊢; omega)
    fun a b c h h' => by
      simp only [compareIPItemInfo, decide_eq_false_iff_not, UInt32.lt_iff_toNat_lt] at h h' ⊢; omega

/-- A sort of the IPv6 entries. -/
def sort6 : StdSort compareIPItemInfo6 :=
  have hm (a b : IPItemInfo6) : memcmp a.iaAddr.cAddr b.iaAddr.cAddr < 0 ↔ num6 a.iaAddr < num6 b.iaAddr :=
    (memcmp_sign (by rw [a.iaAddr.length_cAddr, b.iaAddr.length_cAddr])).1
  StdSort.insertion _ (fun a b h => by simp only [compareIPItemInfo6, decide_eq_true_eq,
      decide_eq_false_iff_not, hm] at h ⊢; omega)
    fun a b c h h' => by
      simp only [compareIPItemInfo6, decide_eq_false_iff_not, hm] at h h' ⊢; omega

/-- The list `LoadFile` makes of the lines of a file. -/
def fileList (file : String) : IPInfo :=
  (IPInfo.loadFile dotted sort4 sort6 (some (text file)) { nFamily := 4 }).getD {}

/-- Three ranges, the first containing the other two. -/
def nested : IPInfo := fileList "10.0.0.0/8\n10.1.0.0/16\n10.2.0.0/16\n"

theorem loaded_fileList {file : String}
    (h : IPInfo.loadFile dotted sort4 sort6 (some (text file)) { nFamily := 4 } =
      some (fileList file)) : Loaded dotted (fileList file) :=
  ⟨sort4, sort6, some (text file), { nFamily := 4 }, rfl, rfl, h⟩

/-- The search passes the only range that contains `10.3.0.1`. -/
theorem nested_not_found : ¬ ∀ info, Loaded dotted info → ∀ ip : UInt32,
    info.checkIsMatch ip = some (scan4 info ip) := by
  intro h
  have hl : Loaded dotted nested := loaded_fileList (by decide +kernel)
  have hn : nested.checkIsMatch 0x0A030001 ≠ some (scan4 nested 0x0A030001) := by decide +kernel
  exact hn (h nested hl _)

/-- The list `LoadFile` makes of a file of a family. -/
def listOf (nFamily : ℤ) (file : String) : IPInfo :=
  (IPInfo.loadFile colons sort4 sort6 (some (text file)) { nFamily }).getD {}

theorem loaded_listOf {nFamily : ℤ} {file : String}
    (h : IPInfo.loadFile colons sort4 sort6 (some (text file)) { nFamily } = some (listOf nFamily file)) :
    Loaded colons (listOf nFamily file) :=
  ⟨sort4, sort6, some (text file), { nFamily }, rfl, rfl, h⟩

/-- A range in another, of both families. -/
def pair4 : IPInfo := listOf 4 "10.0.0.0/8\n10.1.0.0/16\n"

def pair6 : IPInfo := listOf 6 "2001:db8:0:0:0:0:0:0/32\n2001:DB8:1:0:0:0:0:0/48\n"

/-- The address `2001:db8:2::1`. -/
def ip6 : IPv6Addr := IPv6Addr.ofBytes [0x20, 0x01, 0x0D, 0xB8, 0, 2, 0, 0, 0, 0, 0, 0, 0, 0, 0, 1]

/-- The last list is one that the search is led past `10.3.0.1` in. -/
def nestedZone : ZoneInfo where
  siIPInfos := [pair6, pair4, listOf 4 "10.0.0.0/8\n10.1.0.0/16\n10.2.0.0/16\n"]

/-- Of the nested ranges only the outer one contains the address, and the search finds it; the zone decides
by the first list of either family. -/
theorem lookup_nested :
    pair4.checkIsMatch 0x0A030001 = some (scan4 pair4 0x0A030001) ∧
      pair6.checkIsMatch6 ip6 = some (scan6 pair6 ip6) ∧
      nestedZone.checkIsMatch 0x0A030001 = some true ∧ nestedZone.checkIsMatch6 ip6 = some true := by
  have hl4 : Loaded colons pair4 := loaded_listOf (by decide +kernel)
  have hl6 : Loaded colons pair6 := loaded_listOf (by decide +kernel)
  have hm4 : Meets4 pair4 0x0A030001 := by
    unfold Meets4 SearchMeets
    decide +kernel
  have hm6 : Meets6 pair6 ip6 := by
    unfold Meets6 SearchMeets
    decide +kernel
  have hz : ∀ info ∈ nestedZone.siIPInfos, Loaded colons info :=
    List.forall_mem_cons.mpr ⟨hl6, List.forall_mem_cons.mpr ⟨hl4,
      List.forall_mem_singleton.mpr (loaded_listOf (by decide +kernel))⟩⟩
  have h4 : upToFirst 4 (scan4 · 0x0A030001) nestedZone.siIPInfos = [pair6, pair4] := by decide +kernel
  have h6 : upToFirst 6 (scan6 · ip6) nestedZone.siIPInfos = [pair6] := by decide +kernel
  refine ⟨(((lookup_eq_scan_iff colons).1 _ hl4).1 _).mpr hm4, (((lookup_eq_scan_iff colons).1 _ hl6).2 _).mpr hm6,
    (((lookup_eq_scan_iff colons).2 _ hz).1 _ ?_).trans (by decide +kernel),
    (((lookup_eq_scan_iff colons).2 _ hz).2 _ ?_).trans (by decide +kernel)⟩
  · rw [h4]
    exact List.forall_mem_cons.mpr ⟨fun hf => absurd hf (by decide +kernel),
      List.forall_mem_singleton.mpr fun _ => hm4⟩
  · rw [h6]
    exact List.forall_mem_singleton.mpr fun _ => hm6

end DnsMultiZone.Config.Lookup
