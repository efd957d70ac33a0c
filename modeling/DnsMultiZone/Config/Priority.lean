import Mathlib.Data.List.Perm.Basic
import DnsMultiZone.Lib.Results
import DnsMultiZone.Config.LoadConfig
import DnsMultiZone.Config.Refresh

/-! # Zones in the order of their priorities

A priority is an `int` of the JSON text, and an `unsigned int` where it is kept. `std::sort` goes by what is
kept, so a negative priority comes after every other.

* `loadZones_ok`: the zones come from the entries that are enabled, one from each, in their order.
* `unsigned_sorted`: after the sort their priorities rise as unsigned numbers.
* `zones_ordered_iff`: they rise as the integers they are unless a zone with a negative one and a zone with
  another are both enabled. -/

namespace DnsMultiZone.Config.Priority

open DnsMultiZone.Lib.BigEndian DnsMultiZone.Lib.Results DnsMultiZone.Lib.Sorting
open DnsMultiZone.Config.Address DnsMultiZone.Config.ConfigType DnsMultiZone.Config.LoadFile
open DnsMultiZone.Config.Resolv DnsMultiZone.Config.LoadConfig DnsMultiZone.Config.Lookup
open DnsMultiZone.Config.Refresh

/-! ### Zone entries -/

/-- The member of an entry. -/
def member (name : String) (cj : CJson) : Option CJson :=
  match getObjectItemCaseSensitive name cj with
  | .error _ => none
  | .ok cj => cj

/-- The entries of `zoneList` that are enabled. -/
def enabledEntries (cjMonitor : CJson) : List CJson :=
  (children (member "zoneList" cjMonitor)).filter fun cjZone =>
    boolValue (member "enable" cjZone) == some true

/-- The priority of an entry, as the JSON text has it. -/
def priority (cjZone : CJson) : Int32 := (numberValue (member "priority" cjZone)).getD 0

/-- The zone is what the entry says. -/
def BuiltFrom (env : Env) (cjZone : CJson) (z : ZoneInfo) : Prop := loadZone env cjZone = .ok (some z)

/-- **The zones are ordered**: they are those of the enabled entries, in an order in which the priorities
rise. -/
def Ordered (env : Env) (cjMonitor : CJson) (vsZoneInfos : List ZoneInfo) : Prop :=
  ∃ es : List CJson, es.Perm (enabledEntries cjMonitor) ∧ List.Forall₂ (BuiltFrom env) es vsZoneInfos ∧
    es.Pairwise fun a b => (priority a).toInt ≤ (priority b).toInt

/-! ### What is loaded -/

variable {env : Env}

theorem member_eq {name : String} {cj : CJson} {item : Option CJson}
    (h : getObjectItemCaseSensitive name cj = .ok item) : member name cj = item := by
  rw [member, h]

theorem nPriority_setDNSPort (nPort : ℕ) (z : ZoneInfo) : (setDNSPort nPort z).nPriority = z.nPriority := by
  unfold setDNSPort
  rcases z.ssDNSAddr with _ | _ | _ <;> rfl

theorem nPriority_loadUpstream {inet : Inet} {sFile sIP : Option Bytes} {nPort : ℕ} {z z' : ZoneInfo}
    (h : loadUpstream inet sFile sIP nPort z = some z') : z'.nPriority = z.nPriority := by
  unfold loadUpstream at h
  rcases sFile with _ | sFile
  · rcases sIP with _ | sAddr
    · exact nomatch h
    · simp only [setDNSAddrFromString_eq] at h
      rcases haddr : addrOf inet 0 sAddr with _ | a
      · simp [haddr] at h
      · simp only [haddr, Option.isSome_some] at h
        rw [← Option.some.inj h, nPriority_setDNSPort]
  · rw [← Option.some.inj h, nPriority_setDNSPort]

theorem nPriority_loadIPInfos {sName : Bytes} {cjIPs : List CJson} {z z' : ZoneInfo}
    (h : loadIPInfos env sName cjIPs z = .ok z') : z'.nPriority = z.nPriority := by
  induction cjIPs generalizing z with
  | nil => exact congrArg _ (Except.ok.inj h).symm
  | cons cjIP cjIPs ih =>
    obtain ⟨info, -, h⟩ := ok_of_bind h
    rcases info with _ | info
    · exact ih h
    · exact (ih h).trans rfl

theorem loadZone_ok {cjZone : CJson} {r : Option ZoneInfo} (h : loadZone env cjZone = .ok r) :
    (boolValue (member "enable" cjZone) = some true ∧
      ∃ z, r = some z ∧ z.nPriority = (priority cjZone).toUInt32) ∨
    (boolValue (member "enable" cjZone) = some false ∧ r = none) := by
  obtain ⟨cjName, -, h⟩ := ok_of_bind h
  obtain ⟨cjEnable, hEnable, h⟩ := ok_of_bind h
  obtain ⟨cjPriority, hPriority, h⟩ := ok_of_bind h
  obtain ⟨cjResolvFile, -, h⟩ := ok_of_bind h
  obtain ⟨cjDNSIP, -, h⟩ := ok_of_bind h
  obtain ⟨cjDNSPort, -, h⟩ := ok_of_bind h
  obtain ⟨cjDenyNX, -, h⟩ := ok_of_bind h
  obtain ⟨cjDropIPv4, -, h⟩ := ok_of_bind h
  obtain ⟨cjDropIPv6, -, h⟩ := ok_of_bind h
  obtain ⟨cjIPs, -, h⟩ := ok_of_bind h
  rw [priority, member_eq hEnable, member_eq hPriority]
  split_ifs at h
  split at h
  · rename_i sName bEnable nPriority nDNSPort ips hn he hp hd hi
    rw [he, hp]
    rcases bEnable with _ | _
    · exact Or.inr ⟨rfl, (Except.ok.inj h).symm⟩
    · rw [if_neg (by decide)] at h
      split at h
      · exact nomatch h
      · rename_i z hz
        obtain ⟨z', hz', rfl⟩ := ok_of_map h
        have hsame := nPriority_loadIPInfos hz'
        exact Or.inl ⟨rfl, z', rfl, hsame.trans (nPriority_loadUpstream hz)⟩
  · exact nomatch h

/-- One zone for each enabled entry, in order. -/
theorem loadZones_ok {cjZones : List CJson} {zs zs' : List ZoneInfo} (h : loadZones env cjZones zs = .ok zs') :
    ∃ zs₁, zs' = zs ++ zs₁ ∧ List.Forall₂ (BuiltFrom env)
      (cjZones.filter fun cjZone => boolValue (member "enable" cjZone) == some true) zs₁ := by
  induction cjZones generalizing zs with
  | nil => exact ⟨[], by rw [List.append_nil, Except.ok.inj h], List.Forall₂.nil⟩
  | cons cjZone cjZones ih =>
    obtain ⟨r, hr, h⟩ := ok_of_bind h
    rcases loadZone_ok hr with ⟨he, z, rfl, -⟩ | ⟨he, rfl⟩
    · obtain ⟨zs₁, hzs, hall⟩ := ih h
      refine ⟨z :: zs₁, by simpa using hzs, ?_⟩
      rw [List.filter_cons_of_pos (by rw [he]; rfl)]
      exact List.Forall₂.cons hr hall
    · rw [List.filter_cons_of_neg (by rw [he]; decide)]
      exact ih h

theorem loadConfigJson_ok {c c' : ConfigData} {cjMonitor : CJson} (hc : c.vsZoneInfos = [])
    (hjson : readConfig env c = some cjMonitor) (h : loadConfigJson env c = .ok c') :
    ∃ zs, c'.vsZoneInfos = env.sortZones.sort zs ∧
      List.Forall₂ (BuiltFrom env) (enabledEntries cjMonitor) zs := by
  unfold loadConfigJson at h
  rw [hjson] at h
  obtain ⟨cjLocalIP, -, h⟩ := ok_of_bind h
  obtain ⟨cjLocalPort, -, h⟩ := ok_of_bind h
  split at h
  · split at h
    · exact nomatch h
    · obtain ⟨cjZones, hZones, h⟩ := ok_of_bind h
      obtain ⟨zs, hzs, h⟩ := ok_of_bind h
      rw [hc] at hzs
      obtain ⟨zs₁, hzs₁, hall⟩ := loadZones_ok hzs
      refine ⟨zs₁, by rw [← Except.ok.inj h, hzs₁]; rfl, ?_⟩
      rw [enabledEntries, member_eq hZones]
      exact hall
  · exact nomatch h

/-! ### Signed and unsigned -/

theorem toInt_cases (a : Int32) : (a.toInt : ℤ) = a.toUInt32.toNat ∧ a.toUInt32.toNat < 2 ^ 31 ∨
    (a.toInt : ℤ) = a.toUInt32.toNat - 2 ^ 32 ∧ 2 ^ 31 ≤ a.toUInt32.toNat := by
  have h : a.toInt = _ := BitVec.toInt_eq_toNat_cond a.toBitVec
  have hnat : a.toBitVec.toNat = a.toUInt32.toNat := rfl
  rw [hnat] at h
  split_ifs at h with hs
  · exact Or.inl ⟨h, by omega⟩
  · exact Or.inr ⟨h, by omega⟩

theorem toUInt32_le_iff {a b : Int32} (h : a.toInt < 0 ↔ b.toInt < 0) :
    a.toUInt32 ≤ b.toUInt32 ↔ a.toInt ≤ b.toInt := by
  rw [UInt32.le_iff_toNat_le]
  have hva := toInt_cases a
  have hvb := toInt_cases b
  have hb := b.toUInt32.toNat_lt
  have ha := a.toUInt32.toNat_lt
  omega

theorem toUInt32_lt_of_sign {a b : Int32} (ha : 0 ≤ a.toInt) (hb : b.toInt < 0) :
    a.toUInt32 < b.toUInt32 := by
  rw [UInt32.lt_iff_toNat_lt]
  have hva := toInt_cases a
  have hvb := toInt_cases b
  have hlt := a.toUInt32.toNat_lt
  omega

theorem priorities_eq {es : List CJson} {zs : List ZoneInfo} (h : List.Forall₂ (BuiltFrom env) es zs) :
    es.map (fun cj => (priority cj).toUInt32) = zs.map (·.nPriority) := by
  induction h with
  | nil => rfl
  | @cons cjZone z es zs hz _ ih =>
    rcases loadZone_ok hz with ⟨-, z', hz', hp⟩ | ⟨-, hz'⟩
    · obtain rfl := Option.some.inj hz'
      rw [List.map_cons, List.map_cons, ih, hp]
    · exact nomatch hz'

/-- **After the sort** the priorities rise as unsigned numbers. -/
theorem unsigned_sorted {es : List CJson} {zs : List ZoneInfo}
    (h : List.Forall₂ (BuiltFrom env) es (env.sortZones.sort zs)) :
    es.Pairwise fun a b => (priority a).toUInt32 ≤ (priority b).toUInt32 := by
  have hsorted := env.sortZones.sorted zs
  have hmap : ((env.sortZones.sort zs).map (·.nPriority)).Pairwise (· ≤ ·) := by
    rw [List.pairwise_map]
    exact hsorted.imp fun h => by simpa [zoneInfoCompare] using h
  rw [← priorities_eq h, List.pairwise_map] at hmap
  exact hmap

/-- No two enabled zones have priorities of different signs. -/
def SameSign (cjMonitor : CJson) : Prop :=
  ∀ a ∈ enabledEntries cjMonitor, ∀ b ∈ enabledEntries cjMonitor,
    (priority a).toInt < 0 → (priority b).toInt < 0

/-- The sorted zones, as entries in some order. -/
theorem exists_perm {es : List CJson} {zs : List ZoneInfo} (h : List.Forall₂ (BuiltFrom env) es zs) :
    ∃ es', es'.Perm es ∧ List.Forall₂ (BuiltFrom env) es' (env.sortZones.sort zs) := by
  obtain ⟨zs', hall, hperm⟩ := List.perm_comp_forall₂ (env.sortZones.perm zs) h.flip
  exact ⟨zs', hperm, hall.flip⟩

theorem ordered_iff {cjMonitor : CJson} {zs : List ZoneInfo}
    (h : List.Forall₂ (BuiltFrom env) (enabledEntries cjMonitor) zs) :
    Ordered env cjMonitor (env.sortZones.sort zs) ↔ SameSign cjMonitor := by
  constructor
  · rintro ⟨es, hperm, hall, hsigned⟩ a ha b hb
    -- what comes later is no less as either number, so it has the same sign
    have hpair : es.Pairwise fun a b => (priority a).toInt < 0 ↔ (priority b).toInt < 0 := by
      refine (hsigned.and (unsigned_sorted hall)).imp fun {a b} hab => ?_
      by_contra hn
      rcases lt_or_ge (priority a).toInt 0 with hna | hna
      · have hlt := toUInt32_lt_of_sign (not_lt.mp fun hnb => hn (iff_of_true hna hnb)) hna
        exact absurd hab.2 (UInt32.not_le.mpr hlt)
      · exact hn ⟨fun hna' => absurd hna' (not_lt.mpr hna), fun hnb => by omega⟩
    refine (List.Pairwise.forall_of_forall_of_flip ?_ hpair ?_ (hperm.mem_iff.mpr ha)
      (hperm.mem_iff.mpr hb)).mp
    · exact fun _ _ => Iff.rfl
    · exact hpair.imp Iff.symm
  · intro hsame
    obtain ⟨es, hperm, hall⟩ := exists_perm h
    refine ⟨es, hperm, hall, (unsigned_sorted hall).imp_of_mem fun {a b} ha hb hab => ?_⟩
    have ha' := hperm.mem_iff.mp ha
    have hb' := hperm.mem_iff.mp hb
    exact (toUInt32_le_iff ⟨hsame a ha' b hb', hsame b hb' a ha'⟩).mp hab

/-- **The zones of a configuration that is accepted** are those of the enabled entries. Their priorities
rise if and only if none of them is negative or all are. -/
theorem zones_ordered_iff (env : Env) (c c' : ConfigData) (cjMonitor : CJson) (hc : c.vsZoneInfos = [])
    (hjson : readConfig env c = some cjMonitor) (h : loadConfigJson env c = .ok c') :
    (∃ es, es.Perm (enabledEntries cjMonitor) ∧ List.Forall₂ (BuiltFrom env) es c'.vsZoneInfos) ∧
      (Ordered env cjMonitor c'.vsZoneInfos ↔ SameSign cjMonitor) := by
  obtain ⟨zs, hzs, hall⟩ := loadConfigJson_ok hc hjson h
  rw [hzs]
  exact ⟨exists_perm hall, ordered_iff hall⟩

/-! ### Two zones -/

/-- The JSON text of a zone. -/
def zoneText (sName priority : String) : Bytes :=
  text "\x7b\"name\":\"" ++ text sName ++ text "\",\"enable\":true,\"priority\":" ++ text priority ++
    text ",\"dnsIP\":\"1.1.1.1\",\"dnsPort\":53,\"ipList\":[]\x7d"

def zoneJson (sName : String) (priority : Int32) : CJson :=
  .object [(text "name", .string (text sName)), (text "enable", .bool true),
    (text "priority", .number priority), (text "dnsIP", .string (text "1.1.1.1")),
    (text "dnsPort", .number 53), (text "ipList", .array [])]

/-- The JSON text of a configuration with two zones. -/
def configText (p q : String) : Bytes :=
  text "\x7b\"bindIP\":\"0.0.0.0\",\"serverPort\":53,\"zoneList\":[" ++ zoneText "a" p ++ text "," ++
    zoneText "b" q ++ text "]\x7d"

def configJson (p q : Int32) : CJson :=
  .object [(text "bindIP", .string (text "0.0.0.0")), (text "serverPort", .number 53),
    (text "zoneList", .array [zoneJson "a" p, zoneJson "b" q])]

theorem zoneInfoCompare_asymm (a b : ZoneInfo) (h : zoneInfoCompare a b = true) :
    zoneInfoCompare b a = false := by
  simp only [zoneInfoCompare, decide_eq_true_eq, decide_eq_false_iff_not, UInt32.lt_iff_toNat_lt] at h ⊢
  omega

theorem zoneInfoCompare_trans (a b c : ZoneInfo) (h : zoneInfoCompare b a = false)
    (h' : zoneInfoCompare c b = false) : zoneInfoCompare c a = false := by
  simp only [zoneInfoCompare, decide_eq_false_iff_not, UInt32.lt_iff_toNat_lt] at h h' ⊢
  omega

/-- A sort of the zones. -/
def byPriority : StdSort zoneInfoCompare :=
  StdSort.insertion _ zoneInfoCompare_asymm zoneInfoCompare_trans

/-- A configuration file, and what the parser makes of it. -/
def fileEnv (sJson : Bytes) (cj : CJson) : Env where
  inet := dotted
  files f := if f = text "DNSMZConfig.json" then some sJson else none
  cJSON_Parse s := if s = sJson then some cj else none
  sort4 := sort4
  sort6 := sort6
  sortZones := byPriority

theorem readConfig_fileEnv {sJson : Bytes} {cj : CJson} (hne : sJson ≠ []) (hlen : sJson.length < 2147483648)
    (h0 : cStr sJson = sJson) : readConfig (fileEnv sJson cj) {} = some cj := by
  have hfiles : (fileEnv sJson cj).files (text "DNSMZConfig.json") = some sJson := by
    simp [fileEnv]
  exact (readConfig_eq hfiles hne hlen).trans (if_pos h0)

theorem enabledEntries_configJson (p q : Int32) :
    enabledEntries (configJson p q) = [zoneJson "a" p, zoneJson "b" q] := rfl

theorem exists_ok {α : Type} {x : Except LoadError α} (h : x.toOption.isSome = true) : ∃ a, x = .ok a := by
  rcases x with e | a
  · exact nomatch h
  · exact ⟨a, rfl⟩

/-- Of two zones, with the priorities 0 and -1, the second is the last. -/
theorem negative_last : ¬ ∀ (env : Env) (c c' : ConfigData) (cjMonitor : CJson), c.vsZoneInfos = [] →
    readConfig env c = some cjMonitor → loadConfigJson env c = .ok c' →
    Ordered env cjMonitor c'.vsZoneInfos := by
  intro h
  have hjson : readConfig (fileEnv (configText "0" "-1") (configJson 0 (-1))) {} = some _ :=
    readConfig_fileEnv (by decide +kernel) (by decide +kernel) (by decide +kernel)
  obtain ⟨c', hload⟩ := exists_ok (x := loadConfigJson
    (fileEnv (configText "0" "-1") (configJson 0 (-1))) {}) (by decide +kernel)
  obtain ⟨zs, hzs, hall⟩ := loadConfigJson_ok rfl hjson hload
  have hordered := h _ _ _ _ rfl hjson hload
  rw [hzs, ordered_iff hall] at hordered
  have hneg := hordered (zoneJson "b" (-1)) (by rw [enabledEntries_configJson]; simp)
    (zoneJson "a" 0) (by rw [enabledEntries_configJson]; simp)
  exact absurd (hneg (by decide +kernel)) (by decide +kernel)

/-- With the priorities -1 and -2 they are in order. -/
theorem zones_ordered_iff_negative :
    ∃ c', loadConfigJson (fileEnv (configText "-1" "-2") (configJson (-1) (-2))) {} = .ok c' ∧
      Ordered (fileEnv (configText "-1" "-2") (configJson (-1) (-2))) (configJson (-1) (-2))
        c'.vsZoneInfos := by
  have hjson : readConfig (fileEnv (configText "-1" "-2") (configJson (-1) (-2))) {} = some _ :=
    readConfig_fileEnv (by decide +kernel) (by decide +kernel) (by decide +kernel)
  obtain ⟨c', hload⟩ := exists_ok (x := loadConfigJson
    (fileEnv (configText "-1" "-2") (configJson (-1) (-2))) {}) (by decide +kernel)
  refine ⟨c', hload, (zones_ordered_iff _ {} c' _ rfl hjson hload).2.mpr ?_⟩
  intro a _ b hb _
  rw [enabledEntries_configJson] at hb
  rcases List.mem_pair.mp hb with rfl | rfl <;> decide +kernel

end DnsMultiZone.Config.Priority
