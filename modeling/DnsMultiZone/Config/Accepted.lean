import DnsMultiZone.Config.Priority
import DnsMultiZone.Json.Parser

/-! # A configuration that is accepted

What the rest of the program takes for granted of `m_vsZoneInfos`. Each zone comes from an entry that is
enabled, its lists from the entries of its `ipList` that are enabled, in their order, and each list is its
file as `LoadFile` reads it. Entries that are not enabled leave nothing behind, whatever their files are.

* `accepted_zones`: the zones of a configuration that is accepted.
* `loadConfigJson_frame`: the files that a load looks at.
* `loadConfigJson_fault`: the loads that do not return. -/

namespace DnsMultiZone.Config.Accepted

open DnsMultiZone.Lib.BigEndian DnsMultiZone.Lib.Results DnsMultiZone.Lib.Sorting
open DnsMultiZone.Config.Address DnsMultiZone.Config.ConfigType DnsMultiZone.Config.LoadFile
open DnsMultiZone.Config.Resolv DnsMultiZone.Config.LoadConfig DnsMultiZone.Config.Priority
open DnsMultiZone.Config.Lookup (text dotted sort4 sort6)

variable {env : Env}

/-! ### Lists -/

/-- The entries of an `ipList` that are enabled. -/
def enabledLists (cjIPs : List CJson) : List CJson :=
  cjIPs.filter fun cjIP => boolValue (member "enable" cjIP) == some true

/-- The list is what its entry says: its family, its flags, and its file. -/
structure ListFrom (env : Env) (cjIP : CJson) (info : IPInfo) : Prop where
  family : ∃ nFamily, numberValue (member "family" cjIP) = some nFamily ∧ info.nFamily = nFamily.toInt
  four_or_six : info.nFamily = 4 ∨ info.nFamily = 6
  deny : info.bIsDeny = (boolValue (member "deny" cjIP)).getD false
  inverse : boolValue (member "inverseIPList" cjIP) = some info.bIsInverseIPList
  file : stringValue (member "file" cjIP) = some info.sFileName
  loaded : IPInfo.loadFile env.inet env.sort4 env.sort6 (env.files info.sFileName)
    { info with siIPItems := [], siIPItems6 := [] } = some info

theorem loadFile_some {inet : Inet} {sort : StdSort compareIPItemInfo}
    {sort6 : StdSort compareIPItemInfo6} {file : Option Bytes} {info info' : IPInfo}
    (h : IPInfo.loadFile inet sort sort6 file info = some info') :
    info'.nFamily = info.nFamily ∧ info'.bIsDeny = info.bIsDeny ∧
      info'.bIsInverseIPList = info.bIsInverseIPList ∧ info'.sFileName = info.sFileName := by
  unfold IPInfo.loadFile at h
  obtain ⟨bytes, -, h⟩ := Option.bind_eq_some_iff.mp h
  obtain ⟨items, -, h⟩ := Option.bind_eq_some_iff.mp h
  cases h
  exact ⟨rfl, rfl, rfl, rfl⟩

theorem toInt_family {nFamily : Int32} (h : ¬ (nFamily ≠ 4 ∧ nFamily ≠ 6)) :
    nFamily.toInt = 4 ∨ nFamily.toInt = 6 := by
  rcases not_and_or.mp h with h | h
  · exact .inl (by rw [not_not.mp h]; rfl)
  · exact .inr (by rw [not_not.mp h]; rfl)

theorem loadIPInfo_ok {sName : Bytes} {cjIP : CJson} {r : Option IPInfo}
    (h : loadIPInfo env sName cjIP = .ok r) :
    (boolValue (member "enable" cjIP) = some true ∧ ∃ info, r = some info ∧ ListFrom env cjIP info) ∨
    (boolValue (member "enable" cjIP) = some false ∧ r = none) := by
  obtain ⟨cjIPEnable, hEnable, h⟩ := ok_of_bind h
  obtain ⟨cjDeny, hDeny, h⟩ := ok_of_bind h
  obtain ⟨cjIPIsInverse, hInverse, h⟩ := ok_of_bind h
  obtain ⟨cjIPFile, hFile, h⟩ := ok_of_bind h
  obtain ⟨cjFamily, hFamily, h⟩ := ok_of_bind h
  rw [member_eq hEnable]
  split at h
  · rename_i bEnable bIsInverseIPList sFileName he hi hf
    split at h
    · exact nomatch h
    · rename_i nFamily hn
      split_ifs at h with hsix hoff
      · exact .inr ⟨by simpa using he.trans (congrArg some (by simpa using hoff)),
          (Except.ok.inj h).symm⟩
      · split at h
        · exact nomatch h
        · rename_i info hload
          obtain ⟨h1, h2, h3, h4⟩ := loadFile_some hload
          have hon : bEnable = true := by simpa using hoff
          refine .inl ⟨by rw [he, hon], info, (Except.ok.inj h).symm, ?_⟩
          refine ⟨⟨nFamily, by rw [member_eq hFamily, hn], h1⟩, ?_, ?_, ?_, ?_, ?_⟩
          · rw [h1]
            exact toInt_family hsix
          · rw [h2, member_eq hDeny]
          · rw [h3, member_eq hInverse, hi]
          · rw [h4, member_eq hFile, hf]
          · rw [← hload, h1, h2, h3, h4]
  · exact nomatch h

theorem exists_of_mem_right {α β : Type} {R : α → β → Prop} {as : List α} {bs : List β}
    (h : List.Forall₂ R as bs) {b : β} (hb : b ∈ bs) : ∃ a ∈ as, R a b := by
  induction h with
  | nil => cases hb
  | cons hr _ ih =>
    rcases List.mem_cons.mp hb with rfl | hb
    · exact ⟨_, List.mem_cons_self, hr⟩
    · obtain ⟨a, ha, hab⟩ := ih hb
      exact ⟨a, List.mem_cons_of_mem _ ha, hab⟩

theorem ListFrom.toLoaded {cjIP : CJson} {info : IPInfo} (h : ListFrom env cjIP info) :
    Lookup.Loaded env.inet info :=
  ⟨env.sort4, env.sort6, env.files info.sFileName, _, rfl, rfl, h.loaded⟩

/-- The zone with lists added. -/
def withLists (z : ZoneInfo) (infos : List IPInfo) : ZoneInfo :=
  { z with
    bHasV4 := z.bHasV4 || infos.any (·.nFamily == 4)
    bHasV6 := z.bHasV6 || infos.any (·.nFamily != 4)
    siIPInfos := z.siIPInfos ++ infos }

/-- One list for each enabled entry, in order. -/
theorem loadIPInfos_ok {sName : Bytes} {cjIPs : List CJson} {z z' : ZoneInfo}
    (h : loadIPInfos env sName cjIPs z = .ok z') :
    ∃ infos, z' = withLists z infos ∧ List.Forall₂ (ListFrom env) (enabledLists cjIPs) infos := by
  induction cjIPs generalizing z with
  | nil =>
    refine ⟨[], ?_, List.Forall₂.nil⟩
    rw [← Except.ok.inj h]
    simp [withLists]
  | cons cjIP cjIPs ih =>
    obtain ⟨r, hr, h⟩ := ok_of_bind h
    rcases loadIPInfo_ok hr with ⟨he, info, rfl, hinfo⟩ | ⟨he, rfl⟩
    · obtain ⟨infos, hz, hall⟩ := ih h
      refine ⟨info :: infos, ?_, ?_⟩
      · rw [hz]
        simp [withLists, Bool.or_assoc]
      · rw [enabledLists, List.filter_cons_of_pos (by rw [he]; rfl)]
        exact List.Forall₂.cons hinfo hall
    · obtain ⟨infos, hz, hall⟩ := ih h
      refine ⟨infos, hz, ?_⟩
      rw [enabledLists, List.filter_cons_of_neg (by rw [he]; decide)]
      exact hall

/-! ### Zones -/

/-- The upstream is the file of `resolvFile`, which is still to be read, or without one the address of
`dnsIP`, with the zone's port. -/
def Upstream (inet : Inet) (resolvFile dnsIP : Option Bytes) (z : ZoneInfo) : Prop :=
  match resolvFile with
  | some sFile => z.rcfResolvConf = { sResolvConfFile := sFile } ∧ z.bIsDNSAddrOK = false ∧
      z.ssDNSAddr = .unspec z.nDNSPort
  | none => z.rcfResolvConf = {} ∧ z.bIsDNSAddrOK = true ∧
      ∃ sAddr, dnsIP = some sAddr ∧ Refresh.addrOf inet z.nDNSPort sAddr = some z.ssDNSAddr

/-- The zone is what its entry says: its name and flags, its upstream, and its lists. -/
structure ZoneFrom (env : Env) (cjZone : CJson) (z : ZoneInfo) : Prop where
  name : stringValue (member "name" cjZone) = some z.sName
  priority : ∃ nPriority, numberValue (member "priority" cjZone) = some nPriority ∧
    z.nPriority = nPriority.toUInt32
  port : ∃ nDNSPort, numberValue (member "dnsPort" cjZone) = some nDNSPort ∧ z.nDNSPort = toPort nDNSPort
  denyNXDomain : z.bIsDenyNXDomain = (boolValue (member "denyNXDomain" cjZone)).getD false
  dropIPv4 : z.bIsDropIPv4 = (boolValue (member "dropIPv4" cjZone)).getD false
  dropIPv6 : z.bIsDropIPv6 = (boolValue (member "dropIPv6" cjZone)).getD false
  upstream : Upstream env.inet (stringValue (member "resolvFile" cjZone)) (stringValue (member "dnsIP" cjZone)) z
  lists : ∃ cjIPs, arrayValue (member "ipList" cjZone) = some cjIPs ∧
    List.Forall₂ (ListFrom env) (enabledLists cjIPs) z.siIPInfos
  hasV4 : z.bHasV4 = true ↔ ∃ info ∈ z.siIPInfos, info.nFamily = 4
  hasV6 : z.bHasV6 = true ↔ ∃ info ∈ z.siIPInfos, info.nFamily = 6

def withUpstream (z : ZoneInfo) (rcfResolvConf : ResolvConf) (bIsDNSAddrOK : Bool) (ssDNSAddr : SockAddr)
    (nDNSPort : ℕ) : ZoneInfo :=
  { z with rcfResolvConf, bIsDNSAddrOK, ssDNSAddr, nDNSPort }

theorem loadUpstream_some {inet : Inet} {sFile sIP : Option Bytes} {nPort : ℕ} {sName : Bytes}
    {nPriority : UInt32} {z : ZoneInfo}
    (h : loadUpstream inet sFile sIP nPort { sName, nPriority } = some z) :
    ∃ rcf ok a, z = withUpstream { sName, nPriority } rcf ok a nPort ∧ Upstream inet sFile sIP z := by
  unfold loadUpstream at h
  rcases sFile with _ | sFile
  · rcases sIP with _ | sAddr
    · exact nomatch h
    · simp only [Refresh.setDNSAddrFromString_eq] at h
      rcases haddr : Refresh.addrOf inet 0 sAddr with _ | a
      · simp [haddr] at h
      · obtain ⟨b, hb, hset⟩ := Refresh.setDNSPort_addrOf nPort haddr
        simp only [haddr, Option.isSome_some] at h
        have hz := Option.some.inj h
        have hb' := hset (withUpstream { sName, nPriority } {} true (.unspec 0) nPort)
        refine ⟨{}, true, b, hz.symm.trans hb', ?_⟩
        rw [hz.symm.trans hb']
        exact ⟨rfl, rfl, sAddr, rfl, hb⟩
  · have hz := Option.some.inj h
    refine ⟨_, _, _, hz.symm, ?_⟩
    rw [← hz]
    exact ⟨rfl, rfl, rfl⟩

theorem Upstream.loaded {inet : Inet} {resolvFile dnsIP : Option Bytes} {z : ZoneInfo}
    (h : Upstream inet resolvFile dnsIP z) : Resolv.Loaded inet z := by
  rcases resolvFile with _ | sFile
  swap
  · obtain ⟨hr, hok, ha⟩ := h
    refine ⟨some sFile, none, z.nDNSPort, withUpstream z {} false (.unspec 0) 0, rfl, rfl, rfl, ?_⟩
    have hz : z = withUpstream z { sResolvConfFile := sFile } false (.unspec z.nDNSPort) z.nDNSPort := by
      rw [← hr, ← hok, ← ha]
      rfl
    exact congrArg some hz.symm
  · obtain ⟨hr, hok, sAddr, -, ha⟩ := h
    refine ⟨none, some sAddr, z.nDNSPort, withUpstream z {} false (.unspec 0) 0, rfl, rfl, rfl, ?_⟩
    rcases haddr : Refresh.addrOf inet 0 sAddr with _ | a
    · rw [Refresh.addrOf_eq_none haddr] at ha
      cases ha
    · obtain ⟨b, hb, hset⟩ := Refresh.setDNSPort_addrOf z.nDNSPort haddr
      rw [ha] at hb
      cases hb
      unfold loadUpstream
      simp only [Refresh.setDNSAddrFromString_eq, haddr, Option.isSome_some, Option.getD_some]
      refine congrArg some ((hset (withUpstream z {} true (.unspec 0) z.nDNSPort)).trans ?_)
      rw [withUpstream, ← hr, ← hok]

theorem zoneFrom_of_loadZone {cjZone : CJson} {z : ZoneInfo} (h : loadZone env cjZone = .ok (some z)) :
    ZoneFrom env cjZone z := by
  obtain ⟨cjName, hName, h⟩ := ok_of_bind h
  obtain ⟨cjEnable, -, h⟩ := ok_of_bind h
  obtain ⟨cjPriority, hPriority, h⟩ := ok_of_bind h
  obtain ⟨cjResolvFile, hFile, h⟩ := ok_of_bind h
  obtain ⟨cjDNSIP, hIP, h⟩ := ok_of_bind h
  obtain ⟨cjDNSPort, hPort, h⟩ := ok_of_bind h
  obtain ⟨cjDenyNX, hDenyNX, h⟩ := ok_of_bind h
  obtain ⟨cjDropIPv4, hDropIPv4, h⟩ := ok_of_bind h
  obtain ⟨cjDropIPv6, hDropIPv6, h⟩ := ok_of_bind h
  obtain ⟨cjIPs, hIPs, h⟩ := ok_of_bind h
  split_ifs at h
  split at h
  swap
  · exact nomatch h
  rename_i sName bEnable nPriority nDNSPort ips hn he hp hd hi
  rcases bEnable with _ | _
  · exact nomatch h
  rw [if_neg (by decide)] at h
  split at h
  · exact nomatch h
  rename_i z₁ hz
  obtain ⟨z₂, hz₂, hsome⟩ := ok_of_map h
  obtain rfl := Option.some.inj hsome
  obtain ⟨infos, rfl, hall⟩ := loadIPInfos_ok hz₂
  obtain ⟨rcf, ok, a, rfl, hup⟩ := loadUpstream_some hz
  have hfamily : ∀ info ∈ infos, info.nFamily = 4 ∨ info.nFamily = 6 := fun info hi => by
    obtain ⟨cjIP, -, hfrom⟩ := exists_of_mem_right hall hi
    exact hfrom.four_or_six
  exact {
    name := by rw [member_eq hName, hn]; rfl
    priority := ⟨nPriority, by rw [member_eq hPriority, hp], rfl⟩
    port := ⟨nDNSPort, by rw [member_eq hPort, hd], rfl⟩
    denyNXDomain := by rw [member_eq hDenyNX]; rfl
    dropIPv4 := by rw [member_eq hDropIPv4]; rfl
    dropIPv6 := by rw [member_eq hDropIPv6]; rfl
    upstream := by rw [member_eq hFile, member_eq hIP]; exact hup
    lists := ⟨ips, by rw [member_eq hIPs, hi], hall⟩
    hasV4 := by
      change (false || infos.any (·.nFamily == 4)) = true ↔ ∃ info ∈ infos, info.nFamily = 4
      simp
    hasV6 := by
      change (false || infos.any (·.nFamily != 4)) = true ↔ ∃ info ∈ infos, info.nFamily = 6
      simp only [Bool.false_or, List.any_eq_true, bne_iff_ne, ne_eq]
      refine exists_congr fun info => and_congr_right fun hi => ?_
      have := hfamily info hi
      omega }

/-! A configuration with two entries in its `ipList`, the second not enabled. -/

/-- The JSON text of an entry. -/
def listText (sFile enable : String) : Bytes :=
  text "\x7b\"file\":\"" ++ text sFile ++ text "\",\"enable\":" ++ text enable ++
    text ",\"inverseIPList\":false,\"family\":4\x7d"

def listsText : Bytes :=
  text "\x7b\"bindIP\":\"0.0.0.0\",\"serverPort\":53,\"zoneList\":[\x7b\"name\":\"a\",\"enable\":true," ++
    text "\"priority\":-1,\"resolvFile\":\"/etc/resolv.conf\",\"dnsPort\":53,\"ipList\":[" ++
    listText "on" "true" ++ text "," ++ listText "off" "false" ++ text "]\x7d]\x7d"

/-- The files, `off` among them or not. -/
def listsFiles (off : Option Bytes) (sFile : Bytes) : Option Bytes :=
  if sFile = text "DNSMZConfig.json" then some listsText
  else if sFile = text "on" then some (text "1.1.1.0/24\n")
  else if sFile = text "off" then off
  else none

def listsEnv : Env where
  inet := dotted
  files := listsFiles none
  cJSON_Parse := Json.Parser.cJSON_Parse
  sort4 := sort4
  sort6 := sort6
  sortZones := byPriority

theorem lists_ok : ∃ c', loadConfigJson listsEnv {} = .ok c' ∧
    ∀ z ∈ c'.vsZoneInfos, ∀ info ∈ z.siIPInfos, info.sFileName ≠ text "off" := by
  have hrun : ((loadConfigJson listsEnv {}).toOption.map fun c' =>
      c'.vsZoneInfos.all fun z => z.siIPInfos.all (·.sFileName != text "off")) = some true := by
    decide +kernel
  rcases hload : loadConfigJson listsEnv {} with e | c' <;> rw [hload] at hrun
  · exact nomatch hrun
  · refine ⟨c', rfl, fun z hz info hi => ?_⟩
    have hz := List.all_eq_true.mp (Option.some.inj hrun) z hz
    exact bne_iff_ne.mp (List.all_eq_true.mp hz info hi)

/-! ### The configuration -/

/-- A zone with `dnsIP`, and one with `resolvFile`, a list, and a lower priority. -/
def mixedText : Bytes :=
  text "\x7b\"bindIP\":\"0.0.0.0\",\"serverPort\":53,\"zoneList\":[" ++ zoneText "b" "5" ++
    text ",\x7b\"name\":\"a\",\"enable\":true,\"priority\":1,\"resolvFile\":\"/etc/resolv.conf\"," ++
    text "\"dnsPort\":53,\"ipList\":[" ++ listText "on" "true" ++ text "]\x7d]\x7d"

def mixedEnv : Env :=
  { listsEnv with files := fun f => if f = text "DNSMZConfig.json" then some mixedText else listsFiles none f }

theorem error_of_bind {ε α β : Type} {x : Except ε α} {f : α → Except ε β} {e : ε}
    (h : x >>= f = .error e) : x = .error e ∨ ∃ a, x = .ok a ∧ f a = .error e := by
  rcases x with e' | a
  · exact .inl (congrArg _ (Except.error.inj h))
  · exact .inr ⟨a, rfl, h⟩

/-- The item is an array that is not empty: its elements have no names. -/
def Nameless : CJson → Prop
  | .array (_ :: _) => True
  | _ => False

/-- The error is not that of a length, and that of a null name only if an item has none. -/
def From (cjs : List CJson) (e : LoadError) : Prop :=
  e ≠ .lengthError ∧ (e = .fault → ∃ cj ∈ cjs, Nameless cj)

section From
variable {cjs cjs' : List CJson} {cj : CJson} {e : LoadError}

theorem From.mono (h : From cjs e) (hsub : cjs ⊆ cjs') : From cjs' e :=
  ⟨h.1, fun he => (h.2 he).imp fun _ hcj => ⟨hsub hcj.1, hcj.2⟩⟩

theorem from_of_ne (hlen : e ≠ .lengthError) (hfault : e ≠ .fault) : From cjs e :=
  ⟨hlen, fun he => absurd he hfault⟩

theorem from_refused : From cjs .refused := from_of_ne (by simp) (by simp)

theorem from_bind {α β : Type} {x : Except LoadError α} {f : α → Except LoadError β}
    (h : x >>= f = .error e) (hx : x = .error e → From cjs e)
    (hf : ∀ a, x = .ok a → f a = .error e → From cjs e) : From cjs e := by
  rcases error_of_bind h with h | ⟨a, ha, h⟩
  · exact hx h
  · exact hf a ha h

theorem from_member {name : String} (hcj : cj ∈ cjs)
    (h : getObjectItemCaseSensitive name (some cj) = .error e) : From cjs e := by
  unfold getObjectItemCaseSensitive at h
  split at h
  · exact nomatch h
  · rename_i heq
    cases heq
    obtain rfl := Except.error.inj h
    exact ⟨by simp, fun _ => ⟨_, hcj, trivial⟩⟩
  · exact nomatch h

end From

theorem loadIPInfo_error {sName : Bytes} {cjIP : CJson} {e : LoadError}
    (h : loadIPInfo env sName cjIP = .error e) : From [cjIP] e := by
  have hmem : cjIP ∈ [cjIP] := List.mem_singleton_self _
  unfold loadIPInfo at h
  refine from_bind h (from_member hmem) fun cjIPEnable _ h => ?_
  refine from_bind h (from_member hmem) fun cjDeny _ h => ?_
  refine from_bind h (from_member hmem) fun cjIPIsInverse _ h => ?_
  refine from_bind h (from_member hmem) fun cjIPFile _ h => ?_
  refine from_bind h (from_member hmem) fun cjFamily _ h => ?_
  split at h
  · split at h
    · obtain rfl := Except.error.inj h
      exact from_of_ne (by simp) (by simp)
    · split_ifs at h
      · obtain rfl := Except.error.inj h
        exact from_of_ne (by simp) (by simp)
      · split at h
        · obtain rfl := Except.error.inj h
          exact from_of_ne (by simp) (by simp)
        · cases h
  · obtain rfl := Except.error.inj h
    exact from_refused

theorem loadIPInfos_error {sName : Bytes} {cjIPs : List CJson} {z : ZoneInfo} {e : LoadError}
    (h : loadIPInfos env sName cjIPs z = .error e) : From cjIPs e := by
  induction cjIPs generalizing z with
  | nil => cases h
  | cons cjIP cjIPs ih =>
    refine from_bind h (fun h => (loadIPInfo_error h).mono (by simp)) fun r _ h => ?_
    rcases r with _ | info
    · exact (ih h).mono (List.subset_cons_self _ _)
    · exact (ih h).mono (List.subset_cons_self _ _)

/-- The items below an entry of `zoneList` that are asked for a member. -/
def askedZone (cjZone : CJson) : List CJson := cjZone :: (arrayValue (member "ipList" cjZone)).getD []

/-- The items that are asked for a member: the configuration, its zones, and their lists. -/
def asked (cjMonitor : CJson) : List CJson :=
  cjMonitor :: (children (member "zoneList" cjMonitor)).flatMap askedZone

theorem loadZone_error {cjZone : CJson} {e : LoadError} (h : loadZone env cjZone = .error e) :
    From (askedZone cjZone) e := by
  have hmem : cjZone ∈ askedZone cjZone := List.mem_cons_self
  unfold loadZone at h
  refine from_bind h (from_member hmem) fun cjName _ h => ?_
  refine from_bind h (from_member hmem) fun cjEnable _ h => ?_
  refine from_bind h (from_member hmem) fun cjPriority _ h => ?_
  refine from_bind h (from_member hmem) fun cjResolvFile _ h => ?_
  refine from_bind h (from_member hmem) fun cjDNSIP _ h => ?_
  refine from_bind h (from_member hmem) fun cjDNSPort _ h => ?_
  refine from_bind h (from_member hmem) fun cjDenyNX _ h => ?_
  refine from_bind h (from_member hmem) fun cjDropIPv4 _ h => ?_
  refine from_bind h (from_member hmem) fun cjDropIPv6 _ h => ?_
  refine from_bind h (from_member hmem) fun cjIPs hIPs h => ?_
  split_ifs at h
  · obtain rfl := Except.error.inj h
    exact from_refused
  split at h
  swap
  · obtain rfl := Except.error.inj h
    exact from_refused
  rename_i sName bEnable nPriority nDNSPort ips hn he hp hd hi
  split_ifs at h
  split at h
  · obtain rfl := Except.error.inj h
    exact from_refused
  rename_i z₁ hz
  rcases hlists : loadIPInfos env sName ips { z₁ with
      bIsDenyNXDomain := (boolValue cjDenyNX).getD false
      bIsDropIPv4 := (boolValue cjDropIPv4).getD false
      bIsDropIPv6 := (boolValue cjDropIPv6).getD false } with e' | z₂ <;> rw [hlists] at h
  · obtain rfl := Except.error.inj h
    refine (loadIPInfos_error hlists).mono fun cjIP hcj => List.mem_cons_of_mem _ ?_
    rwa [member_eq hIPs, hi]
  · cases h

theorem loadZones_error {cjZones : List CJson} {zs : List ZoneInfo} {e : LoadError}
    (h : loadZones env cjZones zs = .error e) : From (cjZones.flatMap askedZone) e := by
  induction cjZones generalizing zs with
  | nil => cases h
  | cons cjZone cjZones ih =>
    rw [List.flatMap_cons]
    refine from_bind h (fun h => (loadZone_error h).mono (List.subset_append_left _ _)) fun r _ h => ?_
    rcases r with _ | z
    · exact (ih h).mono (List.subset_append_right _ _)
    · exact (ih h).mono (List.subset_append_right _ _)

/-- Once the file is read, a load ends for what is in it. -/
theorem loadConfigJson_error {c : ConfigData} {cjMonitor : CJson} {e : LoadError}
    (hjson : readConfig env c = some cjMonitor) (h : loadConfigJson env c = .error e) :
    From (asked cjMonitor) e := by
  have hmem : cjMonitor ∈ asked cjMonitor := List.mem_cons_self
  unfold loadConfigJson at h
  rw [hjson] at h
  refine from_bind h (from_member hmem) fun cjLocalIP _ h => ?_
  refine from_bind h (from_member hmem) fun cjLocalPort _ h => ?_
  split at h
  swap
  · obtain rfl := Except.error.inj h
    exact from_refused
  split at h
  · obtain rfl := Except.error.inj h
    exact from_refused
  refine from_bind h (from_member hmem) fun cjZones hZones h => ?_
  refine from_bind h (fun h => (loadZones_error h).mono fun cj hcj => List.mem_cons_of_mem _ ?_) fun zs _ h => ?_
  · rwa [member_eq hZones]
  · cases h

/-- **Loads that do not return**: a name that is not there is compared only where the file has an array that
is not empty in the place of an object, and `resize` throws exactly for a file whose length is negative as an
`int`. -/
theorem loadConfigJson_fault (env : Env) (c : ConfigData) :
    (loadConfigJson env c = .error .fault →
      ∃ cjMonitor, readConfig env c = some cjMonitor ∧ ∃ cj ∈ asked cjMonitor, Nameless cj) ∧
    (loadConfigJson env c = .error .lengthError ↔
      ∃ sBin, env.files c.sFileConfig = some sBin ∧ fileLen sBin < 0) := by
  rcases hjson : readConfig env c with _ | cjMonitor
  · have hload : loadConfigJson env c = .error (getBinError env.files c.sFileConfig) := by
      unfold loadConfigJson
      rw [hjson]
    rw [hload]
    unfold getBinError
    rcases hfile : env.files c.sFileConfig with _ | sBin
    · simp
    · by_cases hlen : fileLen sBin < 0
      · simp [hlen]
      · simp [hlen]
  · have hno : ∀ sBin, env.files c.sFileConfig = some sBin → ¬ fileLen sBin < 0 := by
      intro sBin hfile hlen
      have hbin : getBinByFile env.files c.sFileConfig = none := by
        unfold getBinByFile
        simp only [hfile]
        exact if_pos hlen.le
      rw [readConfig, hbin] at hjson
      cases hjson
    refine ⟨fun h => ⟨cjMonitor, rfl, (loadConfigJson_error hjson h).2 rfl⟩,
      fun h => absurd rfl (loadConfigJson_error hjson h).1, fun h => ?_⟩
    obtain ⟨sBin, hfile, hlen⟩ := h
    exact absurd hlen (hno sBin hfile)

def oneFile (sJson : Bytes) : Env := { listsEnv with files := fun _ => some sJson }

theorem fileLen_huge : fileLen (List.replicate 2147483648 0x20) < 0 := by
  have hlen (n : ℕ) : fileLen (List.replicate n 0x20) = (n : ℤ).bmod 4294967296 := by
    unfold fileLen
    rw [List.length_replicate]
  rw [hlen]
  decide

/-- A configuration that is an array with one element, and one of 2 GiB of spaces. -/
theorem loadConfigJson_fault_files : loadConfigJson (oneFile (text "[null]")) {} = .error .fault ∧
    (∃ cjMonitor, readConfig (oneFile (text "[null]")) {} = some cjMonitor ∧
      ∃ cj ∈ asked cjMonitor, Nameless cj) ∧
    loadConfigJson (oneFile (List.replicate 2147483648 0x20)) {} = .error .lengthError := by
  have hrun : (match loadConfigJson (oneFile (text "[null]")) {} with
    | .error .fault => true
    | _ => false) = true := by decide +kernel
  have hfault : loadConfigJson (oneFile (text "[null]")) {} = .error .fault := by
    split at hrun
    · assumption
    · cases hrun
  have hlong : ∀ sJson, fileLen sJson < 0 → loadConfigJson (oneFile sJson) {} = .error .lengthError :=
    fun sJson h => (loadConfigJson_fault (oneFile sJson) {}).2.mpr ⟨sJson, rfl, h⟩
  exact ⟨hfault, (loadConfigJson_fault (oneFile (text "[null]")) {}).1 hfault, hlong _ fileLen_huge⟩

/-! ### The files that are read -/

section
variable {files : Bytes → Option Bytes}

theorem loadIPInfo_frame {sName : Bytes} {cjIP : CJson} {r : Option IPInfo}
    (h : loadIPInfo env sName cjIP = .ok r)
    (hfiles : ∀ info, r = some info → files info.sFileName = env.files info.sFileName) :
    loadIPInfo { env with files } sName cjIP = .ok r := by
  obtain ⟨cjIPEnable, hEnable, h⟩ := ok_of_bind h
  obtain ⟨cjDeny, hDeny, h⟩ := ok_of_bind h
  obtain ⟨cjIPIsInverse, hInverse, h⟩ := ok_of_bind h
  obtain ⟨cjIPFile, hFile, h⟩ := ok_of_bind h
  obtain ⟨cjFamily, hFamily, h⟩ := ok_of_bind h
  unfold loadIPInfo
  rw [bind_of_ok hEnable, bind_of_ok hDeny, bind_of_ok hInverse, bind_of_ok hFile, bind_of_ok hFamily]
  split at h
  · split at h
    · exact nomatch h
    · split_ifs at h with hsix hoff
      · rw [if_neg hsix, if_pos hoff, h]
      · rw [if_neg hsix, if_neg hoff]
        split at h
        · exact nomatch h
        · rename_i info hload
          have hname := (loadFile_some hload).2.2.2
          have hsame := hfiles info (Except.ok.inj h).symm
          rw [hname] at hsame
          dsimp only
          rw [hsame, hload]
          exact h
  · exact nomatch h

theorem loadIPInfos_frame {sName : Bytes} {cjIPs : List CJson} {z z' : ZoneInfo}
    (h : loadIPInfos env sName cjIPs z = .ok z')
    (hfiles : ∀ info ∈ z'.siIPInfos, files info.sFileName = env.files info.sFileName) :
    loadIPInfos { env with files } sName cjIPs z = .ok z' := by
  induction cjIPs generalizing z with
  | nil => exact h
  | cons cjIP cjIPs ih =>
    obtain ⟨r, hr, h⟩ := ok_of_bind h
    rcases r with _ | info
    · rw [loadIPInfos, bind_of_ok (loadIPInfo_frame hr fun info hi => nomatch hi)]
      exact ih h
    · have hin : info ∈ z'.siIPInfos := by
        obtain ⟨infos, rfl, -⟩ := loadIPInfos_ok h
        simp [withLists]
      rw [loadIPInfos, bind_of_ok (loadIPInfo_frame hr fun info' hi => by
        rw [← Option.some.inj hi]
        exact hfiles info hin)]
      exact ih h

theorem loadZone_frame {cjZone : CJson} {r : Option ZoneInfo} (h : loadZone env cjZone = .ok r)
    (hfiles : ∀ z, r = some z → ∀ info ∈ z.siIPInfos, files info.sFileName = env.files info.sFileName) :
    loadZone { env with files } cjZone = .ok r := by
  obtain ⟨cjName, hName, h⟩ := ok_of_bind h
  obtain ⟨cjEnable, hEnable, h⟩ := ok_of_bind h
  obtain ⟨cjPriority, hPriority, h⟩ := ok_of_bind h
  obtain ⟨cjResolvFile, hResolvFile, h⟩ := ok_of_bind h
  obtain ⟨cjDNSIP, hDNSIP, h⟩ := ok_of_bind h
  obtain ⟨cjDNSPort, hPort, h⟩ := ok_of_bind h
  obtain ⟨cjDenyNX, hDenyNX, h⟩ := ok_of_bind h
  obtain ⟨cjDropIPv4, hDropIPv4, h⟩ := ok_of_bind h
  obtain ⟨cjDropIPv6, hDropIPv6, h⟩ := ok_of_bind h
  obtain ⟨cjIPs, hIPs, h⟩ := ok_of_bind h
  unfold loadZone
  rw [bind_of_ok hName, bind_of_ok hEnable, bind_of_ok hPriority, bind_of_ok hResolvFile,
    bind_of_ok hDNSIP, bind_of_ok hPort, bind_of_ok hDenyNX, bind_of_ok hDropIPv4, bind_of_ok hDropIPv6,
    bind_of_ok hIPs]
  split_ifs at h with hno
  rw [if_neg hno]
  split at h
  swap
  · exact nomatch h
  rename_i sName bEnable nPriority nDNSPort ips _ _ _ _ _
  rcases bEnable with _ | _
  · exact h
  rw [if_neg (by decide)] at h ⊢
  split at h
  · exact nomatch h
  rename_i z₁ hz
  dsimp only
  rw [hz]
  obtain ⟨z₂, hz₂, hsome⟩ := ok_of_map h
  dsimp only
  rw [loadIPInfos_frame hz₂ fun info hi => hfiles z₂ hsome.symm info hi, ← hsome]
  rfl

theorem loadZones_frame {cjZones : List CJson} {zs zs' : List ZoneInfo}
    (h : loadZones env cjZones zs = .ok zs')
    (hfiles : ∀ z ∈ zs', ∀ info ∈ z.siIPInfos, files info.sFileName = env.files info.sFileName) :
    loadZones { env with files } cjZones zs = .ok zs' := by
  induction cjZones generalizing zs with
  | nil => exact h
  | cons cjZone cjZones ih =>
    obtain ⟨r, hr, h⟩ := ok_of_bind h
    rcases r with _ | z
    · rw [loadZones, bind_of_ok (loadZone_frame hr fun z hz => nomatch hz)]
      exact ih h
    · have hin : z ∈ zs' := by
        obtain ⟨zs₁, rfl, -⟩ := loadZones_ok h
        simp
      rw [loadZones, bind_of_ok (loadZone_frame hr fun z' hz => by
        rw [← Option.some.inj hz]
        exact hfiles z hin)]
      exact ih h

/-- **Only the configuration and the lists it enables are read**: with those files the same, the
configuration is loaded the same, whatever the files of the other entries are. -/
theorem loadConfigJson_frame (env : Env) (files : Bytes → Option Bytes) (c c' : ConfigData)
    (h : loadConfigJson env c = .ok c') (hconfig : files c.sFileConfig = env.files c.sFileConfig)
    (hfiles : ∀ z ∈ c'.vsZoneInfos, ∀ info ∈ z.siIPInfos,
      files info.sFileName = env.files info.sFileName) :
    loadConfigJson { env with files } c = .ok c' := by
  have hread : readConfig { env with files } c = readConfig env c := by
    unfold readConfig getBinByFile
    dsimp only
    rw [hconfig]
  unfold loadConfigJson at h ⊢
  rw [hread]
  rcases hjson : readConfig env c with _ | cjMonitor <;> rw [hjson] at h
  · exact nomatch h
  obtain ⟨cjLocalIP, hIP, h⟩ := ok_of_bind h
  obtain ⟨cjLocalPort, hPort, h⟩ := ok_of_bind h
  dsimp only
  rw [bind_of_ok hIP, bind_of_ok hPort]
  split at h
  swap
  · exact nomatch h
  split at h
  · exact nomatch h
  obtain ⟨cjZones, hZones, h⟩ := ok_of_bind h
  obtain ⟨zs, hzs, h⟩ := ok_of_bind h
  obtain rfl := (Except.ok.inj h).symm
  rw [bind_of_ok hZones, bind_of_ok (loadZones_frame hzs fun z hz =>
    hfiles z ((env.sortZones.perm zs).mem_iff.mpr hz))]
  rfl

/-- With a file for the entry that is not enabled. -/
theorem loadConfigJson_frame_lists : ∃ c', loadConfigJson listsEnv {} = .ok c' ∧
    loadConfigJson { listsEnv with files := listsFiles (some (text "x")) } {} = .ok c' := by
  obtain ⟨c', hload, hoff⟩ := lists_ok
  refine ⟨c', hload, loadConfigJson_frame listsEnv _ {} c' hload rfl fun z hz info hi => ?_⟩
  have hne := hoff z hz info hi
  change listsFiles (some (text "x")) info.sFileName = listsFiles none info.sFileName
  simp only [listsFiles, if_neg hne]

end

end DnsMultiZone.Config.Accepted
