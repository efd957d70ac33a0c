import DnsMultiZone.Config.Accepted
import DnsMultiZone.Config.ListFile
import DnsMultiZone.Json.Rfc8259

/-! # What a configuration file says

Two files say the same if they mean items that are alike to `LoadConfigJson`: it looks for members by their
names, so their order, members it does not know and later members of a name that is there do not matter,
nor does how the text is written.

* `Alike`, with `Alike.perm_append`: what may differ.
* `loadZones_alike`: alike entries give the same zones, or the same error.
* `same_config`: files that say the same. -/

namespace DnsMultiZone.Config.Layout

open DnsMultiZone.Lib.BigEndian DnsMultiZone.Lib.Results DnsMultiZone.Lib.Sorting
open DnsMultiZone.Lib.Decimal (value ofDigits signed)
open DnsMultiZone.Lib.Double (toDouble)
open DnsMultiZone.Config.Address DnsMultiZone.Config.ConfigType DnsMultiZone.Config.LoadFile
open DnsMultiZone.Config.Resolv DnsMultiZone.Config.LoadConfig DnsMultiZone.Config.Priority
open DnsMultiZone.Config.Lookup (text dotted sort4 sort6)
open DnsMultiZone.Config.ListFile (cStr_eq_self)
open DnsMultiZone.Json.Parser (cJSON_Parse nestingLimit valueint)
open DnsMultiZone.Json.Values (cJSON_Parse_eq_some_iff value_scalar)
open DnsMultiZone.Json.Grammar DnsMultiZone.Json.Rfc8259

/-! ### Alike -/

/-- The names `LoadConfigJson` looks for. -/
def names : List String :=
  ["bindIP", "serverPort", "zoneList", "name", "enable", "priority", "resolvFile", "dnsIP", "dnsPort",
    "denyNXDomain", "dropIPv4", "dropIPv6", "ipList", "deny", "inverseIPList", "file", "family"]

/-- The first member with the name. -/
def named (name : String) (members : List (Bytes × CJson)) : Option CJson :=
  (members.find? (·.1 = text name)).map (·.2)

/-- **Items that are alike**: the same scalar, arrays of alike elements, or objects with alike members
under every name that is looked for. -/
inductive Alike : CJson → CJson → Prop
  | null : Alike .null .null
  | bool (b : Bool) : Alike (.bool b) (.bool b)
  | number (valueint : Int32) : Alike (.number valueint) (.number valueint)
  | string (valuestring : Bytes) : Alike (.string valuestring) (.string valuestring)
  | array {xs ys : List CJson} (h : List.Forall₂ Alike xs ys) : Alike (.array xs) (.array ys)
  | object {ms ms' : List (Bytes × CJson)}
      (h : ∀ name ∈ names, Option.Rel Alike (named name ms) (named name ms')) :
      Alike (.object ms) (.object ms')

theorem named_mem {name : String} {ms : List (Bytes × CJson)} {item : CJson}
    (h : named name ms = some item) : ∃ k, (k, item) ∈ ms := by
  obtain ⟨m, hm, rfl⟩ := Option.map_eq_some_iff.mp h
  exact ⟨m.1, List.mem_of_find?_eq_some hm⟩

theorem Alike.refl : ∀ item : CJson, Alike item item
  | .null => .null
  | .bool b => .bool b
  | .number v => .number v
  | .string s => .string s
  | .array items => .array (List.forall₂_same.mpr fun x hx =>
      have : sizeOf x < sizeOf items := List.sizeOf_lt_of_mem hx
      Alike.refl x)
  | .object ms => .object fun name _ => by
      rcases h : named name ms with _ | item
      · exact .none
      · obtain ⟨k, hk⟩ := named_mem h
        have hlt := List.sizeOf_lt_of_mem hk
        have : sizeOf item < 1 + sizeOf ms := by
          simp only [Prod.mk.sizeOf_spec] at hlt
          omega
        exact .some (Alike.refl item)
termination_by item => sizeOf item

theorem named_append {name : String} {ms extra : List (Bytes × CJson)}
    (h : ∀ m ∈ extra, m.1 = text name → m.1 ∈ ms.map Prod.fst) :
    named name (ms ++ extra) = named name ms := by
  unfold named
  rw [List.find?_append]
  rcases hms : ms.find? (·.1 = text name) with _ | m
  · have hextra : extra.find? (·.1 = text name) = none := by
      refine List.find?_eq_none.mpr fun m hm hname => ?_
      have hname : m.1 = text name := by simpa using hname
      obtain ⟨m', hm', he⟩ := List.mem_map.mp (h m hm hname)
      exact List.find?_eq_none.mp hms m' hm' (by simpa using he.trans hname)
    rw [hms, hextra]
    rfl
  · rw [hms]
    rfl

theorem named_perm {ms ms' : List (Bytes × CJson)} (h : ms.Perm ms') (hn : (ms.map Prod.fst).Nodup)
    (name : String) : named name ms = named name ms' := by
  unfold named
  rcases hms : ms.find? (·.1 = text name) with _ | m
  · have hms' : ms'.find? (·.1 = text name) = none :=
      List.find?_eq_none.mpr fun m hm => List.find?_eq_none.mp hms m (h.mem_iff.mpr hm)
    rw [hms, hms']
  · have hm := List.mem_of_find?_eq_some hms
    have hname : m.1 = text name := by simpa using List.find?_some hms
    rcases hms' : ms'.find? (·.1 = text name) with _ | m'
    · exact absurd (by simpa using hname) (List.find?_eq_none.mp hms' m (h.mem_iff.mp hm))
    · have hm' := h.mem_iff.mpr (List.mem_of_find?_eq_some hms')
      have hname' : m'.1 = text name := by simpa using List.find?_some hms'
      rw [hms, hms', List.inj_on_of_nodup_map hn hm hm' (hname.trans hname'.symm)]

/-- The same name, and alike items. -/
def AlikeMember (m m' : Bytes × CJson) : Prop := m.1 = m'.1 ∧ Alike m.2 m'.2

theorem AlikeMember.refl (m : Bytes × CJson) : AlikeMember m m := ⟨rfl, Alike.refl m.2⟩

theorem named_alike {ms ms' : List (Bytes × CJson)} (h : List.Forall₂ AlikeMember ms ms') (name : String) :
    Option.Rel Alike (named name ms) (named name ms') := by
  unfold named
  induction h with
  | nil => exact .none
  | @cons m m' ms ms' hm _ ih =>
    rw [List.find?_cons, List.find?_cons, ← hm.1]
    by_cases hname : m.1 = text name
    · simp only [hname, decide_true, Option.map_some]
      exact .some hm.2
    · simp only [hname, decide_false]
      exact ih

/-- **Members may stand in any order**, if no two have one name, and others may follow that are not looked
for or whose names are there. -/
theorem Alike.perm_append {ms ms₁ ms' extra : List (Bytes × CJson)} (ha : List.Forall₂ AlikeMember ms ms₁)
    (h : ms₁.Perm ms') (hn : (ms₁.map Prod.fst).Nodup)
    (hextra : ∀ m ∈ extra, (∀ name ∈ names, m.1 ≠ text name) ∨ m.1 ∈ ms'.map Prod.fst) :
    Alike (.object ms) (.object (ms' ++ extra)) := by
  refine .object fun name hname => ?_
  rw [named_append fun m hm he => (hextra m hm).resolve_left fun hno => hno name hname he,
    ← named_perm h hn]
  exact named_alike ha name

/-! ### Reading alike items -/

section Read
variable {x y : Option CJson}

theorem bind_found {β : Type} {name : String} (hname : name ∈ names) (h : Option.Rel Alike x y)
    {f f' : Option CJson → Except LoadError β}
    (hf : ∀ u v, getObjectItemCaseSensitive name x = .ok u → Option.Rel Alike u v → f u = f' v) :
    (getObjectItemCaseSensitive name x >>= f) = (getObjectItemCaseSensitive name y >>= f') := by
  cases h with
  | none => exact hf _ _ rfl .none
  | some h =>
    cases h with
    | null => exact hf _ _ rfl .none
    | bool b => exact hf _ _ rfl .none
    | number v => exact hf _ _ rfl .none
    | string s => exact hf _ _ rfl .none
    | array h =>
      cases h with
      | nil => exact hf _ _ rfl .none
      | cons _ _ => rfl
    | object h => exact hf _ _ rfl (h name hname)

theorem bind_alike {β : Type} {name : String} (hname : name ∈ names) (h : Option.Rel Alike x y)
    {f f' : Option CJson → Except LoadError β} (hf : ∀ u v, Option.Rel Alike u v → f u = f' v) :
    (getObjectItemCaseSensitive name x >>= f) = (getObjectItemCaseSensitive name y >>= f') :=
  bind_found hname h fun u v _ => hf u v

theorem stringValue_alike (h : Option.Rel Alike x y) : stringValue x = stringValue y := by
  cases h with
  | none => rfl
  | some h => cases h <;> rfl

theorem numberValue_alike (h : Option.Rel Alike x y) : numberValue x = numberValue y := by
  cases h with
  | none => rfl
  | some h => cases h <;> rfl

theorem boolValue_alike (h : Option.Rel Alike x y) : boolValue x = boolValue y := by
  cases h with
  | none => rfl
  | some h => cases h <;> rfl

theorem arrayValue_alike (h : Option.Rel Alike x y) :
    Option.Rel (List.Forall₂ Alike) (arrayValue x) (arrayValue y) := by
  cases h with
  | none => exact .none
  | some h =>
    cases h with
    | array h => exact .some h
    | _ => exact .none

/-- The elements of an array; of an object the loop goes through every member. -/
theorem children_alike (h : Option.Rel Alike x y) (hx : ∀ ms, x ≠ some (.object ms)) :
    List.Forall₂ Alike (children x) (children y) := by
  cases h with
  | none => exact .nil
  | some h =>
    cases h with
    | array h => exact h
    | object h => exact absurd rfl (hx _)
    | _ => exact .nil

end Read

section Load
variable (env : Env)

theorem loadIPInfo_alike (sName : Bytes) {x y : CJson} (h : Alike x y) :
    loadIPInfo env sName x = loadIPInfo env sName y := by
  unfold loadIPInfo
  refine bind_alike (by decide) (.some h) fun cjEnable cjEnable' hEnable => ?_
  refine bind_alike (by decide) (.some h) fun cjDeny cjDeny' hDeny => ?_
  refine bind_alike (by decide) (.some h) fun cjInverse cjInverse' hInverse => ?_
  refine bind_alike (by decide) (.some h) fun cjFile cjFile' hFile => ?_
  refine bind_alike (by decide) (.some h) fun cjFamily cjFamily' hFamily => ?_
  rw [boolValue_alike hEnable, boolValue_alike hDeny, boolValue_alike hInverse, stringValue_alike hFile,
    numberValue_alike hFamily]

theorem loadIPInfos_alike (sName : Bytes) {xs ys : List CJson} (h : List.Forall₂ Alike xs ys)
    (z : ZoneInfo) : loadIPInfos env sName xs z = loadIPInfos env sName ys z := by
  induction h generalizing z with
  | nil => rfl
  | cons hx _ ih =>
    unfold loadIPInfos
    rw [loadIPInfo_alike env sName hx]
    refine bind_congr fun r => ?_
    rcases r with _ | info
    · exact ih z
    · exact ih _

theorem loadZone_alike {x y : CJson} (h : Alike x y) : loadZone env x = loadZone env y := by
  unfold loadZone
  refine bind_alike (by decide) (.some h) fun cjName cjName' hName => ?_
  refine bind_alike (by decide) (.some h) fun cjEnable cjEnable' hEnable => ?_
  refine bind_alike (by decide) (.some h) fun cjPriority cjPriority' hPriority => ?_
  refine bind_alike (by decide) (.some h) fun cjResolvFile cjResolvFile' hResolvFile => ?_
  refine bind_alike (by decide) (.some h) fun cjDNSIP cjDNSIP' hDNSIP => ?_
  refine bind_alike (by decide) (.some h) fun cjDNSPort cjDNSPort' hDNSPort => ?_
  refine bind_alike (by decide) (.some h) fun cjDenyNX cjDenyNX' hDenyNX => ?_
  refine bind_alike (by decide) (.some h) fun cjDropIPv4 cjDropIPv4' hDropIPv4 => ?_
  refine bind_alike (by decide) (.some h) fun cjDropIPv6 cjDropIPv6' hDropIPv6 => ?_
  refine bind_alike (by decide) (.some h) fun cjIPs cjIPs' hIPs => ?_
  rw [stringValue_alike hName, boolValue_alike hEnable, numberValue_alike hPriority,
    stringValue_alike hResolvFile, stringValue_alike hDNSIP, numberValue_alike hDNSPort,
    boolValue_alike hDenyNX, boolValue_alike hDropIPv4, boolValue_alike hDropIPv6]
  rcases hx : arrayValue cjIPs with _ | xs <;> rcases hy : arrayValue cjIPs' with _ | ys
  · rfl
  all_goals
    have hlists := arrayValue_alike hIPs
    rw [hx, hy] at hlists
    cases hlists
  rename_i hlists
  refine if_congr Iff.rfl rfl ?_
  rcases stringValue cjName' with _ | sName
  · rfl
  rcases boolValue cjEnable' with _ | bEnable
  · rfl
  rcases numberValue cjPriority' with _ | nPriority
  · rfl
  rcases numberValue cjDNSPort' with _ | nDNSPort
  · rfl
  refine if_congr Iff.rfl rfl ?_
  rcases loadUpstream env.inet (stringValue cjResolvFile') (stringValue cjDNSIP') (toPort nDNSPort)
    { sName, nPriority := nPriority.toUInt32 } with _ | z
  · rfl
  · exact congrArg (Except.map some) (loadIPInfos_alike env sName hlists _)

theorem loadZones_alike {xs ys : List CJson} (h : List.Forall₂ Alike xs ys)
    (vsZoneInfos : List ZoneInfo) : loadZones env xs vsZoneInfos = loadZones env ys vsZoneInfos := by
  induction h generalizing vsZoneInfos with
  | nil => rfl
  | cons hx _ ih =>
    unfold loadZones
    rw [loadZone_alike env hx]
    refine bind_congr fun r => ?_
    rcases r with _ | z
    · exact ih vsZoneInfos
    · exact ih _

theorem loadConfigJson_alike (c : ConfigData) (f f' : Bytes) {x y : CJson} (h : Alike x y)
    (hlist : ∀ ms, member "zoneList" x ≠ some (.object ms))
    (hx : readConfig env { c with sFileConfig := f } = some x)
    (hy : readConfig env { c with sFileConfig := f' } = some y) :
    (loadConfigJson env { c with sFileConfig := f }).map (fun d => { d with sFileConfig := f' }) =
      loadConfigJson env { c with sFileConfig := f' } := by
  unfold loadConfigJson
  rw [hx, hy]
  dsimp only
  rw [map_bind]
  refine bind_alike (by decide) (.some h) fun cjLocalIP cjLocalIP' hIP => ?_
  rw [map_bind]
  refine bind_alike (by decide) (.some h) fun cjLocalPort cjLocalPort' hPort => ?_
  rw [stringValue_alike hIP, numberValue_alike hPort]
  rcases stringValue cjLocalIP' with _ | sLocalIP
  · rfl
  rcases numberValue cjLocalPort' with _ | nPort
  · rfl
  dsimp only
  rcases bindAddress env.inet sLocalIP (toPort nPort) with _ | ⟨ssBindAddress, slBindAddressLen⟩
  · rfl
  dsimp only
  rw [map_bind]
  refine bind_found (by decide) (.some h) fun cjZones cjZones' hmember hZones => ?_
  have hchildren := children_alike hZones fun ms he => hlist ms (by rw [member_eq hmember, he])
  rw [map_bind, loadZones_alike env hchildren]
  rfl

end Load

/-! ### Texts -/

/-- A JSON text that means the item, with or without a byte order mark. -/
def IsText (s : Bytes) (item : CJson) : Prop :=
  ∃ bom a w b, s = bom ++ a ++ w ++ b ∧ Bom bom ∧ Ws a ∧ Value rfc8259 nestingLimit w item ∧ Ws b

theorem readConfig_text {env : Env} (hparse : env.cJSON_Parse = cJSON_Parse) {c : ConfigData} {s : Bytes}
    {item : CJson} (hs : IsText s item) (hlen : s.length < 2147483648)
    (hfile : env.files c.sFileConfig = some s) : readConfig env c = some item := by
  obtain ⟨bom, a, w, b, rfl, hbom, ha, hw, hb⟩ := hs
  have htext := cJSON_Parse_text hbom ha hw hb
  set s := bom ++ a ++ w ++ b
  have h0 : 0 ∉ cStr s := fun h => by simpa using List.mem_takeWhile_imp h
  have hstr : cJSON_Parse (cStr s) = some item := by
    rw [cJSON_Parse_eq_some_iff, cStr_eq_self h0]
    exact (cJSON_Parse_eq_some_iff s item).mp htext
  have hne : s ≠ [] := by
    intro hs
    have hnone : cJSON_Parse [] = none := by decide
    rw [hs, hnone] at htext
    cases htext
  rw [readConfig_eq hfile hne hlen, hparse]
  exact hstr

theorem utf8EncodeChar_ascii {c : Char} (h : c.toNat < 0x80) :
    String.utf8EncodeChar c = [UInt8.ofNat c.toNat] := by
  unfold String.utf8EncodeChar
  rw [if_pos (show c.val.toNat ≤ 0x7F by exact Nat.le_of_lt_succ h)]
  rfl

/-- An ASCII character that needs no escape. -/
def plainChar (c : Char) : Bool := 0x20 ≤ c.toNat && c.toNat < 0x80 && c.toNat != 0x22 && c.toNat != 0x5C

theorem chars_plain {cs : List Char} (h : cs.all plainChar = true) :
    Chars (utf8 cs) cs ∧ utf8 cs = cs.map fun c => UInt8.ofNat c.toNat := by
  induction cs with
  | nil => exact ⟨.nil, rfl⟩
  | cons c cs ih =>
    obtain ⟨hplain, hrest⟩ := Bool.and_eq_true_iff.mp h
    obtain ⟨hcs, hs⟩ := ih hrest
    obtain ⟨⟨⟨hc, hlt⟩, hq⟩, hb⟩ : ((0x20 ≤ c.toNat ∧ c.toNat < 0x80) ∧ c.toNat ≠ 0x22) ∧
        c.toNat ≠ 0x5C := by simpa [plainChar] using hplain
    refine ⟨.cons (.unescaped hc hq hb) hcs, ?_⟩
    change String.utf8EncodeChar c ++ utf8 cs = _
    rw [utf8EncodeChar_ascii hlt, hs]
    rfl

theorem str_plain (s : String) (h : s.toList.all plainChar = true) :
    Str (0x22 :: text s ++ [0x22]) (text s) := by
  obtain ⟨hcs, hs⟩ := chars_plain h
  change utf8 s.toList = text s at hs
  have hstr : Str (0x22 :: utf8 s.toList ++ [0x22]) (cStr (utf8 s.toList)) := .mk hcs
  have h0 : cStr (text s) = text s := by
    refine cStr_eq_self fun h0 => ?_
    obtain ⟨c, hc, he⟩ := List.mem_map.mp h0
    obtain ⟨hge, hlt⟩ : 0x20 ≤ c.toNat ∧ c.toNat < 0x80 := by
      have hplain := List.all_eq_true.mp h c hc
      simp only [plainChar, Bool.and_eq_true, decide_eq_true_eq] at hplain
      exact hplain.1.1
    have he : c.toNat % 2 ^ 8 = 0 := congrArg UInt8.toNat he
    omega
  rw [hs, h0] at hstr
  exact hstr

theorem string_value {w s : Bytes} (h : Str w s) (n : ℕ) : Value rfc8259 n w (.string s) :=
  value_scalar (.string h) n

theorem member_plain {n : ℕ} {s : String} {a b w : Bytes} {item : CJson}
    (h : s.toList.all plainChar = true) (ha : Ws a) (hb : Ws b) (hw : Value rfc8259 n w item) :
    Member rfc8259 (Value rfc8259 n) (0x22 :: text s ++ [0x22] ++ a ++ 0x3A :: b ++ w)
      (text s, item) :=
  .mk (str_plain s h) ha hb hw

theorem container_value {n : ℕ} {w : Bytes} {item : CJson} (h : Container rfc8259 (Value rfc8259 n) w item) :
    Value rfc8259 (n + 1) w item := .inr h

theorem ws_none : Ws [] := fun _ hc => absurd hc List.not_mem_nil

theorem ws_space : Ws [0x20] := fun _ hc => .inl (List.mem_singleton.mp hc)

/-! ### Two files -/

def plainText : Bytes :=
  text "\x7b\"bindIP\":\"1.1.1.1\",\"serverPort\":53,\"zoneList\":[\x7b\"name\":\"z\",\"enable\":true," ++
    text "\"priority\":53,\"dnsIP\":\"1.1.1.1\",\"dnsPort\":53,\"ipList\":[]\x7d]\x7d"

def otherText : Bytes :=
  [0xEF, 0xBB, 0xBF] ++
    text "\x7b \"zoneList\" : [\x7b\"ipList\":[ ],\"dnsPort\":53.0,\"dnsIP\":\"\\u0031.1.1.1\",\"priority\":53," ++
    text "\"enable\":true,\"name\":\"z\",\"log\":null\x7d], \"serverPort\":53.0,\"bindIP\":\"\\u0031.1.1.1\"\x7d\n"

/-- With the two files. -/
def layoutEnv : Env where
  inet := dotted
  files f := if f = text "a" then some plainText else if f = text "b" then some otherText else none
  cJSON_Parse := cJSON_Parse
  sort4 := sort4
  sort6 := sort6
  sortZones := byPriority

/-- The number, in either file. -/
def number53 : CJson := .number (valueint (toDouble (value false (text "53") [] 0)))

theorem number53_value (n : ℕ) :
    Value rfc8259 n (text "53") number53 ∧ Value rfc8259 n (text "53.0") number53 := by
  have hint : IntPart (text "53") := .pos (c := 0x35) rfl (by decide +kernel) (by decide +kernel)
  have hwhole : Num ([] ++ text "53" ++ [] ++ []) _ := .mk .none hint .none .none (by decide +kernel)
  have hfrac : Frac (0x2E :: text "0") (text "0") := .some (by decide +kernel) (by decide)
  have hpoint : Num ([] ++ text "53" ++ (0x2E :: text "0") ++ []) _ :=
    .mk .none hint hfrac .none (by decide +kernel)
  have hsame : value false (text "53") (text "0") 0 = value false (text "53") [] 0 := by
    have h530 : ofDigits (text "53" ++ text "0") = 530 := by decide
    have h53 : ofDigits (text "53" ++ []) = 53 := by decide
    have hlen : (text "0").length = 1 := rfl
    unfold value
    rw [h530, h53, hlen]
    norm_num [signed]
  refine ⟨value_scalar (.number hwhole) n, ?_⟩
  rw [hsame] at hpoint
  exact value_scalar (.number hpoint) n

/-- The address as it is, or with its first character escaped. -/
theorem address_str : Str (text "\"1.1.1.1\"") (text "1.1.1.1") ∧
    Str (text "\"\\u0031.1.1.1\"") (text "1.1.1.1") := by
  have hOne : Ch (0x5C :: 0x75 :: text "0031") '1' := .code ⟨rfl, by decide +kernel⟩ (by decide +kernel)
  have hRest : Chars (utf8 ".1.1.1".toList) ".1.1.1".toList := (chars_plain (by decide +kernel)).1
  exact ⟨str_plain "1.1.1.1" (by decide +kernel), .mk (.cons hOne hRest)⟩

/-- The zone, in either file. -/
def plainZone : List (Bytes × CJson) :=
  [(text "name", .string (text "z")), (text "enable", .bool true), (text "priority", number53),
    (text "dnsIP", .string (text "1.1.1.1")), (text "dnsPort", number53), (text "ipList", .array [])]

def otherZone : List (Bytes × CJson) := plainZone.reverse ++ [(text "log", .null)]

theorem plain_isText : IsText plainText (.object [(text "bindIP", .string (text "1.1.1.1")),
    (text "serverPort", number53), (text "zoneList", .array [.object plainZone])]) := by
  have hName := member_plain (s := "name") (by decide +kernel) ws_none ws_none
    (string_value (str_plain "z" (by decide +kernel)) 997)
  have hEnable := member_plain (s := "enable") (by decide +kernel) ws_none ws_none (value_scalar .true 997)
  have hPriority := member_plain (s := "priority") (by decide +kernel) ws_none ws_none (number53_value 997).1
  have hDNSIP := member_plain (s := "dnsIP") (by decide +kernel) ws_none ws_none
    (string_value address_str.1 997)
  have hDNSPort := member_plain (s := "dnsPort") (by decide +kernel) ws_none ws_none (number53_value 997).1
  have hIPs := member_plain (s := "ipList") (by decide +kernel) ws_none ws_none
    (container_value (n := 996) (.array (.nil ws_none)))
  have hZone := Container.object (L := rfc8259) (.items (.cons ws_none hName ws_none
    (.cons ws_none hEnable ws_none (.cons ws_none hPriority ws_none (.cons ws_none hDNSIP ws_none
      (.cons ws_none hDNSPort ws_none (.one ws_none hIPs ws_none)))))))
  have hZones := Container.array (L := rfc8259) (.items (.one ws_none (container_value hZone) ws_none))
  have hIP := member_plain (s := "bindIP") (by decide +kernel) ws_none ws_none
    (string_value address_str.1 999)
  have hPort := member_plain (s := "serverPort") (by decide +kernel) ws_none ws_none (number53_value 999).1
  have hList := member_plain (s := "zoneList") (by decide +kernel) ws_none ws_none
    (container_value hZones)
  have hobject := Container.object (L := rfc8259) (.items (.cons ws_none hIP ws_none
    (.cons ws_none hPort ws_none (.one ws_none hList ws_none))))
  exact ⟨[], [], _, [], by decide +kernel, .inl rfl, ws_none, container_value hobject, ws_none⟩

theorem other_isText : IsText otherText (.object [(text "zoneList", .array [.object otherZone]),
    (text "serverPort", number53), (text "bindIP", .string (text "1.1.1.1"))]) := by
  have hIPs := member_plain (s := "ipList") (by decide +kernel) ws_none ws_none
    (container_value (n := 996) (.array (.nil ws_space)))
  have hDNSPort := member_plain (s := "dnsPort") (by decide +kernel) ws_none ws_none (number53_value 997).2
  have hDNSIP := member_plain (s := "dnsIP") (by decide +kernel) ws_none ws_none
    (string_value address_str.2 997)
  have hPriority := member_plain (s := "priority") (by decide +kernel) ws_none ws_none (number53_value 997).1
  have hEnable := member_plain (s := "enable") (by decide +kernel) ws_none ws_none (value_scalar .true 997)
  have hName := member_plain (s := "name") (by decide +kernel) ws_none ws_none
    (string_value (str_plain "z" (by decide +kernel)) 997)
  have hLog := member_plain (s := "log") (by decide +kernel) ws_none ws_none (value_scalar .null 997)
  have hZone := Container.object (L := rfc8259) (.items (.cons ws_none hIPs ws_none
    (.cons ws_none hDNSPort ws_none (.cons ws_none hDNSIP ws_none (.cons ws_none hPriority ws_none
      (.cons ws_none hEnable ws_none (.cons ws_none hName ws_none (.one ws_none hLog ws_none))))))))
  have hZones := Container.array (L := rfc8259) (.items (.one ws_none (container_value hZone) ws_none))
  have hList := member_plain (s := "zoneList") (by decide +kernel) ws_space ws_space
    (container_value hZones)
  have hPort := member_plain (s := "serverPort") (by decide +kernel) ws_none ws_none (number53_value 999).2
  have hIP := member_plain (s := "bindIP") (by decide +kernel) ws_none ws_none
    (string_value address_str.2 999)
  have hobject := Container.object (L := rfc8259) (.items (.cons ws_space hList ws_none
    (.cons ws_space hPort ws_none (.one ws_none hIP ws_none))))
  exact ⟨_, [], _, [0x0A], by decide +kernel, .inr rfl, ws_none, container_value hobject, by simp [Ws]⟩

/-- **How a configuration is written does not matter**: two files that are JSON texts of alike items load
the same, or are refused for the same reason. -/
theorem same_config (env : Env) (hparse : env.cJSON_Parse = cJSON_Parse) (c : ConfigData)
    (f f' s s' : Bytes) (item item' : CJson) (hfile : env.files f = some s)
    (hfile' : env.files f' = some s') (hs : IsText s item) (hs' : IsText s' item')
    (hlen : s.length < 2147483648) (hlen' : s'.length < 2147483648)
    (h : Alike item item') (hlist : ∀ ms, member "zoneList" item ≠ some (.object ms)) :
    loadConfigJson env { c with sFileConfig := f' } =
      (loadConfigJson env { c with sFileConfig := f }).map fun d => { d with sFileConfig := f' } :=
  (loadConfigJson_alike env c f f' h hlist (readConfig_text hparse hs hlen hfile)
    (readConfig_text hparse hs' hlen' hfile')).symm

/-- A zone among the members of two texts: the order differs in the configuration and in the zone, one member
is not looked for, and white space, numbers and strings are written in other ways. -/
theorem same_config_zone : ∃ c', loadConfigJson layoutEnv { sFileConfig := text "a" } = .ok c' ∧
    c'.vsZoneInfos.map (fun z => (z.sName, z.ssDNSAddr)) = [(text "z", .inet 0x01010101 53)] ∧
    loadConfigJson layoutEnv { sFileConfig := text "b" } =
      (Except.ok c').map fun d => { d with sFileConfig := text "b" } := by
  have hzone : Alike (.object plainZone) (.object otherZone) := by
    refine .perm_append (List.forall₂_same.mpr fun m _ => AlikeMember.refl m) (List.reverse_perm _).symm
      (by decide +kernel) fun m hm => .inl ?_
    obtain rfl := List.mem_singleton.mp hm
    decide +kernel
  have halike : Alike (.object [(text "bindIP", .string (text "1.1.1.1")), (text "serverPort", number53),
      (text "zoneList", .array [.object plainZone])]) (.object ([(text "zoneList", .array [.object otherZone]),
        (text "serverPort", number53), (text "bindIP", .string (text "1.1.1.1"))] ++ [])) := by
    have hzones : AlikeMember (text "zoneList", .array [.object plainZone])
        (text "zoneList", .array [.object otherZone]) := ⟨rfl, .array (.cons hzone .nil)⟩
    refine .perm_append (.cons (AlikeMember.refl _) (.cons (AlikeMember.refl _) (.cons hzones .nil)))
      (List.reverse_perm [_, _, _]).symm (by decide +kernel) fun m hm => absurd hm List.not_mem_nil
  have hrun : (loadConfigJson layoutEnv { sFileConfig := text "a" }).toOption.map (fun c' =>
      c'.vsZoneInfos.map fun z => (z.sName, z.ssDNSAddr)) = some [(text "z", .inet 0x01010101 53)] := by
    decide +kernel
  rcases hload : loadConfigJson layoutEnv { sFileConfig := text "a" } with e | c' <;> rw [hload] at hrun
  · cases hrun
  have hsame := same_config layoutEnv rfl {} (text "a") (text "b") plainText otherText _ _ rfl rfl
    plain_isText other_isText (by decide +kernel) (by decide +kernel) halike fun ms he => by cases he
  exact ⟨c', rfl, Option.some.inj hrun, by rw [hsame, hload]⟩

end DnsMultiZone.Config.Layout
