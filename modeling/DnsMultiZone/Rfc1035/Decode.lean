import DnsMultiZone.Rfc1035.Expand
import Mathlib.Data.List.Forall2

/-! # Decoding what is encoded

`ParseResponseA` on a message with one question of class IN and answer records of class IN that are of the
types it knows: it finds the ID, the flags, the name, the type and the addresses, and nothing else. Which
addresses a message carries is said of its bytes: a hint is addresses written one after another, with a rest
that is too short for one more (`Spells`), and the data of a record of addresses is one of them.

* `spells_iff`: the pieces of such bytes are the only addresses they spell.
* `carries_iff`: a message carries exactly the addresses that are read off its parts.
* `parseResponseA_encode`: the whole message. -/

namespace DnsMultiZone.Rfc1035.Decode

open DnsMultiZone.Lib.BigEndian DnsMultiZone.Config.Address
open DnsMultiZone.Rfc1035.Reader DnsMultiZone.Rfc1035.Parse DnsMultiZone.Rfc1035.Wire
open DnsMultiZone.Rfc1035.Records
open DnsMultiZone.Rfc1035.Expand (addressesReply)

variable {α β : Type}

/-! ### The addresses of a message -/

/-- A family of addresses: the key of its hints, the type of its records, and how its addresses are written. -/
structure Family (α : Type) where
  uKey : ℕ
  uType : ℕ
  size : ℕ
  write : α → Bytes

/-- IPv4: `ipv4hint` and `A`. -/
def family4 : Family UInt32 := ⟨4, 1, 4, fun ip => be32 ip.toNat⟩

/-- IPv6: `ipv6hint` and `AAAA`. -/
def family6 : Family IPv6Addr := ⟨6, 28, 16, IPv6Addr.cAddr⟩

/-- **The addresses that bytes spell**: they are written one after another, and what is left is too short for
one more. -/
def Spells (f : Family α) (value : Bytes) (as : List α) : Prop :=
  ∃ x, value = as.flatMap f.write ++ x ∧ x.length < f.size

/-- What the elements of a list carry, one after another. -/
def Together (P : α → List β → Prop) (xs : List α) (bs : List β) : Prop :=
  ∃ bss, List.Forall₂ P xs bss ∧ bs = bss.flatten

/-- The addresses a parameter carries: those a hint of the family spells. -/
def ParamCarries (f : Family α) (p : SvcParam) (as : List α) : Prop :=
  if p.uKey = f.uKey then Spells f p.value as else as = []

/-- The addresses a record carries: those of the parameters of an SVCB or HTTPS record, and the one that is
the data of a record of the family. -/
def RecordCarries (f : Family α) (r : Record) (as : List α) : Prop :=
  match r.data with
  | .svc d => Together (ParamCarries f) d.params as
  | .other _ =>
    if r.uType = f.uType ∧ r.data.encode.length = f.size then ∃ a, as = [a] ∧ r.data.encode = f.write a
    else as = []

/-- **The addresses a message carries**, in the order of its records. -/
def Carries (m : Message) (a : Addresses) : Prop :=
  Together (RecordCarries family4) m.answers a.luIPs ∧ Together (RecordCarries family6) m.answers a.luIP6s

/-- Data of a type that the parser knows: SVCB data for SVCB and HTTPS, and any other for `A`, `AAAA` and
`CNAME`. -/
def Fits (uType : ℕ) : RData → Prop
  | .svc _ => uType = typeSVCB ∨ uType = typeHTTPS
  | .other _ => uType = typeA ∨ uType = typeAAAA ∨ uType = typeCNAME

instance (uType : ℕ) : ∀ d, Decidable (Fits uType d)
  | .svc _ => inferInstanceAs (Decidable (uType = typeSVCB ∨ uType = typeHTTPS))
  | .other _ => inferInstanceAs (Decidable (uType = typeA ∨ uType = typeAAAA ∨ uType = typeCNAME))

/-- A record of class IN and of a type that the parser knows. -/
def Known (r : Record) : Prop := r.uClass = 1 ∧ Fits r.uType r.data

instance (r : Record) : Decidable (Known r) := by unfold Known; infer_instance

/-! ### Reading them -/

/-- The IPv4 addresses of a parameter, as they are read. -/
def paramIPs (p : SvcParam) : List UInt32 := if p.uKey = svcParamIPv4Hint then ipv4Hint p.value else []

/-- The IPv6 addresses of a parameter. -/
def paramIP6s (p : SvcParam) : List IPv6Addr :=
  if p.uKey = svcParamIPv6Hint then ipv6Hint p.value else []

/-- The IPv4 addresses of a record. -/
def recordIPs (r : Record) : List UInt32 :=
  match r.data with
  | .svc d => d.params.flatMap paramIPs
  | .other _ => if r.uType = typeA ∧ r.data.encode.length = 4 then [ntohl r.data.encode] else []

/-- The IPv6 addresses of a record. -/
def recordIP6s (r : Record) : List IPv6Addr :=
  match r.data with
  | .svc d => d.params.flatMap paramIP6s
  | .other _ =>
    if r.uType = typeAAAA ∧ r.data.encode.length = 16 then [IPv6Addr.ofBytes r.data.encode] else []

/-- Reading an address undoes writing it. -/
structure Reads (f : Family α) (read : Bytes → α) : Prop where
  pos : 0 < f.size
  length : ∀ a, (f.write a).length = f.size
  read_write : ∀ a, read (f.write a) = a
  write_read : ∀ x, x.length = f.size → f.write (read x) = x

theorem reads4 : Reads family4 ntohl where
  pos := by decide
  length ip := length_be32 _
  read_write ip := by
    show UInt32.ofNat (beNat (be32 ip.toNat)) = ip
    rw [beNat_be32 ip.toNat_lt, UInt32.ofNat_toNat]
  write_read x hx := by
    have hx : x.length = 4 := hx
    have hlt := beNat_lt x
    rw [hx] at hlt
    show be32 (UInt32.ofNat (beNat x)).toNat = x
    rw [UInt32.toNat_ofNat_of_lt' hlt, be32_beNat hx]

theorem reads6 : Reads family6 IPv6Addr.ofBytes where
  pos := by decide
  length a := a.length_cAddr
  read_write a := by
    rcases a with ⟨x, hx⟩
    have h := IPv6Addr.cAddr_ofBytes hx
    show IPv6Addr.ofBytes x = ⟨x, hx⟩
    rcases ho : IPv6Addr.ofBytes x with ⟨y, hy⟩
    rw [ho] at h
    simp only [IPv6Addr.mk.injEq]
    exact h
  write_read x hx := IPv6Addr.cAddr_ofBytes hx

theorem Reads.map_pieces {f : Family α} {read : Bytes → α} (h : Reads f read) (as : List α) {x : Bytes}
    (hx : x.length < f.size) :
    (wholeChunks f.size (as.flatMap f.write ++ x)).map read = as := by
  induction as with
  | nil => rw [List.flatMap_nil, List.nil_append, wholeChunks_of_lt hx, List.map_nil]
  | cons a as ih =>
    rw [List.flatMap_cons, List.append_assoc, wholeChunks_append (h.length a) h.pos, List.map_cons, ih,
      h.read_write]

theorem Reads.spells_pieces {f : Family α} {read : Bytes → α} (h : Reads f read) (value : Bytes) :
    Spells f value ((wholeChunks f.size value).map read) := by
  fun_induction wholeChunks f.size value with
  | case1 value hl ih =>
    obtain ⟨x, hx, hlt⟩ := ih
    refine ⟨x, ?_, hlt⟩
    rw [List.map_cons, List.flatMap_cons, List.append_assoc, ← hx,
      h.write_read _ (by rw [List.length_take]; omega), List.take_append_drop]
  | case2 value hl => exact ⟨value, rfl, by have := h.pos; omega⟩

/-- **The pieces** of bytes are the only addresses they spell. -/
theorem Reads.spells_iff {f : Family α} {read : Bytes → α} (h : Reads f read) {value : Bytes} {as : List α} :
    Spells f value as ↔ as = (wholeChunks f.size value).map read := by
  constructor
  · rintro ⟨x, rfl, hx⟩
    exact (h.map_pieces as hx).symm
  · rintro rfl
    exact h.spells_pieces value

theorem together_iff {P : α → List β → Prop} {g : α → List β} (h : ∀ x bs, P x bs ↔ bs = g x) {xs : List α}
    {bs : List β} : Together P xs bs ↔ bs = xs.flatMap g := by
  have hall : ∀ bss, List.Forall₂ P xs bss ↔ bss = xs.map g := by
    induction xs with
    | nil => simp
    | cons x xs ih => simp [List.forall₂_cons_left_iff, h, ih]
  constructor
  · rintro ⟨bss, hf, rfl⟩
    rw [(hall bss).mp hf, List.flatMap_def]
  · rintro rfl
    exact ⟨_, (hall _).mpr rfl, List.flatMap_def⟩

/-- What a record carries is what is read of it, for one family. -/
theorem Reads.recordCarries_iff {f : Family α} {read : Bytes → α} (h : Reads f read) {r : Record}
    {as : List α} : RecordCarries f r as ↔ as = match r.data with
      | .svc d => d.params.flatMap fun p =>
          if p.uKey = f.uKey then (wholeChunks f.size p.value).map read else []
      | .other _ =>
        if r.uType = f.uType ∧ r.data.encode.length = f.size then [read r.data.encode] else [] := by
  unfold RecordCarries
  rcases hd : r.data with d | pieces
  · refine together_iff fun p as => ?_
    unfold ParamCarries
    by_cases hk : p.uKey = f.uKey
    · rw [if_pos hk, if_pos hk]
      exact h.spells_iff
    · rw [if_neg hk, if_neg hk]
  · dsimp only
    by_cases hc : r.uType = f.uType ∧ (RData.other pieces).encode.length = f.size
    · rw [if_pos hc, if_pos hc]
      constructor
      · rintro ⟨a, rfl, ha⟩
        rw [ha, h.read_write]
      · rintro rfl
        exact ⟨_, rfl, (h.write_read _ hc.2).symm⟩
    · rw [if_neg hc, if_neg hc]

/-- **A message carries** exactly the addresses that are read off its records. -/
theorem carries_iff {m : Message} {a : Addresses} :
    Carries m a ↔ a = ⟨m.answers.flatMap recordIPs, m.answers.flatMap recordIP6s⟩ := by
  have h4 : ∀ (r : Record) ips, RecordCarries family4 r ips ↔ ips = recordIPs r :=
    fun r ips => reads4.recordCarries_iff
  have h6 : ∀ (r : Record) ip6s, RecordCarries family6 r ip6s ↔ ip6s = recordIP6s r :=
    fun r ip6s => reads6.recordCarries_iff
  obtain ⟨ips, ip6s⟩ := a
  unfold Carries
  rw [together_iff h4, together_iff h6, Addresses.mk.injEq]

/-! ### Records -/

/-- Addresses added to those there are. -/
def added (a : Addresses) (ips : List UInt32) (ip6s : List IPv6Addr) : Addresses :=
  ⟨a.luIPs ++ ips, a.luIP6s ++ ip6s⟩

theorem added_nil (a : Addresses) : added a [] [] = a := by simp [added]

theorem added_added (a : Addresses) (ips ips' : List UInt32) (ip6s ip6s' : List IPv6Addr) :
    added (added a ips ip6s) ips' ip6s' = added a (ips ++ ips') (ip6s ++ ip6s') := by
  simp [added]

theorem svcParamHint_eq (p : SvcParam) (a : Addresses) :
    svcParamHint p.uKey p.value a = added a (paramIPs p) (paramIP6s p) := by
  unfold svcParamHint paramIPs paramIP6s added
  by_cases h4 : p.uKey = svcParamIPv4Hint
  · have h6 : ¬ p.uKey = svcParamIPv6Hint := by
      rw [h4]
      decide
    rw [if_pos h4, if_pos h4, if_neg h6, List.append_nil]
  · rw [if_neg h4, if_neg h4, List.append_nil]
    by_cases h6 : p.uKey = svcParamIPv6Hint
    · rw [if_pos h6, if_pos h6]
    · rw [if_neg h6, if_neg h6, List.append_nil]

theorem paramHints_eq (params : List SvcParam) (a : Addresses) :
    paramHints params a = added a (params.flatMap paramIPs) (params.flatMap paramIP6s) := by
  induction params generalizing a with
  | nil => exact (added_nil a).symm
  | cons p params ih =>
    show paramHints params (svcParamHint p.uKey p.value a) = _
    rw [ih, svcParamHint_eq, added_added]
    rfl

/-- **The addresses of a record** are found. -/
theorem recordAddresses_encode {r : Record} (h : Known r) (a : Addresses) :
    recordAddresses r.uType r.data.encode a = (true, added a (recordIPs r) (recordIP6s r)) := by
  obtain ⟨-, h⟩ := h
  unfold recordIPs recordIP6s
  rcases hd : r.data with d | pieces <;> simp only [hd, Fits] at h ⊢
  · have hsvc : recordAddresses r.uType d.encode a = parseSvcParamHint d.encode a := by
      unfold recordAddresses
      rcases h with h | h <;> rw [h] <;> rfl
    show recordAddresses r.uType d.encode a = _
    rw [hsvc, parseSvcParamHint_encode, paramHints_eq]
  · unfold recordAddresses added
    rcases h with h | h | h <;> rw [h]
    · by_cases hl : (RData.other pieces).encode.length = 4 <;> simp [hl, typeA, typeCNAME, typeAAAA]
    · by_cases hl : (RData.other pieces).encode.length = 16 <;> simp [hl, typeA, typeCNAME, typeAAAA]
    · simp [typeA, typeCNAME, typeAAAA]

theorem addresses_of_empty {r : Record} (h : r.data.encode.length = 0) :
    recordIPs r = [] ∧ recordIP6s r = [] := by
  unfold recordIPs recordIP6s
  rcases hd : r.data with d | pieces
  · have hpos : 2 ≤ d.encode.length := by
      unfold SvcData.encode
      simp only [List.length_append, length_be16]
      omega
    rw [hd] at h
    have h : d.encode.length = 0 := h
    omega
  · rw [hd] at h
    dsimp only
    rw [if_neg (by omega), if_neg (by omega)]
    exact ⟨rfl, rfl⟩

theorem parseAnswers_encode {rs : List Record} (hk : ∀ r ∈ rs, Known r) {b : AutoBuffer} {s : Bytes}
    (h : b.rest = rs.flatMap Record.encode ++ s) (a : Addresses) :
    parseAnswers rs.length b a = (true, added a (rs.flatMap recordIPs) (rs.flatMap recordIP6s)) := by
  induction rs generalizing b a with
  | nil =>
    rw [List.flatMap_nil, List.flatMap_nil, added_nil]
    rfl
  | cons r rs ih =>
    obtain ⟨hfirst, hrest⟩ := List.forall_mem_cons.mp hk
    rw [List.flatMap_cons, List.append_assoc] at h
    have hread := readRecord_encode h
    rw [if_pos hfirst.1] at hread
    obtain ⟨b', hb', hr⟩ := hread
    rw [List.length_cons, parseAnswers, hb']
    dsimp only
    rw [List.flatMap_cons, List.flatMap_cons]
    split_ifs with hdata
    · rw [recordAddresses_encode hfirst]
      dsimp only
      rw [ih hrest hr, added_added]
    · obtain ⟨h4, h6⟩ := addresses_of_empty (not_not.mp hdata)
      rw [ih hrest hr, h4, h6, List.nil_append, List.nil_append]

/-- **Decoding undoes encoding**: the addresses that are found are those the message carries, and it carries
no others. -/
theorem parseResponseA_encode (m : Message) (h : ∀ r ∈ m.answers, Known r) :
    ∃ a, parseResponseA m.encode =
        (true, ⟨m.uID, m.uFlag, m.answers.length, joined m.qname, m.uQType⟩, a) ∧
      ∀ a', Carries m a' ↔ a' = a := by
  refine ⟨⟨m.answers.flatMap recordIPs, m.answers.flatMap recordIP6s⟩, ?_, fun a' => carries_iff⟩
  obtain ⟨b, hb, hr, -⟩ := parse_encode m
  unfold parseResponseA
  simp only [hb]
  rw [parseAnswers_encode h hr]
  rfl

/-- The two IPv6 addresses of `addressesReply`. -/
def addresses6 : List IPv6Addr := [⟨32 :: List.replicate 15 1, rfl⟩, ⟨32 :: List.replicate 15 2, rfl⟩]

theorem parseResponseA_encode_addressesReply : parseResponseA addressesReply.encode =
    (true, ⟨7, 0x8180, 5, [97, 46, 98, 99], typeHTTPS⟩,
      ⟨[0x01020304, 0x05060708, 0x090A0B0C], addresses6⟩) := by
  obtain ⟨a, ha, hcarries⟩ := parseResponseA_encode addressesReply (by decide)
  rw [← (hcarries ⟨[0x01020304, 0x05060708, 0x090A0B0C], addresses6⟩).mp ?_] at ha
  · exact ha
  constructor
  · refine ⟨[[], [0x01020304], [0x05060708, 0x090A0B0C], [], []], ?_, rfl⟩
    refine .cons rfl (.cons ⟨_, rfl, rfl⟩ (.cons ?_ (.cons rfl (.cons rfl .nil))))
    exact ⟨[[], [0x05060708, 0x090A0B0C], []], .cons rfl (.cons ⟨[13], rfl, by decide⟩ (.cons rfl .nil)), rfl⟩
  · refine ⟨[[], [], [⟨32 :: List.replicate 15 1, rfl⟩], [], [⟨32 :: List.replicate 15 2, rfl⟩]], ?_, rfl⟩
    refine .cons rfl (.cons rfl (.cons ?_ (.cons rfl (.cons ⟨_, rfl, rfl⟩ .nil))))
    exact ⟨[[], [], [⟨32 :: List.replicate 15 1, rfl⟩]], .cons rfl (.cons rfl (.cons ⟨[], rfl, by decide⟩ .nil)),
      rfl⟩

end DnsMultiZone.Rfc1035.Decode
