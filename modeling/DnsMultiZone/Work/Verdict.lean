import DnsMultiZone.Work.Scan
import DnsMultiZone.Rfc1035.Decode
import DnsMultiZone.Rfc1035.Permute
import Mathlib.Data.Multiset.Filter

/-! # The verdict on a reply

For a request that asks for addresses, a zone that takes part in it gets its verdict from the addresses
of the reply alone: those of the families that are asked for and listed (`judgedAddrs`), and which of
them its lists let through.

* `verdict_iff`: the verdict in closed form.
* `verdict_of_addresses`: what this makes of the order of the records, and of better addresses. -/

namespace DnsMultiZone.Work.Verdict

open DnsMultiZone.Lib.BigEndian
open DnsMultiZone.Config.Address DnsMultiZone.Config.ConfigType
open DnsMultiZone.Rfc1035.Reader DnsMultiZone.Rfc1035.Parse DnsMultiZone.Rfc1035.Permute
open DnsMultiZone.Rfc1035.Wire DnsMultiZone.Rfc1035.Records
open DnsMultiZone.Rfc1035.Expand (hintsReply)
open DnsMultiZone.Work.Query DnsMultiZone.Work.Scan

/-! ### The judged addresses -/

/-- An address of either family. -/
abbrev Addr := UInt32 ⊕ IPv6Addr

/-- `ZoneInfo::CheckIsMatch` lets the address through. -/
def LetThrough (z : ZoneInfo) : Addr → Prop
  | .inl nIP => z.checkIsMatch nIP = some true
  | .inr ip => z.checkIsMatch6 ip = some true

instance (z : ZoneInfo) : DecidablePred (LetThrough z) := fun a => by
  cases a <;> unfold LetThrough <;> infer_instance

/-- The IPv4 addresses of a reply are judged. -/
def Judges4 (z : ZoneInfo) (uReqType : ℕ) : Prop :=
  uReqType = typeA ∨ (uReqType = typeSVCB ∨ uReqType = typeHTTPS) ∧ z.bHasV4 = true

/-- The IPv6 addresses of a reply are judged. -/
def Judges6 (z : ZoneInfo) (uReqType : ℕ) : Prop :=
  uReqType = typeAAAA ∨ (uReqType = typeSVCB ∨ uReqType = typeHTTPS) ∧ z.bHasV6 = true

instance (z : ZoneInfo) (uReqType : ℕ) : Decidable (Judges4 z uReqType) := by
  unfold Judges4; infer_instance

instance (z : ZoneInfo) (uReqType : ℕ) : Decidable (Judges6 z uReqType) := by
  unfold Judges6; infer_instance

/-- The judged addresses of a reply. -/
def judgedAddrs (z : ZoneInfo) (uReqType : ℕ) (d : Bytes) : Multiset Addr :=
  (if Judges4 z uReqType then (((parseResponseA d).2.2.luIPs.map Sum.inl : List Addr) : Multiset Addr)
    else 0) +
  if Judges6 z uReqType then (((parseResponseA d).2.2.luIP6s.map Sum.inr : List Addr) : Multiset Addr)
  else 0

/-- The judged addresses that are let through. -/
def matching (z : ZoneInfo) (uReqType : ℕ) (d : Bytes) : Multiset Addr :=
  (judgedAddrs z uReqType d).filter (LetThrough z)

/-- The reply is judged by its addresses: the zone takes part in a request that asks for addresses, and
the reply is accepted with a question that does. -/
structure ByAddresses (z : ZoneInfo) (uReqType : ℕ) (d : Bytes) : Prop where
  request : isIPBearingType uReqType = true
  takesPart : zoneTakesPart z uReqType = true
  accepted : (parseResponseA d).1 = true
  question : isIPBearingType (parseResponseA d).2.1.uQType = true

/-- What `DNSQueryResult` makes of the zone's state. -/
def verdict (z : ZoneInfo) (uReqType : ℕ) (d : Bytes) (item : DNSQueryResultItem) : EnumState :=
  (judge z uReqType (Reply.ofDatagram d) item).eState

variable {z : ZoneInfo} {uReqType : ℕ} {d : Bytes} {item : DNSQueryResultItem}

theorem useV4_iff : useV4 z uReqType = true ↔ Judges4 z uReqType := by
  simp [useV4, isSVCB, Judges4]

theorem useV6_iff : useV6 z uReqType = true ↔ Judges6 z uReqType := by
  simp [useV6, isSVCB, Judges6]

theorem length_judged : (judged z uReqType (Reply.ofDatagram d)).length = (judgedAddrs z uReqType d).card := by
  unfold judged judgedAddrs
  simp only [useV4_iff, useV6_iff]
  split_ifs <;> simp [Reply.ofDatagram]

/-- Looking addresses up and counting is counting those that are let through. -/
theorem count_lookup {α : Type} (l : List α) (f : α → Option Bool) (g : α → Addr)
    (h : ∀ a, f a = some true ↔ LetThrough z (g a)) :
    (l.map fun a => (f a).getD false).count true =
      (((l.map g : List Addr) : Multiset Addr).filter (LetThrough z)).card := by
  induction l with
  | nil => rfl
  | cons a l ih =>
    rw [List.map_cons, List.map_cons, ← Multiset.cons_coe, List.count_cons]
    by_cases ha : LetThrough z (g a)
    · rw [Multiset.filter_cons_of_pos _ ha, Multiset.card_cons, ih, (h a).mpr ha]
      rfl
    · rw [Multiset.filter_cons_of_neg _ ha, ih]
      have hf : (f a).getD false ≠ true := by
        rcases hfa : f a with _ | b
        · simp
        · intro hb
          exact ha ((h a).mp (by rw [hfa]; exact congrArg some hb))
      simp [hf]

theorem count_judged :
    (judged z uReqType (Reply.ofDatagram d)).count true = (matching z uReqType d).card := by
  unfold judged matching judgedAddrs
  rw [List.count_append, Multiset.filter_add, Multiset.card_add]
  have h4 := count_lookup (parseResponseA d).2.2.luIPs z.checkIsMatch Sum.inl fun a => Iff.rfl
  have h6 := count_lookup (parseResponseA d).2.2.luIP6s z.checkIsMatch6 Sum.inr fun a => Iff.rfl
  simp only [useV4_iff, useV6_iff]
  congr 1
  · split_ifs
    · exact h4
    · rfl
  · split_ifs
    · exact h6
    · rfl

theorem verdict_eq (h : ByAddresses z uReqType d) (item : DNSQueryResultItem) :
    verdict z uReqType d item = judgeAddresses z uReqType (Reply.ofDatagram d) := by
  have hlen : ¬ d.length = 0 := fun h0 => by
    have hacc := h.accepted
    rw [List.length_eq_zero_iff.mp h0] at hacc
    exact absurd hacc (by decide +kernel)
  have hok : (Reply.ofDatagram d).bIsParseOK = true := h.accepted
  have hq : isIPBearingType (Reply.ofDatagram d).uQType = true := h.question
  have hd : ¬ (Reply.ofDatagram d).sDNSData.length = 0 := hlen
  unfold verdict judge
  simp only [if_neg hd, h.takesPart, h.request, hok, hq, Bool.true_eq_false, if_false]

/-- **The verdict**: without judged addresses, unless it is a distrusted `NXDOMAIN`, the zone matches; and
else if more than a third of them is let through. -/
theorem verdict_iff (h : ByAddresses z uReqType d) (item : DNSQueryResultItem) :
    (verdict z uReqType d item = .match ↔
      (judgedAddrs z uReqType d = 0 ∧
        ¬ (z.bIsDenyNXDomain = true ∧ getRCode (parseResponseA d).2.1.uFlag = rcodeNXDomain)) ∨
      (judgedAddrs z uReqType d).card < 3 * (matching z uReqType d).card) ∧
    (verdict z uReqType d item = .match ∨ verdict z uReqType d item = .notMatch) := by
  rw [verdict_eq h]
  constructor
  · rw [judgeAddresses_eq_match, length_judged, count_judged, ← List.length_eq_zero_iff, length_judged,
      Multiset.card_eq_zero]
    rfl
  · unfold judgeAddresses
    dsimp only
    split_ifs <;> simp

theorem verdict_congr {d' : Bytes} (h : ByAddresses z uReqType d) (h' : ByAddresses z uReqType d')
    (hj : judgedAddrs z uReqType d' = judgedAddrs z uReqType d)
    (hf : (parseResponseA d').2.1.uFlag = (parseResponseA d).2.1.uFlag) (item : DNSQueryResultItem) :
    verdict z uReqType d' item = verdict z uReqType d item := by
  obtain ⟨hiff, hor⟩ := verdict_iff h item
  obtain ⟨hiff', hor'⟩ := verdict_iff h' item
  have hm : matching z uReqType d' = matching z uReqType d := by rw [matching, hj, matching]
  rw [hj, hf, hm, ← hiff] at hiff'
  rcases hor with hv | hv
  · rw [hv, hiff'.mpr hv]
  · rcases hor' with hv' | hv'
    · rw [hiff'.mp hv'] at hv
      cases hv
    · rw [hv, hv']

theorem verdict_better {d' : Bytes} {a a' : Addr} (h : ByAddresses z uReqType d)
    (h' : ByAddresses z uReqType d') (ha : a ∈ judgedAddrs z uReqType d) (hno : ¬ LetThrough z a)
    (hyes : LetThrough z a')
    (hj : judgedAddrs z uReqType d' = a' ::ₘ (judgedAddrs z uReqType d).erase a)
    (item : DNSQueryResultItem) (hv : verdict z uReqType d item = .match) :
    verdict z uReqType d' item = .match := by
  have hne : judgedAddrs z uReqType d ≠ 0 := fun h0 => Multiset.notMem_zero a (h0 ▸ ha)
  have hcard := Multiset.card_erase_add_one ha
  have hmatch : (matching z uReqType d').card = (matching z uReqType d).card + 1 := by
    have herase : ((judgedAddrs z uReqType d).erase a).filter (LetThrough z) = matching z uReqType d := by
      conv_rhs => rw [matching, ← Multiset.cons_erase ha, Multiset.filter_cons_of_neg _ hno]
    rw [matching, hj, Multiset.filter_cons_of_pos _ hyes, Multiset.card_cons, herase]
  have hmany := ((verdict_iff h item).1.mp hv).resolve_left fun h0 => hne h0.1
  refine (verdict_iff h' item).1.mpr (Or.inr ?_)
  rw [hj, Multiset.card_cons, hmatch]
  omega

/-- Records in another order, their names there as a whole. -/
theorem verdict_permuted {front rest : Bytes} {strings strings' : List Bytes}
    (h : ByAddresses z uReqType d) (hw : WholeOwners d) (hd : AnswersAt d front strings rest)
    (hp : strings'.Perm strings) (item : DNSQueryResultItem) :
    verdict z uReqType (front ++ strings'.flatten ++ rest) item = verdict z uReqType d item := by
  obtain ⟨hacc, ho, h4, h6⟩ := permuted_response h.accepted hw hd hp
  refine verdict_congr h ⟨h.request, h.takesPart, hacc, by rw [ho]; exact h.question⟩ ?_ (by rw [ho]) item
  have h4 := Multiset.coe_eq_coe.mpr (h4.map (Sum.inl : UInt32 → Addr))
  have h6 := Multiset.coe_eq_coe.mpr (h6.map (Sum.inr : IPv6Addr → Addr))
  unfold judgedAddrs
  rw [h4, h6]

/-- **The verdict depends on the judged addresses only**: it is the one of `verdict_iff`, a matching
address in place of another keeps a match, and records whose names are there as a whole can stand in any
order. -/
theorem verdict_of_addresses (h : ByAddresses z uReqType d) (item : DNSQueryResultItem) :
    ((verdict z uReqType d item = .match ↔
        (judgedAddrs z uReqType d = 0 ∧
          ¬ (z.bIsDenyNXDomain = true ∧ getRCode (parseResponseA d).2.1.uFlag = rcodeNXDomain)) ∨
        (judgedAddrs z uReqType d).card < 3 * (matching z uReqType d).card) ∧
      (verdict z uReqType d item = .match ∨ verdict z uReqType d item = .notMatch)) ∧
    (∀ d' a a', ByAddresses z uReqType d' → a ∈ judgedAddrs z uReqType d → ¬ LetThrough z a →
      LetThrough z a' → judgedAddrs z uReqType d' = a' ::ₘ (judgedAddrs z uReqType d).erase a →
      verdict z uReqType d item = .match → verdict z uReqType d' item = .match) ∧
    (WholeOwners d → ∀ front strings rest, AnswersAt d front strings rest →
      ∀ strings' : List Bytes, strings'.Perm strings →
        verdict z uReqType (front ++ strings'.flatten ++ rest) item = verdict z uReqType d item) :=
  ⟨verdict_iff h item, fun _ _ _ h' ha hno hyes hj => verdict_better h h' ha hno hyes hj item,
    fun hw _ _ _ hd _ hp => verdict_permuted h hw hd hp item⟩

/-! ### A label that takes up the next record -/

/-- A header that counts one question and two answers, and a question for HTTPS. -/
def frontHTTPS : Bytes :=
  be16 7 ++ be16 0x8180 ++ be16 1 ++ be16 2 ++ be16 0 ++ be16 0 ++ [1, 0x61, 0] ++ be16 typeHTTPS ++ be16 1

/-- An alias with 50 bytes of data. -/
def longAlias : Bytes :=
  [0xC0, 12] ++ be16 typeCNAME ++ be16 1 ++ be32 60 ++ be16 50 ++ List.replicate 50 0

/-- An alias without data, its name a length byte of 63 and a zero byte. -/
def cutAlias : Bytes := [63, 0] ++ be16 typeCNAME ++ be16 1 ++ be32 60 ++ be16 0

theorem byAddresses_frontHTTPS :
    ByAddresses {} typeHTTPS (frontHTTPS ++ [longAlias, cutAlias].flatten ++ []) :=
  ⟨by decide, by decide, by decide +kernel, by decide +kernel⟩

theorem answersAt_frontHTTPS :
    AnswersAt (frontHTTPS ++ [longAlias, cutAlias].flatten ++ []) frontHTTPS [longAlias, cutAlias] [] := by
  refine ⟨rfl, ?_⟩
  have hread : ((parseRequestAAndAnswers
      (assign (frontHTTPS ++ [longAlias, cutAlias].flatten ++ [])) {}).1.map fun b =>
        (b.szOffset, recordStrings 2 b)) = some (frontHTTPS.length, some [longAlias, cutAlias]) := by
    decide +kernel
  have hn : (parseRequestAAndAnswers
      (assign (frontHTTPS ++ [longAlias, cutAlias].flatten ++ [])) {}).2.uAnswers = 2 := by
    decide +kernel
  rcases hp : parseRequestAAndAnswers
    (assign (frontHTTPS ++ [longAlias, cutAlias].flatten ++ [])) {} with ⟨_ | b, o⟩
  · rw [hp] at hread
    cases hread
  · rw [hp] at hread hn
    obtain ⟨hoff, hs⟩ := Prod.mk.inj (Option.some.inj hread)
    exact ⟨b, o, rfl, hoff.symm, by rw [show o.uAnswers = 2 from hn]; exact hs⟩

/-- The record at the end is accepted; before the other it takes it up, and the reply is not accepted. -/
theorem cut_label_moved : ¬ ∀ (z : ZoneInfo) (uReqType : ℕ) (d : Bytes) (item : DNSQueryResultItem),
    ByAddresses z uReqType d → ∀ front strings rest, AnswersAt d front strings rest →
      ∀ strings' : List Bytes, strings'.Perm strings →
        verdict z uReqType (front ++ strings'.flatten ++ rest) item = verdict z uReqType d item := by
  intro h
  have hsame := h {} typeHTTPS _ {} byAddresses_frontHTTPS _ _ _ answersAt_frontHTTPS
    [cutAlias, longAlias] (List.Perm.swap _ _ _)
  exact absurd hsame (by decide +kernel)

/-! ### Replies about a third -/

/-- A zone with a list of each family, `10.0.0.0/8` and `2001:101::/32`. -/
def listZone : ZoneInfo where
  bHasV4 := true
  bHasV6 := true
  siIPInfos := [{ nFamily := 4, siIPItems := [⟨0x0A000000, 0xFF000000⟩] },
    { nFamily := 6, siIPItems6 := [⟨IPv6Addr.ofBytes [32, 1, 1, 1], 32⟩] }]

/-- One matching address of three is not enough, two are, in any order, and the third may match too. -/
theorem verdict_of_addresses_third :
    verdict listZone typeHTTPS (hintsReply 0x09090909 0x08080808).encode {} = .notMatch ∧
    verdict listZone typeHTTPS (hintsReply 0x0A000001 0x08080808).encode {} = .match ∧
    verdict listZone typeHTTPS (hintsReply 0x0A000001 0x0A000002).encode {} = .match ∧
    verdict listZone typeHTTPS ((hintsReply 0 0).header ++ (hintsReply 0 0).question ++
      ((hintsReply 0x0A000001 0x08080808).answers.map Record.encode).reverse.flatten ++ []) {} = .match := by
  have hthird : ByAddresses listZone typeHTTPS (hintsReply 0x09090909 0x08080808).encode :=
    ⟨by decide, by decide, by decide +kernel, by decide +kernel⟩
  have htwo : ByAddresses listZone typeHTTPS (hintsReply 0x0A000001 0x08080808).encode :=
    ⟨by decide, by decide, by decide +kernel, by decide +kernel⟩
  have hall : ByAddresses listZone typeHTTPS (hintsReply 0x0A000001 0x0A000002).encode :=
    ⟨by decide, by decide, by decide +kernel, by decide +kernel⟩
  obtain ⟨hw, hanswers⟩ := answers_encode (hintsReply 0x0A000001 0x08080808) (by decide)
  obtain ⟨⟨hiff, hor⟩, -, -⟩ := verdict_of_addresses hthird {}
  obtain ⟨⟨hiff₂, -⟩, hbetter, hperm⟩ := verdict_of_addresses htwo {}
  have hmatch := hiff₂.mpr (Or.inr (by decide +kernel))
  refine ⟨hor.resolve_left fun hm => ?_, hmatch, ?_, ?_⟩
  · rcases hiff.mp hm with ⟨h0, -⟩ | hmore
    · exact absurd h0 (by decide +kernel)
    · exact absurd hmore (by decide +kernel)
  · exact hbetter _ (.inl 0x08080808) (.inl 0x0A000002) hall (by decide +kernel) (by decide +kernel)
      (by decide +kernel) (by decide +kernel) hmatch
  · exact (hperm hw _ _ _ hanswers _ (List.reverse_perm _)).trans hmatch

end DnsMultiZone.Work.Verdict
