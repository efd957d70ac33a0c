import DnsMultiZone.Work.Steps

/-! # The cursor of a pending query

The scan of `DNSQueryResult` starts at the cursor of the query. That decides like a scan over all zones
as long as every zone before the cursor is in state `error` or `notMatch` (`CursorOk`). A reply of a zone
before the cursor rewrites that zone's state, and breaks this exactly when it matches (`LateMatch`): a
duplicate of an earlier reply that carries other addresses, or the reply of a zone given up before.

* `cursor_irrelevant_iff`: in a run without late matches, the next reply is decided as by a scan over all
  zones exactly when it is not a late match itself.
* `late_match_ignored`: a late match that is passed over. -/

namespace DnsMultiZone.Work.Cursor

open DnsMultiZone.Lib.BigEndian DnsMultiZone.Lib.Runs
open DnsMultiZone.Config.Address DnsMultiZone.Config.ConfigType
open DnsMultiZone.Work.Connect DnsMultiZone.Work.Query DnsMultiZone.Work.Scan DnsMultiZone.Work.Steps

variable {zones : Zones} {w w₀ : DNSQureyWork} {wi : DNSQureyWorkItem}

/-- The zones before the cursor are settled, and it does not pass the last zone. -/
structure CursorOk (wi : DNSQureyWorkItem) : Prop where
  le : wi.nMaxDoneIndex ≤ wi.vsDNSQueryResultItems.length
  passed : PassedFrom wi.vsDNSQueryResultItems 0 wi.nMaxDoneIndex

/-- **A late match**: a reply that matches, of a zone the cursor of its query has passed. -/
def LateMatch (zones : Zones) (w : DNSQureyWork) : Event → Prop
  | .read i d => d ≠ [] ∧ ∃ wi, pending w (replyID d) = some wi ∧ i < wi.nMaxDoneIndex ∧
      ReplyMatches (zoneAt zones i) wi.uQType (Reply.ofDatagram d)
  | _ => False

/-- Steps that are no late match. -/
def NoLateMatch (zones : Zones) (w : DNSQureyWork) (e : Event) : Prop := ¬ LateMatch zones w e

instance (zones : Zones) (w : DNSQureyWork) : ∀ e : Event, Decidable (NoLateMatch zones w e)
  | .read i d => inferInstanceAs (Decidable (¬ (d ≠ [] ∧ ∃ wi ∈ pending w (replyID d),
      i < wi.nMaxDoneIndex ∧ ReplyMatches (zoneAt zones i) wi.uQType (Reply.ofDatagram d))))
  | .recv _ _ _ _ | .disconnect _ | .write _ _ => isTrue fun h => h

theorem length_itemsAfter (zones : Zones) (wi : DNSQureyWorkItem) (i : ℕ) (d : Bytes) :
    (itemsAfter zones wi i d).length = wi.vsDNSQueryResultItems.length := by
  simp [itemsAfter, replied]

/-- A reply that is no late match leaves the zones before the cursor settled. -/
theorem CursorOk.passed_itemsAfter {i : ℕ} {d : Bytes} (h : CursorOk wi)
    (hl : i < wi.nMaxDoneIndex → ¬ ReplyMatches (zoneAt zones i) wi.uQType (Reply.ofDatagram d)) :
    PassedFrom (itemsAfter zones wi i d) 0 wi.nMaxDoneIndex := by
  intro k hk hkc
  by_cases hik : i = k
  · subst hik
    refine ⟨fun hw => (wait_of_stateAt_itemsAfter hw).1 rfl, fun hm => hl hkc ?_⟩
    exact (stateAt_itemsAfter_match (lt_of_lt_of_le hkc h.le)).mp hm
  · have hp := h.passed k hk hkc
    unfold Passed at hp ⊢
    rwa [stateAt_itemsAfter_ne zones wi d hik]

/-- The cursor a waiting scan leaves. -/
theorem CursorOk.read {i : ℕ} {d : Bytes} (h : CursorOk wi) (hs : (scanAfter zones wi i d).1 = .waiting)
    (hl : i < wi.nMaxDoneIndex → ¬ ReplyMatches (zoneAt zones i) wi.uQType (Reply.ofDatagram d)) :
    CursorOk { wi with
      vsDNSQueryResultItems := itemsAfter zones wi i d
      nMaxDoneIndex := (scanAfter zones wi i d).2 } := by
  have hpass := h.passed_itemsAfter hl
  rcases scan_cases (itemsAfter zones wi i d) wi.nMaxDoneIndex with
    ⟨j, hcj, hw, hpj, he⟩ | ⟨j, -, -, -, he⟩ | ⟨-, -, he⟩ | ⟨-, -, he⟩
  · have hj : (scanAfter zones wi i d).2 = j := congrArg Prod.snd he
    refine ⟨?_, fun k hk hkj => ?_⟩
    · dsimp only
      rw [hj]
      exact (lt_length_of_stateAt hw).le
    · dsimp only at hkj ⊢
      rw [hj] at hkj
      rcases Nat.lt_or_ge k wi.nMaxDoneIndex with hkc | hkc
      · exact hpass k hk hkc
      · exact hpj k hkc hkj
  all_goals
    unfold scanAfter at hs
    rw [he] at hs
    cases hs

theorem CursorOk.resent (h : CursorOk wi) (asked : List Asked)
    (ha : ∀ i s, stateAt wi.vsDNSQueryResultItems i = some s → s ≠ .wait →
      ∀ a ∈ asked[i]?, a.eState = s) : CursorOk (wi.resent asked) := by
  refine ⟨?_, fun k hk hkc => ?_⟩
  · have : (wi.resent asked).vsDNSQueryResultItems.length = wi.vsDNSQueryResultItems.length := by
      simp [DNSQureyWorkItem.resent]
    rw [this]
    exact h.le
  · have hp := h.passed k hk hkc
    unfold Passed at hp ⊢
    rw [stateAt_resent]
    rcases hs : stateAt wi.vsDNSQueryResultItems k with _ | s
    · simp
    · have hw : s ≠ .wait := fun hw => hp.1 (by rw [hs, hw])
      rcases haa : asked[k]? with _ | a
      · rw [hs] at hp
        simpa using hp
      · rw [hs] at hp
        simpa [ha k s hs hw a haa] using hp

theorem CursorOk.disconnect (h : CursorOk wi) (i : ℕ) : CursorOk (wi.disconnect i) := by
  refine ⟨?_, fun k hk hkc => ?_⟩
  · simpa [DNSQureyWorkItem.disconnect] using h.le
  · have hp := h.passed k hk hkc
    unfold Passed at hp ⊢
    rw [stateAt_disconnect, if_neg fun hn => hp.1 hn.2]
    exact hp

theorem askedAgain_settled {d : Bytes} {outs : ℕ → SendOutcome} {i : ℕ} {s : EnumState} {a : Asked}
    (hs : stateAt wi.vsDNSQueryResultItems i = some s) (hw : s ≠ .wait)
    (ha : a ∈ (askedAgain w wi d outs)[i]?) : a.eState = s := by
  rw [getElem?_askedAgain] at ha
  obtain ⟨c, -, rfl⟩ := Option.map_eq_some_iff.mp ha
  obtain ⟨item, hi, rfl⟩ := Option.map_eq_some_iff.mp hs
  simp only [hi]
  rw [askAgain_state, if_neg hw]

/-- **Steps keep the cursor right** if they are no late match. -/
theorem cursorOk_step {e : Event} (h : ∀ n wi, pending w n = some wi → CursorOk wi)
    (hok : NoLateMatch zones w e) :
    ∀ n wi, pending (step zones e w).1 n = some wi → CursorOk wi := by
  intro n wi' hp
  cases stepped hp with
  | kept hk => exact h n _ hk
  | resent l d now outs wi hk _ _ =>
    exact (h n wi hk).resent _ fun i s hs hw a ha => askedAgain_settled hs hw ha
  | created l d now outs _ _ _ => exact ⟨Nat.zero_le _, fun k hk hkc => absurd hkc (Nat.not_lt_zero k)⟩
  | replied i d wi hk hd hn hs =>
    subst hn
    exact (h _ wi hk).read hs fun hlt hm => hok ⟨hd, wi, hk, hlt, hm⟩
  | disconnected i wi hk => exact (h n wi hk).disconnect i

theorem cursorOk_run {tr : List (Entry DNSQureyWork Event (List Call))}
    (h0 : ∀ n, pending w₀ n = none) (h : Run (step zones) (NoLateMatch zones) w₀ tr w) :
    ∀ n wi, pending w n = some wi → CursorOk wi := by
  refine Run.inv (P := fun _ w => ∀ n wi, pending w n = some wi → CursorOk wi) ?_ ?_ h
  · intro n wi hp
    rw [h0 n] at hp
    cases hp
  · intro tr s e hs hok
    exact cursorOk_step hs hok

/-- A late match is the answer of a scan over all zones, but not of the scan from the cursor. -/
theorem CursorOk.late {i : ℕ} {d : Bytes} (h : CursorOk wi) (hlt : i < wi.nMaxDoneIndex)
    (hm : ReplyMatches (zoneAt zones i) wi.uQType (Reply.ofDatagram d)) :
    (scan (itemsAfter zones wi i d) 0).1 = .answer i ∧ (scanAfter zones wi i d).1 ≠ .answer i := by
  have hmi := (stateAt_itemsAfter_match (lt_of_lt_of_le hlt h.le)).mpr hm
  have hpass : PassedFrom (itemsAfter zones wi i d) 0 i := by
    intro k hk hki
    have hp := h.passed k hk (hki.trans hlt)
    unfold Passed at hp ⊢
    rwa [stateAt_itemsAfter_ne zones wi d (by omega)]
  constructor
  · have hl : scanLoop ((itemsAfter zones wi i d).drop 0) 0 = some (i, true) :=
      scanLoop_drop_eq_some.mpr ⟨Nat.zero_le i, hmi, hpass⟩
    unfold scan
    rw [hl]
  · intro ha
    rcases scan_cases (itemsAfter zones wi i d) wi.nMaxDoneIndex with
      ⟨j, -, -, -, he⟩ | ⟨j, hcj, -, -, he⟩ | ⟨-, -, he⟩ | ⟨-, -, he⟩
    all_goals
      unfold scanAfter at ha
      rw [he] at ha
      cases ha
    omega

/-- No zone before the answer matches, and none at all if there is no answer. -/
def HighestPriority (items : List DNSQueryResultItem) (o : Outcome) : Prop :=
  match o with
  | .waiting => True
  | .answer i => ∀ j < i, stateAt items j ≠ some .match
  | .fallback | .nothing => ∀ j, stateAt items j ≠ some .match

theorem highestPriority_scan (items : List DNSQueryResultItem) :
    HighestPriority items (scan items 0).1 := by
  rcases scan_cases items 0 with ⟨j, -, -, -, he⟩ | ⟨j, -, -, hp, he⟩ | ⟨hp, -, he⟩ | ⟨hp, -, he⟩
  all_goals rw [he]
  · exact trivial
  · exact fun k hk => (hp k (Nat.zero_le k) hk).2
  all_goals exact fun k => (hp k (Nat.zero_le k)).2

/-- **When the cursor does not change the decision.** After a run without late matches, a reply is
decided like by a scan over all zones exactly when it is no late match; and then no zone of higher
priority than the answer matches. -/
theorem cursor_irrelevant_iff {tr : List (Entry DNSQureyWork Event (List Call))}
    (h0 : ∀ n, pending w₀ n = none) (h : Run (step zones) (NoLateMatch zones) w₀ tr w)
    (i : ℕ) (d : Bytes) (hd : d ≠ []) (hp : pending w (replyID d) = some wi) :
    ((scanAfter zones wi i d).1 = (scan (itemsAfter zones wi i d) 0).1 ↔
      NoLateMatch zones w (.read i d)) ∧
    (NoLateMatch zones w (.read i d) →
      HighestPriority (itemsAfter zones wi i d) (scanAfter zones wi i d).1) := by
  have hc := cursorOk_run h0 h _ wi hp
  have hmp : NoLateMatch zones w (.read i d) →
      (scanAfter zones wi i d).1 = (scan (itemsAfter zones wi i d) 0).1 := fun hno =>
    scan_eq_scan_zero (hc.passed_itemsAfter fun hlt hm => hno ⟨hd, wi, hp, hlt, hm⟩)
  refine ⟨⟨fun heq hlate => ?_, hmp⟩, fun hno => ?_⟩
  · obtain ⟨-, wi', hp', hlt, hm⟩ := hlate
    rw [hp] at hp'
    cases hp'
    obtain ⟨h1, h2⟩ := hc.late hlt hm
    exact h2 (heq.trans h1)
  · rw [hmp hno]
    exact highestPriority_scan _

/-- A zone whose only list is an empty IPv4 list. -/
def emptyList4 : ZoneInfo := { bHasV4 := true, siIPInfos := [{ nFamily := 4 }] }

/-- Two zones are asked. The first replies twice, each time with an address its list does not let
through: the cursor stands at the second zone. -/
def repliedTwice : List Event :=
  [.recv none (query 5 [97] 1) 0 fun _ => .sent, .read 0 (addressReply 5 [97] 1 [1, 2, 3, 4]),
    .read 0 (addressReply 5 [97] 1 [5, 6, 7, 8])]

/-- The second zone's reply is decided behind the moved cursor like from the first zone on. -/
theorem cursor_irrelevant_moved : ∃ wi,
    pending (exec (step [emptyList4, emptyList4]) repliedTwice [] (freshWork 2)).2 5 = some wi ∧
    wi.nMaxDoneIndex = 1 ∧
    (scanAfter [emptyList4, emptyList4] wi 1 (emptyReply 5 [97] 1)).1 =
      (scan (itemsAfter [emptyList4, emptyList4] wi 1 (emptyReply 5 [97] 1)) 0).1 ∧
    HighestPriority (itemsAfter [emptyList4, emptyList4] wi 1 (emptyReply 5 [97] 1)) (.answer 1) := by
  have hc : (pending (exec (step [emptyList4, emptyList4]) repliedTwice [] (freshWork 2)).2 5).map
      (fun wi => (wi.nMaxDoneIndex, (scanAfter [emptyList4, emptyList4] wi 1 (emptyReply 5 [97] 1)).1)) =
      some (1, .answer 1) := by
    decide +kernel
  obtain ⟨wi, hp, h1⟩ := Option.map_eq_some_iff.mp hc
  obtain ⟨hcur, hans⟩ := Prod.mk.inj h1
  have hrun : Run (step [emptyList4, emptyList4]) (NoLateMatch [emptyList4, emptyList4]) (freshWork 2)
      _ _ := Run.start.exec (show Allowed _ _ repliedTwice _ by decide +kernel)
  have hno : NoLateMatch [emptyList4, emptyList4]
      (exec (step [emptyList4, emptyList4]) repliedTwice [] (freshWork 2)).2
      (.read 1 (emptyReply 5 [97] 1)) := by decide +kernel
  have hID : replyID (emptyReply 5 [97] 1) = 5 := by decide +kernel
  have h := cursor_irrelevant_iff (pending_freshWork 2) hrun 1 (emptyReply 5 [97] 1) (by decide)
    (hID.symm ▸ hp)
  refine ⟨wi, hp, hcur, h.1.mpr hno, ?_⟩
  rw [← hans]
  exact h.2 hno

/-- The first zone's first reply has an address its list does not let through. Its second reply, to
the same query, has none and matches, but the cursor has passed the zone: the query goes on waiting. -/
theorem late_match_ignored : ¬ ∀ (zones : Zones) (w₀ w : DNSQureyWork) (tr : List _) (i : ℕ) (d : Bytes)
    (wi : DNSQureyWorkItem), (∀ n, pending w₀ n = none) → Run (step zones) anyStep w₀ tr w → d ≠ [] →
    pending w (replyID d) = some wi →
    (scanAfter zones wi i d).1 = (scan (itemsAfter zones wi i d) 0).1 := by
  intro h
  have hrun := run_exec (step [emptyList4, emptyList4]) (freshWork 2)
    [.recv none (query 5 [97] 1) 0 fun _ => .sent, .read 0 (addressReply 5 [97] 1 [1, 2, 3, 4])]
  have hno : (pending (exec (step [emptyList4, emptyList4])
      [.recv none (query 5 [97] 1) 0 fun _ => .sent, .read 0 (addressReply 5 [97] 1 [1, 2, 3, 4])]
      [] (freshWork 2)).2 (replyID (emptyReply 5 [97] 1))).map (fun wi =>
        ((scanAfter [emptyList4, emptyList4] wi 0 (emptyReply 5 [97] 1)).1,
          (scan (itemsAfter [emptyList4, emptyList4] wi 0 (emptyReply 5 [97] 1)) 0).1)) =
      some (.waiting, .answer 0) := by
    decide +kernel
  obtain ⟨wi, hp, hne⟩ := Option.map_eq_some_iff.mp hno
  have := h _ _ _ _ 0 (emptyReply 5 [97] 1) wi (pending_freshWork 2) hrun (by decide) hp
  rw [Prod.mk.injEq] at hne
  rw [hne.1, hne.2] at this
  cases this

end DnsMultiZone.Work.Cursor
